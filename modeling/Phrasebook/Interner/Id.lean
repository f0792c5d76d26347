/-
Pattern ids: small handles to interned patterns. An id names the interner that issued it and the place
of the pattern there. The place is one 32-bit word, the shard in its upper four bits and the slot within
the shard in the other 28.
-/

namespace Phrasebook

/-- The identity of an interner. -/
abbrev Owner := UInt32

/-- The number of shards of an interner. -/
def shardCount : Nat := 16

/-- The largest slot of a shard. -/
def maxSlot : Nat := 0xFFFFFFF

/-- The position of a shard in an interner. -/
abbrev ShardIndex := Fin shardCount

/-- A handle to a pattern of type `α` held by one interner. -/
structure PatternId (α : Type) where
  /-- The interner that issued the id. -/
  owner : Owner
  /-- The shard and the slot in one word. -/
  place : UInt32

namespace PatternId

variable {α : Type}

instance : DecidableEq (PatternId α) := fun a b =>
  decidable_of_iff (a.owner = b.owner ∧ a.place = b.place) (by cases a; cases b; simp)

/-- The id of a slot of a shard. -/
def pack (owner : Owner) (shard : ShardIndex) (slot : Nat) : PatternId α :=
  ⟨owner, (UInt32.ofNat shard <<< 28) ||| UInt32.ofNat slot⟩

/-- The shard of the pattern. -/
def shard (id : PatternId α) : ShardIndex :=
  ⟨(id.place >>> 28).toNat, by
    have h := id.place.toNat_lt
    simp only [UInt32.toNat_shiftRight, UInt32.reduceToNat, Nat.reduceMod, shardCount,
      Nat.shiftRight_eq_div_pow]
    omega⟩

/-- The slot of the pattern within its shard. -/
def slot (id : PatternId α) : Nat :=
  (id.place &&& UInt32.ofNat maxSlot).toNat

/-- The diagnostic text of an id. -/
def inspect (id : PatternId α) : String :=
  "PatternId(#" ++ toString id.owner.toNat ++ " " ++ toString id.shard.val ++ ":" ++
    toString id.slot ++ ")"

end PatternId

end Phrasebook
