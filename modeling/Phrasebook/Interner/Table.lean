/-
The interner: a table that gives equal patterns the same id. Patterns are spread over shards by their
fingerprint. A shard keeps its patterns in the order in which they came, and for every fingerprint the
slots of the patterns that have it; equality decides among those, so a shared fingerprint never merges
two patterns. Equal patterns are one pattern here, and what a table holds or hands out is the pattern itself,
so that copying a pattern always succeeds and gives the same pattern.
-/
import Phrasebook.Fingerprint.Basic
import Phrasebook.Interner.Event
import Phrasebook.Text.Layout
import Std.Data.HashMap

namespace Phrasebook

open Text

/-- Why a pattern cannot be interned. -/
inductive InternError
  /-- Every slot of the shard is taken. -/
  | shardOverflow (shard count : Nat)
  deriving DecidableEq, Repr

namespace InternError

/-- The sentence that reports the error. -/
def message : InternError → String
  | shardOverflow shard count =>
    "interner shard " ++ toString shard ++ " exceeded capacity: " ++ toString count ++
      " patterns, max is " ++ toString maxSlot

/-- The diagnostic text of the error. -/
def inspect : InternError → String
  | shardOverflow shard count =>
    record "ShardOverflow" [("shard", toString shard), ("count", toString count)]

end InternError

/-- One shard of an interner. -/
structure Shard (α : Type) where
  /-- The slots of the patterns with a given fingerprint, oldest first. -/
  buckets : Std.HashMap UInt64 (List Nat)
  /-- The patterns by slot. -/
  patterns : Array α

namespace Shard

variable {α : Type}

/-- The shard without patterns. -/
def empty : Shard α :=
  ⟨∅, #[]⟩

/-- The slots of the patterns with a fingerprint. -/
def slots (s : Shard α) (fp : UInt64) : List Nat :=
  s.buckets.getD fp []

/-- The slot of a pattern with the given fingerprint. -/
def find? [DecidableEq α] (s : Shard α) (fp : UInt64) (p : α) : Option Nat :=
  (s.slots fp).find? fun slot => s.patterns[slot]? = some p

/-- Puts a pattern with the given fingerprint into the next slot. -/
def push (s : Shard α) (fp : UInt64) (p : α) : Shard α :=
  ⟨s.buckets.insert fp (s.slots fp ++ [s.patterns.size]), s.patterns.push p⟩

end Shard

/-- A table of interned patterns. -/
structure Interner (α : Type) where
  /-- The identity that the ids of this interner carry. -/
  owner : Owner
  shards : Vector (Shard α) shardCount
  /-- The number of patterns in all shards. -/
  size : Nat

/-- The result of interning a pattern. -/
structure Interned (α : Type) where
  id : PatternId α
  table : Interner α
  events : List Interner.Event

namespace Interner

variable {α β : Type}

/-- The interner without patterns. -/
def empty (owner : Owner) : Interner α :=
  ⟨owner, Vector.replicate shardCount .empty, 0⟩

/-- Whether no pattern is interned. -/
def isEmpty (t : Interner α) : Bool :=
  t.size == 0

/-- The shard of the patterns with a fingerprint. -/
def shardOf (fp : UInt64) : ShardIndex :=
  ⟨fp.toNat % shardCount, Nat.mod_lt _ (by decide)⟩

/-- Whether an id was issued by this interner. -/
def contains (t : Interner α) (id : PatternId α) : Bool :=
  id.owner == t.owner

/-- The result of a function on the pattern of an id; none for an id of another interner. -/
def read? (t : Interner α) (id : PatternId α) (f : α → β) : Option β :=
  if t.contains id then (t.shards[id.shard].patterns[id.slot]?).map f else none

/-- The pattern of an id; none for an id of another interner. -/
def get? (t : Interner α) (id : PatternId α) : Option α :=
  t.read? id fun p => p

/-- What is reported when a pattern takes the next slot of its shard: first the collision, if other
patterns have its fingerprint. -/
def additionEvents (s : Shard α) (fp : UInt64) : List Event :=
  let shard := shardOf fp
  let existing := (s.slots fp).length
  (if existing = 0 then [] else [.collision fp shard existing]) ++ [.added shard s.patterns.size]

variable [DecidableEq α] [Fingerprint α]

/-- The id of an interned pattern. -/
def lookup? (t : Interner α) (p : α) : Option (PatternId α) :=
  let shard := shardOf (fingerprint p)
  (t.shards[shard].find? (fingerprint p) p).map (PatternId.pack t.owner shard)

/-- Interns a pattern. A pattern that is already there keeps its id and changes nothing; a new one takes
the next slot of its shard, and is refused if none is left. The limit is checked before anything is written,
so a refusal comes without a table: the one before it is still the current one. -/
def tryIntern (t : Interner α) (p : α) : Except InternError (Interned α) :=
  match t.lookup? p with
  | some id => .ok ⟨id, t, []⟩
  | none =>
    let fp := fingerprint p
    let shard := shardOf fp
    let s := t.shards[shard]
    let slot := s.patterns.size
    if slot ≤ maxSlot then
      .ok ⟨PatternId.pack t.owner shard slot,
        { t with shards := t.shards.set shard (s.push fp p), size := t.size + 1 },
        additionEvents s fp⟩
    else
      .error (.shardOverflow shard slot)

end Interner

end Phrasebook
