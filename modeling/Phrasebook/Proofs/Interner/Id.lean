/-
The packed word of an id is the shard times 2^28 plus the slot, so that shard and slot are read back
from every word, and every id is the packing of its own parts.
-/
import Phrasebook.Interner.Id
import Mathlib.Algebra.Group.Nat.Defs

namespace Phrasebook.PatternId

variable {α : Type}

theorem maxSlot_eq : maxSlot = 2 ^ 28 - 1 := rfl

/-! ## Reading a word -/

theorem shard_eq_div (id : PatternId α) : id.shard.val = id.place.toNat / 2 ^ 28 := by
  show (id.place >>> 28).toNat = _
  rw [UInt32.toNat_shiftRight, Nat.shiftRight_eq_div_pow]
  rfl

theorem slot_eq_mod (id : PatternId α) : id.slot = id.place.toNat % 2 ^ 28 := by
  unfold slot
  rw [UInt32.toNat_and, show (UInt32.ofNat maxSlot).toNat = 2 ^ 28 - 1 from rfl,
    Nat.and_two_pow_sub_one_eq_mod]

theorem slot_le_maxSlot (id : PatternId α) : id.slot ≤ maxSlot := by
  rw [slot_eq_mod, maxSlot_eq]
  omega

/-! ## Packing -/

/-- The two parts do not overlap: the word is their weighted sum. -/
theorem pack_place (owner : Owner) (shard : ShardIndex) {slot : Nat} (h : slot ≤ maxSlot) :
    (pack owner shard slot : PatternId α).place.toNat = shard * 2 ^ 28 + slot := by
  have hs : shard.val < 16 := shard.isLt
  have hlt : slot < 2 ^ 28 := by rw [maxSlot_eq] at h; omega
  show ((UInt32.ofNat shard <<< 28) ||| UInt32.ofNat slot).toNat = _
  rw [UInt32.toNat_or, UInt32.toNat_shiftLeft, UInt32.toNat_ofNat', UInt32.toNat_ofNat',
    Nat.mod_eq_of_lt (show shard.val < 2 ^ 32 by omega), Nat.mod_eq_of_lt (show slot < 2 ^ 32 by omega),
    show (28 : UInt32).toNat % 32 = 28 from rfl, Nat.shiftLeft_eq,
    Nat.mod_eq_of_lt (show shard.val * 2 ^ 28 < 2 ^ 32 by omega), ← Nat.shiftLeft_eq,
    ← Nat.shiftLeft_add_eq_or_of_lt hlt, Nat.shiftLeft_eq]

theorem shard_pack (owner : Owner) (shard : ShardIndex) {slot : Nat} (h : slot ≤ maxSlot) :
    (pack owner shard slot : PatternId α).shard = shard := by
  apply Fin.ext
  rw [shard_eq_div, pack_place owner shard h]
  rw [maxSlot_eq] at h
  omega

theorem slot_pack (owner : Owner) (shard : ShardIndex) {slot : Nat} (h : slot ≤ maxSlot) :
    (pack owner shard slot : PatternId α).slot = slot := by
  rw [slot_eq_mod, pack_place owner shard h]
  rw [maxSlot_eq] at h
  omega

/-- Every id is the packing of its own parts. -/
theorem pack_parts (id : PatternId α) : pack id.owner id.shard id.slot = id := by
  have hw : (pack id.owner id.shard id.slot : PatternId α).place = id.place := by
    apply UInt32.toNat.inj
    rw [pack_place _ _ id.slot_le_maxSlot, shard_eq_div, slot_eq_mod]
    omega
  cases id
  exact congrArg (PatternId.mk _) hw

/-- An id is given by its owner, its shard and its slot. -/
theorem eq_pack_iff {id : PatternId α} {owner : Owner} {shard : ShardIndex} {slot : Nat}
    (h : slot ≤ maxSlot) :
    id = pack owner shard slot ↔ id.owner = owner ∧ id.shard = shard ∧ id.slot = slot := by
  constructor
  · rintro rfl
    exact ⟨rfl, shard_pack owner shard h, slot_pack owner shard h⟩
  · rintro ⟨rfl, rfl, rfl⟩
    exact (pack_parts id).symm

/-- Two ids with the same parts are one id. -/
theorem eq_iff_parts {a b : PatternId α} :
    a = b ↔ a.owner = b.owner ∧ a.shard = b.shard ∧ a.slot = b.slot := by
  have h : a = pack b.owner b.shard b.slot ↔ _ := eq_pack_iff b.slot_le_maxSlot
  rwa [pack_parts] at h

theorem pack_inj {owner owner' : Owner} {shard shard' : ShardIndex} {slot slot' : Nat}
    (h : slot ≤ maxSlot) (h' : slot' ≤ maxSlot) :
    (pack owner shard slot : PatternId α) = pack owner' shard' slot' ↔
      owner = owner' ∧ shard = shard' ∧ slot = slot' := by
  rw [eq_pack_iff h', shard_pack owner shard h, slot_pack owner shard h]
  rfl

/-- The limit on slots is what packing needs, no more and no less. -/
theorem parts_pack_iff {owner : Owner} {shard : ShardIndex} {slot : Nat} :
    ((pack owner shard slot : PatternId α).owner = owner ∧
      (pack owner shard slot : PatternId α).shard = shard ∧
      (pack owner shard slot : PatternId α).slot = slot) ↔ slot ≤ maxSlot := by
  constructor
  · rintro ⟨-, -, h⟩
    rw [← h]
    exact slot_le_maxSlot _
  · intro h
    exact ⟨rfl, shard_pack owner shard h, slot_pack owner shard h⟩

end Phrasebook.PatternId
