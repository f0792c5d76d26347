/-
Ids lose nothing of what is packed into them. Whatever calls are made on an interner, the slot that goes
into an id is at most the largest one, be it a slot that was found or the next one of its shard. Owner,
shard and slot are then read back as they were packed, and ids are equal only if all three are.
-/
import Phrasebook.Proofs.Interner.Overflow

namespace Phrasebook.Interner

variable {α β : Type} [DecidableEq α] [Fingerprint α]

/-! ## One call -/

/-- The slot that goes into the id of a pattern: the one that it has, or else the next one of its shard. -/
def slotFor (t : Interner α) (p : α) : Nat :=
  ((t.homeShard p).find? (fingerprint p) p).getD (t.homeShard p).patterns.size

theorem lookup?_eq_map_find? (t : Interner α) (p : α) :
    t.lookup? p = ((t.homeShard p).find? (fingerprint p) p).map
      (.pack t.owner (shardOf (fingerprint p))) := rfl

/-- What is packed into an id: the interner, the shard of the fingerprint and the slot of the pattern. The
slot is never beyond the largest one. -/
theorem WF.pack_of_gives {t : Interner α} (hw : t.WF) {c : Call α β} {p : α} {id : PatternId α}
    (h : c.Gives (t.call c).answer p id) :
    id = .pack t.owner (shardOf (fingerprint p)) (t.slotFor p) ∧ t.slotFor p ≤ maxSlot := by
  unfold slotFor
  rcases hf : (t.homeShard p).find? (fingerprint p) p with _ | slot
  · have hnone : t.lookup? p = none := by rw [lookup?_eq_map_find?, hf]; rfl
    rcases lookup?_or_add_of_gives h with hl | ⟨-, hroom, rfl, -⟩
    · rw [hnone] at hl
      cases hl
    · exact ⟨rfl, hroom⟩
  · have hsome : t.lookup? p = some (.pack t.owner (shardOf (fingerprint p)) slot) := by
      rw [lookup?_eq_map_find?, hf]; rfl
    have hslot : (t.homeShard p).patterns[slot]? = some p :=
      (hw.shards (shardOf (fingerprint p))).find?_eq_some_iff.1 hf
    rcases lookup?_or_add_of_gives h with hl | ⟨hl, -⟩
    · rw [hsome] at hl
      cases hl
      exact ⟨rfl, hw.slot_le hslot⟩
    · rw [hsome] at hl
      cases hl

/-! ## Runs -/

namespace Run

theorem owner_table (r : Run α β) (n : Nat) : (r.table n).owner = r.owner :=
  (r.table_extends (Nat.zero_le n)).owner

/-- Nothing is lost in an id. Whenever a call of a run gives an id, what is packed into it are the interner,
a shard below 16 and a slot of at most 2^28 - 1, and under this slot the pattern stands in this shard. What
is packed within these limits is read back as it was, from a word that is the shard times 2^28 plus the slot;
a slot beyond the limit is not. Two ids packed within the limits are equal exactly if all three parts are, and
any two ids are equal exactly if the same parts are read from both. -/
theorem packing_lossless (r : Run α β) :
    (∀ i p id, r.Gives i p id →
      let shard := shardOf (fingerprint p)
      let slot := (r.table i).slotFor p
      id = .pack r.owner shard slot ∧
      shard.val = (fingerprint p).toNat % 16 ∧ shard.val < 16 ∧ slot ≤ 2 ^ 28 - 1 ∧
      ((r.table (i + 1)).shards.get shard).patterns[slot]? = some p) ∧
    (∀ (owner : Owner) (shard : ShardIndex) (slot : Nat),
      let id : PatternId α := .pack owner shard slot
      (id.owner = owner ∧ id.shard = shard ∧ id.slot = slot ↔ slot ≤ 2 ^ 28 - 1) ∧
      (slot ≤ 2 ^ 28 - 1 → id.place.toNat = shard * 2 ^ 28 + slot)) ∧
    (∀ (owner owner' : Owner) (shard shard' : ShardIndex) (slot slot' : Nat),
      slot ≤ 2 ^ 28 - 1 → slot' ≤ 2 ^ 28 - 1 →
      ((.pack owner shard slot : PatternId α) = .pack owner' shard' slot' ↔
        owner = owner' ∧ shard = shard' ∧ slot = slot')) ∧
    (∀ a b : PatternId α, a = b ↔ a.owner = b.owner ∧ a.shard = b.shard ∧ a.slot = b.slot) := by
  simp only [← PatternId.maxSlot_eq]
  refine ⟨fun i p id h => ?_, fun owner shard slot => ?_, fun _ _ _ _ _ _ => PatternId.pack_inj,
    fun _ _ => PatternId.eq_iff_parts⟩
  · have hget : (r.table (i + 1)).get? id = some p := get?_of_gives h (Nat.lt_succ_self i)
    obtain ⟨c, -, hc⟩ := h
    obtain ⟨hid, hle⟩ := (r.table_wf i).pack_of_gives hc
    rw [owner_table] at hid
    refine ⟨hid, rfl, (shardOf (fingerprint p)).isLt, hle, ?_⟩
    have hslot := (get?_eq_some_iff.1 hget).2
    rwa [hid, PatternId.shard_pack _ _ hle, PatternId.slot_pack _ _ hle] at hslot
  · exact ⟨PatternId.parts_pack_iff, PatternId.pack_place owner shard⟩

/-- The limits are reached: after 2^28 patterns of the last shard its last slot is taken, and in the word of
its id all bits are set. -/
theorem packing_lossless_last_slot :
    letI : Fingerprint Nat := ⟨fun _ => 15⟩
    let r : Run Nat Unit := internAll 7 (List.range (2 ^ 28))
    let shard := shardOf 15
    ∃ i p, r.Gives i p ⟨7, 0xFFFFFFFF⟩ ∧
      (⟨7, 0xFFFFFFFF⟩ : PatternId Nat) = .pack 7 shard (2 ^ 28 - 1) ∧
      (r.table i).slotFor p = 2 ^ 28 - 1 ∧
      ((r.table (i + 1)).shards.get shard).patterns[2 ^ 28 - 1]? = some p := by
  let _ : Fingerprint Nat := ⟨fun _ => 15⟩
  intro r shard
  have hlen : (List.range (2 ^ 28)).length ≤ maxSlot + 1 := by
    rw [List.length_range, PatternId.maxSlot_eq]
    omega
  have hsize : (r.final.shards.get shard).patterns.size = 2 ^ 28 := by
    have hall : ∀ p ∈ List.range (2 ^ 28), decide (shardOf (fingerprint p) = shard) = true :=
      fun _ _ => decide_eq_true rfl
    have hcount := size_shard_internAll (β := Unit) 7 List.nodup_range hlen shard
    rwa [List.countP_eq_length.2 hall, List.length_range] at hcount
  have hlast : ∃ id, r.Issued id ∧ id.shard = shard ∧ id.slot = 2 ^ 28 - 1 :=
    exists_issued_iff.2 (by rw [hsize]; omega)
  obtain ⟨id, ⟨i, p, hint⟩, hshard, hslot⟩ := hlast
  have hgives := gives_of_interned hint
  obtain ⟨hgiven, hread, -, hequal⟩ := packing_lossless r
  obtain ⟨hpack, -, -, hle, hstands⟩ := hgiven i p id hgives
  -- the slot that was packed is the one that is read from the id
  obtain ⟨howner, -, hpacked⟩ := (hread r.owner shard _).1.2 hle
  have hfor : (r.table i).slotFor p = 2 ^ 28 - 1 := by
    rw [← hslot, hpack]
    exact hpacked.symm
  have hid : id = ⟨7, 0xFFFFFFFF⟩ := (hequal id _).2 ⟨hpack ▸ howner, hshard, hslot⟩
  subst hid
  rw [hfor] at hpack hstands
  exact ⟨i, p, hgives, hpack, hfor, hstands⟩

end Run

end Phrasebook.Interner
