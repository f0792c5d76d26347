/-
Two runs that intern the same patterns end with the same tables up to the numbering of slots. The order of
the calls and their repetitions decide only which slot of its shard a pattern has; and of the order only
that part counts in which patterns of one shard come first.
-/
import Phrasebook.Proofs.Interner.History

namespace Phrasebook.Interner

variable {α β γ : Type}

/-! ## Ledgers with the same patterns -/

namespace Ledger

variable [DecidableEq α] {l m : Ledger α}

theorem earlier_nodup (h : l.patterns.Nodup) (p : α) : (l.earlier p).Nodup :=
  h.sublist (List.takeWhile_sublist _)

variable [Fingerprint α]

/-- The slot of a pattern depends only on the patterns of its shard that came before it. -/
theorem slot_congr (hl : l.patterns.Nodup) (hm : m.patterns.Nodup) {p : α}
    (h : ∀ q, shardOf (fingerprint q) = shardOf (fingerprint p) → (q ∈ l.earlier p ↔ q ∈ m.earlier p)) :
    l.slot p = m.slot p := by
  unfold slot
  rw [List.countP_eq_length_filter, List.countP_eq_length_filter]
  apply List.Perm.length_eq
  rw [List.perm_ext_iff_of_nodup ((earlier_nodup hl p).filter _) ((earlier_nodup hm p).filter _)]
  intro q
  rw [List.mem_filter, List.mem_filter, decide_eq_true_iff]
  exact and_congr_left (h q)

end Ledger

/-! ## Ends of runs -/

namespace Run

/-- `p` is interned before any call to intern `q`. -/
def Precedes (r : Run α β) (p q : α) : Prop :=
  ∃ i, r.Asks i p ∧ ∀ j ≤ i, ¬ r.Asks j q

/-- Two runs intern the same patterns, each in its own order and any number of times. -/
def SamePatterns (r : Run α β) (s : Run α γ) : Prop :=
  ∀ p, (∃ i, r.Asks i p) ↔ ∃ i, s.Asks i p

theorem SamePatterns.symm {r : Run α β} {s : Run α γ} (h : r.SamePatterns s) : s.SamePatterns r :=
  fun p => (h p).symm

theorem lt_of_asks {r : Run α β} {i : Nat} {p : α} (h : r.Asks i p) : i < r.calls.length := by
  obtain ⟨c, hc, -⟩ := h
  exact (List.getElem?_eq_some_iff.1 hc).1

variable [DecidableEq α]

theorem mem_history_length_iff {r : Run α β} {p : α} :
    p ∈ r.history r.calls.length ↔ ∃ i, r.Asks i p := by
  rw [mem_history_iff]
  constructor
  · rintro ⟨i, -, h⟩
    exact ⟨i, h⟩
  · rintro ⟨i, h⟩
    exact ⟨i, lt_of_asks h, h⟩

theorem mem_earlier_length_iff {r : Run α β} {p q : α} :
    q ∈ (r.ledger r.calls.length).earlier p ↔ r.Precedes q p := by
  rw [mem_earlier_iff]
  constructor
  · rintro ⟨i, -, h⟩
    exact ⟨i, h⟩
  · rintro ⟨i, h⟩
    exact ⟨i, lt_of_asks h.1, h⟩

theorem SamePatterns.history_perm {r : Run α β} {s : Run α γ} (h : r.SamePatterns s) :
    (r.history r.calls.length).Perm (s.history s.calls.length) := by
  rw [List.perm_ext_iff_of_nodup (r.nodup_history _) (s.nodup_history _)]
  intro p
  rw [mem_history_length_iff, mem_history_length_iff]
  exact h p

variable [Fingerprint α]

/-- The table at the end of a run. -/
def final (r : Run α β) : Interner α :=
  r.table r.calls.length

/-- Whether an id was issued in a run. -/
def Issued (r : Run α β) (id : PatternId α) : Prop :=
  ∃ i p, r.Interned i p id

theorem issued_iff {r : Run α β} {id : PatternId α} :
    r.Issued id ↔ ∃ p, r.final.get? id = some p := by
  constructor
  · rintro ⟨i, p, h⟩
    have ⟨c, hc, hint, _⟩ := h
    exact ⟨p, get?_of_gives (gives_of_interned h) (lt_of_asks ⟨c, hc, hint⟩)⟩
  · rintro ⟨p, h⟩
    obtain ⟨i, -, hint⟩ := interned_of_get? h
    exact ⟨i, p, hint⟩

/-- The slots of a shard that ids name are the first ones. -/
theorem exists_issued_iff {r : Run α β} {shard : ShardIndex} {slot : Nat} :
    (∃ id, r.Issued id ∧ id.shard = shard ∧ id.slot = slot) ↔
      slot < (r.final.shards.get shard).patterns.size := by
  constructor
  · rintro ⟨id, hid, rfl, rfl⟩
    obtain ⟨p, hp⟩ := issued_iff.1 hid
    exact (Array.getElem?_eq_some_iff.1 (get?_eq_some_iff.1 hp).2).1
  · intro hlt
    have hslot : slot ≤ maxSlot := by
      have := ((r.table_wf r.calls.length).shards shard).bound
      unfold final at hlt
      omega
    have hshard := PatternId.shard_pack (α := α) r.final.owner shard hslot
    refine ⟨.pack r.final.owner shard slot, issued_iff.2 ⟨(r.final.shards.get shard).patterns[slot], ?_⟩,
      hshard, PatternId.slot_pack _ _ hslot⟩
    rw [get?_eq_some_iff, hshard, PatternId.slot_pack _ _ hslot]
    exact ⟨rfl, Array.getElem?_eq_getElem hlt⟩

theorem final_reflects {r : Run α β} (hno : ∀ i, ¬ r.Overflows i) :
    r.final.Reflects (r.ledger r.calls.length) :=
  table_reflects fun i _ => hno i

theorem isSome_final_lookup?_iff {r : Run α β} (hno : ∀ i, ¬ r.Overflows i) {p : α} :
    (r.final.lookup? p).isSome ↔ ∃ i, r.Asks i p := by
  rw [(final_reflects hno).isSome_lookup?_iff (r.table_wf _), ← mem_history_length_iff]
  rfl

theorem parts_of_final_lookup? {r : Run α β} (hno : ∀ i, ¬ r.Overflows i) {p : α} {id : PatternId α}
    (h : r.final.lookup? p = some id) :
    id.shard = shardOf (fingerprint p) ∧ id.slot = (r.ledger r.calls.length).slot p := by
  rw [final, lookup?_eq_some_iff (r.table_wf _)] at h
  exact ((final_reflects hno).parts_of_get? (r.table_wf _) h).2

/-! ## Two runs -/

variable {r : Run α β} {s : Run α γ}

theorem SamePatterns.size_shard_eq (h : r.SamePatterns s) (hr : ∀ i, ¬ r.Overflows i)
    (hs : ∀ i, ¬ s.Overflows i) (shard : ShardIndex) :
    (r.final.shards.get shard).patterns.size = (s.final.shards.get shard).patterns.size := by
  rw [← Array.length_toList, ← Array.length_toList, (final_reflects hr).patterns,
    (final_reflects hs).patterns]
  exact (h.history_perm.filter _).length_eq

/-- An id of one run and an id of another that resolve to the same pattern at the end. -/
def Matches (r : Run α β) (s : Run α γ) (a b : PatternId α) : Prop :=
  ∃ p, r.final.get? a = some p ∧ s.final.get? b = some p

theorem Matches.symm {a b : PatternId α} (h : r.Matches s a b) : s.Matches r b a := by
  obtain ⟨p, ha, hb⟩ := h
  exact ⟨p, hb, ha⟩

theorem Matches.unique {a b b' : PatternId α} (h : r.Matches s a b) (h' : r.Matches s a b') : b = b' := by
  obtain ⟨p, ha, hb⟩ := h
  obtain ⟨q, ha', hb'⟩ := h'
  have hpq : p = q := Option.some.inj (ha.symm.trans ha')
  subst hpq
  rw [final, ← lookup?_eq_some_iff (s.table_wf _)] at hb hb'
  exact Option.some.inj (hb.symm.trans hb')

theorem SamePatterns.exists_match (h : r.SamePatterns s) (hr : ∀ i, ¬ r.Overflows i)
    (hs : ∀ i, ¬ s.Overflows i) {a : PatternId α} (ha : r.Issued a) :
    ∃ b, s.Issued b ∧ r.Matches s a b := by
  obtain ⟨p, hp⟩ := issued_iff.1 ha
  have hasked : ∃ i, r.Asks i p := by
    rw [← isSome_final_lookup?_iff hr, final, isSome_lookup?_iff (r.table_wf _)]
    exact ⟨a, hp⟩
  rw [h p, ← isSome_final_lookup?_iff hs, final, isSome_lookup?_iff (s.table_wf _)] at hasked
  obtain ⟨b, hb⟩ := hasked
  exact ⟨b, issued_iff.2 ⟨p, hb⟩, p, hp, hb⟩

/-- The ids of two runs that intern the same patterns correspond one to one. -/
theorem SamePatterns.exists_equiv (h : r.SamePatterns s) (hr : ∀ i, ¬ r.Overflows i)
    (hs : ∀ i, ¬ s.Overflows i) :
    ∃ e : {id // r.Issued id} ≃ {id // s.Issued id}, ∀ a, r.Matches s a.1 (e a).1 := by
  have hto (a : {id // r.Issued id}) : ∃ b : {id // s.Issued id}, r.Matches s a.1 b.1 := by
    obtain ⟨b, hb, hmatch⟩ := h.exists_match hr hs a.2
    exact ⟨⟨b, hb⟩, hmatch⟩
  choose f hf using hto
  refine ⟨.ofBijective f ⟨fun a a' heq => ?_, fun b => ?_⟩, hf⟩
  · have ha := hf a
    rw [heq] at ha
    exact Subtype.ext (ha.symm.unique (hf a').symm)
  · obtain ⟨a, ha, hmatch⟩ := h.symm.exists_match hs hr b.2
    exact ⟨⟨a, ha⟩, Subtype.ext ((hf ⟨a, ha⟩).unique hmatch.symm)⟩

/-- Interning does not depend on the order of the calls, up to the numbering of slots. Two runs without
overflow that intern the same patterns end with equal sizes and find the same patterns, those interned;
a pattern has the same shard in both, and each shard uses the same slots, the first ones; and the ids that
the two give to the same pattern correspond one to one and resolve to that pattern. If moreover any two
patterns of one shard come first in the same order, every pattern has the same slot in both, however
the calls for different shards are mixed. -/
theorem interning_order_independent (r : Run α β) (s : Run α γ) (hr : ∀ i, ¬ r.Overflows i)
    (hs : ∀ i, ¬ s.Overflows i) (h : r.SamePatterns s) :
    r.final.size = s.final.size ∧
    (∀ p, ((r.final.lookup? p).isSome ↔ ∃ i, r.Asks i p) ∧
      ((s.final.lookup? p).isSome ↔ ∃ i, r.Asks i p)) ∧
    (∀ p a b, r.final.lookup? p = some a → s.final.lookup? p = some b → a.shard = b.shard) ∧
    (∀ shard : ShardIndex, ∃ k, ∀ slot,
      ((∃ id, r.Issued id ∧ id.shard = shard ∧ id.slot = slot) ↔ slot < k) ∧
      ((∃ id, s.Issued id ∧ id.shard = shard ∧ id.slot = slot) ↔ slot < k)) ∧
    (∃ e : {id // r.Issued id} ≃ {id // s.Issued id}, ∀ a, ∃ p,
      r.final.lookup? p = some a.1 ∧ s.final.lookup? p = some (e a).1 ∧
      r.final.get? a.1 = some p ∧ s.final.get? (e a).1 = some p) ∧
    ((∀ p q, shardOf (fingerprint p) = shardOf (fingerprint q) → (r.Precedes p q ↔ s.Precedes p q)) →
      ∀ p a b, r.final.lookup? p = some a → s.final.lookup? p = some b →
        a.shard = b.shard ∧ a.slot = b.slot) := by
  have hshard {p : α} {a b : PatternId α} (ha : r.final.lookup? p = some a)
      (hb : s.final.lookup? p = some b) : a.shard = b.shard := by
    rw [(parts_of_final_lookup? hr ha).1, (parts_of_final_lookup? hs hb).1]
  refine ⟨?_, fun p => ⟨isSome_final_lookup?_iff hr, ?_⟩, fun p a b => hshard, fun shard => ?_, ?_,
    fun horder p a b ha hb => ⟨hshard ha hb, ?_⟩⟩
  · rw [(final_reflects hr).size, (final_reflects hs).size]
    exact h.history_perm.length_eq
  · rw [isSome_final_lookup?_iff hs, h p]
  · refine ⟨(r.final.shards.get shard).patterns.size, fun slot => ⟨exists_issued_iff, ?_⟩⟩
    rw [h.size_shard_eq hr hs]
    exact exists_issued_iff
  · obtain ⟨e, he⟩ := h.exists_equiv hr hs
    refine ⟨e, fun a => ?_⟩
    obtain ⟨p, ha, hb⟩ := he a
    exact ⟨p, (lookup?_eq_some_iff (r.table_wf _)).2 ha, (lookup?_eq_some_iff (s.table_wf _)).2 hb, ha, hb⟩
  · rw [(parts_of_final_lookup? hr ha).2, (parts_of_final_lookup? hs hb).2]
    apply Ledger.slot_congr (r.nodup_history _) (s.nodup_history _)
    intro q hq
    rw [mem_earlier_length_iff, mem_earlier_length_iff]
    exact horder q p hq

/-- Two patterns of one shard in the same order, with one of another shard before, between or after
them. -/
theorem interning_order_independent_mixed :
    letI : Fingerprint (Fin 3) := ⟨fun n => if n = 1 then 3 else 7⟩
    let r : Run (Fin 3) Unit := ⟨5, [.intern 0, .intern 1, .intern 2]⟩
    let s : Run (Fin 3) Unit := ⟨9, [.intern 1, .intern 0, .intern 0, .intern 2, .intern 1]⟩
    (∀ i, ¬ r.Overflows i) ∧ (∀ i, ¬ s.Overflows i) ∧ r.SamePatterns s ∧
      (∀ p q, shardOf (fingerprint p) = shardOf (fingerprint q) → (r.Precedes p q ↔ s.Precedes p q)) ∧
      r.final.size = s.final.size ∧
      r.final.lookup? 2 = some ⟨5, 0x70000001⟩ ∧ s.final.lookup? 2 = some ⟨9, 0x70000001⟩ ∧
      (⟨5, 0x70000001⟩ : PatternId (Fin 3)).slot = (⟨9, 0x70000001⟩ : PatternId (Fin 3)).slot := by
  let _ : Fingerprint (Fin 3) := ⟨fun n => if n = 1 then 3 else 7⟩
  intro r s
  have hr (i : Nat) : ¬ r.Overflows i := not_overflows_of_length_le (by decide) i
  have hs (i : Nat) : ¬ s.Overflows i := not_overflows_of_length_le (by decide) i
  have hrhistory : r.history r.calls.length = [0, 1, 2] := by decide
  have hshistory : s.history s.calls.length = [1, 0, 2] := by decide
  have hsame : r.SamePatterns s := by
    intro p
    rw [← mem_history_length_iff, ← mem_history_length_iff, hrhistory, hshistory]
    decide +revert
  have horder (p q : Fin 3) : shardOf (fingerprint p) = shardOf (fingerprint q) →
      (r.Precedes p q ↔ s.Precedes p q) := by
    rw [← mem_earlier_length_iff, ← mem_earlier_length_iff]
    unfold ledger Ledger.earlier
    rw [hrhistory, hshistory]
    have hfinite : ∀ p q : Fin 3, shardOf (if p = 1 then 3 else 7) = shardOf (if q = 1 then 3 else 7) →
        (p ∈ [0, 1, 2].takeWhile (· ≠ q) ↔ p ∈ [1, 0, 2].takeWhile (· ≠ q)) := by decide
    exact hfinite p q
  have hlr : r.final.lookup? 2 = some ⟨5, 0x70000001⟩ :=
    ((final_reflects hr).lookup?_eq (r.table_wf _) 2).trans (by decide)
  have hls : s.final.lookup? 2 = some ⟨9, 0x70000001⟩ :=
    ((final_reflects hs).lookup?_eq (s.table_wf _) 2).trans (by decide)
  obtain ⟨hsize, -, -, -, -, hplace⟩ := interning_order_independent r s hr hs hsame
  exact ⟨hr, hs, hsame, horder, hsize, hlr, hls, (hplace horder 2 _ _ hlr hls).2⟩

end Run

end Phrasebook.Interner
