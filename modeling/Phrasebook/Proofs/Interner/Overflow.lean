/-
Only a full shard refuses a pattern, and a refusal leaves no trace. A call to intern a pattern fails exactly
when the pattern is new and its shard has used all 2^28 slots. The table is then as before the call, nothing
is reported, and the run goes on as if the call had not been made.
-/
import Phrasebook.Proofs.Interner.Order

namespace Phrasebook.Interner

variable {α β : Type}

/-! ## Distinct patterns in a row -/

namespace Run

/-- The run that interns the given patterns one after the other. -/
def internAll (owner : Owner) (ps : List α) : Run α β :=
  ⟨owner, ps.map .intern⟩

theorem asks_internAll {owner : Owner} {ps : List α} {p : α} :
    (∃ i, (internAll owner ps : Run α β).Asks i p) ↔ p ∈ ps := by
  unfold Asks internAll
  simp only [List.getElem?_map, Option.map_eq_some_iff]
  constructor
  · rintro ⟨i, c, ⟨q, hq, rfl⟩, h | h⟩
    · cases h
      exact List.mem_of_getElem? hq
    · cases h
  · intro hp
    obtain ⟨i, hi⟩ := List.mem_iff_getElem?.1 hp
    exact ⟨i, .intern p, ⟨p, hi, rfl⟩, .inl rfl⟩

end Run

variable [Fingerprint α]

/-! ## One call -/

/-- A shard without room has used every slot, and there are no more. -/
theorem WF.not_hasRoom_iff {t : Interner α} (hw : t.WF) {p : α} :
    ¬ t.HasRoom p ↔ (t.homeShard p).patterns.size = 2 ^ 28 := by
  have hbound : (t.homeShard p).patterns.size ≤ maxSlot + 1 := (hw.shards _).bound
  unfold HasRoom
  rw [PatternId.maxSlot_eq] at hbound ⊢
  omega

variable [DecidableEq α]

theorem WF.tryIntern_eq_error_iff {t : Interner α} (hw : t.WF) {p : α} {e : InternError} :
    t.tryIntern p = .error e ↔
      t.lookup? p = none ∧ (t.homeShard p).patterns.size = 2 ^ 28 ∧
        e = .shardOverflow (shardOf (fingerprint p)) (2 ^ 28) := by
  rcases hl : t.lookup? p with _ | id
  · by_cases hr : t.HasRoom p
    · rw [tryIntern_of_room hl hr]
      constructor
      · intro h
        cases h
      · rintro ⟨-, hfull, -⟩
        exact absurd hr (hw.not_hasRoom_iff.2 hfull)
    · have hfull := hw.not_hasRoom_iff.1 hr
      rw [tryIntern_of_full hl hr, hfull]
      simp [eq_comm]
  · rw [tryIntern_of_lookup? hl]
    simp

theorem call_of_error {t : Interner α} {p : α} {e : InternError} (h : t.tryIntern p = .error e) :
    (t.call (.tryIntern p) : Outcome α β) = ⟨.refused e, t, []⟩ := by
  simp only [call, h]
  rfl

theorem WF.get?_of_tryIntern {t : Interner α} (hw : t.WF) {p : α} {a : Interned α}
    (h : t.tryIntern p = .ok a) : a.table.get? a.id = some p := by
  have hcall : (t.call (.tryIntern p) : Outcome α Unit) = ⟨.issued a.id, a.table, a.events⟩ := by
    simp only [call, h]
  have hget := get?_of_gives (β := Unit) hw (.inl ⟨.inr rfl, congrArg Outcome.answer hcall⟩)
  rwa [hcall] at hget

/-! ## Runs with one call more -/

namespace Run

theorem table_append (owner : Owner) (before after : List (Call α β)) (k : Nat) :
    (⟨owner, before ++ after⟩ : Run α β).table (before.length + k) =
      Trace.state (fun t c => (t.call c).table) (⟨owner, before⟩ : Run α β).final after k := by
  unfold final table Trace.state
  rw [List.take_length_add_append, List.foldl_append, List.take_length]

/-- A call that leaves the table as it is has no part in what comes later. -/
theorem outcome?_of_unchanged {r : Run α β} {c : Call α β} (h : (r.final.call c).table = r.final)
    (later : List (Call α β)) (k : Nat) :
    (⟨r.owner, r.calls ++ c :: later⟩ : Run α β).outcome? (r.calls.length + (k + 1)) =
      (⟨r.owner, r.calls ++ later⟩ : Run α β).outcome? (r.calls.length + k) := by
  have htable : (⟨r.owner, r.calls ++ c :: later⟩ : Run α β).table (r.calls.length + (k + 1)) =
      (⟨r.owner, r.calls ++ later⟩ : Run α β).table (r.calls.length + k) := by
    rw [table_append, table_append]
    show ((c :: later).take (k + 1)).foldl _ r.final = (later.take k).foldl _ r.final
    rw [List.take_succ_cons, List.foldl_cons, h]
  unfold outcome?
  rw [htable, List.getElem?_append_right (Nat.le_add_right _ _),
    List.getElem?_append_right (Nat.le_add_right _ _), Nat.add_sub_cancel_left, Nat.add_sub_cancel_left,
    List.getElem?_cons_succ]

theorem lt_of_interned {r : Run α β} {i : Nat} {p : α} {id : PatternId α} (h : r.Interned i p id) :
    i < r.calls.length := by
  obtain ⟨c, hc, hint, -⟩ := h
  exact lt_of_asks ⟨c, hc, hint⟩

theorem lookup?_final_eq_none_iff {r : Run α β} {p : α} :
    r.final.lookup? p = none ↔ ¬ ∃ i id, r.Interned i p id := by
  rw [← Option.not_isSome_iff_eq_none, final, r.isSome_lookup?_iff_interned]
  refine not_congr ⟨?_, ?_⟩
  · rintro ⟨i, -, h⟩
    exact ⟨i, h⟩
  · rintro ⟨i, id, h⟩
    exact ⟨i, lt_of_interned h, id, h⟩

/-- Interning is refused exactly at the limit, and without a trace. After any run, a call to intern a pattern
fails if and only if the pattern was not interned in the run and its shard holds 2^28 patterns. The error
then names the shard and this number, the table is as before, nothing is reported, and whatever calls come
later lead to what they would have led to without the call. A pattern that was interned is accepted under its
id with nothing changed, and every pattern is accepted by a shard that is not full. -/
theorem overflow_exact (r : Run α β) (p : α) :
    ((∃ e, r.final.tryIntern p = .error e) ↔
      (¬ ∃ i id, r.Interned i p id) ∧
        (r.final.shards.get (shardOf (fingerprint p))).patterns.size = 2 ^ 28) ∧
    (∀ e, r.final.tryIntern p = .error e →
      e = .shardOverflow ((fingerprint p).toNat % 16) (2 ^ 28) ∧
      (r.final.call (.tryIntern p) : Outcome α β) = ⟨.refused e, r.final, []⟩ ∧
      ∀ (later : List (Call α β)) (k : Nat),
        (⟨r.owner, r.calls ++ .tryIntern p :: later⟩ : Run α β).outcome? (r.calls.length + (k + 1)) =
          (⟨r.owner, r.calls ++ later⟩ : Run α β).outcome? (r.calls.length + k)) ∧
    (∀ i id, r.Interned i p id → r.final.tryIntern p = .ok ⟨id, r.final, []⟩) ∧
    ((r.final.shards.get (shardOf (fingerprint p))).patterns.size < 2 ^ 28 →
      ∃ a, r.final.tryIntern p = .ok a ∧ a.table.get? a.id = some p) := by
  have hw : r.final.WF := r.table_wf _
  refine ⟨?_, fun e he => ?_, fun i id h => ?_, fun hroom => ?_⟩
  · simp only [hw.tryIntern_eq_error_iff, lookup?_final_eq_none_iff, homeShard_eq rfl]
    simp
  · obtain ⟨-, -, rfl⟩ := hw.tryIntern_eq_error_iff.1 he
    have hcall := call_of_error (β := β) he
    exact ⟨rfl, hcall, outcome?_of_unchanged (by rw [hcall])⟩
  · have hget : r.final.get? id = some p := get?_of_gives (gives_of_interned h) (lt_of_interned h)
    exact tryIntern_of_lookup? ((lookup?_eq_some_iff hw).2 hget)
  · rcases ha : r.final.tryIntern p with e | a
    · -- a shard that refuses has used all its slots
      obtain ⟨-, hfull, -⟩ := hw.tryIntern_eq_error_iff.1 ha
      rw [homeShard_eq rfl] at hfull
      omega
    · exact ⟨a, rfl, hw.get?_of_tryIntern ha⟩

/-! ## A full shard -/

theorem not_overflows_internAll {owner : Owner} {ps : List α} (hlen : ps.length ≤ maxSlot + 1) (j : Nat) :
    ¬ (internAll owner ps : Run α β).Overflows j :=
  not_overflows_of_length_le (by simpa [internAll] using hlen) j

/-- As long as no shard overflows, distinct patterns take one slot each. -/
theorem size_shard_internAll (owner : Owner) {ps : List α} (hnd : ps.Nodup)
    (hlen : ps.length ≤ maxSlot + 1) (i : ShardIndex) :
    ((internAll owner ps : Run α β).final.shards.get i).patterns.size =
      ps.countP fun p => shardOf (fingerprint p) = i := by
  let r : Run α β := internAll owner ps
  have hperm : (r.history r.calls.length).Perm ps := by
    rw [List.perm_ext_iff_of_nodup (r.nodup_history _) hnd]
    intro p
    exact mem_history_length_iff.trans asks_internAll
  rw [← Array.length_toList, (final_reflects (not_overflows_internAll hlen)).patterns,
    List.countP_eq_length_filter]
  exact (hperm.filter _).length_eq

/-- The limit is reached: of patterns with one fingerprint a shard takes 2^28, the next one is refused, and
those that are there are still accepted. -/
theorem overflow_exact_one_fingerprint :
    letI : Fingerprint Nat := ⟨fun _ => 7⟩
    let r : Run Nat Unit := internAll 5 (List.range (2 ^ 28))
    (r.final.shards.get (shardOf 7)).patterns.size = 2 ^ 28 ∧
    r.final.tryIntern (2 ^ 28) = .error (.shardOverflow 7 (2 ^ 28)) ∧
    (r.final.call (.tryIntern (2 ^ 28)) : Outcome Nat Unit) =
      ⟨.refused (.shardOverflow 7 (2 ^ 28)), r.final, []⟩ ∧
    ∃ id, r.final.tryIntern 3 = .ok ⟨id, r.final, []⟩ := by
  let _ : Fingerprint Nat := ⟨fun _ => 7⟩
  intro r
  have hlen : (List.range (2 ^ 28)).length ≤ maxSlot + 1 := by
    rw [List.length_range, PatternId.maxSlot_eq]
    omega
  have hsize : (r.final.shards.get (shardOf 7)).patterns.size = 2 ^ 28 := by
    have hall : ∀ p ∈ List.range (2 ^ 28), decide (shardOf (fingerprint p) = shardOf 7) = true :=
      fun _ _ => decide_eq_true rfl
    have hcount := size_shard_internAll (β := Unit) 5 List.nodup_range hlen (shardOf 7)
    rwa [List.countP_eq_length.2 hall, List.length_range] at hcount
  have hasked (p : Nat) : (∃ i, r.Asks i p) ↔ p < 2 ^ 28 := asks_internAll.trans List.mem_range
  have hnew : ¬ ∃ i id, r.Interned i (2 ^ 28) id := by
    rintro ⟨i, id, c, hc, hint, -⟩
    exact lt_irrefl _ ((hasked _).1 ⟨i, c, hc, hint⟩)
  have hold : ∃ i id, r.Interned i 3 id := by
    obtain ⟨i, c, hc, hint⟩ := (hasked 3).2 (by omega)
    exact ⟨i, (exists_interned_iff (not_overflows_internAll hlen i)).2 ⟨c, hc, hint⟩⟩
  obtain ⟨hiff, herror, -, -⟩ := overflow_exact r (2 ^ 28)
  obtain ⟨-, -, haccept, -⟩ := overflow_exact r 3
  obtain ⟨e, he⟩ := hiff.2 ⟨hnew, hsize⟩
  obtain ⟨rfl, hcall, -⟩ := herror e he
  obtain ⟨i, id, hint⟩ := hold
  exact ⟨hsize, he, hcall, id, haccept i id hint⟩

end Run

end Phrasebook.Interner
