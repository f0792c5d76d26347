/-
The reports of a run are an exact account of its additions. A call reports something only if it adds a
pattern: the slot that the pattern takes, and before that the number of patterns with the same
fingerprint, if there are any. Over a run, every slot in use is reported once, and collisions are reported
as often as a pattern brought no new fingerprint. What happened is counted as events; a report tells which
event it is the report of, so the counts are those of the reports.
-/
import Phrasebook.Proofs.Interner.History

namespace Phrasebook

namespace Shard

variable {α : Type} [Fingerprint α]

theorem length_slotsWith (s : Shard α) (fp : UInt64) :
    (s.slotsWith fp).length = s.patterns.toList.countP fun p => fingerprint p = fp := by
  have hrange : (List.range s.patterns.size).map (fun k => s.patterns[k]?) = s.patterns.toList.map some := by
    apply List.ext_getElem <;> simp
  have hmap : s.patterns.toList.countP (fun p => fingerprint p = fp) =
      (s.patterns.toList.map some).countP fun o => o.any fun p => fingerprint p == fp := by
    rw [List.countP_map]
    exact List.countP_congr fun p _ => by simp
  rw [hmap, ← hrange, List.countP_map, List.countP_eq_length_filter]
  rfl

end Shard

namespace Interner

variable {α β : Type}

theorem Event.report_injective : Function.Injective Event.report := by
  intro d e h
  cases d <;> cases e <;> simp_all [report, Fin.ext_iff]

/-! ## Ledgers -/

namespace Ledger

theorem record_cases [DecidableEq α] (l : Ledger α) (c : Call α β) :
    l.record c = l ∨
    ∃ p, c.interned? = some p ∧ p ∉ l.patterns ∧
      l.record c = { l with patterns := l.patterns ++ [p] } := by
  unfold record
  rcases c.interned? with _ | p
  · exact .inl rfl
  · by_cases hp : p ∈ l.patterns
    · exact .inl (if_pos hp)
    · exact .inr ⟨p, rfl, hp, if_neg hp⟩

variable [Fingerprint α]

/-- The number of patterns with a fingerprint. -/
def existing (l : Ledger α) (fp : UInt64) : Nat :=
  l.patterns.countP fun q => fingerprint q = fp

/-- The collision to report for a pattern with the given fingerprint that comes next. -/
def collision (l : Ledger α) (fp : UInt64) : List Event :=
  if l.existing fp = 0 then [] else [.collision fp (shardOf fp) (l.existing fp)]

theorem existing_eq_zero_iff {l : Ledger α} {fp : UInt64} :
    l.existing fp = 0 ↔ fp ∉ l.patterns.map fingerprint := by
  unfold existing
  rw [List.countP_eq_zero, List.mem_map]
  simp

theorem existing_eq_zero_iff_alone (l : Ledger α) {p : α} (hp : p ∉ l.patterns) :
    l.existing (fingerprint p) = 0 ↔ ¬ ∃ q ∈ l.patterns, q ≠ p ∧ fingerprint q = fingerprint p := by
  rw [existing_eq_zero_iff, List.mem_map]
  refine not_congr ⟨?_, ?_⟩
  · rintro ⟨q, hq, hfp⟩
    exact ⟨q, hq, ne_of_mem_of_not_mem hq hp, hfp⟩
  · rintro ⟨q, hq, -, hfp⟩
    exact ⟨q, hq, hfp⟩

theorem countP_trace_collision (l : Ledger α) (fp : UInt64) :
    (l.collision fp).countP (fun e => e.report.level = .trace) = 0 := by
  unfold collision
  split <;> simp [Event.report]

theorem countP_debug_collision (l : Ledger α) (fp : UInt64) :
    (l.collision fp).countP (fun e => e.report.level = .debug) = if l.existing fp = 0 then 0 else 1 := by
  unfold collision
  split <;> simp [Event.report]

theorem count_added_collision (l : Ledger α) (fp : UInt64) (shard : ShardIndex) (slot : Nat) :
    (l.collision fp).count (.added shard slot) = 0 := by
  unfold collision
  split <;> simp

/-- A new pattern brings a new fingerprint exactly when it has none to collide with. -/
theorem card_fingerprints_append (l : Ledger α) (p : α) :
    ((l.patterns ++ [p]).map fingerprint).toFinset.card =
      (l.patterns.map fingerprint).toFinset.card + if l.existing (fingerprint p) = 0 then 1 else 0 := by
  have hinsert : ((l.patterns ++ [p]).map fingerprint).toFinset =
      insert (fingerprint p) (l.patterns.map fingerprint).toFinset := by
    ext fp
    simp [eq_comm]
  rw [hinsert]
  split
  · rename_i h
    exact Finset.card_insert_of_notMem (by rwa [List.mem_toFinset, ← existing_eq_zero_iff])
  · rename_i h
    rw [existing_eq_zero_iff, not_not] at h
    rw [Finset.insert_eq_of_mem (List.mem_toFinset.2 h), Nat.add_zero]

end Ledger

/-! ## One call -/

variable [Fingerprint α] {t : Interner α} {l : Ledger α}

theorem Reflects.length_slots (hr : t.Reflects l) (hw : t.WF) (p : α) :
    ((t.homeShard p).slots (fingerprint p)).length = l.existing (fingerprint p) := by
  have hs : (t.homeShard p).WF (shardOf (fingerprint p)) := hw.shards _
  rw [hs.slots, Shard.length_slotsWith, homeShard_eq rfl, hr.patterns, List.countP_filter]
  unfold Ledger.existing
  -- a pattern with the same fingerprint is in the same shard
  apply List.countP_congr
  intro q _
  simp +contextual

/-- What is reported when a pattern is added, in terms of the patterns that came before. -/
theorem Reflects.additionEvents_eq (hr : t.Reflects l) (hw : t.WF) (p : α) :
    additionEvents (t.homeShard p) (fingerprint p) =
      l.collision (fingerprint p) ++
        [.added (shardOf (fingerprint p)) (t.homeShard p).patterns.size] := by
  unfold additionEvents Ledger.collision
  rw [hr.length_slots hw]

/-- What a call without overflow does: it changes nothing and reports nothing, or it adds a pattern that
has not come before. -/
theorem Reflects.call_cases [DecidableEq α] (hr : t.Reflects l) (hw : t.WF) {c : Call α β}
    (hno : ¬ (t.call c).answer.IsOverflow) :
    ((t.call c).table = t ∧ (t.call c).events = [] ∧ l.record c = l) ∨
    ∃ p, c.Interns p ∧ p ∉ l.patterns ∧ t.HasRoom p ∧
      t.call c = ⟨.issued (t.nextId p), t.add p, additionEvents (t.homeShard p) (fingerprint p)⟩ ∧
      l.record c = { l with patterns := l.patterns ++ [p] } := by
  rcases Interner.call_cases t c with ⟨a, ha⟩ | ⟨p, hc, hnone, hroom, hcall⟩
  · left
    refine ⟨by rw [ha]; rfl, by rw [ha]; rfl, ?_⟩
    rcases l.record_cases c with hsame | ⟨p, -, -, hmore⟩
    · exact hsame
    · -- a table that has not grown does not reflect a ledger that has
      have hafter := (hr.call hw hno).size
      rw [ha, hmore, List.length_append] at hafter
      have hbefore : (t.observe a).table.size = l.patterns.length := hr.size
      rw [hbefore] at hafter
      simp at hafter
  · right
    have hp := (hr.lookup?_eq_none_iff hw).1 hnone
    refine ⟨p, hc, hp, hroom, hcall, ?_⟩
    unfold Ledger.record
    rw [Call.interned?_eq_some_iff.2 hc]
    exact if_neg hp

/-! ## What the events of a run add up to -/

/-- The events up to now account for the patterns of a table and its ledger. -/
structure Accounts (es : List Event) (t : Interner α) (l : Ledger α) : Prop where
  additions : es.countP (fun e => e.report.level = .trace) = t.size
  /-- Every slot in use is reported once, and no other. -/
  places : ∀ (shard : ShardIndex) (slot : Nat), es.count (.added shard slot) =
    if slot < (t.shards.get shard).patterns.size then 1 else 0
  /-- Every pattern has brought a new fingerprint or was reported as a collision. -/
  collisions : es.countP (fun e => e.report.level = .debug) +
    (l.patterns.map fingerprint).toFinset.card = t.size

theorem empty_accounts (owner : Owner) : Accounts [] (empty owner : Interner α) ⟨owner, []⟩ := by
  refine ⟨rfl, fun shard slot => ?_, rfl⟩
  simp [Shard.empty]

theorem Accounts.add {es : List Event} (ha : Accounts es t l) (hr : t.Reflects l) (hw : t.WF) (p : α) :
    Accounts (es ++ additionEvents (t.homeShard p) (fingerprint p)) (t.add p)
      { l with patterns := l.patterns ++ [p] } := by
  rw [hr.additionEvents_eq hw]
  refine ⟨?_, fun shard slot => ?_, ?_⟩
  · rw [List.countP_append, List.countP_append, ha.additions, Ledger.countP_trace_collision, size_add]
    rfl
  · rw [List.count_append, List.count_append, ha.places, Ledger.count_added_collision, shards_add]
    by_cases hs : shardOf (fingerprint p) = shard
    · subst hs
      rw [if_pos rfl, ← homeShard_eq rfl]
      simp only [Shard.push, Array.size_push, List.count_singleton, beq_iff_eq, Event.added.injEq, true_and]
      split_ifs <;> omega
    · simp [hs]
  · have hbefore := ha.collisions
    have hadded (shard : ShardIndex) (slot : Nat) :
        [Event.added shard slot].countP (fun e => e.report.level = .debug) = 0 := rfl
    rw [List.countP_append, List.countP_append, Ledger.countP_debug_collision, hadded,
      Ledger.card_fingerprints_append, size_add]
    split_ifs <;> omega

/-- A call without overflow keeps the account. -/
theorem Accounts.call [DecidableEq α] {es : List Event} (ha : Accounts es t l) (hr : t.Reflects l)
    (hw : t.WF) {c : Call α β} (hno : ¬ (t.call c).answer.IsOverflow) :
    Accounts (es ++ (t.call c).events) (t.call c).table (l.record c) := by
  rcases hr.call_cases hw hno with ⟨htable, hevents, hrecord⟩ | ⟨p, -, -, -, hcall, hrecord⟩
  · rw [htable, hevents, hrecord, List.append_nil]
    exact ha
  · rw [hcall, hrecord]
    exact ha.add hr hw p

/-! ## Runs -/

namespace Run

variable [DecidableEq α]

/-- The events of step `i`. -/
def eventsAt (r : Run α β) (i : Nat) : List Event :=
  (r.outcome? i).elim [] Outcome.events

/-- The events of the first `n` steps. -/
def events (r : Run α β) (n : Nat) : List Event :=
  (List.range n).flatMap r.eventsAt

/-- What step `i` reports. -/
def reportsAt (r : Run α β) (i : Nat) : List Tracing.Report :=
  (r.outcome? i).elim [] Outcome.reports

/-- What the first `n` steps report. -/
def reports (r : Run α β) (n : Nat) : List Tracing.Report :=
  (List.range n).flatMap r.reportsAt

/-- Step `i` adds `p`: it was not in the table before and is there afterwards. -/
def Adds (r : Run α β) (i : Nat) (p : α) : Prop :=
  (r.table i).lookup? p = none ∧ ((r.table (i + 1)).lookup? p).isSome

theorem events_succ (r : Run α β) (n : Nat) : r.events (n + 1) = r.events n ++ r.eventsAt n := by
  unfold events
  rw [List.range_succ, List.flatMap_append, List.flatMap_singleton]

theorem eventsAt_eq {r : Run α β} {i : Nat} {c : Call α β} (h : r.calls[i]? = some c) :
    r.eventsAt i = ((r.table i).call c).events := by
  unfold eventsAt outcome?
  rw [h]
  rfl

theorem eventsAt_of_none {r : Run α β} {i : Nat} (h : r.calls[i]? = none) : r.eventsAt i = [] := by
  unfold eventsAt outcome?
  rw [h]
  rfl

theorem events_account {r : Run α β} {n : Nat} (hno : ∀ i < n, ¬ r.Overflows i) :
    Accounts (r.events n) (r.table n) (r.ledger n) := by
  induction n with
  | zero => exact empty_accounts r.owner
  | succ n ih =>
    have hbefore : ∀ i < n, ¬ r.Overflows i := fun i hi => hno i (by omega)
    rw [r.events_succ]
    rcases hc : r.calls[n]? with _ | c
    · rw [r.table_succ_none hc, r.ledger_succ_none hc, eventsAt_of_none hc, List.append_nil]
      exact ih hbefore
    · rw [r.table_succ hc, r.ledger_succ hc, eventsAt_eq hc]
      exact (ih hbefore).call (table_reflects hbefore) (r.table_wf n)
        fun ho => hno n (by omega) ⟨c, hc, ho⟩

/-- Without an overflow, a pattern is added by the first call to intern it. -/
theorem adds_iff {r : Run α β} (hno : ∀ i, ¬ r.Overflows i) {i : Nat} {p : α} :
    r.Adds i p ↔ r.Asks i p ∧ p ∉ r.history i := by
  have hr (n : Nat) : (r.table n).Reflects (r.ledger n) := table_reflects fun j _ => hno j
  unfold Adds
  rw [(hr i).lookup?_eq_none_iff (r.table_wf i), (hr (i + 1)).isSome_lookup?_iff (r.table_wf (i + 1))]
  show p ∉ r.history i ∧ p ∈ r.history (i + 1) ↔ _
  rw [mem_history_iff, mem_history_iff]
  constructor
  · rintro ⟨hnew, j, hj, hp⟩
    have hij : j = i := by
      by_contra hne
      exact hnew ⟨j, by omega, hp⟩
    exact ⟨hij ▸ hp, hnew⟩
  · rintro ⟨hp, hnew⟩
    exact ⟨hnew, i, by omega, hp⟩

theorem eventsAt_of_not_adds {r : Run α β} (hno : ∀ i, ¬ r.Overflows i) {i : Nat}
    (h : ∀ p, ¬ r.Adds i p) : r.eventsAt i = [] := by
  rcases hc : r.calls[i]? with _ | c
  · exact eventsAt_of_none hc
  · rw [eventsAt_eq hc]
    have hr : (r.table i).Reflects (r.ledger i) := table_reflects fun j _ => hno j
    rcases hr.call_cases (r.table_wf i) fun ho => hno i ⟨c, hc, ho⟩ with
      ⟨-, hevents, -⟩ | ⟨p, hint, hp, -⟩
    · exact hevents
    · exact absurd ((adds_iff hno).2 ⟨⟨c, hc, hint⟩, hp⟩) (h p)

/-- A step that adds a pattern reports the place that its id names, after the collision if there is one. -/
theorem eventsAt_of_adds {r : Run α β} (hno : ∀ i, ¬ r.Overflows i) {i : Nat} {p : α}
    (h : r.Adds i p) :
    ∃ id, r.Interned i p id ∧ id.shard = shardOf (fingerprint p) ∧
      r.eventsAt i = (r.ledger i).collision (fingerprint p) ++ [.added id.shard id.slot] := by
  have hasks := ((adds_iff hno).1 h).1
  have ⟨c, hc, _⟩ := hasks
  have hw := r.table_wf i
  have hr : (r.table i).Reflects (r.ledger i) := table_reflects fun j _ => hno j
  rcases hr.call_cases hw fun ho => hno i ⟨c, hc, ho⟩ with ⟨hsame, -⟩ | ⟨q, hint, -, hroom, hcall, -⟩
  · -- a step that leaves the table as it is adds nothing
    have hafter := h.2
    rw [r.table_succ hc, hsame, h.1] at hafter
    cases hafter
  · cases asks_unique hasks ⟨c, hc, hint⟩
    have hshard : ((r.table i).nextId p).shard = shardOf (fingerprint p) := PatternId.shard_pack _ _ hroom
    have hslot : ((r.table i).nextId p).slot = ((r.table i).homeShard p).patterns.size :=
      PatternId.slot_pack _ _ hroom
    refine ⟨(r.table i).nextId p, ⟨c, hc, hint, by rw [hcall]⟩, hshard, ?_⟩
    rw [eventsAt_eq hc, hcall, hshard, hslot]
    exact hr.additionEvents_eq hw p

theorem reportsAt_eq (r : Run α β) (i : Nat) : r.reportsAt i = (r.eventsAt i).map Event.report := by
  unfold reportsAt eventsAt
  cases r.outcome? i <;> rfl

theorem reports_eq (r : Run α β) (n : Nat) : r.reports n = (r.events n).map Event.report := by
  unfold reports events
  rw [List.map_flatMap, funext r.reportsAt_eq]

/-- The reports of a run without overflow give its additions exactly. A step that adds no pattern reports
nothing. A step that adds a pattern reports at level trace the shard and the slot of its id, and before that
at level debug, exactly if another pattern with its fingerprint was interned earlier, the fingerprint,
the shard and the number of these patterns. So there are as many reports at level trace as patterns and
they name every slot in use once; and the reports at level debug and the distinct fingerprints are together
as many as the patterns. -/
theorem events_report_additions (r : Run α β) (hno : ∀ i, ¬ r.Overflows i) :
    let added (shard slot : Nat) : Tracing.Report :=
      ⟨.trace, "interned new pattern", [("shard", .number shard), ("slot", .number slot)]⟩
    let collision (fp : UInt64) (shard existing : Nat) : Tracing.Report :=
      ⟨.debug, "fingerprint collision between unequal patterns",
        [("fingerprint", .fingerprint fp), ("shard", .number shard), ("existing", .number existing)]⟩
    (∀ i, (∀ p, ¬ r.Adds i p) → r.reportsAt i = []) ∧
    (∀ i p, r.Adds i p → ∃ id, r.Interned i p id ∧ id.shard.val = (fingerprint p).toNat % 16 ∧
      ((∃ q ∈ r.history i, q ≠ p ∧ fingerprint q = fingerprint p) →
        r.reportsAt i =
          [collision (fingerprint p) id.shard ((r.history i).countP fun q => fingerprint q = fingerprint p),
            added id.shard id.slot]) ∧
      ((¬ ∃ q ∈ r.history i, q ≠ p ∧ fingerprint q = fingerprint p) →
        r.reportsAt i = [added id.shard id.slot])) ∧
    (∀ n,
      (r.reports n).countP (fun e => e.level = .trace) = (r.table n).size ∧
      (∀ (shard : ShardIndex) (slot : Nat), (r.reports n).count (added shard slot) =
        if slot < ((r.table n).shards.get shard).patterns.size then 1 else 0) ∧
      (r.reports n).countP (fun e => e.level = .debug) +
        ((r.history n).map fingerprint).toFinset.card = (r.table n).size) := by
  intro added collision
  refine ⟨fun i h => ?_, fun i p h => ?_, fun n => ?_⟩
  · rw [reportsAt_eq, eventsAt_of_not_adds hno h]
    rfl
  · obtain ⟨id, hint, hshard, hevents⟩ := eventsAt_of_adds hno h
    have halone_iff := (r.ledger i).existing_eq_zero_iff_alone ((adds_iff hno).1 h).2
    refine ⟨id, hint, congrArg Fin.val hshard, fun hcollides => ?_, fun halone => ?_⟩
    · rw [reportsAt_eq, hevents, Ledger.collision, if_neg fun hzero => halone_iff.1 hzero hcollides, hshard]
      rfl
    · rw [reportsAt_eq, hevents, Ledger.collision, if_pos (halone_iff.2 halone)]
      rfl
  · have ha := events_account fun i (_ : i < n) => hno i
    rw [reports_eq, List.countP_map, List.countP_map]
    refine ⟨ha.additions, fun shard slot => ?_, ha.collisions⟩
    rw [← ha.places shard slot]
    exact List.count_map_of_injective _ _ Event.report_injective (.added shard slot)

/-- The second pattern with a fingerprint is reported as a collision with one other, in shard 7 and before its
slot there; interning the first one again is not reported. -/
theorem events_report_additions_colliding :
    letI : Fingerprint Nat := ⟨fun n => if n = 1 then 3 else 7⟩
    let r : Run Nat Unit := ⟨5, [.intern 0, .tryIntern 1, .lookup 2, .intern 0, .intern 2, .size]⟩
    (∀ i, ¬ r.Overflows i) ∧ (∀ p, ¬ r.Adds 3 p) ∧ r.reportsAt 3 = [] ∧ r.Adds 4 2 ∧
      r.reportsAt 4 =
        [⟨.debug, "fingerprint collision between unequal patterns",
            [("fingerprint", .fingerprint 7), ("shard", .number 7), ("existing", .number 1)]⟩,
          ⟨.trace, "interned new pattern", [("shard", .number 7), ("slot", .number 1)]⟩] ∧
      (r.reports 6).countP (fun e => e.level = .trace) = 3 ∧
      (r.reports 6).countP (fun e => e.level = .debug) = 1 := by
  let _ : Fingerprint Nat := ⟨fun n => if n = 1 then 3 else 7⟩
  intro r
  have hno (i : Nat) : ¬ r.Overflows i := not_overflows_of_length_le (by decide) i
  have hhistory : r.history 4 = [0, 1] := by decide
  have hagain (p : Nat) : ¬ r.Adds 3 p := by
    rw [adds_iff hno]
    rintro ⟨hp, hnew⟩
    cases asks_unique hp (q := 0) ⟨.intern 0, rfl, .inl rfl⟩
    exact hnew (mem_history_iff.2 ⟨0, by omega, .intern 0, rfl, .inl rfl⟩)
  have hadds : r.Adds 4 2 := by
    rw [adds_iff hno, hhistory]
    exact ⟨⟨.intern 2, rfl, .inl rfl⟩, by decide⟩
  have hcollides : ∃ q ∈ r.history 4, q ≠ 2 ∧ fingerprint q = fingerprint 2 := by
    rw [hhistory]
    exact ⟨0, by decide, by decide, rfl⟩
  obtain ⟨hsilent, hreport, htotal⟩ := events_report_additions r hno
  obtain ⟨id, hint, hshard, hreports, -⟩ := hreport 4 2 hadds
  have hr (n : Nat) : (r.table n).Reflects (r.ledger n) := table_reflects fun i _ => hno i
  have hslot : id.slot = 1 := by
    have hget := get?_of_gives (gives_of_interned hint) (Nat.lt_succ_self 4)
    rw [((hr 5).parts_of_get? (r.table_wf 5) hget).2.2]
    decide
  obtain ⟨htrace, -, hdebug⟩ := htotal 6
  have hsize : (r.table 6).size = 3 := by
    rw [(hr 6).size]
    decide
  have hfingerprints : ((r.history 6).map fingerprint).toFinset.card = 2 := by decide
  refine ⟨hno, hagain, hsilent 3 hagain, hadds, ?_, htrace.trans hsize, ?_⟩
  · rw [hreports hcollides, hhistory, hslot, hshard]
    rfl
  · omega

end Run

end Interner

end Phrasebook
