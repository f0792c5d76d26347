/-
The interner refines a linear scan. Its reference is a ledger: the distinct patterns of a run in the order
in which they first came. In the ledger a pattern is found by comparing it with all others, and its slot
is the number of patterns of its shard that came before it. As long as no shard overflows, the shards of a
table are the ledger split by shard, so that table and ledger give the same answer to every call.
-/
import Phrasebook.Proofs.Interner.Correspondence
import Mathlib.Algebra.Order.BigOperators.Group.Finset

namespace Phrasebook.Interner

variable {α β : Type}

/-! ## Ledgers -/

/-- The pattern that a call interns. -/
def Call.interned? : Call α β → Option α
  | .intern p => some p
  | .tryIntern p => some p
  | _ => none

theorem Call.interned?_eq_some_iff {c : Call α β} {p : α} : c.interned? = some p ↔ c.Interns p := by
  cases c <;> simp [interned?, Interns]

/-- Distinct patterns in the order in which they first came. -/
structure Ledger (α : Type) where
  owner : Owner
  patterns : List α

namespace Ledger

variable [DecidableEq α]

/-- The patterns that came before the given one; all of them if it has not come yet. -/
def earlier (l : Ledger α) (p : α) : List α :=
  l.patterns.takeWhile (· ≠ p)

/-- The ledger after a call. -/
def record (l : Ledger α) (c : Call α β) : Ledger α :=
  match c.interned? with
  | some p => if p ∈ l.patterns then l else { l with patterns := l.patterns ++ [p] }
  | none => l

theorem earlier_append_of_not_mem {l : Ledger α} {p : α} (hp : p ∉ l.patterns) (qs : List α) :
    (Ledger.mk l.owner (l.patterns ++ qs)).earlier p = l.patterns ++ qs.takeWhile (· ≠ p) := by
  unfold earlier
  apply List.takeWhile_append_of_pos
  intro q hq
  simpa using ne_of_mem_of_not_mem hq hp

theorem earlier_of_not_mem {l : Ledger α} {p : α} (hp : p ∉ l.patterns) :
    l.earlier p = l.patterns := by
  simpa using earlier_append_of_not_mem hp []

theorem earlier_append_of_mem {l : Ledger α} {p : α} (hp : p ∈ l.patterns) (qs : List α) :
    (Ledger.mk l.owner (l.patterns ++ qs)).earlier p = l.earlier p := by
  obtain ⟨before, after, hl, hbefore⟩ := List.eq_append_cons_of_mem hp
  have hne : ∀ q ∈ before, decide (q ≠ p) = true := by
    intro q hq
    simpa using ne_of_mem_of_not_mem hq hbefore
  unfold earlier
  simp only [hl, List.append_assoc]
  rw [List.takeWhile_append_of_pos hne, List.takeWhile_append_of_pos hne]
  simp

theorem record_nodup {l : Ledger α} (h : l.patterns.Nodup) (c : Call α β) :
    (l.record c).patterns.Nodup := by
  unfold record
  rcases c.interned? with _ | p
  · exact h
  · simp only
    split
    · exact h
    · rename_i hp
      exact h.append (List.nodup_singleton p) (by simpa using hp)

/-- A call puts a pattern before another only if the other has not come yet. -/
theorem mem_earlier_record {l : Ledger α} {c : Call α β} {p q : α} :
    q ∈ (l.record c).earlier p ↔
      q ∈ l.earlier p ∨ c.interned? = some q ∧ q ≠ p ∧ p ∉ l.patterns := by
  unfold record
  rcases c.interned? with _ | x
  · simp
  · by_cases hp : p ∈ l.patterns
    · -- what comes after `p` is not looked at
      simp only [hp, not_true_eq_false, and_false, or_false]
      split
      · rfl
      · rw [earlier_append_of_mem hp]
    · by_cases hx : x ∈ l.patterns
      · simp only [hx, if_true, earlier_of_not_mem hp, Option.some.injEq]
        constructor
        · exact .inl
        · rintro (hq | ⟨rfl, -, -⟩)
          · exact hq
          · exact hx
      · have htail : [x].takeWhile (· ≠ p) = if x = p then [] else [x] := by
          by_cases hxp : x = p <;> simp [hxp]
        simp only [hx, if_false, earlier_append_of_not_mem hp, earlier_of_not_mem hp, htail,
          List.mem_append, Option.some.injEq]
        grind

variable [Fingerprint α]

/-- The number of patterns of the same shard that came before. -/
def slot (l : Ledger α) (p : α) : Nat :=
  (l.earlier p).countP fun q => shardOf (fingerprint q) = shardOf (fingerprint p)

def idOf (l : Ledger α) (p : α) : PatternId α :=
  .pack l.owner (shardOf (fingerprint p)) (l.slot p)

def lookup? (l : Ledger α) (p : α) : Option (PatternId α) :=
  if p ∈ l.patterns then some (l.idOf p) else none

def get? (l : Ledger α) (id : PatternId α) : Option α :=
  l.patterns.find? fun p => l.idOf p = id

/-- The answer to a call by a scan of the ledger, for shards without a limit. -/
def answer (l : Ledger α) : Call α β → Answer α β
  | .intern p => .issued (l.idOf p)
  | .tryIntern p => .issued (l.idOf p)
  | .lookup p => .found (l.lookup? p)
  | .get id => .pattern (l.get? id)
  | .read id f => .result ((l.get? id).map f)
  | .contains id => .contained (id.owner == l.owner)
  | .size => .size l.patterns.length

end Ledger

/-! ## The ledger of a run -/

namespace Run

/-- Step `i` is a call to intern `p`. -/
def Asks (r : Run α β) (i : Nat) (p : α) : Prop :=
  ∃ c, r.calls[i]? = some c ∧ c.Interns p

theorem asks_iff {r : Run α β} {i : Nat} {c : Call α β} {p : α} (h : r.calls[i]? = some c) :
    r.Asks i p ↔ c.interned? = some p := by
  unfold Asks
  rw [h, Call.interned?_eq_some_iff]
  simp

theorem asks_unique {r : Run α β} {i : Nat} {p q : α} (hp : r.Asks i p) (hq : r.Asks i q) : p = q := by
  have ⟨c, hc, _⟩ := hp
  rw [asks_iff hc] at hp hq
  rw [hp] at hq
  exact Option.some.inj hq

variable [DecidableEq α]

/-- The distinct patterns that the first `n` calls intern, in the order in which they first come. -/
def history (r : Run α β) (n : Nat) : List α :=
  ((r.calls.take n).filterMap Call.interned?).eraseDups

def ledger (r : Run α β) (n : Nat) : Ledger α :=
  ⟨r.owner, r.history n⟩

theorem eraseDups_append_singleton (l : List α) (p : α) :
    (l ++ [p]).eraseDups = l.eraseDups ++ if p ∈ l then [] else [p] := by
  rw [List.eraseDups_append]
  by_cases hp : p ∈ l <;> simp [List.removeAll, List.eraseDups_cons, hp]

theorem ledger_succ (r : Run α β) {n : Nat} {c : Call α β} (h : r.calls[n]? = some c) :
    r.ledger (n + 1) = (r.ledger n).record c := by
  unfold ledger Ledger.record history
  rw [List.take_add_one, h, Option.toList_some, List.filterMap_append]
  rcases hc : c.interned? with _ | p
  · simp [hc]
  · rw [List.filterMap_cons_some hc, List.filterMap_nil, eraseDups_append_singleton]
    simp only [List.mem_eraseDups]
    split <;> simp

theorem ledger_succ_none (r : Run α β) {n : Nat} (h : r.calls[n]? = none) :
    r.ledger (n + 1) = r.ledger n := by
  unfold ledger history
  rw [List.take_add_one, h, Option.toList_none, List.append_nil]

theorem nodup_history (r : Run α β) (n : Nat) : (r.history n).Nodup := by
  show (r.ledger n).patterns.Nodup
  induction n with
  | zero => exact List.nodup_nil
  | succ n ih =>
    rcases hc : r.calls[n]? with _ | c
    · rw [r.ledger_succ_none hc]
      exact ih
    · rw [r.ledger_succ hc]
      exact Ledger.record_nodup ih c

theorem mem_history_iff {r : Run α β} {n : Nat} {q : α} : q ∈ r.history n ↔ ∃ i < n, r.Asks i q := by
  unfold history
  rw [List.mem_eraseDups, List.mem_filterMap]
  simp only [Call.interned?_eq_some_iff]
  constructor
  · rintro ⟨c, hc, hq⟩
    obtain ⟨i, hi⟩ := List.mem_iff_getElem?.1 hc
    rw [List.getElem?_take] at hi
    split at hi
    · rename_i hlt
      exact ⟨i, hlt, c, hi, hq⟩
    · cases hi
  · rintro ⟨i, hi, c, hc, hq⟩
    refine ⟨c, List.mem_iff_getElem?.2 ⟨i, ?_⟩, hq⟩
    rw [List.getElem?_take, if_pos hi]
    exact hc

theorem mem_earlier_succ {r : Run α β} {n : Nat} {p q : α} :
    q ∈ (r.ledger (n + 1)).earlier p ↔
      q ∈ (r.ledger n).earlier p ∨ r.Asks n q ∧ q ≠ p ∧ p ∉ r.history n := by
  rcases hc : r.calls[n]? with _ | c
  · simp [r.ledger_succ_none hc, Asks, hc]
  · rw [r.ledger_succ hc, Ledger.mem_earlier_record, asks_iff hc]
    rfl

/-- A pattern comes before another in the ledger exactly when a call to intern it was made before any
call to intern the other. -/
theorem mem_earlier_iff {r : Run α β} {n : Nat} {p q : α} :
    q ∈ (r.ledger n).earlier p ↔ ∃ i < n, r.Asks i q ∧ ∀ j ≤ i, ¬ r.Asks j p := by
  induction n with
  | zero => simp [ledger, history, Ledger.earlier]
  | succ n ih =>
    rw [mem_earlier_succ, ih, mem_history_iff]
    constructor
    · rintro (⟨i, hi, h⟩ | ⟨hq, hne, hp⟩)
      · exact ⟨i, by omega, h⟩
      · refine ⟨n, by omega, hq, fun j hj hpj => ?_⟩
        rcases Nat.lt_or_eq_of_le hj with hlt | rfl
        · exact hp ⟨j, hlt, hpj⟩
        · exact hne (asks_unique hq hpj)
    · rintro ⟨i, hi, hq, hp⟩
      by_cases hlt : i < n
      · exact .inl ⟨i, hlt, hq, hp⟩
      · obtain rfl : i = n := by omega
        refine .inr ⟨hq, ?_, ?_⟩
        · rintro rfl
          exact hp i le_rfl hq
        · rintro ⟨j, hj, hpj⟩
          exact hp j (by omega) hpj

end Run

/-! ## Tables and ledgers -/

/-- In a list without repetitions, the position of an element among those of its kind is the number of
its kind before it. -/
theorem countP_takeWhile_of_getElem? [DecidableEq α] {f : α → Bool} {p : α} {h : List α} {k : Nat}
    (hnd : (h.filter f).Nodup) (hk : (h.filter f)[k]? = some p) :
    (h.takeWhile (· ≠ p)).countP f = k := by
  induction h generalizing k with
  | nil => simp at hk
  | cons q h ih =>
    have hp : f p = true := (List.mem_filter.1 (List.mem_of_getElem? hk)).2
    by_cases hq : f q = true
    · rw [List.filter_cons_of_pos hq] at hnd hk
      cases k with
      | zero =>
        obtain rfl : q = p := by simpa using hk
        simp
      | succ k =>
        rw [List.getElem?_cons_succ] at hk
        have hne : q ≠ p := by
          rintro rfl
          exact (List.nodup_cons.1 hnd).1 (List.mem_of_getElem? hk)
        rw [List.takeWhile_cons_of_pos (by simpa using hne), List.countP_cons_of_pos hq,
          ih (List.nodup_cons.1 hnd).2 hk]
    · rw [List.filter_cons_of_neg hq] at hnd hk
      have hne : q ≠ p := by
        rintro rfl
        exact hq hp
      rw [List.takeWhile_cons_of_pos (by simpa using hne), List.countP_cons_of_neg hq, ih hnd hk]

variable [Fingerprint α]

/-- A table reflects a ledger: each shard holds the ledger's patterns of that shard, in its order. -/
structure Reflects (t : Interner α) (l : Ledger α) : Prop where
  owner : t.owner = l.owner
  patterns : ∀ i : ShardIndex,
    (t.shards.get i).patterns.toList = l.patterns.filter fun q => shardOf (fingerprint q) = i
  size : t.size = l.patterns.length

theorem empty_reflects (owner : Owner) : (empty owner : Interner α).Reflects ⟨owner, []⟩ := by
  refine ⟨rfl, fun i => ?_, rfl⟩
  simp [Shard.empty]

variable {t : Interner α} {l : Ledger α}

theorem Reflects.add (hr : t.Reflects l) (p : α) :
    (t.add p).Reflects { l with patterns := l.patterns ++ [p] } := by
  refine ⟨hr.owner, fun i => ?_, ?_⟩
  · rw [shards_add, List.filter_append, ← hr.patterns]
    by_cases hi : shardOf (fingerprint p) = i
    · subst hi
      simp [Shard.push, homeShard_eq]
    · simp [hi]
  · rw [size_add, hr.size, List.length_append]
    rfl

variable [DecidableEq α]

theorem Reflects.isSome_lookup?_iff (hr : t.Reflects l) (hw : t.WF) {p : α} :
    (t.lookup? p).isSome ↔ p ∈ l.patterns := by
  rw [← mem_homeShard_iff hw, ← Array.mem_toList_iff, homeShard_eq rfl, hr.patterns]
  simp

theorem Reflects.lookup?_eq_none_iff (hr : t.Reflects l) (hw : t.WF) {p : α} :
    t.lookup? p = none ↔ p ∉ l.patterns := by
  rw [← hr.isSome_lookup?_iff hw]
  simp

theorem Reflects.parts_of_get? (hr : t.Reflects l) (hw : t.WF) {p : α} {id : PatternId α}
    (h : t.get? id = some p) :
    id.owner = l.owner ∧ id.shard = shardOf (fingerprint p) ∧ id.slot = l.slot p := by
  obtain ⟨howner, hslot⟩ := Interner.get?_eq_some_iff.1 h
  have hs := hw.shards id.shard
  have hshard : shardOf (fingerprint p) = id.shard := hs.home p (Array.mem_of_getElem? hslot)
  have hnd := hs.nodup
  rw [← Array.getElem?_toList, hr.patterns] at hslot
  rw [hr.patterns] at hnd
  refine ⟨howner.trans hr.owner, hshard.symm, ?_⟩
  unfold Ledger.slot Ledger.earlier
  rw [hshard]
  exact (countP_takeWhile_of_getElem? hnd hslot).symm

theorem Reflects.idOf_of_get? (hr : t.Reflects l) (hw : t.WF) {p : α} {id : PatternId α}
    (h : t.get? id = some p) : l.idOf p = id := by
  obtain ⟨howner, hshard, hslot⟩ := hr.parts_of_get? hw h
  unfold Ledger.idOf
  rw [← howner, ← hshard, ← hslot, PatternId.pack_parts]

/-- A table binds the ids that the ledger gives to its patterns, and no others. -/
theorem Reflects.get?_eq_some_iff (hr : t.Reflects l) (hw : t.WF) {p : α} {id : PatternId α} :
    t.get? id = some p ↔ p ∈ l.patterns ∧ l.idOf p = id := by
  constructor
  · intro h
    refine ⟨?_, hr.idOf_of_get? hw h⟩
    rw [← hr.isSome_lookup?_iff hw, Interner.isSome_lookup?_iff hw]
    exact ⟨id, h⟩
  · rintro ⟨hp, rfl⟩
    rw [← hr.isSome_lookup?_iff hw, Interner.isSome_lookup?_iff hw] at hp
    obtain ⟨id, hid⟩ := hp
    rw [hr.idOf_of_get? hw hid]
    exact hid

theorem Reflects.nextId_eq (hr : t.Reflects l) {p : α} (hp : p ∉ l.patterns) :
    t.nextId p = l.idOf p := by
  have hsize : (t.homeShard p).patterns.size = l.slot p := by
    unfold Ledger.slot
    rw [Ledger.earlier_of_not_mem hp, List.countP_eq_length_filter, ← hr.patterns, Array.length_toList, homeShard_eq rfl]
  unfold nextId Ledger.idOf
  rw [hsize, hr.owner]

/-! ## One call -/

theorem Reflects.lookup?_eq (hr : t.Reflects l) (hw : t.WF) (p : α) : t.lookup? p = l.lookup? p := by
  unfold Ledger.lookup?
  by_cases hp : p ∈ l.patterns
  · rw [if_pos hp, lookup?_eq_some_iff hw, hr.get?_eq_some_iff hw]
    exact ⟨hp, rfl⟩
  · rw [if_neg hp, hr.lookup?_eq_none_iff hw]
    exact hp

theorem Reflects.get?_eq (hr : t.Reflects l) (hw : t.WF) (id : PatternId α) :
    t.get? id = l.get? id := by
  rcases hl : l.get? id with _ | p
  · rw [Option.eq_none_iff_forall_ne_some]
    intro p hp
    obtain ⟨hmem, hid⟩ := (hr.get?_eq_some_iff hw).1 hp
    exact absurd (by simpa using hid) (List.find?_eq_none.1 hl p hmem)
  · rw [hr.get?_eq_some_iff hw]
    exact ⟨List.mem_of_find?_eq_some hl, by simpa using List.find?_some hl⟩

theorem call_of_interned?_none {c : Call α β} (h : c.interned? = none) :
    (t.call c).table = t ∧ ¬ (t.call c).answer.IsOverflow := by
  cases c with
  | intern p => cases h
  | tryIntern p => cases h
  | _ =>
    refine ⟨rfl, ?_⟩
    rintro ⟨e, he | he⟩ <;> cases he

/-- A call without overflow leads from a table and its ledger to a table and its ledger. -/
theorem Reflects.call (hr : t.Reflects l) (hw : t.WF) {c : Call α β}
    (hno : ¬ (t.call c).answer.IsOverflow) : (t.call c).table.Reflects (l.record c) := by
  unfold Ledger.record
  rcases hc : c.interned? with _ | p
  · rw [(call_of_interned?_none hc).1]
    exact hr
  · have hint := Call.interned?_eq_some_iff.1 hc
    simp only
    by_cases hp : p ∈ l.patterns
    · obtain ⟨id, hid⟩ := Option.isSome_iff_exists.1 ((hr.isSome_lookup?_iff hw).2 hp)
      rw [if_pos hp, call_of_lookup? hint hid]
      exact hr
    · have hnone := (hr.lookup?_eq_none_iff hw).2 hp
      by_cases hroom : t.HasRoom p
      · rw [if_neg hp, call_of_room hint hnone hroom]
        exact hr.add p
      · obtain ⟨a, ha, hcall⟩ := call_of_full hint hnone hroom
        rw [hcall] at hno
        exact absurd ha hno

theorem Reflects.issued (hr : t.Reflects l) (hw : t.WF) {c : Call α β} {p : α} (hc : c.Interns p)
    (hno : ¬ (t.call c).answer.IsOverflow) : (t.call c).answer = .issued (l.idOf p) := by
  rcases hl : t.lookup? p with _ | id
  · by_cases hroom : t.HasRoom p
    · rw [call_of_room hc hl hroom, hr.nextId_eq ((hr.lookup?_eq_none_iff hw).1 hl)]
    · obtain ⟨a, ha, hcall⟩ := call_of_full hc hl hroom
      rw [hcall] at hno
      exact absurd ha hno
  · rw [call_of_lookup? hc hl, hr.idOf_of_get? hw ((lookup?_eq_some_iff hw).1 hl)]

/-- Table and ledger give the same answer to every call that does not overflow. -/
theorem Reflects.answer_eq (hr : t.Reflects l) (hw : t.WF) (c : Call α β)
    (hno : ¬ (t.call c).answer.IsOverflow) : (t.call c).answer = l.answer c := by
  cases c with
  | intern p => exact hr.issued hw (.inl rfl) hno
  | tryIntern p => exact hr.issued hw (.inr rfl) hno
  | lookup p => exact congrArg Answer.found (hr.lookup?_eq hw p)
  | get id => exact congrArg Answer.pattern (hr.get?_eq hw id)
  | read id f =>
    show Answer.result (t.read? id f) = Answer.result ((l.get? id).map f)
    rw [read?_eq_map, hr.get?_eq hw]
  | contains id =>
    show Answer.contained (id.owner == t.owner) = Answer.contained (id.owner == l.owner)
    rw [hr.owner]
  | size => exact congrArg Answer.size hr.size

/-- A call overflows only if it interns a pattern whose shard is full. -/
theorem not_hasRoom_of_overflow {c : Call α β} (h : (t.call c).answer.IsOverflow) :
    ∃ p, c.Interns p ∧ ¬ t.HasRoom p := by
  rcases hc : c.interned? with _ | p
  · exact absurd h (call_of_interned?_none hc).2
  · have hint := Call.interned?_eq_some_iff.1 hc
    refine ⟨p, hint, fun hroom => ?_⟩
    obtain ⟨e, he⟩ := h
    rcases hl : t.lookup? p with _ | id
    · rw [call_of_room hint hl hroom] at he
      rcases he with he | he <;> cases he
    · rw [call_of_lookup? hint hl] at he
      rcases he with he | he <;> cases he

theorem size_call_le (t : Interner α) (c : Call α β) : (t.call c).table.size ≤ t.size + 1 := by
  rcases call_cases t c with ⟨a, h⟩ | ⟨p, -, -, -, h⟩
  · rw [h]
    exact Nat.le_succ t.size
  · rw [h]
    exact le_refl (t.size + 1)

/-! ## Runs -/

namespace Run

theorem table_reflects {r : Run α β} {n : Nat} (hno : ∀ i < n, ¬ r.Overflows i) :
    (r.table n).Reflects (r.ledger n) := by
  induction n with
  | zero => exact empty_reflects r.owner
  | succ n ih =>
    have hr := ih fun i hi => hno i (by omega)
    rcases hc : r.calls[n]? with _ | c
    · rw [r.table_succ_none hc, r.ledger_succ_none hc]
      exact hr
    · rw [r.table_succ hc, r.ledger_succ hc]
      exact hr.call (r.table_wf n) fun ho => hno n (by omega) ⟨c, hc, ho⟩

/-- A call to intern a pattern is answered by the id that the ledger has for it. -/
theorem interned_idOf {r : Run α β} {i : Nat} {p : α} (hno : ∀ j ≤ i, ¬ r.Overflows j) (h : r.Asks i p) :
    r.Interned i p ((r.ledger i).idOf p) := by
  obtain ⟨c, hc, hint⟩ := h
  have hr : (r.table i).Reflects (r.ledger i) := table_reflects fun j hj => hno j hj.le
  exact ⟨c, hc, hint, hr.issued (r.table_wf i) hint fun ho => hno i (le_refl i) ⟨c, hc, ho⟩⟩

theorem size_table_le (r : Run α β) (n : Nat) : (r.table n).size ≤ n := by
  induction n with
  | zero => exact le_refl 0
  | succ n ih =>
    rcases hc : r.calls[n]? with _ | c
    · rw [r.table_succ_none hc]
      omega
    · rw [r.table_succ hc]
      exact (size_call_le _ c).trans (by omega)

/-- No shard overflows in a run with at most as many calls as a shard has slots. -/
theorem not_overflows_of_length_le {r : Run α β} (h : r.calls.length ≤ maxSlot + 1) (i : Nat) :
    ¬ r.Overflows i := by
  rintro ⟨c, hc, ho⟩
  obtain ⟨p, -, hfull⟩ := not_hasRoom_of_overflow ho
  have hlt : i < r.calls.length := (List.getElem?_eq_some_iff.1 hc).1
  have hshard : ((r.table i).homeShard p).patterns.size ≤ (r.table i).size := by
    rw [(r.table_wf i).size]
    exact Finset.single_le_sum (f := fun j => ((r.table i).shards.get j).patterns.size)
      (fun _ _ => Nat.zero_le _) (Finset.mem_univ _)
  have hsize := r.size_table_le i
  unfold HasRoom at hfull
  omega

/-- Ids and counts of a run are those of a linear scan over its distinct patterns. In a run without
overflow, the id of a pattern names the interner, the shard of its fingerprint, and as slot the number of
distinct patterns of the same shard that were interned before it first was; the size is the number of
distinct patterns interned so far; and every call is answered as the ledger answers it. The ledger lists
each pattern that was interned once, in the order of the first calls to intern them. -/
theorem ids_count_history (r : Run α β) (hno : ∀ i, ¬ r.Overflows i) :
    (∀ i n p id, i < n → r.Gives i p id →
      id.owner = r.owner ∧
      id.shard.val = (fingerprint p).toNat % 16 ∧
      id.slot = ((r.ledger n).earlier p).countP
        fun q => (fingerprint q).toNat % 16 = (fingerprint p).toNat % 16) ∧
    (∀ n, (r.table n).size = (r.history n).length ∧
      ((r.table n).isEmpty = true ↔ r.history n = [])) ∧
    (∀ i c, r.calls[i]? = some c → ((r.table i).call c).answer = (r.ledger i).answer c) ∧
    (∀ n, (r.ledger n).patterns.Nodup ∧
      (∀ q, q ∈ (r.ledger n).patterns ↔ ∃ i < n, r.Asks i q) ∧
      ∀ p q, q ∈ (r.ledger n).earlier p ↔ ∃ i < n, r.Asks i q ∧ ∀ j ≤ i, ¬ r.Asks j p) := by
  have hr (n : Nat) : (r.table n).Reflects (r.ledger n) := table_reflects fun i _ => hno i
  refine ⟨fun i n p id hn h => ?_, fun n => ⟨(hr n).size, ?_⟩, fun i c hc => ?_,
    fun n => ⟨r.nodup_history n, fun q => mem_history_iff, fun p q => mem_earlier_iff⟩⟩
  · obtain ⟨howner, hshard, hslot⟩ := (hr n).parts_of_get? (r.table_wf n) (get?_of_gives h hn)
    refine ⟨howner, congrArg Fin.val hshard, ?_⟩
    rw [hslot]
    unfold Ledger.slot shardOf
    simp only [Fin.mk.injEq]
    rfl
  · unfold isEmpty
    rw [beq_iff_eq, (hr n).size, List.length_eq_zero_iff]
    rfl
  · exact (hr i).answer_eq (r.table_wf i) c fun ho => hno i ⟨c, hc, ho⟩

/-- Two shards and one shared fingerprint: the third pattern is the second of its shard, however often
the others are interned or looked up in between. -/
theorem ids_count_history_interleaved :
    letI : Fingerprint Nat := ⟨fun n => if n = 1 then 3 else 7⟩
    let r : Run Nat Unit := ⟨5, [.intern 0, .tryIntern 1, .lookup 2, .intern 0, .intern 2, .size]⟩
    (∀ i, ¬ r.Overflows i) ∧ r.Gives 4 2 ⟨5, 0x70000001⟩ ∧ r.history 6 = [0, 1, 2] ∧
      (⟨5, 0x70000001⟩ : PatternId Nat).shard.val = 7 ∧
      (⟨5, 0x70000001⟩ : PatternId Nat).slot = 1 ∧
      (r.table 6).size = 3 := by
  let _ : Fingerprint Nat := ⟨fun n => if n = 1 then 3 else 7⟩
  intro r
  have hno (i : Nat) : ¬ r.Overflows i := not_overflows_of_length_le (by decide) i
  have hgives : r.Gives 4 2 ⟨5, 0x70000001⟩ := by
    have hid : (r.ledger 4).idOf 2 = ⟨5, 0x70000001⟩ := by decide
    rw [← hid]
    exact gives_of_interned (interned_idOf (fun i _ => hno i) ⟨.intern 2, rfl, .inl rfl⟩)
  have hhistory : r.history 6 = [0, 1, 2] := by decide
  obtain ⟨hids, hcount, -, -⟩ := ids_count_history r hno
  obtain ⟨-, hshard, hslot⟩ := hids 4 6 2 _ (by omega) hgives
  refine ⟨hno, hgives, hhistory, hshard, ?_, ?_⟩
  · rw [hslot]
    unfold ledger Ledger.earlier
    rw [hhistory]
    decide
  · rw [(hcount 6).1, hhistory]
    rfl

end Run

end Phrasebook.Interner
