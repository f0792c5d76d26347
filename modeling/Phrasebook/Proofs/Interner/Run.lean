/-
Runs of an interner: calls of any kind made one after the other on a table that starts without patterns.
Every table of a run satisfies the invariant, also after calls that were refused, and each table extends
those before it: an id keeps what it was bound to.
-/
import Phrasebook.Interner.Call
import Phrasebook.Proofs.Interner.Invariant
import Phrasebook.Proofs.Trace

namespace Phrasebook.Interner

variable {α β : Type}

/-! ## One call -/

/-- Whether a call interns a pattern, with or without handling a refusal. -/
def Call.Interns (c : Call α β) (p : α) : Prop :=
  c = .intern p ∨ c = .tryIntern p

/-- Whether a call gives the id of a pattern, by interning it or by finding it. -/
def Call.Gives (c : Call α β) (a : Answer α β) (p : α) (id : PatternId α) : Prop :=
  c.Interns p ∧ a = .issued id ∨ c = .lookup p ∧ a = .found (some id)

/-- Whether an answer says that the shard was full. -/
def Answer.IsOverflow (a : Answer α β) : Prop :=
  ∃ e, a = .refused e ∨ a = .aborted e

/-- `u` extends `t`: the same interner, with every id of `t` bound as in `t`. -/
structure Extends (t u : Interner α) : Prop where
  owner : u.owner = t.owner
  bound : ∀ {id p}, t.get? id = some p → u.get? id = some p

theorem Extends.refl (t : Interner α) : t.Extends t :=
  ⟨rfl, fun h => h⟩

theorem Extends.trans {t u v : Interner α} (h : t.Extends u) (h' : u.Extends v) : t.Extends v :=
  ⟨h'.owner.trans h.owner, fun hp => h'.bound (h.bound hp)⟩

variable [DecidableEq α] [Fingerprint α]

theorem call_of_lookup? {t : Interner α} {c : Call α β} {p : α} {id : PatternId α} (hc : c.Interns p)
    (h : t.lookup? p = some id) : t.call c = ⟨.issued id, t, []⟩ := by
  rcases hc with rfl | rfl <;> simp only [call, tryIntern_of_lookup? h]

theorem call_of_room {t : Interner α} {c : Call α β} {p : α} (hc : c.Interns p)
    (h : t.lookup? p = none) (hr : t.HasRoom p) :
    t.call c = ⟨.issued (t.nextId p), t.add p, additionEvents (t.homeShard p) (fingerprint p)⟩ := by
  rcases hc with rfl | rfl <;> simp only [call, tryIntern_of_room h hr]

theorem call_of_full {t : Interner α} {c : Call α β} {p : α} (hc : c.Interns p)
    (h : t.lookup? p = none) (hr : ¬ t.HasRoom p) :
    ∃ a : Answer α β, a.IsOverflow ∧ t.call c = t.observe a := by
  rcases hc with rfl | rfl
  · exact ⟨.aborted _, ⟨_, .inr rfl⟩, by simp only [call, tryIntern_of_full h hr]; rfl⟩
  · exact ⟨.refused _, ⟨_, .inl rfl⟩, by simp only [call, tryIntern_of_full h hr]; rfl⟩

theorem lookup?_empty (owner : Owner) (p : α) : (empty owner).lookup? p = none := by
  rcases h : (empty owner).lookup? p with _ | id
  · rfl
  · have hget := (lookup?_eq_some_iff (empty_wf owner)).1 h
    rw [get?_empty] at hget
    cases hget

/-- The first call to intern a pattern adds it. -/
theorem call_empty {c : Call α β} {p : α} (hc : c.Interns p) (owner : Owner) :
    (empty owner).call c = ⟨.issued ((empty owner).nextId p), (empty owner).add p,
      additionEvents ((empty owner).homeShard p) (fingerprint p)⟩ := by
  have hroom : (empty owner).HasRoom p := by
    simp [HasRoom, homeShard, Shard.empty]
  exact call_of_room hc (lookup?_empty owner p) hroom

theorem answer_call_empty {c : Call α β} {p : α} (hc : c.Interns p) (owner : Owner) :
    ((empty owner).call c).answer = .issued ((empty owner).nextId p) :=
  congrArg Outcome.answer (call_empty hc owner)

/-- What a call can do: it only reads, or it adds one pattern that was not there. -/
theorem call_cases (t : Interner α) (c : Call α β) :
    (∃ a, t.call c = t.observe a) ∨
    ∃ p, c.Interns p ∧ t.lookup? p = none ∧ t.HasRoom p ∧
      t.call c = ⟨.issued (t.nextId p), t.add p, additionEvents (t.homeShard p) (fingerprint p)⟩ := by
  by_cases hc : ∃ p, c.Interns p
  · obtain ⟨p, hc⟩ := hc
    rcases h : t.lookup? p with _ | id
    · by_cases hr : t.HasRoom p
      · exact .inr ⟨p, hc, h, hr, call_of_room hc h hr⟩
      · obtain ⟨a, -, ha⟩ := call_of_full hc h hr
        exact .inl ⟨a, ha⟩
    · exact .inl ⟨.issued id, call_of_lookup? hc h⟩
  · left
    cases c with
    | intern p => exact absurd ⟨p, .inl rfl⟩ hc
    | tryIntern p => exact absurd ⟨p, .inr rfl⟩ hc
    | lookup p => exact ⟨_, rfl⟩
    | get id => exact ⟨_, rfl⟩
    | read id f => exact ⟨_, rfl⟩
    | contains id => exact ⟨_, rfl⟩
    | size => exact ⟨_, rfl⟩

theorem call_wf {t : Interner α} (hw : t.WF) (c : Call α β) : (t.call c).table.WF := by
  rcases call_cases t c with ⟨a, h⟩ | ⟨p, -, hn, hr, h⟩
  · rw [h]; exact hw
  · rw [h]
    refine add_wf hw (fun hp => ?_) hr
    rw [mem_homeShard_iff hw, hn] at hp
    cases hp

theorem call_extends (t : Interner α) (c : Call α β) : t.Extends (t.call c).table := by
  rcases call_cases t c with ⟨a, h⟩ | ⟨p, -, -, hr, h⟩
  · rw [h]; exact .refl t
  · rw [h]; exact ⟨rfl, fun hp => (get?_add hr).2 (.inl hp)⟩

/-- An id that a call gives for a pattern was found in the table, or is the next one, under which the call has
added the pattern. -/
theorem lookup?_or_add_of_gives {t : Interner α} {c : Call α β} {p : α} {id : PatternId α}
    (h : c.Gives (t.call c).answer p id) :
    t.lookup? p = some id ∨
      t.lookup? p = none ∧ t.HasRoom p ∧ id = t.nextId p ∧ (t.call c).table = t.add p := by
  rcases h with ⟨hc, ha⟩ | ⟨rfl, ha⟩
  · rcases hl : t.lookup? p with _ | id'
    · by_cases hr : t.HasRoom p
      · rw [call_of_room hc hl hr] at ha ⊢
        cases ha
        exact .inr ⟨rfl, hr, rfl, rfl⟩
      · obtain ⟨a, ⟨e, he⟩, hcall⟩ := call_of_full hc hl hr
        rw [hcall] at ha
        rcases he with rfl | rfl <;> cases ha
    · rw [call_of_lookup? hc hl] at ha
      cases ha
      exact .inl rfl
  · exact .inl (Answer.found.inj ha)

/-- An id that a call gives for a pattern is bound to the pattern from then on. -/
theorem get?_of_gives {t : Interner α} (hw : t.WF) {c : Call α β} {p : α} {id : PatternId α}
    (h : c.Gives (t.call c).answer p id) : (t.call c).table.get? id = some p := by
  rcases lookup?_or_add_of_gives h with hl | ⟨-, hr, rfl, htable⟩
  · exact (call_extends t c).bound ((lookup?_eq_some_iff hw).1 hl)
  · rw [htable]
    exact get?_nextId_add hr

/-- A pattern that is bound after a call was bound before, or the call interned it. -/
theorem get?_call {t : Interner α} {c : Call α β} {p : α} {id : PatternId α}
    (h : (t.call c).table.get? id = some p) :
    t.get? id = some p ∨ c.Interns p ∧ (t.call c).answer = .issued id := by
  rcases call_cases t c with ⟨a, ha⟩ | ⟨q, hc, -, hr, ha⟩
  · rw [ha] at h; exact .inl h
  · rw [ha] at h ⊢
    rcases (get?_add hr).1 h with h | ⟨rfl, rfl⟩
    · exact .inl h
    · exact .inr ⟨hc, rfl⟩

/-- A call that interns a pattern answers with an id or reports an overflow. -/
theorem issued_or_overflow (t : Interner α) {c : Call α β} {p : α} (hc : c.Interns p) :
    (∃ id, (t.call c).answer = .issued id) ∨ (t.call c).answer.IsOverflow := by
  rcases hl : t.lookup? p with _ | id
  · by_cases hr : t.HasRoom p
    · rw [call_of_room hc hl hr]; exact .inl ⟨_, rfl⟩
    · obtain ⟨a, ha, hcall⟩ := call_of_full hc hl hr
      rw [hcall]; exact .inr ha
  · rw [call_of_lookup? hc hl]; exact .inl ⟨_, rfl⟩

/-! ## Runs -/

/-- Calls made one after the other on an interner that starts without patterns. -/
structure Run (α β : Type) where
  owner : Owner
  calls : List (Call α β)

namespace Run

/-- The table after the first `n` calls. -/
def table (r : Run α β) (n : Nat) : Interner α :=
  Trace.state (fun t c => (t.call c).table) (.empty r.owner) r.calls n

/-- What step `i` leads to. -/
def outcome? (r : Run α β) (i : Nat) : Option (Outcome α β) :=
  r.calls[i]?.map (r.table i).call

/-- At step `i` the pattern `p` was interned, and the answer was `id`. -/
def Interned (r : Run α β) (i : Nat) (p : α) (id : PatternId α) : Prop :=
  ∃ c, r.calls[i]? = some c ∧ c.Interns p ∧ ((r.table i).call c).answer = .issued id

/-- At step `i` the id of `p` was given, by interning it or by looking it up. -/
def Gives (r : Run α β) (i : Nat) (p : α) (id : PatternId α) : Prop :=
  ∃ c, r.calls[i]? = some c ∧ c.Gives ((r.table i).call c).answer p id

/-- At step `i` a shard was full. -/
def Overflows (r : Run α β) (i : Nat) : Prop :=
  ∃ c, r.calls[i]? = some c ∧ ((r.table i).call c).answer.IsOverflow

theorem table_succ (r : Run α β) {n : Nat} {c : Call α β} (h : r.calls[n]? = some c) :
    r.table (n + 1) = ((r.table n).call c).table :=
  Trace.state_succ h

theorem table_succ_none (r : Run α β) {n : Nat} (h : r.calls[n]? = none) :
    r.table (n + 1) = r.table n :=
  Trace.state_succ_none h

theorem table_wf (r : Run α β) (n : Nat) : (r.table n).WF :=
  Trace.state_invariant (empty_wf r.owner) (fun _ c hw => call_wf hw c) n

theorem table_extends (r : Run α β) {m n : Nat} (h : m ≤ n) : (r.table m).Extends (r.table n) :=
  Trace.state_related Extends.refl Extends.trans call_extends h

/-- The three structures of a table agree after every call, whatever was refused: in each shard every
bucket belongs to the shard and lists, in ascending order, slots of patterns with its fingerprint; every
slot is listed once and in one bucket only; the patterns differ from each other and fit into the slots;
and the counter is the number of patterns. -/
theorem table_consistent (r : Run α β) (n : Nat) :
    (∀ i : ShardIndex,
      let s := (r.table n).shards.get i
      (∀ (fp : UInt64) (slots : List Nat), s.buckets[fp]? = some slots →
        fp.toNat % 16 = i ∧ slots ≠ [] ∧ slots.Pairwise (· < ·) ∧
          ∀ k ∈ slots, ∃ hk : k < s.patterns.size, fingerprint s.patterns[k] = fp) ∧
      (∀ k < s.patterns.size, ∃ (fp : UInt64) (slots : List Nat), s.buckets[fp]? = some slots ∧
        slots.count k = 1 ∧ ∀ fp' slots', s.buckets[fp']? = some slots' → k ∈ slots' → fp' = fp) ∧
      s.patterns.toList.Pairwise (· ≠ ·) ∧
      s.patterns.size ≤ 2 ^ 28) ∧
    (r.table n).size = ∑ i : ShardIndex, ((r.table n).shards.get i).patterns.size := by
  have hw := r.table_wf n
  refine ⟨fun i => ?_, hw.size⟩
  have hs := hw.shards i
  refine ⟨fun fp slots h => ?_, fun k hk => hs.slot_listed hk, hs.nodup, ?_⟩
  · obtain ⟨hi, hrest⟩ := hs.bucket_spec h
    exact ⟨congrArg Fin.val hi, hrest⟩
  · have := hs.bound
    rw [PatternId.maxSlot_eq] at this
    omega

end Run

end Phrasebook.Interner
