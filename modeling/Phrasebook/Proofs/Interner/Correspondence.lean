/-
Ids and patterns correspond one to one over a whole run: an id that was given for a pattern stands for
it in every later table, no other pattern of the run is given the same id, and the patterns that are
found are those that were interned. Shared fingerprints make no difference.
-/
import Phrasebook.Proofs.Interner.Run

namespace Phrasebook.Interner.Run

variable {α β : Type} [DecidableEq α] [Fingerprint α]

theorem gives_of_interned {r : Run α β} {i : Nat} {p : α} {id : PatternId α}
    (h : r.Interned i p id) : r.Gives i p id := by
  obtain ⟨c, hi, hc, ha⟩ := h
  exact ⟨c, hi, .inl ⟨hc, ha⟩⟩

theorem get?_of_gives {r : Run α β} {i n : Nat} {p : α} {id : PatternId α}
    (h : r.Gives i p id) (hn : i < n) : (r.table n).get? id = some p := by
  obtain ⟨c, hi, hc⟩ := h
  have hget : (r.table (i + 1)).get? id = some p := by
    rw [r.table_succ hi]
    exact Interner.get?_of_gives (r.table_wf i) hc
  exact (r.table_extends hn).bound hget

/-- What a table holds was interned before. -/
theorem interned_of_get? {r : Run α β} {p : α} {id : PatternId α} :
    ∀ {n : Nat}, (r.table n).get? id = some p → ∃ i < n, r.Interned i p id
  | 0, h => by
    have h : (empty r.owner).get? id = some p := h
    rw [get?_empty] at h
    cases h
  | n + 1, h => by
    have later (h : (r.table n).get? id = some p) : ∃ i < n + 1, r.Interned i p id := by
      obtain ⟨i, hi, hint⟩ := interned_of_get? h
      exact ⟨i, by omega, hint⟩
    rcases hc : r.calls[n]? with _ | c
    · rw [r.table_succ_none hc] at h
      exact later h
    · rw [r.table_succ hc] at h
      rcases get?_call h with h | ⟨hint, ha⟩
      · exact later h
      · exact ⟨n, by omega, c, hc, hint, ha⟩

/-- Two ids given in a run are equal exactly when their patterns are. -/
theorem gives_eq_iff {r : Run α β} {i j : Nat} {p q : α} {a b : PatternId α}
    (hp : r.Gives i p a) (hq : r.Gives j q b) : a = b ↔ p = q := by
  -- both ids are compared in the first table after the two calls
  have hi : i < max i j + 1 := by omega
  have hj : j < max i j + 1 := by omega
  have ha := get?_of_gives hp hi
  have hb := get?_of_gives hq hj
  constructor
  · rintro rfl
    rw [ha] at hb
    exact Option.some.inj hb
  · rintro rfl
    have hw := r.table_wf (max i j + 1)
    rw [← lookup?_eq_some_iff hw] at ha hb
    rw [ha] at hb
    exact Option.some.inj hb

/-- The patterns found are those that were interned. -/
theorem isSome_lookup?_iff_interned (r : Run α β) (n : Nat) (q : α) :
    ((r.table n).lookup? q).isSome ↔ ∃ i < n, ∃ id, r.Interned i q id := by
  rw [isSome_lookup?_iff (r.table_wf n)]
  constructor
  · rintro ⟨id, h⟩
    obtain ⟨i, hi, hint⟩ := interned_of_get? h
    exact ⟨i, hi, id, hint⟩
  · rintro ⟨i, hi, id, h⟩
    exact ⟨id, get?_of_gives (gives_of_interned h) hi⟩

/-- Without an overflow, every call that interns a pattern is answered by an id. -/
theorem exists_interned_iff {r : Run α β} {i : Nat} {q : α} (h : ¬ r.Overflows i) :
    (∃ id, r.Interned i q id) ↔ ∃ c, r.calls[i]? = some c ∧ c.Interns q := by
  constructor
  · rintro ⟨id, c, hi, hc, -⟩
    exact ⟨c, hi, hc⟩
  · rintro ⟨c, hi, hc⟩
    rcases issued_or_overflow (r.table i) hc with ⟨id, ha⟩ | ho
    · exact ⟨id, c, hi, hc, ha⟩
    · exact absurd ⟨c, hi, ho⟩ h

/-- Ids and patterns correspond one to one over a run, refused calls included. An id given by
interning a pattern resolves to it in every later table and is what the pattern is found under and
interned under again, with nothing changed; two ids given in the run are equal exactly when their
patterns are; and a pattern is found exactly when it was interned before, which in a run without
overflow means that a call to intern it was made. -/
theorem ids_correspond (r : Run α β) :
    (∀ i n p id, i < n → r.Interned i p id →
      (r.table n).contains id = true ∧
      (r.table n).get? id = some p ∧
      (∀ (γ : Type) (f : α → γ), (r.table n).read? id f = some (f p)) ∧
      (r.table n).lookup? p = some id ∧
      ∀ c : Call α β, c.Interns p → (r.table n).call c = ⟨.issued id, r.table n, []⟩) ∧
    (∀ i j p q a b, r.Gives i p a → r.Gives j q b → (a = b ↔ p = q)) ∧
    (∀ n q, ((r.table n).lookup? q).isSome ↔ ∃ i < n, ∃ id, r.Interned i q id) ∧
    (∀ n q, (∀ i < n, ¬ r.Overflows i) →
      (((r.table n).lookup? q).isSome ↔ ∃ i < n, ∃ c, r.calls[i]? = some c ∧ c.Interns q)) := by
  refine ⟨fun i n p id hn h => ?_, fun i j p q a b hp hq => gives_eq_iff hp hq,
    r.isSome_lookup?_iff_interned, fun n q hno => ?_⟩
  · have hget := get?_of_gives (gives_of_interned h) hn
    have hlookup := (lookup?_eq_some_iff (r.table_wf n)).2 hget
    have hcontains := contains_iff_owner.2 (get?_eq_some_iff.1 hget).1
    refine ⟨hcontains, hget, fun γ f => ?_, hlookup, fun c hc => call_of_lookup? hc hlookup⟩
    rw [read?_eq_map, hget]
    rfl
  · rw [r.isSome_lookup?_iff_interned]
    constructor
    · rintro ⟨i, hi, h⟩
      exact ⟨i, hi, (exists_interned_iff (hno i hi)).1 h⟩
    · rintro ⟨i, hi, h⟩
      exact ⟨i, hi, (exists_interned_iff (hno i hi)).2 h⟩

/-- Two patterns with one fingerprint, interned one after the other, keep their own ids. -/
theorem ids_correspond_colliding :
    letI : Fingerprint Bool := ⟨fun _ => 7⟩
    let r : Run Bool Unit := ⟨0, [.intern true, .tryIntern false, .lookup true]⟩
    r.Interned 0 true ⟨0, 0x70000000⟩ ∧ r.Interned 1 false ⟨0, 0x70000001⟩ ∧
    r.Gives 2 true ⟨0, 0x70000000⟩ ∧
    (r.table 3).get? ⟨0, 0x70000000⟩ = some true ∧ (r.table 3).get? ⟨0, 0x70000001⟩ = some false ∧
    ((⟨0, 0x70000000⟩ : PatternId Bool) = ⟨0, 0x70000001⟩ ↔ true = false) := by
  let _ : Fingerprint Bool := ⟨fun _ => 7⟩
  intro r
  have hfirst : (.intern true : Call Bool Unit).Interns true := .inl rfl
  have h₀ : r.Interned 0 true ⟨0, 0x70000000⟩ := by
    have hid : (empty r.owner).nextId true = ⟨0, 0x70000000⟩ := by decide
    exact ⟨.intern true, rfl, .inl rfl, hid ▸ answer_call_empty hfirst r.owner⟩
  have htable : r.table 1 = (empty r.owner).add true :=
    (r.table_succ rfl).trans (congrArg Outcome.table (call_empty hfirst r.owner))
  have hshard : (r.table 1).homeShard false = Shard.empty.push 7 true := by rw [htable]; rfl
  have hnew : (r.table 1).lookup? false = none := by
    rw [← Option.not_isSome_iff_eq_none, ← mem_homeShard_iff (r.table_wf 1), hshard]
    simp [Shard.push, Shard.empty]
  have hroom : (r.table 1).HasRoom false := by
    unfold HasRoom
    rw [hshard]
    decide
  have h₁ : r.Interned 1 false ⟨0, 0x70000001⟩ := by
    have hid : (r.table 1).nextId false = ⟨0, 0x70000001⟩ := by
      unfold nextId
      rw [hshard, htable]
      decide
    refine ⟨.tryIntern false, rfl, .inr rfl, ?_⟩
    rw [call_of_room (.inr rfl) hnew hroom, hid]
  have h₂ : r.Gives 2 true ⟨0, 0x70000000⟩ := by
    have hget := get?_of_gives (gives_of_interned h₀) (by omega : 0 < 2)
    have hlookup := (lookup?_eq_some_iff (r.table_wf 2)).2 hget
    exact ⟨.lookup true, rfl, .inr ⟨rfl, congrArg Answer.found hlookup⟩⟩
  obtain ⟨hkeep, heq, -, -⟩ := ids_correspond r
  exact ⟨h₀, h₁, h₂, (hkeep 0 3 _ _ (by omega) h₀).2.1, (hkeep 1 3 _ _ (by omega) h₁).2.1,
    heq 2 1 _ _ _ _ h₂ (gives_of_interned h₁)⟩

end Phrasebook.Interner.Run
