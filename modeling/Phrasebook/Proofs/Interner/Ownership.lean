/-
Where an id resolves. The interners of a process are numbered in the order in which they are made, those of
all types of pattern in one series. An id resolves behind every handle to the interner that issued it. Behind
a handle to another interner it is unknown, unless the numbers of the two agree modulo 2^32: owners are
32-bit words and come back, and then an id is taken for one of the other interner's own.
-/
import Phrasebook.Fingerprint.Basic
import Phrasebook.Proofs.Interner.Registry

namespace Phrasebook

open Interner

/-! ## Processes -/

/-- Actions carried out one after the other, by a process that starts without interners. -/
structure Process (α β : Type) where
  actions : List (Action α β)

namespace Process

open Registry

variable {α β : Type} [DecidableEq α] [Fingerprint α]

/-- The registry after the first `n` actions. -/
def registry (s : Process α β) (n : Nat) : Registry α :=
  Trace.state act .empty s.actions n

/-- At step `i` the id of `p` was given through the handle `h`. -/
def Gives (s : Process α β) (i h : Nat) (p : α) (id : PatternId α) : Prop :=
  ∃ c o u, s.actions[i]? = some (.call h c) ∧ (s.registry i).call h c = .ok (o, u) ∧
    c.Gives o.answer p id

/-- At step `i` the handle `h'` was made as a clone of `h`. -/
def Clones (s : Process α β) (i h h' : Nat) : Prop :=
  ∃ u, s.actions[i]? = some (.clone h) ∧ (s.registry i).clone h = .ok (h', u)

/-- The clones made in the first `n` steps join the handles `h` and `h'`. -/
def Shares (s : Process α β) (n h h' : Nat) : Prop :=
  Relation.EqvGen (fun g g' => ∃ i < n, s.Clones i g g') h h'

theorem registry_succ (s : Process α β) {n : Nat} {a : Action α β} (h : s.actions[n]? = some a) :
    s.registry (n + 1) = (s.registry n).act a :=
  Trace.state_succ h

theorem registry_succ_none (s : Process α β) {n : Nat} (h : s.actions[n]? = none) :
    s.registry (n + 1) = s.registry n :=
  Trace.state_succ_none h

theorem registry_wf (s : Process α β) (n : Nat) : (s.registry n).WF :=
  Trace.state_invariant Registry.empty_wf (fun _ a hw => act_wf hw a) n

theorem registry_extends (s : Process α β) {m n : Nat} (h : m ≤ n) :
    (s.registry m).Extends (s.registry n) :=
  Trace.state_related Registry.Extends.refl Registry.Extends.trans act_extends h

/-- An id that was given for a pattern is bound to it, in the interner of the handle, from then on. -/
theorem bound_of_gives (s : Process α β) {i n h : Nat} {p : α} {id : PatternId α}
    (hg : s.Gives i h p id) (hi : i < n) :
    ∃ k t, (s.registry n).number? h = some k ∧ (s.registry n).tables[k]? = some t ∧
      t.get? id = some p := by
  obtain ⟨c, o, u, ha, hc, hgives⟩ := hg
  have hext := s.registry_extends (Nat.succ_le_of_lt hi)
  rw [s.registry_succ ha, act_call hc] at hext
  obtain ⟨k, t, hk, ht, rfl, rfl⟩ := call_eq_ok hc
  have hnew := tables_setIfInBounds ht (t.call c).table k
  rw [if_pos rfl] at hnew
  obtain ⟨t', ht', hbound⟩ := hext.table hnew
  exact ⟨k, t', hext.number hk, ht',
    hbound.bound (get?_of_gives ((s.registry_wf i).table ht) hgives)⟩

/-! ## Sharing -/

theorem number?_of_clones (s : Process α β) {i n h h' : Nat} (hc : s.Clones i h h') (hi : i < n) :
    (s.registry n).number? h = (s.registry n).number? h' := by
  obtain ⟨u, ha, hc⟩ := hc
  have hext := s.registry_extends (Nat.succ_le_of_lt hi)
  rw [s.registry_succ ha, act_clone hc] at hext
  obtain ⟨handle, hh, rfl, -⟩ := clone_eq_ok hc
  have hk : (s.registry i).number? h = some handle.table := number?_eq_some_iff.2 ⟨handle, hh, rfl⟩
  have hold : u.number? h = some handle.table := by
    rw [number?_clone hc, if_neg (Nat.ne_of_lt (lt_of_number? hk)), hk]
  have hnew : u.number? (s.registry i).handles.size = some handle.table := by
    rw [number?_clone hc, if_pos rfl, hk]
  rw [hext.number hold, hext.number hnew]

theorem number?_of_shares (s : Process α β) {n h h' : Nat} (hs : s.Shares n h h') :
    (s.registry n).number? h = (s.registry n).number? h' := by
  induction hs with
  | rel g g' hg => obtain ⟨i, hi, hc⟩ := hg; exact s.number?_of_clones hc hi
  | refl g => rfl
  | symm g g' _ ih => exact ih.symm
  | trans g₁ g₂ g₃ _ _ ih ih' => exact ih.trans ih'

theorem Shares.mono {s : Process α β} {m n h h' : Nat} (hs : s.Shares m h h') (hmn : m ≤ n) :
    s.Shares n h h' := by
  refine Relation.EqvGen.mono ?_ h h' hs
  rintro g g' ⟨i, hi, hc⟩
  exact ⟨i, Nat.lt_of_lt_of_le hi hmn, hc⟩

/-- Handles to one interner come from one handle by cloning. -/
theorem shares_of_number? (s : Process α β) {n : Nat} : ∀ {h h' k : Nat},
    (s.registry n).number? h = some k → (s.registry n).number? h' = some k → s.Shares n h h' := by
  induction n with
  | zero => intro h h' k hk; cases hk
  | succ n ih =>
    intro h h' k hk hk'
    -- it is enough that every handle shares with one that was there before the step
    rcases ha : s.actions[n]? with _ | a
    · rw [s.registry_succ_none ha] at hk hk'
      exact (ih hk hk').mono n.le_succ
    · rw [s.registry_succ ha] at hk hk'
      rcases act_cases (s.registry n) a with h | ⟨shared, -, h⟩ | ⟨g, g', rfl, hc⟩ | ⟨g, c, o, -, hc⟩
      · rw [h] at hk hk'
        exact (ih hk hk').mono n.le_succ
      · rw [h, number?_create] at hk hk'
        split at hk <;> split at hk'
        · next e e' => rw [e, e']; exact .refl _
        · cases hk; exact absurd ((s.registry_wf n).number hk') (Nat.lt_irrefl _)
        · cases hk'; exact absurd ((s.registry_wf n).number hk) (Nat.lt_irrefl _)
        · exact (ih hk hk').mono n.le_succ
      · have hnew : s.Shares (n + 1) g (s.registry n).handles.size := by
          have hclones : s.Clones n g g' := ⟨_, ha, hc⟩
          obtain ⟨handle, -, rfl, -⟩ := clone_eq_ok hc
          exact .rel _ _ ⟨n, n.lt_succ_self, hclones⟩
        rw [number?_clone hc] at hk hk'
        split at hk <;> split at hk'
        · next e e' => rw [e, e']; exact .refl _
        · next e _ => rw [e]; exact .trans _ _ _ (.symm _ _ hnew) ((ih hk hk').mono n.le_succ)
        · next _ e => rw [e]; exact .trans _ _ _ ((ih hk hk').mono n.le_succ) hnew
        · exact (ih hk hk').mono n.le_succ
      · obtain ⟨j, t, -, -, -, hu⟩ := call_eq_ok hc
        rw [hu] at hk hk'
        exact (ih hk hk').mono n.le_succ

theorem shares_iff (s : Process α β) {n h h' k k' : Nat} (hk : (s.registry n).number? h = some k)
    (hk' : (s.registry n).number? h' = some k') : s.Shares n h h' ↔ k = k' := by
  constructor
  · intro hs
    have := s.number?_of_shares hs
    rw [hk, hk'] at this
    exact Option.some.inj this
  · rintro rfl
    exact s.shares_of_number? hk hk'

/-! ## Where an id resolves -/

theorem owner_of_gives (s : Process α β) {i n h k : Nat} {p : α} {id : PatternId α}
    (hg : s.Gives i h p id) (hk : (s.registry n).number? h = some k) : id.owner = UInt32.ofNat k := by
  -- compare at a step after both, where the handle still has its number
  have hi : i < max n (i + 1) := by omega
  obtain ⟨k', t, hk', ht, hget⟩ := s.bound_of_gives hg hi
  have hsame := (s.registry_extends (Nat.le_max_left n (i + 1))).number hk
  rw [hk'] at hsame
  cases hsame
  rw [(get?_eq_some_iff.1 hget).1]
  exact (s.registry_wf _).owner ht

theorem ofNat_owner_inj {k k' : Nat} :
    (UInt32.ofNat k : Owner) = UInt32.ofNat k' ↔ k % 2 ^ 32 = k' % 2 ^ 32 := by
  rw [← UInt32.toNat_inj, UInt32.toNat_ofNat', UInt32.toNat_ofNat']

/-- The id of `p` that was given through `h` is confined to its interner, as seen through a handle `h'`
with the table `t`: it resolves there if the handles share their tables and is unknown otherwise. -/
structure Confined (s : Process α β) (n h h' : Nat) (p : α) (id : PatternId α) (t : Interner α) : Prop where
  contains : t.contains id = true ↔ s.Shares n h h'
  shared : s.Shares n h h' → t.get? id = some p
  foreign : ¬ s.Shares n h h' → t.get? id = none ∧ ∀ (γ : Type) (f : α → γ), t.read? id f = none
  distinct : ¬ s.Shares n h h' → ∀ j q id', s.Gives j h' q id' → id' ≠ id

theorem contains_iff (s : Process α β) {i n h k k' : Nat} {p : α} {id : PatternId α} {t : Interner α}
    (hg : s.Gives i h p id) (hk : (s.registry n).number? h = some k)
    (ht : (s.registry n).tables[k']? = some t) :
    t.contains id = true ↔ k % 2 ^ 32 = k' % 2 ^ 32 := by
  rw [contains_iff_owner, s.owner_of_gives hg hk, (s.registry_wf n).owner ht, ofNat_owner_inj]

theorem confined_iff (s : Process α β) {i n h h' k k' : Nat} {p : α} {id : PatternId α} {t : Interner α}
    (hg : s.Gives i h p id) (hi : i < n) (hk : (s.registry n).number? h = some k)
    (hk' : (s.registry n).number? h' = some k') (ht : (s.registry n).tables[k']? = some t) :
    s.Confined n h h' p id t ↔ (k % 2 ^ 32 = k' % 2 ^ 32 → k = k') := by
  have hcontains := s.contains_iff hg hk ht
  have hshares := s.shares_iff hk hk'
  constructor
  · intro hc hmod
    exact hshares.1 (hc.contains.1 (hcontains.2 hmod))
  · intro hmod
    have howner (hne : ¬ s.Shares n h h') : id.owner ≠ UInt32.ofNat k' := by
      rw [s.owner_of_gives hg hk, Ne, ofNat_owner_inj]
      exact fun e => hne (hshares.2 (hmod e))
    have hnone (hne : ¬ s.Shares n h h') : t.get? id = none := by
      refine get?_eq_none_of_owner ?_
      rw [(s.registry_wf n).owner ht]
      exact howner hne
    refine ⟨?_, fun hs => ?_, fun hne => ⟨hnone hne, fun γ f => ?_⟩, fun hne j q id' hg' => ?_⟩
    · rw [hcontains, hshares]
      exact ⟨hmod, fun e => by rw [e]⟩
    · obtain ⟨j, t', hj, ht', hget⟩ := s.bound_of_gives hg hi
      rw [hk] at hj
      cases hj
      rw [hshares.1 hs, ht] at ht'
      cases ht'
      exact hget
    · rw [read?_eq_map, hnone hne]; rfl
    · rintro rfl
      exact howner hne (s.owner_of_gives hg' hk')

/-- An id resolves in the interner that issued it and in no other, precisely unless the two interners
were made a multiple of 2^32 apart; so always in a process that makes at most 2^32 of them. Owners are
drawn from one counter, so the numbers count every interner of the process, whatever patterns it holds. -/
theorem id_confined_unless_owner_reused (s : Process α β) {i n h h' : Nat} {p : α} {id : PatternId α}
    (hg : s.Gives i h p id) (hi : i < n) (hh' : h' < (s.registry n).handles.size) :
    ∃ k k' t, (s.registry n).number? h = some k ∧ (s.registry n).number? h' = some k' ∧
      (s.registry n).table? h' = some t ∧
      (s.Confined n h h' p id t ↔ (k % 2 ^ 32 = k' % 2 ^ 32 → k = k')) ∧
      ((s.registry n).tables.size ≤ 2 ^ 32 → s.Confined n h h' p id t) := by
  have hw := s.registry_wf n
  obtain ⟨k, -, hk, -⟩ := s.bound_of_gives hg hi
  have hk' : (s.registry n).number? h' = some (s.registry n).handles[h'].table :=
    number?_eq_some_iff.2 ⟨_, Array.getElem?_eq_getElem hh', rfl⟩
  have ht := Array.getElem?_eq_getElem (hw.number hk')
  have hiff := s.confined_iff hg hi hk hk' ht
  refine ⟨k, _, _, hk, hk', table?_eq_some_iff.2 ⟨_, hk', ht⟩, hiff, fun hsize => ?_⟩
  rw [hiff]
  have := hw.number hk
  have := hw.number hk'
  omega

/-- Two handles to one interner and one to another: what is interned through the first is known to the third. -/
theorem id_confined_among_three_handles :
    letI : Fingerprint Bool := ⟨fun _ => 7⟩
    let s : Process Bool Unit := ⟨[.create true, .create false, .clone 0, .call 0 (.intern true)]⟩
    s.Gives 3 0 true ⟨0, 0x70000000⟩ ∧ (s.registry 4).tables.size = 2 ∧
    ∀ h' < 3, ∃ t, (s.registry 4).table? h' = some t ∧ s.Confined 4 0 h' true ⟨0, 0x70000000⟩ t := by
  let _ : Fingerprint Bool := ⟨fun _ => 7⟩
  intro s
  have hid : (Interner.empty 0).nextId true = ⟨0, 0x70000000⟩ := by decide
  have hg : s.Gives 3 0 true ⟨0, 0x70000000⟩ :=
    ⟨.intern true, _, _, rfl, call_of_number? (k := 0) (t := .empty 0) rfl rfl _,
      .inl ⟨.inl rfl, hid ▸ answer_call_empty (.inl rfl) 0⟩⟩
  have htables : (s.registry 4).tables.size = 2 := rfl
  have hhandles : (s.registry 4).handles.size = 3 := rfl
  refine ⟨hg, htables, fun h' hh' => ?_⟩
  obtain ⟨_, _, t, -, -, ht, -, hconfined⟩ :=
    s.id_confined_unless_owner_reused hg (by omega : 3 < 4) (hhandles ▸ hh')
  exact ⟨t, ht, hconfined (by omega)⟩

/-! ## Owners come back -/

/-- The registry while a process makes one interner after the other. -/
theorem registry_creates (s : Process α β) {m : Nat}
    (hs : ∀ j < m, s.actions[j]? = some (.create false)) :
    (s.registry m).handles.size = m ∧ (s.registry m).tables.size = m ∧
    ∀ j < m, (s.registry m).number? j = some j ∧
      (s.registry m).tables[j]? = some (.empty (UInt32.ofNat j)) := by
  induction m with
  | zero => exact ⟨rfl, rfl, fun j hj => absurd hj (Nat.not_lt_zero j)⟩
  | succ m ih =>
    obtain ⟨hhandles, htables, hall⟩ := ih fun j hj => hs j (by omega)
    have hsucc : s.registry (m + 1) = ((s.registry m).create false).2 :=
      s.registry_succ (hs m m.lt_succ_self)
    rw [hsucc]
    refine ⟨?_, ?_, fun j hj => ?_⟩
    · show ((s.registry m).handles.push _).size = _
      rw [Array.size_push, hhandles]
    · show ((s.registry m).tables.push _).size = _
      rw [Array.size_push, htables]
    · rw [number?_create, tables_create, hhandles, htables]
      by_cases hjm : j = m
      · rw [if_pos hjm, if_pos hjm, (s.registry_wf m).next, htables, hjm]
        exact ⟨rfl, rfl⟩
      · rw [if_neg hjm, if_neg hjm]
        exact hall j (by omega)

/-- Interns one pattern through the first and the last of `m + 1` interners. -/
def internAtEnds (m : Nat) (p : α) : Process α β :=
  ⟨List.replicate (m + 1) (.create false) ++ [.call 0 (.intern p), .call m (.intern p)]⟩

theorem internAtEnds_created {m j : Nat} (p : α) (hj : j ≤ m) :
    let r := (internAtEnds m p : Process α β).registry (m + 1)
    r.number? j = some j ∧ r.tables[j]? = some (.empty (UInt32.ofNat j)) := by
  obtain ⟨-, -, hall⟩ := registry_creates (internAtEnds m p : Process α β) fun j (hj : j < m + 1) => by
    show (List.replicate (m + 1) _ ++ _)[j]? = _
    rw [List.getElem?_append_left (by simpa using hj), List.getElem?_replicate_of_lt hj]
  exact hall j (by omega)

/-- If the last interner has the owner of the first, both give the same id. -/
theorem internAtEnds_gives {m : Nat} (hm : 0 < m) (howner : UInt32.ofNat m = 0) (p : α) :
    let s : Process α β := internAtEnds m p
    let id := (Interner.empty 0).nextId p
    s.Gives (m + 1) 0 p id ∧ s.Gives (m + 2) m p id := by
  intro s id
  have hactions : s.actions = List.replicate (m + 1) (.create false) ++
      [.call 0 (.intern p), .call m (.intern p)] := rfl
  have hfirst : s.actions[m + 1]? = some (.call 0 (.intern p)) := by
    rw [hactions, List.getElem?_append_right (by simp)]
    simp
  have hlast : s.actions[m + 2]? = some (.call m (.intern p)) := by
    rw [hactions, List.getElem?_append_right (by simp)]
    simp
  obtain ⟨hnum₀, htab₀⟩ := internAtEnds_created (β := β) p (Nat.zero_le m)
  obtain ⟨hnum, htab⟩ := internAtEnds_created (β := β) p (Nat.le_refl m)
  have hcall₀ := call_of_number? hnum₀ htab₀ (.intern p : Call α β)
  refine ⟨⟨_, _, _, hfirst, hcall₀, .inl ⟨.inl rfl, answer_call_empty (.inl rfl) 0⟩⟩, ?_⟩
  -- the call through the first handle leaves the last interner without patterns
  have hnext := s.registry_succ hfirst
  rw [act_call hcall₀] at hnext
  have hnum' : (s.registry (m + 2)).number? m = some m := by rw [hnext]; exact hnum
  have htab' : (s.registry (m + 2)).tables[m]? = some (.empty 0) := by
    rw [hnext]
    show (Array.setIfInBounds _ 0 _)[m]? = _
    rw [tables_setIfInBounds htab₀, if_neg (Nat.ne_of_lt hm), htab, howner]
  exact ⟨_, _, _, hlast, call_of_number? hnum' htab' _, .inl ⟨.inl rfl, answer_call_empty (.inl rfl) 0⟩⟩

theorem internAtEnds_not_confined {m : Nat} (hm : 0 < m) (howner : UInt32.ofNat m = 0) (p : α) :
    let s : Process α β := internAtEnds m p
    ∃ id t, s.Gives (m + 1) 0 p id ∧ s.Gives (m + 2) m p id ∧ ¬ s.Shares (m + 3) 0 m ∧
      (s.registry (m + 3)).table? m = some t ∧ t.contains id = true ∧ t.get? id = some p ∧
      ¬ s.Confined (m + 3) 0 m p id t := by
  intro s
  obtain ⟨hg₀, hg⟩ := internAtEnds_gives (β := β) hm howner p
  obtain ⟨k, t, hk, ht, hget⟩ := s.bound_of_gives hg (by omega : m + 2 < m + 3)
  have hext := s.registry_extends (by omega : m + 1 ≤ m + 3)
  have hshares : ¬ s.Shares (m + 3) 0 m := by
    rw [s.shares_iff (hext.number (internAtEnds_created p (Nat.zero_le m)).1)
      (hext.number (internAtEnds_created p (Nat.le_refl m)).1)]
    omega
  have hcontains : t.contains ((Interner.empty 0).nextId p) = true :=
    contains_iff_owner.2 (get?_eq_some_iff.1 hget).1
  exact ⟨_, t, hg₀, hg, hshares, table?_eq_some_iff.2 ⟨k, hk, ht⟩, hcontains, hget,
    fun hconfined => hshares (hconfined.contains.1 hcontains)⟩

/-- The interners 0 and 2^32 have one owner: an id of the first is known to the second, which gives it
out too. -/
theorem owner_reused_not_confined :
    let p := Verb.bare ⟨"go", by decide, by decide⟩
    let s : Process Verb Unit := internAtEnds (2 ^ 32) p
    ∃ id t, s.Gives (2 ^ 32 + 1) 0 p id ∧ s.Gives (2 ^ 32 + 2) (2 ^ 32) p id ∧
      ¬ s.Shares (2 ^ 32 + 3) 0 (2 ^ 32) ∧ (s.registry (2 ^ 32 + 3)).table? (2 ^ 32) = some t ∧
      t.contains id = true ∧ t.get? id = some p ∧ ¬ s.Confined (2 ^ 32 + 3) 0 (2 ^ 32) p id t :=
  internAtEnds_not_confined (by decide) (by decide) _

end Process

end Phrasebook
