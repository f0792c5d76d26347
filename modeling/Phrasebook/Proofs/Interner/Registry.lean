/-
The registry of a process keeps its invariant under every action, also under one that is refused: the
owner of an interner is its number modulo 2^32, its table satisfies the table invariant, and every handle
leads to an interner. Handles keep their interners, and interners keep their ids.
-/
import Phrasebook.Interner.Registry
import Phrasebook.Proofs.Interner.Run

namespace Phrasebook

open Interner

/-! ## Actions -/

/-- What a process does with its interners. -/
inductive Action (α β : Type)
  | create (shared : Bool)
  | clone (handle : Nat)
  | call (handle : Nat) (c : Call α β)

namespace Registry

variable {α β : Type}

/-- The number of the interner behind a handle, in the order of creation. -/
def number? (r : Registry α) (h : Nat) : Option Nat :=
  r.handles[h]?.map Handle.table

theorem number?_eq_some_iff {r : Registry α} {h k : Nat} :
    r.number? h = some k ↔ ∃ handle, r.handles[h]? = some handle ∧ handle.table = k :=
  Option.map_eq_some_iff

theorem table?_eq_some_iff {r : Registry α} {h : Nat} {t : Interner α} :
    r.table? h = some t ↔ ∃ k, r.number? h = some k ∧ r.tables[k]? = some t := by
  unfold table? number?
  rcases r.handles[h]? with _ | handle <;> simp

/-- The invariant of a registry. -/
structure WF [Fingerprint α] (r : Registry α) : Prop where
  next : r.nextOwner = UInt32.ofNat r.tables.size
  /-- An interner is owned by its number, cut to 32 bits. -/
  owner : ∀ {k : Nat} {t : Interner α}, r.tables[k]? = some t → t.owner = UInt32.ofNat k
  table : ∀ {k : Nat} {t : Interner α}, r.tables[k]? = some t → t.WF
  number : ∀ {h k}, r.number? h = some k → k < r.tables.size

/-- `u` extends `r`: handles keep their interners, and interners keep their ids. -/
structure Extends (r u : Registry α) : Prop where
  number : ∀ {h k}, r.number? h = some k → u.number? h = some k
  table : ∀ {k : Nat} {t : Interner α}, r.tables[k]? = some t → ∃ t', u.tables[k]? = some t' ∧ t.Extends t'

theorem Extends.refl (r : Registry α) : r.Extends r :=
  ⟨fun h => h, fun {_ t} h => ⟨t, h, .refl t⟩⟩

theorem Extends.trans {r u v : Registry α} (h : r.Extends u) (h' : u.Extends v) : r.Extends v := by
  refine ⟨fun hk => h'.number (h.number hk), fun hk => ?_⟩
  obtain ⟨t', ht', he⟩ := h.table hk
  obtain ⟨t'', ht'', he'⟩ := h'.table ht'
  exact ⟨t'', ht'', he.trans he'⟩

theorem empty_wf [Fingerprint α] : (empty : Registry α).WF := by
  refine ⟨rfl, ?_, ?_, ?_⟩ <;> simp [empty, number?]

theorem number?_create (r : Registry α) (shared : Bool) (h : Nat) :
    (r.create shared).2.number? h =
      if h = r.handles.size then some r.tables.size else r.number? h := by
  show ((r.handles.push _)[h]?).map Handle.table = _
  rw [Array.getElem?_push]
  split <;> rfl

theorem tables_create (r : Registry α) (shared : Bool) (k : Nat) :
    (r.create shared).2.tables[k]? =
      if k = r.tables.size then some (.empty r.nextOwner) else r.tables[k]? :=
  Array.getElem?_push

theorem clone_eq_ok {r u : Registry α} {h h' : Nat} (hc : r.clone h = .ok (h', u)) :
    ∃ handle, r.handles[h]? = some handle ∧ h' = r.handles.size ∧
      u = { r with handles := r.handles.push handle } := by
  unfold clone at hc
  rcases hh : r.handles[h]? with _ | handle
  · rw [hh] at hc; cases hc
  · rw [hh] at hc
    dsimp only at hc
    split at hc
    · cases hc; exact ⟨handle, rfl, rfl, rfl⟩
    · cases hc

/-- A clone is a new handle with the number of the old one. -/
theorem number?_clone {r u : Registry α} {h h' : Nat} (hc : r.clone h = .ok (h', u)) (g : Nat) :
    u.number? g = if g = r.handles.size then r.number? h else r.number? g := by
  obtain ⟨handle, hh, -, rfl⟩ := clone_eq_ok hc
  show ((r.handles.push handle)[g]?).map Handle.table = _
  rw [Array.getElem?_push]
  split
  · rw [number?, hh]
  · rfl

theorem lt_of_number? {r : Registry α} {h k : Nat} (hk : r.number? h = some k) : h < r.handles.size := by
  obtain ⟨handle, hh, -⟩ := number?_eq_some_iff.1 hk
  exact (Array.getElem?_eq_some_iff.1 hh).1

theorem create_wf [Fingerprint α] {r : Registry α} (hw : r.WF) (shared : Bool) :
    (r.create shared).2.WF := by
  have hsize : (r.create shared).2.tables.size = r.tables.size + 1 := Array.size_push _
  refine ⟨?_, fun {k t} hk => ?_, fun {k t} hk => ?_, fun {h k} hk => ?_⟩
  · show r.nextOwner + 1 = _
    rw [hsize, hw.next, UInt32.ofNat_add]
    rfl
  · rw [tables_create] at hk
    split at hk
    · next hlast => cases hk; rw [hlast]; exact hw.next
    · exact hw.owner hk
  · rw [tables_create] at hk
    split at hk
    · cases hk; exact Interner.empty_wf r.nextOwner
    · exact hw.table hk
  · rw [number?_create] at hk
    rw [hsize]
    split at hk
    · cases hk; omega
    · have := hw.number hk; omega

theorem create_extends (r : Registry α) (shared : Bool) : r.Extends (r.create shared).2 := by
  refine ⟨fun {h k} hk => ?_, fun {k t} hk => ⟨t, ?_, .refl t⟩⟩
  · rw [number?_create, if_neg (Nat.ne_of_lt (lt_of_number? hk))]
    exact hk
  · rw [tables_create, if_neg (Nat.ne_of_lt (Array.getElem?_eq_some_iff.1 hk).1)]
    exact hk

theorem clone_wf [Fingerprint α] {r u : Registry α} (hw : r.WF) {h h' : Nat}
    (hc : r.clone h = .ok (h', u)) : u.WF := by
  have hnumber := number?_clone hc
  obtain ⟨handle, -, -, rfl⟩ := clone_eq_ok hc
  refine ⟨hw.next, hw.owner, hw.table, fun {g k} hk => ?_⟩
  rw [hnumber] at hk
  split at hk <;> exact hw.number hk

theorem clone_extends {r u : Registry α} {h h' : Nat} (hc : r.clone h = .ok (h', u)) : r.Extends u := by
  have hnumber := number?_clone hc
  obtain ⟨handle, -, -, rfl⟩ := clone_eq_ok hc
  refine ⟨fun {g k} hk => ?_, fun {k t} hk => ⟨t, hk, .refl t⟩⟩
  rw [hnumber, if_neg (Nat.ne_of_lt (lt_of_number? hk))]
  exact hk

theorem tables_setIfInBounds {r : Registry α} {k : Nat} {t : Interner α} (ht : r.tables[k]? = some t)
    (u : Interner α) (j : Nat) :
    (r.tables.setIfInBounds k u)[j]? = if k = j then some u else r.tables[j]? := by
  rw [Array.getElem?_setIfInBounds, if_pos (Array.getElem?_eq_some_iff.1 ht).1]

section Calls

variable [DecidableEq α] [Fingerprint α]

theorem call_of_number? {r : Registry α} {h k : Nat} {t : Interner α} (hk : r.number? h = some k)
    (ht : r.tables[k]? = some t) (c : Call α β) :
    r.call h c = .ok (t.call c, { r with tables := r.tables.setIfInBounds k (t.call c).table }) := by
  obtain ⟨handle, hh, rfl⟩ := number?_eq_some_iff.1 hk
  simp only [call, table?, hh, Option.bind_some, ht]

theorem call_eq_ok {r u : Registry α} {h : Nat} {c : Call α β} {o : Outcome α β}
    (hc : r.call h c = .ok (o, u)) :
    ∃ k t, r.number? h = some k ∧ r.tables[k]? = some t ∧ o = t.call c ∧
      u = { r with tables := r.tables.setIfInBounds k (t.call c).table } := by
  rcases ht : r.table? h with _ | t
  · rcases hh : r.handles[h]? with _ | handle <;> simp [call, hh, ht] at hc
  · obtain ⟨k, hk, ht⟩ := table?_eq_some_iff.1 ht
    rw [call_of_number? hk ht] at hc
    cases hc
    exact ⟨k, t, hk, ht, rfl, rfl⟩

theorem call_registry_wf {r u : Registry α} (hw : r.WF) {h : Nat} {c : Call α β} {o : Outcome α β}
    (hc : r.call h c = .ok (o, u)) : u.WF := by
  obtain ⟨k, t, -, ht, -, rfl⟩ := call_eq_ok hc
  refine ⟨?_, fun {j t'} hj => ?_, fun {j t'} hj => ?_, fun {g j} hj => ?_⟩
  · rw [Array.size_setIfInBounds]; exact hw.next
  · rw [tables_setIfInBounds ht] at hj
    split at hj
    · next hkj => cases hj; subst hkj; rw [(call_extends t c).owner]; exact hw.owner ht
    · exact hw.owner hj
  · rw [tables_setIfInBounds ht] at hj
    split at hj
    · cases hj; exact call_wf (hw.table ht) c
    · exact hw.table hj
  · rw [Array.size_setIfInBounds]; exact hw.number hj

theorem call_registry_extends {r u : Registry α} {h : Nat} {c : Call α β} {o : Outcome α β}
    (hc : r.call h c = .ok (o, u)) : r.Extends u := by
  obtain ⟨k, t, -, ht, -, rfl⟩ := call_eq_ok hc
  refine ⟨fun hj => hj, fun {j t'} hj => ?_⟩
  rw [tables_setIfInBounds ht]
  split
  · next hkj =>
    subst hkj
    rw [ht] at hj
    cases hj
    exact ⟨_, rfl, call_extends t c⟩
  · exact ⟨t', hj, .refl t'⟩

/-- The registry after an action. An action that is refused changes nothing. -/
def act (r : Registry α) : Action α β → Registry α
  | .create shared => (r.create shared).2
  | .clone h =>
    match r.clone h with
    | .ok (_, u) => u
    | .error _ => r
  | .call h c =>
    match r.call h c with
    | .ok (_, u) => u
    | .error _ => r

theorem act_clone {r u : Registry α} {h h' : Nat} (hc : r.clone h = .ok (h', u)) :
    r.act (.clone h : Action α β) = u := by
  simp only [act, hc]

theorem act_call {r u : Registry α} {h : Nat} {c : Call α β} {o : Outcome α β}
    (hc : r.call h c = .ok (o, u)) : r.act (.call h c) = u := by
  simp only [act, hc]

/-- What an action can do. -/
theorem act_cases (r : Registry α) (a : Action α β) :
    r.act a = r ∨
    (∃ shared, a = .create shared ∧ r.act a = (r.create shared).2) ∨
    (∃ h h', a = .clone h ∧ r.clone h = .ok (h', r.act a)) ∨
    ∃ h c o, a = .call h c ∧ r.call h c = .ok (o, r.act a) := by
  cases a with
  | create shared => exact .inr (.inl ⟨shared, rfl, rfl⟩)
  | clone h =>
    rcases hc : r.clone h with e | ⟨h', u⟩
    · exact .inl (by simp only [act, hc])
    · exact .inr (.inr (.inl ⟨h, h', rfl, by rw [act_clone hc, hc]⟩))
  | call h c =>
    rcases hc : r.call h c with e | ⟨o, u⟩
    · exact .inl (by simp only [act, hc])
    · exact .inr (.inr (.inr ⟨h, c, o, rfl, by rw [act_call hc, hc]⟩))

theorem act_wf {r : Registry α} (hw : r.WF) (a : Action α β) : (r.act a).WF := by
  rcases act_cases r a with h | ⟨shared, -, h⟩ | ⟨h, h', -, hc⟩ | ⟨h, c, o, -, hc⟩
  · rw [h]; exact hw
  · rw [h]; exact create_wf hw shared
  · exact clone_wf hw hc
  · exact call_registry_wf hw hc

theorem act_extends (r : Registry α) (a : Action α β) : r.Extends (r.act a) := by
  rcases act_cases r a with h | ⟨shared, -, h⟩ | ⟨h, h', -, hc⟩ | ⟨h, c, o, -, hc⟩
  · rw [h]; exact .refl r
  · rw [h]; exact create_extends r shared
  · exact clone_extends hc
  · exact call_registry_extends hc

end Calls

end Registry

end Phrasebook
