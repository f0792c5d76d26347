/-
Verb patterns by their spine. A pattern is in exactly one way a list of layers around a leaf, a bare lemma or
a phrase. Its telicity and the number of its modifiers come from the modifiers among the layers, its base
lemma from the leaf; its objects have no part in any of them.
-/
import Phrasebook.Verb.Query
import Mathlib.Logic.ExistsUnique

namespace Phrasebook

/-! ## Layers -/

namespace Layer

/-- The telicity that a modifier asks for. -/
def telicity? : Layer → Option Telicity
  | event t => some t
  | object _ => none

/-- The object that a layer fixes. -/
def object? : Layer → Option NounPhrase
  | event _ => none
  | object n => some n

/-- The modifiers among layers, outermost first. -/
def modifiers (ls : List Layer) : List Telicity :=
  ls.filterMap telicity?

/-- The objects among layers, outermost first. -/
def objects (ls : List Layer) : List NounPhrase :=
  ls.filterMap object?

theorem modifiers_cons (l : Layer) (ls : List Layer) :
    modifiers (l :: ls) = l.telicity?.toList ++ modifiers ls := by
  unfold modifiers
  cases l <;> rfl

theorem objects_cons (l : Layer) (ls : List Layer) :
    objects (l :: ls) = l.object?.toList ++ objects ls := by
  unfold objects
  cases l <;> rfl

theorem modifiers_repeated (ls : List Layer) (times : Nat) :
    modifiers (List.replicate times ls).flatten = (List.replicate times (modifiers ls)).flatten := by
  unfold modifiers
  rw [List.filterMap_flatten, List.map_replicate]

end Layer

open Layer

namespace Verb

/-! ## The spine of a pattern -/

/-- A pattern without layers. -/
inductive IsLeaf : Verb → Prop
  | bare (w : Word) : IsLeaf (.bare w)
  | phrase (p : Phrase) : IsLeaf (.phrase p)

theorem isLeaf_core (v : Verb) : v.core.IsLeaf := by
  induction v with
  | bare w => exact .bare w
  | phrase p => exact .phrase p
  | withObject v n ih => exact ih
  | event t v ih => exact ih

/-- The only way to build a pattern from a leaf is to put its layers around its core. -/
theorem wrap_eq_iff {ls : List Layer} {leaf v : Verb} (h : leaf.IsLeaf) :
    wrap ls leaf = v ↔ v.layers = ls ∧ v.core = leaf := by
  constructor
  · rintro rfl
    rw [layers_wrap, core_wrap]
    cases h <;> simp [layers, core]
  · rintro ⟨rfl, rfl⟩
    exact wrap_layers_core v

theorem existsUnique_spine (v : Verb) :
    ∃! s : List Layer × Verb, s.2.IsLeaf ∧ wrap s.1 s.2 = v := by
  refine ⟨(v.layers, v.core), ⟨v.isLeaf_core, wrap_layers_core v⟩, ?_⟩
  rintro ⟨ls, leaf⟩ ⟨hleaf, hwrap⟩
  obtain ⟨rfl, rfl⟩ := (wrap_eq_iff hleaf).1 hwrap
  rfl

/-! ## Queries through layers -/

theorem modifierDepth_wrap (ls : List Layer) (v : Verb) :
    (wrap ls v).modifierDepth = (modifiers ls).length + v.modifierDepth := by
  induction ls with
  | nil => simp [wrap, modifiers]
  | cons l ls ih =>
    rw [modifiers_cons, List.length_append, Nat.add_assoc, ← ih]
    cases l with
    | event t => exact depthFrom_eq _ 1
    | object n => exact (Nat.zero_add _).symm

theorem telicity?_wrap (ls : List Layer) (v : Verb) :
    (wrap ls v).telicity? = (modifiers ls).head?.or v.telicity? := by
  induction ls with
  | nil => rfl
  | cons l ls ih =>
    rw [modifiers_cons]
    cases l with
    | event t => rfl
    | object n => exact ih

theorem baseLemma?_wrap (ls : List Layer) (v : Verb) : (wrap ls v).baseLemma? = v.baseLemma? := by
  induction ls with
  | nil => rfl
  | cons l ls ih => cases l <;> exact ih

theorem modifierDepth_stack (ls : List Layer) (times : Nat) (v : Verb) :
    (stack ls times v).modifierDepth = times * (modifiers ls).length + v.modifierDepth := by
  rw [stack_eq_wrap, modifierDepth_wrap, modifiers_repeated]
  simp

theorem telicity?_stack (ls : List Layer) (times : Nat) (v : Verb) :
    (stack ls times v).telicity? =
      if times = 0 then v.telicity? else (modifiers ls).head?.or v.telicity? := by
  rw [stack_eq_wrap, telicity?_wrap, modifiers_repeated]
  cases times with
  | zero => rfl
  | succ n =>
    rw [if_neg (Nat.succ_ne_zero n)]
    -- without a modifier in one copy there is none in the others
    cases modifiers ls <;> simp [List.replicate_succ]

theorem baseLemma?_stack (ls : List Layer) (times : Nat) (v : Verb) :
    (stack ls times v).baseLemma? = v.baseLemma? := by
  rw [stack_eq_wrap, baseLemma?_wrap]

/-! ## Queries by the spine -/

theorem IsLeaf.modifierDepth_eq {v : Verb} (h : v.IsLeaf) : v.modifierDepth = 0 := by
  cases h <;> rfl

theorem IsLeaf.telicity?_eq {v : Verb} (h : v.IsLeaf) : v.telicity? = none := by
  cases h <;> rfl

theorem modifierDepth_eq (v : Verb) : v.modifierDepth = (modifiers v.layers).length := by
  have h := modifierDepth_wrap v.layers v.core
  rwa [wrap_layers_core, v.isLeaf_core.modifierDepth_eq] at h

theorem telicity?_eq (v : Verb) : v.telicity? = (modifiers v.layers).head? := by
  have h := telicity?_wrap v.layers v.core
  rwa [wrap_layers_core, v.isLeaf_core.telicity?_eq, Option.or_none] at h

theorem baseLemma?_eq (v : Verb) : v.baseLemma? = v.core.baseLemma? := by
  have h := baseLemma?_wrap v.layers v.core
  rwa [wrap_layers_core] at h

theorem telicity?_eq_none_iff (v : Verb) : v.telicity? = none ↔ v.modifierDepth = 0 := by
  rw [telicity?_eq, modifierDepth_eq, List.head?_eq_none_iff, List.length_eq_zero_iff]

/-- The base lemma of a phrase is its leftmost verb. -/
theorem baseLemma?_phrase_eq_some_iff {p : Phrase} {x : Word} :
    (phrase p).baseLemma? = some x ↔
      ∃ before w after, p.words = before ++ w :: after ∧ (∀ u ∈ before, u.tag ≠ .verb) ∧
        w.tag = .verb ∧ w.word = x := by
  unfold baseLemma? Phrase.headVerb?
  simp only [Option.map_eq_some_iff, List.find?_eq_some_iff_append, beq_iff_eq, Bool.not_eq_true',
    beq_eq_false_iff_ne]
  constructor
  · rintro ⟨w, ⟨hw, before, after, hp, hbefore⟩, hx⟩
    exact ⟨before, w, after, hp, hbefore, hw, hx⟩
  · rintro ⟨before, w, after, hp, hbefore, hw, hx⟩
    exact ⟨w, ⟨hw, before, after, hp, hbefore⟩, hx⟩

theorem baseLemma?_phrase_eq_none_iff {p : Phrase} :
    (phrase p).baseLemma? = none ↔ ∀ w ∈ p.words, w.tag ≠ .verb := by
  unfold baseLemma? Phrase.headVerb?
  simp

/-- The telicity, the number of modifiers and the base lemma of a pattern follow from its spine. Every pattern
is in exactly one way a list of layers around a leaf. Putting layers around a pattern a number of times adds
their modifiers each time, puts their first modifier in front and keeps the base lemma; a leaf has no
modifier, and its base lemma is its bare lemma or its leftmost verb. So a pattern has a telicity exactly when
it has a modifier, and two patterns with the same leaf and the same modifiers answer alike, whatever their
objects. -/
theorem queries_determined_by_spine :
    (∀ v : Verb, ∃! s : List Layer × Verb, s.2.IsLeaf ∧ wrap s.1 s.2 = v) ∧
    (∀ (ls : List Layer) (times : Nat) (v : Verb),
      (stack ls times v).modifierDepth = times * (modifiers ls).length + v.modifierDepth ∧
      (stack ls times v).telicity? =
        (if times = 0 then v.telicity? else (modifiers ls).head?.or v.telicity?) ∧
      (stack ls times v).baseLemma? = v.baseLemma?) ∧
    (∀ v : Verb, v.IsLeaf → v.modifierDepth = 0 ∧ v.telicity? = none) ∧
    (∀ w : Word, (bare w).baseLemma? = some w) ∧
    (∀ (p : Phrase) (x : Word),
      (phrase p).baseLemma? = some x ↔
        ∃ before w after, p.words = before ++ w :: after ∧ (∀ u ∈ before, u.tag ≠ .verb) ∧
          w.tag = .verb ∧ w.word = x) ∧
    (∀ p : Phrase, (phrase p).baseLemma? = none ↔ ∀ w ∈ p.words, w.tag ≠ .verb) ∧
    (∀ v : Verb, v.telicity? = none ↔ v.modifierDepth = 0) ∧
    (∀ v w : Verb, v.core = w.core → modifiers v.layers = modifiers w.layers →
      v.modifierDepth = w.modifierDepth ∧ v.telicity? = w.telicity? ∧ v.baseLemma? = w.baseLemma?) := by
  refine ⟨existsUnique_spine, fun ls times v => ?_, fun v h => ⟨h.modifierDepth_eq, h.telicity?_eq⟩,
    fun w => rfl, fun p x => baseLemma?_phrase_eq_some_iff, fun p => baseLemma?_phrase_eq_none_iff,
    telicity?_eq_none_iff, ?_⟩
  · exact ⟨modifierDepth_stack ls times v, telicity?_stack ls times v, baseLemma?_stack ls times v⟩
  · intro v w hcore hmodifiers
    refine ⟨?_, ?_, ?_⟩
    · rw [modifierDepth_eq, modifierDepth_eq w, hmodifiers]
    · rw [telicity?_eq, telicity?_eq w, hmodifiers]
    · rw [baseLemma?_eq, baseLemma?_eq w, hcore]

/-- Two patterns that differ in their object only: a bare lemma, and a phrase with a verb. -/
theorem queries_determined_by_spine_object :
    let take : Word := ⟨"take", by decide, by decide⟩
    let place : Word := ⟨"place", by decide, by decide⟩
    let leave : TaggedWord := ⟨⟨"leave", by decide, by decide⟩, .verb⟩
    let v := event .telic (withObject (event .unknown (bare take)) (.bare place))
    let w := event .telic (withObject (event .unknown (bare take)) (.complex ⟨[leave]⟩))
    (bare take).IsLeaf ∧ (bare take).telicity? = none ∧
    v.core = w.core ∧ modifiers v.layers = modifiers w.layers ∧
    w.modifierDepth = 2 ∧ w.telicity? = some .telic ∧ w.baseLemma? = some take ∧
    v.modifierDepth = w.modifierDepth ∧ v.telicity? = w.telicity? ∧ v.baseLemma? = w.baseLemma? := by
  intro take place leave v w
  obtain ⟨-, -, hleaf, -, -, -, -, hsame⟩ := queries_determined_by_spine
  exact ⟨.bare take, (hleaf _ (.bare take)).2, rfl, rfl, rfl, rfl, rfl, hsame v w rfl rfl⟩

end Verb

end Phrasebook
