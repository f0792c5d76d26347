/-
The words of stacked patterns. A walk meets outer layers first, but the object of a layer comes after the
verb that the layer is around; so the words of the leaf come first, then the objects from the innermost to
the outermost one. The base lemma is a word of the leaf, and the walk has it before all objects.
-/
import Phrasebook.Proofs.Verb.Spine
import Phrasebook.Proofs.Walk.Projection

namespace Phrasebook

open Walker Layer

/-! ## The words of a noun phrase -/

namespace NounPhrase

/-- The tagged words of a noun phrase in surface order. -/
def taggedWords : NounPhrase → List TaggedWord
  | bare _ => []
  | tagged w => [w]
  | complex p => p.words

/-- The tokens of a noun phrase in surface order. -/
def tokens : NounPhrase → List Word
  | bare w => [w]
  | tagged w => [w.word]
  | complex p => p.words.map TaggedWord.word

/-- The tags of a noun phrase in surface order. -/
def tags (n : NounPhrase) : List Tag :=
  n.taggedWords.map TaggedWord.tag

end NounPhrase

namespace Node

theorem taggedWords_phrase (p : Phrase) : (phrase p).taggedWords = p.words := by
  rw [taggedWords_eq, filterMap_visit]
  simp only [children, List.flatMap_map]
  exact List.flatMap_singleton' p.words

theorem tokens_phrase (p : Phrase) : (phrase p).tokens = p.words.map TaggedWord.word := by
  rw [tokens_eq, filterMap_visit]
  simp only [children, List.flatMap_map]
  exact List.map_eq_flatMap.symm

theorem taggedWords_nounPhrase (n : NounPhrase) : (nounPhrase n).taggedWords = n.taggedWords := by
  cases n with
  | bare w => rfl
  | tagged w => rfl
  | complex p => exact taggedWords_phrase p

theorem tokens_nounPhrase (n : NounPhrase) : (nounPhrase n).tokens = n.tokens := by
  cases n with
  | bare w => rfl
  | tagged w => rfl
  | complex p => exact tokens_phrase p

theorem tags_nounPhrase (n : NounPhrase) : (nounPhrase n).tags = n.tags := by
  rw [tags_eq_above, taggedWords_nounPhrase]
  rfl

end Node

/-! ## Layers in a walk -/

namespace Verb

section

variable {β : Type} {f : Node → Option β} {object : NounPhrase → List β}
  (hverb : ∀ v, f (.verb v) = none)
  (hobject : ∀ n, (full.visit (.nounPhrase n)).filterMap f = object n)

include hverb hobject

theorem filterMap_visit_around (l : Layer) (v : Verb) :
    (full.visit (.verb (l.around v))).filterMap f =
      (full.visit (.verb v)).filterMap f ++ l.object?.toList.flatMap object := by
  rw [Node.filterMap_visit, hverb]
  cases l <;> simp [around, object?, Node.children, hobject]

theorem filterMap_visit_wrap (ls : List Layer) (v : Verb) :
    (full.visit (.verb (wrap ls v))).filterMap f =
      (full.visit (.verb v)).filterMap f ++ (objects ls).reverse.flatMap object := by
  induction ls with
  | nil => exact (List.append_nil _).symm
  | cons l ls ih =>
    have hreverse : l.object?.toList.reverse = l.object?.toList := by cases l <;> rfl
    rw [objects_cons, List.reverse_append, List.flatMap_append, hreverse, ← List.append_assoc, ← ih]
    exact filterMap_visit_around hverb hobject l (wrap ls v)

theorem filterMap_visit_stack (ls : List Layer) (times : Nat) (v : Verb) :
    (full.visit (.verb (stack ls times v))).filterMap f =
      (full.visit (.verb v)).filterMap f ++
        (List.replicate times ((objects ls).reverse.flatMap object)).flatten := by
  rw [stack_eq_wrap]
  induction times with
  | zero => exact (List.append_nil _).symm
  | succ times ih =>
    -- the outermost copy of the layers comes last
    rw [List.replicate_succ, List.flatten_cons, wrap_append, filterMap_visit_wrap hverb hobject, ih,
      List.replicate_succ', List.flatten_append, List.flatten_singleton, List.append_assoc]

end

theorem taggedWords_stack (ls : List Layer) (times : Nat) (v : Verb) :
    (stack ls times v).taggedWords =
      v.taggedWords ++
        (List.replicate times ((objects ls).reverse.flatMap NounPhrase.taggedWords)).flatten := by
  have h := filterMap_visit_stack (fun _ => rfl)
    (fun n => (Node.taggedWords_eq _).symm.trans (Node.taggedWords_nounPhrase n)) ls times v
  rwa [← Node.taggedWords_eq, ← Node.taggedWords_eq] at h

theorem tokens_stack (ls : List Layer) (times : Nat) (v : Verb) :
    (Node.verb (stack ls times v)).tokens =
      (Node.verb v).tokens ++
        (List.replicate times ((objects ls).reverse.flatMap NounPhrase.tokens)).flatten := by
  rw [Node.tokens_eq, Node.tokens_eq]
  exact filterMap_visit_stack (fun _ => rfl)
    (fun n => (Node.tokens_eq _).symm.trans (Node.tokens_nounPhrase n)) ls times v

theorem tags_stack (ls : List Layer) (times : Nat) (v : Verb) :
    (Node.verb (stack ls times v)).tags =
      (Node.verb v).tags ++
        (List.replicate times ((objects ls).reverse.flatMap NounPhrase.tags)).flatten := by
  rw [Node.tags_eq, Node.tags_eq]
  exact filterMap_visit_stack (fun _ => rfl)
    (fun n => (Node.tags_eq _).symm.trans (Node.tags_nounPhrase n)) ls times v

/-- The words of a pattern with layers around it: first its own, then, once for each time the layers were put
around it, those of the objects among the layers, from the innermost object to the outermost. The same holds of
the tokens, to which a bare object adds its lemma, and of the tags. -/
theorem stacked_words_inside_out (ls : List Layer) (times : Nat) (v : Verb) :
    (stack ls times v).taggedWords =
      v.taggedWords ++
        (List.replicate times ((objects ls).reverse.flatMap NounPhrase.taggedWords)).flatten ∧
    (Node.verb (stack ls times v)).tokens =
      (Node.verb v).tokens ++
        (List.replicate times ((objects ls).reverse.flatMap NounPhrase.tokens)).flatten ∧
    (Node.verb (stack ls times v)).tags =
      (Node.verb v).tags ++
        (List.replicate times ((objects ls).reverse.flatMap NounPhrase.tags)).flatten :=
  ⟨taggedWords_stack ls times v, tokens_stack ls times v, tags_stack ls times v⟩

example :
    let take : Word := ⟨"take", by decide, by decide⟩
    let care : Word := ⟨"care", by decide, by decide⟩
    let home : Word := ⟨"home", by decide, by decide⟩
    (Node.verb (stack [.object (.bare home), .event .telic, .object (.bare care)] 2 (bare take))).tokens =
      [take, care, home, care, home] := rfl

/-! ## The base lemma in a walk -/

theorem taggedWords_eq_core_append (v : Verb) :
    v.taggedWords = v.core.taggedWords ++ (objects v.layers).reverse.flatMap NounPhrase.taggedWords := by
  have h := taggedWords_stack v.layers 1 v.core
  simpa [stack_eq_wrap, wrap_layers_core] using h

theorem tokens_eq_core_append (v : Verb) :
    (Node.verb v).tokens =
      (Node.verb v.core).tokens ++ (objects v.layers).reverse.flatMap NounPhrase.tokens := by
  have h := tokens_stack v.layers 1 v.core
  simpa [stack_eq_wrap, wrap_layers_core] using h

theorem taggedWords_of_phrase (p : Phrase) : (phrase p).taggedWords = p.words :=
  Node.taggedWords_phrase p

theorem tokens_of_phrase (p : Phrase) : (Node.verb (phrase p)).tokens = p.words.map TaggedWord.word :=
  Node.tokens_phrase p

theorem head?_tokens_of_core {v : Verb} {w : Word} (h : v.core = bare w) :
    (Node.verb v).tokens.head? = some w := by
  rw [tokens_eq_core_append, h]
  rfl

/-- The verb of a leaf comes before all verbs of objects. -/
theorem find?_taggedWords_of_core {v : Verb} {p : Phrase} (h : v.core = phrase p) {u : TaggedWord}
    (hu : p.headVerb? = some u) : (v.taggedWords.find? fun u => u.tag == .verb) = some u := by
  rw [taggedWords_eq_core_append, h, taggedWords_of_phrase, List.find?_append]
  exact Option.or_eq_some_iff.2 (.inl hu)

theorem mem_tokens_core {v : Verb} {x : Word} (h : v.baseLemma? = some x) :
    x ∈ (Node.verb v.core).tokens := by
  rw [baseLemma?_eq] at h
  have hleaf := v.isLeaf_core
  generalize v.core = leaf at h hleaf ⊢
  cases hleaf with
  | bare w =>
    cases h
    exact .head _
  | phrase p =>
    obtain ⟨before, w, after, hp, -, -, rfl⟩ := baseLemma?_phrase_eq_some_iff.1 h
    rw [tokens_of_phrase]
    exact List.mem_map_of_mem (by simp [hp])

/-- The base lemma of a pattern by a walk. If the leaf is a bare lemma, it is the first token; if the leaf is a
phrase with a verb, it is the first verb among the tagged words; if the leaf is a phrase without a verb there is
none, whatever verbs the objects have. The walk has the tokens of the leaf before those of all objects, and
the base lemma is one of the former. -/
theorem base_lemma_in_walk (v : Verb) :
    (∀ w, v.core = bare w → (Node.verb v).tokens.head? = some w ∧ v.baseLemma? = some w) ∧
    (∀ p, v.core = phrase p → (∃ u ∈ p.words, u.tag = .verb) →
      ∃ u, (v.taggedWords.find? fun u => u.tag == .verb) = some u ∧ v.baseLemma? = some u.word) ∧
    (∀ p, v.core = phrase p → (∀ u ∈ p.words, u.tag ≠ .verb) → v.baseLemma? = none) ∧
    (Node.verb v).tokens =
      (Node.verb v.core).tokens ++ (objects v.layers).reverse.flatMap NounPhrase.tokens ∧
    (∀ x, v.baseLemma? = some x → x ∈ (Node.verb v.core).tokens) := by
  refine ⟨fun w h => ⟨head?_tokens_of_core h, ?_⟩, fun p h hverb => ?_, fun p h hverb => ?_,
    tokens_eq_core_append v, fun x => mem_tokens_core⟩
  · rw [baseLemma?_eq, h]
    rfl
  · obtain ⟨u, hu⟩ : ∃ u, p.headVerb? = some u := by
      obtain ⟨u, hu, htag⟩ := hverb
      exact Option.isSome_iff_exists.1 (List.find?_isSome.2 ⟨u, hu, by simp [htag]⟩)
    refine ⟨u, find?_taggedWords_of_core h hu, ?_⟩
    rw [baseLemma?_eq, h]
    exact congrArg (Option.map TaggedWord.word) hu
  · rw [baseLemma?_eq, h]
    exact baseLemma?_phrase_eq_none_iff.2 hverb

/-- The same object, which is a verb, around a bare lemma, a phrase with a verb and a phrase without one. -/
theorem base_lemma_in_walk_verbal_object :
    let leave : TaggedWord := ⟨⟨"leave", by decide, by decide⟩, .verb⟩
    let take : Word := ⟨"take", by decide, by decide⟩
    let look : TaggedWord := ⟨⟨"look", by decide, by decide⟩, .verb⟩
    let up : TaggedWord := ⟨⟨"up", by decide, by decide⟩, .particle⟩
    let withLeave (leaf : Verb) : Verb := event .telic (withObject leaf (.tagged leave))
    let v₁ := withLeave (bare take)
    let v₂ := withLeave (phrase ⟨[up, look]⟩)
    let v₃ := withLeave (phrase ⟨[up]⟩)
    v₁.core = bare take ∧ (Node.verb v₁).tokens.head? = some take ∧ v₁.baseLemma? = some take ∧
    v₂.core = phrase ⟨[up, look]⟩ ∧ v₂.taggedWords = [up, look, leave] ∧
    v₂.baseLemma? = some look.word ∧ look.word ∈ (Node.verb v₂.core).tokens ∧
    v₃.core = phrase ⟨[up]⟩ ∧ v₃.taggedWords = [up, leave] ∧ v₃.baseLemma? = none := by
  intro leave take look up withLeave v₁ v₂ v₃
  obtain ⟨hhead, hbare⟩ := (base_lemma_in_walk v₁).1 take rfl
  obtain ⟨-, hphrase, -, -, hmem⟩ := base_lemma_in_walk v₂
  obtain ⟨u, hfind, hlook⟩ := hphrase ⟨[up, look]⟩ rfl ⟨look, by simp, rfl⟩
  obtain rfl : look = u := Option.some.inj hfind
  have hnone := (base_lemma_in_walk v₃).2.2.1 ⟨[up]⟩ rfl (by simp [up])
  exact ⟨rfl, hhead, hbare, rfl, rfl, hlook, hmem _ hlook, rfl, rfl, hnone⟩

end Verb

end Phrasebook
