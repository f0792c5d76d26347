/-
Patterns with one part left out. A context has a hole in place of one node; filling it with two parts
gives two patterns that differ in that place and in no other. Contexts reach every node: what can be put
into a hole to give a pattern is what the full walk of the pattern meets.
-/
import Phrasebook.Proofs.Walk

namespace Phrasebook

/-- The parts of a pattern, by kind of node. -/
abbrev NodeKind.Part : NodeKind → Type
  | verb => Verb
  | nounPhrase => NounPhrase
  | phrase => Phrase
  | tagged => TaggedWord
  | word => Word
  | tag => Tag

/-- The node of a part. -/
def Node.ofPart : (k : NodeKind) → k.Part → Node
  | .verb => verb
  | .nounPhrase => nounPhrase
  | .phrase => phrase
  | .tagged => tagged
  | .word => word
  | .tag => tag

theorem Node.kind_ofPart (k : NodeKind) (x : k.Part) : (ofPart k x).kind = k := by
  cases k <;> rfl

/-- A whole, of the kind given last, with a part of kind `k` left out. -/
inductive Context (k : NodeKind) : NodeKind → Type
  /-- The whole itself is left out. -/
  | hole : Context k k
  | token (C : Context k .word) (tag : Tag) : Context k .tagged
  | tag (word : Word) (C : Context k .tag) : Context k .tagged
  | item (before : List TaggedWord) (C : Context k .tagged) (after : List TaggedWord) : Context k .phrase
  | bareNoun (C : Context k .word) : Context k .nounPhrase
  | taggedNoun (C : Context k .tagged) : Context k .nounPhrase
  | complexNoun (C : Context k .phrase) : Context k .nounPhrase
  | bareVerb (C : Context k .word) : Context k .verb
  | phraseVerb (C : Context k .phrase) : Context k .verb
  /-- The part lies below a layer. -/
  | around (layer : Layer) (C : Context k .verb) : Context k .verb
  /-- The part lies in the object of a verb. -/
  | object (verb : Verb) (C : Context k .nounPhrase) : Context k .verb

namespace Context

variable {k r : NodeKind}

/-- The whole with a part put into the hole. -/
def fill : {r : NodeKind} → Context k r → k.Part → r.Part
  | _, hole, x => x
  | _, token C t, x => TaggedWord.mk (C.fill x) t
  | _, tag w C, x => TaggedWord.mk w (C.fill x)
  | _, item before C after, x => Phrase.mk (before ++ C.fill x :: after)
  | _, bareNoun C, x => NounPhrase.bare (C.fill x)
  | _, taggedNoun C, x => NounPhrase.tagged (C.fill x)
  | _, complexNoun C, x => NounPhrase.complex (C.fill x)
  | _, bareVerb C, x => Verb.bare (C.fill x)
  | _, phraseVerb C, x => Verb.phrase (C.fill x)
  | _, around l C, x => l.around (C.fill x)
  | _, object v C, x => Verb.withObject v (C.fill x)

/-- Puts layers around a context, the first one outermost. -/
def wrap (layers : List Layer) (C : Context k .verb) : Context k .verb :=
  layers.foldr around C

theorem fill_wrap (ls : List Layer) (C : Context k .verb) (x : k.Part) :
    (wrap ls C).fill x = Verb.wrap ls (C.fill x) := by
  induction ls with
  | nil => rfl
  | cons l ls ih => exact congrArg l.around ih

/-! ## The nodes that contexts reach -/

open Walker

theorem mem_visit_fill (C : Context k r) (x : k.Part) :
    Node.ofPart k x ∈ full.visit (Node.ofPart r (C.fill x)) := by
  -- each constructor of contexts goes to one child
  induction C with
  | hole => exact mem_visit_full.2 (.inl rfl)
  | token C t ih => exact mem_visit_full.2 (.inr ⟨_, .head _, ih⟩)
  | tag w C ih => exact mem_visit_full.2 (.inr ⟨_, .tail _ (.head _), ih⟩)
  | item before C after ih =>
    refine mem_visit_full.2 (.inr ⟨_, List.mem_map_of_mem ?_, ih⟩)
    exact List.mem_append_right before (.head after)
  | bareNoun C ih => exact mem_visit_full.2 (.inr ⟨_, .head _, ih⟩)
  | taggedNoun C ih => exact mem_visit_full.2 (.inr ⟨_, .head _, ih⟩)
  | complexNoun C ih => exact mem_visit_full.2 (.inr ⟨_, .head _, ih⟩)
  | bareVerb C ih => exact mem_visit_full.2 (.inr ⟨_, .head _, ih⟩)
  | phraseVerb C ih => exact mem_visit_full.2 (.inr ⟨_, .head _, ih⟩)
  | around l C ih => cases l <;> exact mem_visit_full.2 (.inr ⟨_, .head _, ih⟩)
  | object v C ih => exact mem_visit_full.2 (.inr ⟨_, .tail _ (.head _), ih⟩)

theorem exists_fill_of_ofPart_eq {x : k.Part} {y : r.Part} (h : Node.ofPart k x = Node.ofPart r y) :
    ∃ C : Context k r, C.fill x = y := by
  have hkr : k = r := by
    have hkind := congrArg Node.kind h
    rwa [Node.kind_ofPart, Node.kind_ofPart] at hkind
  subst hkr
  refine ⟨hole, ?_⟩
  cases k <;> cases h <;> rfl

/-- A context that leaves a part out of a child goes on to one that leaves it out of the whole. -/
theorem exists_fill_of_child {x : k.Part} {y : r.Part} {c : Node} (hc : c ∈ (Node.ofPart r y).children) :
    ∃ (s : NodeKind) (z : s.Part), c = Node.ofPart s z ∧
      ∀ C : Context k s, C.fill x = z → ∃ D : Context k r, D.fill x = y := by
  cases r with
  | verb =>
    cases y with
    | bare w =>
      obtain rfl := List.mem_singleton.1 hc
      exact ⟨.word, w, rfl, fun C h => ⟨bareVerb C, congrArg Verb.bare h⟩⟩
    | phrase p =>
      obtain rfl := List.mem_singleton.1 hc
      exact ⟨.phrase, p, rfl, fun C h => ⟨phraseVerb C, congrArg Verb.phrase h⟩⟩
    | withObject v n =>
      rcases List.mem_cons.1 hc with rfl | hc
      · exact ⟨.verb, v, rfl, fun C h => ⟨around (.object n) C, congrArg (Verb.withObject · n) h⟩⟩
      · obtain rfl := List.mem_singleton.1 hc
        exact ⟨.nounPhrase, n, rfl, fun C h => ⟨object v C, congrArg (Verb.withObject v) h⟩⟩
    | event t v =>
      obtain rfl := List.mem_singleton.1 hc
      exact ⟨.verb, v, rfl, fun C h => ⟨around (.event t) C, congrArg (Verb.event t) h⟩⟩
  | nounPhrase =>
    cases y with
    | bare w =>
      obtain rfl := List.mem_singleton.1 hc
      exact ⟨.word, w, rfl, fun C h => ⟨bareNoun C, congrArg NounPhrase.bare h⟩⟩
    | tagged w =>
      obtain rfl := List.mem_singleton.1 hc
      exact ⟨.tagged, w, rfl, fun C h => ⟨taggedNoun C, congrArg NounPhrase.tagged h⟩⟩
    | complex p =>
      obtain rfl := List.mem_singleton.1 hc
      exact ⟨.phrase, p, rfl, fun C h => ⟨complexNoun C, congrArg NounPhrase.complex h⟩⟩
  | phrase =>
    obtain ⟨w, hw, rfl⟩ := List.mem_map.1 hc
    obtain ⟨before, after, hy⟩ := List.append_of_mem hw
    refine ⟨.tagged, w, rfl, fun C h => ⟨item before C after, congrArg Phrase.mk ?_⟩⟩
    rw [h, hy]
  | tagged =>
    rcases List.mem_cons.1 hc with rfl | hc
    · exact ⟨.word, y.word, rfl, fun C h => ⟨token C y.tag, congrArg (TaggedWord.mk · y.tag) h⟩⟩
    · obtain rfl := List.mem_singleton.1 hc
      exact ⟨.tag, y.tag, rfl, fun C h => ⟨tag y.word C, congrArg (TaggedWord.mk y.word) h⟩⟩
  | word => cases hc
  | tag => cases hc

/-- The parts that contexts leave out of a whole are the nodes of its full walk. -/
theorem exists_fill_iff_mem_visit {x : k.Part} {y : r.Part} :
    (∃ C : Context k r, C.fill x = y) ↔ Node.ofPart k x ∈ full.visit (Node.ofPart r y) := by
  constructor
  · rintro ⟨C, rfl⟩
    exact C.mem_visit_fill x
  · intro h
    generalize hn : Node.ofPart r y = n at h
    induction n using Node.induction generalizing r with
    | step n ih =>
      subst hn
      rcases mem_visit_full.1 h with h | ⟨c, hc, h⟩
      · exact exists_fill_of_ofPart_eq h
      · obtain ⟨s, z, rfl, hstep⟩ := exists_fill_of_child hc
        obtain ⟨C, hC⟩ := ih _ hc rfl h
        exact hstep C hC

end Context

end Phrasebook
