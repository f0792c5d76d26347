/-
Patterns as trees of nodes. A walk arrives at a node and goes on with its children from left to right,
whatever the kind of the node; so what holds of a node whenever it holds of its children holds of every
node.
-/
import Phrasebook.Walk

namespace Phrasebook

namespace Node

/-- The nodes directly below a node, from left to right. -/
def children : Node → List Node
  | verb (.bare w) => [word w]
  | verb (.phrase p) => [phrase p]
  | verb (.withObject v n) => [verb v, nounPhrase n]
  | verb (.event _ v) => [verb v]
  | nounPhrase (.bare w) => [word w]
  | nounPhrase (.tagged w) => [tagged w]
  | nounPhrase (.complex p) => [phrase p]
  | phrase p => p.words.map tagged
  | tagged w => [word w.word, tag w.tag]
  | word _ => []
  | tag _ => []

@[elab_as_elim]
theorem induction {P : Node → Prop} (step : ∀ n, (∀ c ∈ n.children, P c) → P n) (n : Node) : P n := by
  have hword (w : Word) : P (word w) := step _ (by simp [children])
  have htag (t : Tag) : P (tag t) := step _ (by simp [children])
  have htagged (w : TaggedWord) : P (tagged w) := step _ (by simp [children, hword, htag])
  have hphrase (p : Phrase) : P (phrase p) := by
    apply step
    intro c hc
    obtain ⟨w, -, rfl⟩ := List.mem_map.1 hc
    exact htagged w
  have hnoun (n : NounPhrase) : P (nounPhrase n) := by
    apply step
    cases n <;> simp [children, hword, htagged, hphrase]
  have hverb (v : Verb) : P (verb v) := by
    -- only verbs lie below nodes of their own kind
    induction v with
    | bare w => exact step _ (by simp [children, hword])
    | phrase p => exact step _ (by simp [children, hphrase])
    | withObject v n ih => exact step _ (by simp [children, ih, hnoun])
    | event t v ih => exact step _ (by simp [children, ih])
  cases n with
  | verb v => exact hverb v
  | nounPhrase n => exact hnoun n
  | phrase p => exact hphrase p
  | tagged w => exact htagged w
  | word w => exact hword w
  | tag t => exact htag t

end Node

namespace Walker

theorem below_eq (w : Walker) (n : Node) : w.below n = n.children.flatMap w.visit := by
  cases n with
  | verb v => cases v <;> simp [below, belowVerb, Node.children, visit]
  | nounPhrase n => cases n <;> simp [below, belowNounPhrase, Node.children, visit]
  | phrase p => simp [below, belowPhrase, Node.children, visit, List.flatMap_map]
  | tagged t => simp [below, belowTagged, Node.children, visit]
  | word x => rfl
  | tag t => rfl

theorem visit_full (n : Node) : full.visit n = n :: n.children.flatMap full.visit := by
  rw [← below_eq]
  rfl

theorem mem_visit_full {m n : Node} :
    m ∈ full.visit n ↔ m = n ∨ ∃ c ∈ n.children, m ∈ full.visit c := by
  rw [visit_full, List.mem_cons, List.mem_flatMap]

end Walker

end Phrasebook
