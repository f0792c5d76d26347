/-
The writes of a message follow the full walk. A message is written by going down a pattern form by
form, a walk by going from node to node; both meet the same nodes in the same order. Taken node by node,
the walk gives the message: every node stands for one write, except the tagged words, which write nothing
of their own.
-/
import Phrasebook.Fingerprint.Basic
import Phrasebook.Proofs.Walk

namespace Phrasebook

namespace Node

/-- What a node of a walk writes: the code of its form, the number of its words, its text or the code of its
tag. -/
def write? : Node → Option Write
  | verb v => some (.code v.code)
  | nounPhrase n => some (.code n.code)
  | phrase p => some (.count (UInt64.ofNat p.words.length))
  | tagged _ => none
  | word w => some (.token w.text)
  | tag t => some (.code t.code)

/-- The message of the part of a pattern that begins at a node. -/
def message : Node → Message
  | verb v => v.message
  | nounPhrase n => n.message
  | phrase p => p.message
  | tagged w => w.message
  | word w => [.token w.text]
  | tag t => [.code t.code]

theorem write?_eq_none_iff {n : Node} : n.write? = none ↔ n.kind = .tagged := by
  cases n <;> simp [write?, kind]

/-- A message is the write of its first node, then the messages of the nodes below. -/
theorem message_eq (n : Node) : n.message = n.write?.toList ++ n.children.flatMap message := by
  cases n with
  | verb v => cases v <;> simp [message, Verb.message, write?, children]
  | nounPhrase n => cases n <;> simp [message, NounPhrase.message, write?, children]
  | phrase p => simp [message, Phrase.message, Phrase.length, write?, children, List.flatMap_map]
  | tagged w => rfl
  | word w => rfl
  | tag t => rfl

theorem message_eq_walk (n : Node) : n.message = (Walker.full.visit n).filterMap write? := by
  induction n using Node.induction with
  | step n ih =>
    rw [message_eq, Walker.visit_full, List.filterMap_cons, List.filterMap_flatMap]
    have hbelow : n.children.flatMap message =
        n.children.flatMap fun c => (Walker.full.visit c).filterMap write? := by
      unfold List.flatMap
      rw [List.map_congr_left ih]
    rw [hbelow]
    cases n.write? <;> rfl

end Node

open Walker

/-- The message of every pattern is the image of its full walk: in the order of the walk, the nodes other
than the tagged words give one write each, and these are all the writes. So the fingerprint is the digest
of that image. -/
theorem message_follows_walk :
    (∀ n : Node, n.write? = none ↔ n.kind = .tagged) ∧
    (∀ v : Verb,
      v.message = (full.visit (.verb v)).filterMap Node.write? ∧
      fingerprint v =
        Mixer.digest (((full.visit (.verb v)).filterMap Node.write?).flatMap Write.additions)) ∧
    (∀ n : NounPhrase,
      n.message = (full.visit (.nounPhrase n)).filterMap Node.write? ∧
      fingerprint n =
        Mixer.digest (((full.visit (.nounPhrase n)).filterMap Node.write?).flatMap Write.additions)) := by
  have hverb (v : Verb) : v.message = (full.visit (.verb v)).filterMap Node.write? :=
    Node.message_eq_walk (.verb v)
  have hnoun (n : NounPhrase) : n.message = (full.visit (.nounPhrase n)).filterMap Node.write? :=
    Node.message_eq_walk (.nounPhrase n)
  refine ⟨fun n => Node.write?_eq_none_iff, fun v => ⟨hverb v, ?_⟩, fun n => ⟨hnoun n, ?_⟩⟩
  · rw [← hverb]
    rfl
  · rw [← hnoun]
    rfl

end Phrasebook
