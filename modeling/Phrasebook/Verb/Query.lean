/-
What a verb pattern is asked for: its telicity, how many modifiers it has, its base lemma and its tagged
words. The first three look through modifiers and fixed objects to the layers below.
-/
import Phrasebook.Walk

namespace Phrasebook.Verb

/-- The telicity of the outermost modifier; none if the pattern has no modifier. -/
def telicity? : Verb → Option Telicity
  | bare _ => none
  | phrase _ => none
  | withObject v _ => v.telicity?
  | event t _ => some t

/-- The number of modifiers on the way in, counted on from the number met so far. -/
def depthFrom : Verb → Nat → Nat
  | bare _, depth => depth
  | phrase _, depth => depth
  | withObject v _, depth => v.depthFrom depth
  | event _ v, depth => v.depthFrom (depth + 1)

/-- The number of modifiers. -/
def modifierDepth (v : Verb) : Nat :=
  v.depthFrom 0

/-- Modifiers add to what was met before them. -/
theorem depthFrom_eq (v : Verb) (depth : Nat) : v.depthFrom depth = depth + v.modifierDepth := by
  unfold modifierDepth
  induction v generalizing depth with
  | bare w => rfl
  | phrase p => rfl
  | withObject v n ih => exact ih depth
  | event t v ih => rw [depthFrom, depthFrom, ih, ih (0 + 1), Nat.zero_add, Nat.add_assoc]

/-- The lemma of the innermost verb: the bare lemma, or the head verb of the phrase if it has one. -/
def baseLemma? : Verb → Option Word
  | bare w => some w
  | phrase p => p.headVerb?.map TaggedWord.word
  | withObject v _ => v.baseLemma?
  | event _ v => v.baseLemma?

/-- The tagged words of a pattern, in the order of a walk. -/
def taggedWords (v : Verb) : List TaggedWord :=
  ((Walker.collecting .tagged).visit (.verb v)).filterMap Node.tagged?

end Phrasebook.Verb
