/-
Fingerprints: 64-bit summaries of patterns. Equal patterns have equal fingerprints; unequal patterns may
share one.
-/
import Phrasebook.Fingerprint.Message

namespace Phrasebook

/-- A type whose values have fingerprints. -/
class Fingerprint (α : Type) where
  /-- The fingerprint of a value. -/
  fingerprint : α → UInt64

export Fingerprint (fingerprint)

instance : Fingerprint NounPhrase := ⟨fun n => n.message.digest⟩

instance : Fingerprint Verb := ⟨fun v => v.message.digest⟩

end Phrasebook
