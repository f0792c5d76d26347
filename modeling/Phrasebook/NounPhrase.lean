/-
Noun-phrase patterns: a bare lemma, one tagged word, or a whole phrase.
-/
import Phrasebook.Phrase

namespace Phrasebook

open Text

/-- A pattern for a noun phrase. -/
inductive NounPhrase
  /-- A bare lemma. -/
  | bare (word : Word)
  /-- One word of a given class. -/
  | tagged (word : TaggedWord)
  /-- A phrase of several words. -/
  | complex (phrase : Phrase)
  deriving DecidableEq

namespace NounPhrase

/-- The word that heads the pattern; a phrase without a noun has none. -/
def head? : NounPhrase → Option Word
  | bare w => some w
  | tagged w => some w.word
  | complex p => p.headNoun?.map TaggedWord.word

/-- The name of the pattern's form. -/
def form : NounPhrase → String
  | bare _ => "lemma"
  | tagged _ => "tagged"
  | complex _ => "complex"

/-- The name of the form in diagnostic text. -/
def formName : NounPhrase → String
  | bare _ => "Lemma"
  | tagged _ => "Tagged"
  | complex _ => "Complex"

/-- The diagnostic text of what the pattern holds. -/
def inspectContent : NounPhrase → String
  | bare w => record "LemmaNp" [("lemma", w.inspect)]
  | tagged w => record "TaggedNp" [("word", w.inspect)]
  | complex p => record "ComplexNp" [("words", p.inspect)]

/-- The diagnostic text of the pattern. -/
def inspect (n : NounPhrase) : String :=
  tuple n.formName n.inspectContent

end NounPhrase

end Phrasebook
