/-
Tagged words and phrases: a token with its word class, and a sequence of such words with the heads
that noun phrases and verb patterns look for.
-/
import Phrasebook.Tag
import Phrasebook.Word

namespace Phrasebook

open Text

/-- A word with its class. -/
structure TaggedWord where
  /-- The token. -/
  word : Word
  /-- The class of the token. -/
  tag : Tag
  deriving DecidableEq

namespace TaggedWord

/-- Reads a text as one token of the given class. -/
def ofString (text : String) (tag : Tag) : Except TokenError TaggedWord :=
  return ⟨← Word.ofString text, tag⟩

/-- The diagnostic text of a tagged word. -/
def inspect (w : TaggedWord) : String :=
  record "TaggedWord" [("word", w.word.inspect), ("tag", w.tag.inspect)]

end TaggedWord

/-- A sequence of tagged words in surface order. -/
structure Phrase where
  /-- The words, first to last. -/
  words : List TaggedWord
  deriving DecidableEq

namespace Phrase

/-- The phrase without words. -/
def empty : Phrase :=
  ⟨[]⟩

/-- The phrase of a list of words. -/
def ofList (ws : List TaggedWord) : Phrase :=
  ⟨ws⟩

/-- The phrase with one more word at the end. -/
def push (p : Phrase) (w : TaggedWord) : Phrase :=
  ⟨p.words ++ [w]⟩

/-- The phrase of words that come one after the other. -/
def collect (ws : List TaggedWord) : Phrase :=
  ws.foldl push empty

/-- Reads texts with their classes as a phrase. The first text that is no token is reported. -/
def parse (items : List (String × Tag)) : Except TokenError Phrase :=
  return ⟨← items.mapM fun item => TaggedWord.ofString item.1 item.2⟩

/-- The texts and classes of a phrase. -/
def items (p : Phrase) : List (String × Tag) :=
  p.words.map fun w => (w.word.text, w.tag)

/-- The number of words. -/
def length (p : Phrase) : Nat :=
  p.words.length

/-- Whether a phrase has no words. -/
def isEmpty (p : Phrase) : Bool :=
  p.words.isEmpty

/-- The last word. -/
def last? (p : Phrase) : Option TaggedWord :=
  p.words.getLast?

/-- The head of a nominal phrase: its rightmost noun. -/
def headNoun? (p : Phrase) : Option TaggedWord :=
  p.words.reverse.find? fun w => w.tag == .noun

/-- The head of a verbal phrase: its leftmost verb. -/
def headVerb? (p : Phrase) : Option TaggedWord :=
  p.words.find? fun w => w.tag == .verb

/-- The diagnostic text of a phrase. -/
def inspect (p : Phrase) : String :=
  tuple "TaggedWords" (bracketed (p.words.map TaggedWord.inspect))

end Phrase

end Phrasebook
