/-
Part-of-speech tags: the closed set of word classes a surface token may carry, with their names, the
code each has in a fingerprint, and the two groups that patterns ask about.
-/

namespace Phrasebook

/-- A word class. `any` stands for every class. -/
inductive Tag
  | adjective
  | adposition
  | adverb
  | article
  | bullet
  | circumposition
  | colon
  | comma
  | conjunction
  | copula
  | determiner
  | interjection
  | noun
  | numeral
  | particle
  | point
  | postposition
  | preposition
  | pronoun
  | punctuation
  | semicolon
  | slash
  | verb
  | any
  deriving DecidableEq, Repr

namespace Tag

/-- All tags, in the order of their codes. -/
def all : List Tag :=
  [.adjective, .adposition, .adverb, .article, .bullet, .circumposition, .colon, .comma,
   .conjunction, .copula, .determiner, .interjection, .noun, .numeral, .particle, .point,
   .postposition, .preposition, .pronoun, .punctuation, .semicolon, .slash, .verb, .any]

theorem mem_all (t : Tag) : t ∈ all := by
  cases t <;> decide

/-- The keyword of a tag. -/
def name : Tag → String
  | adjective => "adjective"
  | adposition => "adposition"
  | adverb => "adverb"
  | article => "article"
  | bullet => "bullet"
  | circumposition => "circumposition"
  | colon => "colon"
  | comma => "comma"
  | conjunction => "conjunction"
  | copula => "copula"
  | determiner => "determiner"
  | interjection => "interjection"
  | noun => "noun"
  | numeral => "numeral"
  | particle => "particle"
  | point => "point"
  | postposition => "postposition"
  | preposition => "preposition"
  | pronoun => "pronoun"
  | punctuation => "punctuation"
  | semicolon => "semicolon"
  | slash => "slash"
  | verb => "verb"
  | any => "any"

/-- The diagnostic text of a tag. -/
def inspect : Tag → String
  | adjective => "Adjective"
  | adposition => "Adposition"
  | adverb => "Adverb"
  | article => "Article"
  | bullet => "Bullet"
  | circumposition => "Circumposition"
  | colon => "Colon"
  | comma => "Comma"
  | conjunction => "Conjunction"
  | copula => "Copula"
  | determiner => "Determiner"
  | interjection => "Interjection"
  | noun => "Noun"
  | numeral => "Numeral"
  | particle => "Particle"
  | point => "Point"
  | postposition => "Postposition"
  | preposition => "Preposition"
  | pronoun => "Pronoun"
  | punctuation => "Punctuation"
  | semicolon => "Semicolon"
  | slash => "Slash"
  | verb => "Verb"
  | any => "Any"

/-- The tag with the given keyword; case matters. -/
def ofName? (s : String) : Option Tag :=
  all.find? fun t => t.name == s

/-- A keyword names its tag. -/
theorem ofName?_name (t : Tag) : ofName? t.name = some t := by
  cases t <;> decide

/-- The position of a tag among all tags. -/
def index (t : Tag) : Nat :=
  all.idxOf t

/-- The byte that stands for a tag in a fingerprint: its position. -/
def code (t : Tag) : UInt8 :=
  UInt8.ofNat t.index

/-- Whether a tag stands for every word class. -/
def isWildcard (t : Tag) : Bool :=
  t == any

/-- Whether a tag is a class of punctuation marks. -/
def isPunctuation : Tag → Bool
  | bullet | colon | comma | point | punctuation | semicolon | slash => true
  | _ => false

end Tag

instance : ToString Tag := ⟨Tag.name⟩

end Phrasebook
