/-
The message of a pattern: the sequence of writes from which its fingerprint is made. Each node of a
pattern begins with a code of its form, a phrase with its length, and a token is closed by a byte that
occurs in no text, so that a message determines its pattern.
-/
import Phrasebook.Fingerprint.Mixer
import Phrasebook.Verb.Basic

namespace Phrasebook

open Text

/-- One write of a message. -/
inductive Write
  /-- The code of a form or of a tag. -/
  | code (byte : UInt8)
  /-- The number of words of a phrase. -/
  | count (n : UInt64)
  /-- The text of a token. -/
  | token (text : String)
  deriving DecidableEq, Repr

namespace Write

/-- The byte that closes a token; it occurs in no UTF-8 text. -/
def tokenEnd : UInt8 := 0xff

/-- The eight bytes of a word, the least significant first. -/
def wordBytes (w : UInt64) : List UInt8 :=
  (List.range 8).map fun i => (w >>> UInt64.ofNat (8 * i)).toUInt8

/-- The bytes of a write. -/
def bytes : Write → List UInt8
  | code b => [b]
  | count n => wordBytes n
  | token s => utf8 s ++ [tokenEnd]

/-- The words that a write adds to the mixer: one for a code or a count, two for a token. -/
def additions : Write → List UInt64
  | code b => [b.toUInt64]
  | count n => [n]
  | token s => [Mixer.hashBytes (utf8 s), tokenEnd.toUInt64]

end Write

/-- A sequence of writes. -/
abbrev Message := List Write

namespace Message

/-- The byte stream of a message. -/
def bytes (m : Message) : List UInt8 :=
  m.flatMap Write.bytes

/-- The words that a message adds to the mixer. -/
def additions (m : Message) : List UInt64 :=
  m.flatMap Write.additions

/-- The fingerprint of a message. -/
def digest (m : Message) : UInt64 :=
  Mixer.digest m.additions

end Message

/-- The message of a tagged word: the token, then the code of its tag. -/
def TaggedWord.message (w : TaggedWord) : Message :=
  [.token w.word.text, .code w.tag.code]

/-- The message of a phrase: its length, then its words. -/
def Phrase.message (p : Phrase) : Message :=
  .count (UInt64.ofNat p.length) :: p.words.flatMap TaggedWord.message

/-- The code of a noun phrase's form. -/
def NounPhrase.code : NounPhrase → UInt8
  | bare _ => 0x10
  | tagged _ => 0x11
  | complex _ => 0x12

/-- The message of a noun phrase. -/
def NounPhrase.message : NounPhrase → Message
  | n@(bare w) => [.code n.code, .token w.text]
  | n@(tagged w) => .code n.code :: w.message
  | n@(complex p) => .code n.code :: p.message

/-- The code of a telicity modifier. -/
def Telicity.code : Telicity → UInt8
  | telic => 0x23
  | nontelic => 0x24
  | unknown => 0x25

/-- The code of a verb pattern's outermost form. -/
def Verb.code : Verb → UInt8
  | bare _ => 0x20
  | phrase _ => 0x21
  | withObject _ _ => 0x22
  | event t _ => t.code

/-- The message of a verb pattern: the verb comes before its object. -/
def Verb.message : Verb → Message
  | v@(bare w) => [.code v.code, .token w.text]
  | v@(phrase p) => .code v.code :: p.message
  | v@(withObject inner n) => .code v.code :: (inner.message ++ n.message)
  | v@(event _ inner) => .code v.code :: inner.message

end Phrasebook
