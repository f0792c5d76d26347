/-
Words: surface tokens that are not empty and hold no blank, the reasons for which a text is refused
as a token, and the order of words.
-/
import Phrasebook.Text.Blank
import Phrasebook.Text.Layout
import Phrasebook.Text.Quoted
import Phrasebook.Text.Utf8

namespace Phrasebook

open Text

/-- Why a text is not a surface token. -/
inductive TokenError
  /-- The text is empty or consists of blanks. -/
  | empty
  /-- The text holds a blank beside other characters. -/
  | containsBlank (token : String)
  deriving DecidableEq, Repr

namespace TokenError

/-- The sentence that reports the error. -/
def message : TokenError → String
  | empty => "surface token is empty"
  | containsBlank token =>
    "surface token " ++ quote token ++ " contains whitespace; use one tagged word per token"

/-- The diagnostic text of the error. -/
def inspect : TokenError → String
  | empty => "EmptyToken"
  | containsBlank token => record "WhitespaceInToken" [("token", quote token)]

end TokenError

/-- A surface token. -/
structure Word where
  /-- The characters of the token. -/
  text : String
  nonempty : text ≠ ""
  blankFree : text.toList.any isBlank = false
  deriving DecidableEq

namespace Word

theorem text_inj {w v : Word} (h : w.text = v.text) : w = v := by
  cases w; cases v
  cases h
  rfl

/-- Reads a text as one token. Blanks at the ends are not dropped: they make the text unfit. -/
def ofString (text : String) : Except TokenError Word :=
  if h : trim text.toList = [] then
    .error .empty
  else if hb : text.toList.any isBlank then
    .error (.containsBlank text)
  else
    .ok ⟨text, fun he => h (by subst he; rfl), Bool.eq_false_iff.mpr hb⟩

/-- The text of a word is read as that word. -/
theorem ofString_text (w : Word) : ofString w.text = .ok w := by
  have hb := w.blankFree
  have ht : trim w.text.toList ≠ [] := by
    intro h
    rw [trim_eq_nil_iff] at h
    rw [List.any_eq_false] at hb
    rcases hl : w.text.toList with _ | ⟨c, rest⟩
    · exact w.nonempty (String.toList_eq_nil_iff.1 hl)
    · exact hb c (by simp [hl]) (h c (by simp [hl]))
  simp [ofString, ht, w.blankFree]

/-- The diagnostic text of a word. -/
def inspect (w : Word) : String :=
  tuple "Word" (quote w.text)

/-- The number of bytes of the word in UTF-8. -/
def byteLength (w : Word) : Nat :=
  (utf8 w.text).length

/-- Words are ordered by the bytes of their text. -/
instance : Ord Word := ⟨fun a b => compareBytes a.text b.text⟩

/-- The greater of two words. -/
def greater (a b : Word) : Word :=
  if compare a b = .gt then a else b

/-- The words in ascending order. -/
def sort (ws : List Word) : List Word :=
  ws.mergeSort fun a b => (compare a b).isLE

end Word

instance : ToString Word := ⟨Word.text⟩

end Phrasebook
