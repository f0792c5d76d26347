/-
Verb patterns: a bare lemma or a phrase, wrapped in any number of layers. A layer is a telicity
modifier or a fixed object; a pattern is its layers around a core that has none.
-/
import Phrasebook.NounPhrase

namespace Phrasebook

open Text

/-- Whether an event has an inherent end point. -/
inductive Telicity
  | telic
  | nontelic
  /-- It is an event, but whether it has an end point is not known. -/
  | unknown
  deriving DecidableEq, Repr

namespace Telicity

/-- All telicities. -/
def all : List Telicity :=
  [.telic, .nontelic, .unknown]

/-- The keyword of a telicity. -/
def name : Telicity → String
  | telic => "telic"
  | nontelic => "nontelic"
  | unknown => "dunnotelic"

/-- The telicity with the given keyword. -/
def ofName? (s : String) : Option Telicity :=
  all.find? fun t => t.name == s

/-- The diagnostic text of a telicity. -/
def inspect : Telicity → String
  | telic => "Telic"
  | nontelic => "Nontelic"
  | unknown => "Unknown"

/-- The name of the modifier that asks for a telicity, in diagnostic text. -/
def eventName : Telicity → String
  | telic => "TelicEvent"
  | nontelic => "NontelicEvent"
  | unknown => "DunnotelicEvent"

end Telicity

instance : ToString Telicity := ⟨Telicity.name⟩

/-- A pattern for a verb phrase. -/
inductive Verb
  /-- A bare lemma. -/
  | bare (word : Word)
  /-- A phrase of several words. -/
  | phrase (phrase : Phrase)
  /-- A verb pattern with a fixed object. -/
  | withObject (verb : Verb) (object : NounPhrase)
  /-- A verb pattern restricted to one telicity. -/
  | event (telicity : Telicity) (inner : Verb)
  deriving DecidableEq

namespace Verb

/-- Whether the outermost part of a pattern is a modifier. -/
def isModifier : Verb → Bool
  | event _ _ => true
  | _ => false

/-- The name of the pattern's outermost form. -/
def form : Verb → String
  | bare _ => "lemma"
  | phrase _ => "phrase"
  | withObject _ _ => "object"
  | event t _ => t.name

/-- The name of the outermost form in diagnostic text. -/
def formName : Verb → String
  | bare _ => "Lemma"
  | phrase _ => "Phrase"
  | withObject _ _ => "WithObject"
  | event t _ => t.eventName

/-- The diagnostic text of what the outermost form holds. -/
def inspectContent : Verb → String
  | bare w => record "LemmaVerb" [("lemma", w.inspect)]
  | phrase p => record "PhraseVerb" [("words", p.inspect)]
  | withObject v n =>
    record "ObjectVerb" [("verb", tuple v.formName v.inspectContent), ("object", n.inspect)]
  | event t v => record (t.eventName ++ "Verb") [("inner", tuple v.formName v.inspectContent)]

/-- The diagnostic text of a pattern. -/
def inspect (v : Verb) : String :=
  tuple v.formName v.inspectContent

end Verb

/-- One layer around a verb pattern. -/
inductive Layer
  /-- A telicity modifier. -/
  | event (telicity : Telicity)
  /-- A fixed object. -/
  | object (np : NounPhrase)
  deriving DecidableEq

/-- Puts one layer around a pattern. -/
def Layer.around : Layer → Verb → Verb
  | event t, v => .event t v
  | object n, v => .withObject v n

namespace Verb

/-- Puts layers around a pattern, the first one outermost. -/
def wrap (layers : List Layer) (v : Verb) : Verb :=
  layers.foldr Layer.around v

/-- Puts the same layers around a pattern a number of times. -/
def stack (layers : List Layer) (times : Nat) (v : Verb) : Verb :=
  match layers with
  | [] => v
  | _ :: _ => Nat.repeat (wrap layers) times v

/-- The layers of a pattern, outermost first. -/
def layers : Verb → List Layer
  | bare _ => []
  | phrase _ => []
  | withObject v n => .object n :: v.layers
  | event t v => .event t :: v.layers

/-- What is left of a pattern when all its layers are taken away. -/
def core : Verb → Verb
  | withObject v _ => v.core
  | event _ v => v.core
  | v => v

/-- A pattern is its layers around its core. -/
theorem wrap_layers_core (v : Verb) : wrap v.layers v.core = v := by
  induction v with
  | bare w => rfl
  | phrase p => rfl
  | withObject v n ih => simpa [wrap, layers, core, Layer.around] using ih
  | event t v ih => simpa [wrap, layers, core, Layer.around] using ih

theorem layers_around (l : Layer) (v : Verb) : (l.around v).layers = l :: v.layers := by
  cases l <;> rfl

theorem core_around (l : Layer) (v : Verb) : (l.around v).core = v.core := by
  cases l <;> rfl

theorem layers_wrap (ls : List Layer) (v : Verb) : (wrap ls v).layers = ls ++ v.layers := by
  induction ls with
  | nil => rfl
  | cons l ls ih => simpa [wrap, layers_around] using ih

theorem core_wrap (ls : List Layer) (v : Verb) : (wrap ls v).core = v.core := by
  induction ls with
  | nil => rfl
  | cons l ls ih => simpa [wrap, core_around] using ih

theorem wrap_append (ls ks : List Layer) (v : Verb) : wrap (ls ++ ks) v = wrap ls (wrap ks v) := by
  simp [wrap]

/-- A stack is its layers repeated. -/
theorem stack_eq_wrap (ls : List Layer) (times : Nat) (v : Verb) :
    stack ls times v = wrap (List.replicate times ls).flatten v := by
  cases ls with
  | nil => simp [stack, wrap]
  | cons l ls =>
    induction times with
    | zero => rfl
    | succ n ih =>
      rw [List.replicate_succ, List.flatten_cons, wrap_append, ← ih]
      rfl

end Verb

end Phrasebook
