/-
Cases: for one node without its descendants, which case it is, what it holds, and the parts that a
handler of that case is given, as diagnostic text.
-/
import Phrasebook.Verb.Basic

namespace Phrasebook

/-- The case of a pattern. -/
structure Case where
  /-- The name of the case's handler. -/
  handler : String
  /-- The diagnostic text of what the node holds. -/
  content : String
  /-- The diagnostic texts of the node's parts. -/
  parts : List String
  deriving DecidableEq, Repr

/-- The name of the handler of a tag. -/
def Tag.handler (t : Tag) : String :=
  "visit_" ++ t.name

/-- The name of the handler of a noun phrase's form. -/
def NounPhrase.handler (n : NounPhrase) : String :=
  "visit_" ++ n.form ++ "_np"

/-- The diagnostic texts of the parts of a noun phrase. -/
def NounPhrase.inspectParts : NounPhrase → List String
  | bare w => [w.inspect]
  | tagged w => [w.inspect]
  | complex p => [p.inspect]

/-- The case of a noun phrase. -/
def NounPhrase.toCase (n : NounPhrase) : Case :=
  ⟨n.handler, n.inspectContent, n.inspectParts⟩

/-- The name of the handler of a verb pattern's outermost form. -/
def Verb.handler (v : Verb) : String :=
  "visit_" ++ v.form ++ if v.isModifier then "_event" else "_verb"

/-- The diagnostic texts of the parts of a verb pattern. -/
def Verb.inspectParts : Verb → List String
  | bare w => [w.inspect]
  | phrase p => [p.inspect]
  | withObject v n => [v.inspect, n.inspect]
  | event _ v => [v.inspect]

/-- The case of a verb pattern. -/
def Verb.toCase (v : Verb) : Case :=
  ⟨v.handler, v.inspectContent, v.inspectParts⟩

end Phrasebook
