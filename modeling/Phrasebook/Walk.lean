/-
Walks over patterns. A pattern is a tree of nodes: verb patterns, noun phrases, phrases, tagged words,
words and tags. A walker goes through it depth first and from left to right, a parent before its
parts, a verb before its object, a token before its tag. It has its own action for some kinds of node: to list
them or not, and to go on below them or not. At the others it lists nothing and goes on.
-/
import Phrasebook.Verb.Basic

namespace Phrasebook

/-- A node of a pattern. -/
inductive Node
  | verb (verb : Verb)
  | nounPhrase (np : NounPhrase)
  | phrase (phrase : Phrase)
  | tagged (word : TaggedWord)
  | word (word : Word)
  | tag (tag : Tag)
  deriving DecidableEq

/-- The kinds of node. -/
inductive NodeKind
  | verb
  | nounPhrase
  | phrase
  | tagged
  | word
  | tag
  deriving DecidableEq, Repr

namespace NodeKind

/-- All kinds of node. -/
def all : List NodeKind :=
  [.verb, .nounPhrase, .phrase, .tagged, .word, .tag]

/-- The keyword of a kind. -/
def name : NodeKind → String
  | verb => "verb"
  | nounPhrase => "np"
  | phrase => "words"
  | tagged => "tagged"
  | word => "word"
  | tag => "tag"

/-- The kind with the given keyword. -/
def ofName? (s : String) : Option NodeKind :=
  all.find? fun k => k.name == s

end NodeKind

namespace Node

/-- The kind of a node. -/
def kind : Node → NodeKind
  | verb _ => .verb
  | nounPhrase _ => .nounPhrase
  | phrase _ => .phrase
  | tagged _ => .tagged
  | word _ => .word
  | tag _ => .tag

/-- What tells a node apart from others of its kind in a log: its form, its length, its text or its
name. -/
def detail : Node → String
  | verb v => v.form
  | nounPhrase n => n.form
  | phrase p => toString p.length
  | tagged w => w.word.text
  | word w => w.text
  | tag t => t.name

/-- The entry of a node in a log: its kind and its detail. -/
def label (n : Node) : String :=
  n.kind.name ++ ":" ++ n.detail

/-- The word of a word node. -/
def word? : Node → Option Word
  | word w => some w
  | _ => none

/-- The tag of a tag node. -/
def tag? : Node → Option Tag
  | tag t => some t
  | _ => none

/-- The tagged word of a tagged-word node. -/
def tagged? : Node → Option TaggedWord
  | tagged w => some w
  | _ => none

end Node

/-- What a walker does at a node. -/
structure Walker.Action where
  /-- Whether the node is listed. -/
  lists : Bool
  /-- Whether the walk goes on below the node. -/
  enters : Bool
  deriving DecidableEq, Repr

/-- What is done at a node of a kind that a walker leaves alone: it is not listed, and the walk goes on. -/
def Walker.Action.pass : Walker.Action :=
  ⟨false, true⟩

/-- A walker, given by its own actions. -/
structure Walker where
  /-- The action for a kind of node; none if the walker leaves the kind alone. -/
  own? : NodeKind → Option Walker.Action

namespace Walker

/-- What a walker does at the nodes of a kind. -/
def action (w : Walker) (k : NodeKind) : Action :=
  (w.own? k).getD .pass

/-- Whether a walker lists the nodes of a kind. -/
def lists (w : Walker) (k : NodeKind) : Bool :=
  (w.action k).lists

/-- Whether a walker goes on below the nodes of a kind. -/
def enters (w : Walker) (k : NodeKind) : Bool :=
  (w.action k).enters

/-- The nodes listed from a node on, given those listed below it. -/
def arrive (w : Walker) (n : Node) (below : List Node) : List Node :=
  (if w.lists n.kind then [n] else []) ++ if w.enters n.kind then below else []

/-- The nodes listed below a tagged word: the token, then its tag. -/
def belowTagged (w : Walker) (t : TaggedWord) : List Node :=
  w.arrive (.word t.word) [] ++ w.arrive (.tag t.tag) []

/-- The nodes listed below a phrase: its words in surface order. -/
def belowPhrase (w : Walker) (p : Phrase) : List Node :=
  p.words.flatMap fun t => w.arrive (.tagged t) (w.belowTagged t)

/-- The nodes listed below a noun phrase. -/
def belowNounPhrase (w : Walker) : NounPhrase → List Node
  | .bare x => w.arrive (.word x) []
  | .tagged t => w.arrive (.tagged t) (w.belowTagged t)
  | .complex p => w.arrive (.phrase p) (w.belowPhrase p)

/-- The nodes listed below a verb pattern. -/
def belowVerb (w : Walker) : Verb → List Node
  | .bare x => w.arrive (.word x) []
  | .phrase p => w.arrive (.phrase p) (w.belowPhrase p)
  | .withObject v n =>
    w.arrive (.verb v) (w.belowVerb v) ++ w.arrive (.nounPhrase n) (w.belowNounPhrase n)
  | .event _ v => w.arrive (.verb v) (w.belowVerb v)

/-- The nodes listed below a node, whether or not the walker may enter the node itself. -/
def below (w : Walker) : Node → List Node
  | .verb v => w.belowVerb v
  | .nounPhrase n => w.belowNounPhrase n
  | .phrase p => w.belowPhrase p
  | .tagged t => w.belowTagged t
  | .word _ => []
  | .tag _ => []

/-- The nodes listed by a walk that starts at a node. -/
def visit (w : Walker) (n : Node) : List Node :=
  w.arrive n (w.below n)

/-- Has an action for every kind: lists every node and goes on. -/
def full : Walker :=
  ⟨fun _ => some ⟨true, true⟩⟩

/-- Has an action for every kind: lists every node and goes on, except below the given kinds. -/
def stoppingAt (kinds : List NodeKind) : Walker :=
  ⟨fun k => some ⟨true, !kinds.contains k⟩⟩

/-- Has an action for one kind only. -/
def only (kind : NodeKind) (action : Action) : Walker :=
  ⟨fun k => if k = kind then some action else none⟩

/-- Lists the nodes of one kind and goes on below them. -/
def listing (kind : NodeKind) : Walker :=
  only kind ⟨true, true⟩

/-- Lists the nodes of one kind and does not go below them. -/
def collecting (kind : NodeKind) : Walker :=
  only kind ⟨true, false⟩

theorem lists_only (kind : NodeKind) (action : Action) (k : NodeKind) :
    (only kind action).lists k = (k == kind && action.lists) := by
  unfold lists Walker.action only
  by_cases h : k = kind <;> simp [h, Action.pass]

theorem enters_only (kind : NodeKind) (action : Action) (k : NodeKind) :
    (only kind action).enters k = (k != kind || action.enters) := by
  unfold enters Walker.action only
  by_cases h : k = kind <;> simp [h, Action.pass]

end Walker

end Phrasebook
