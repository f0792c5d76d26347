/-
Calls on an interner as data, with the answer, the table and the events that each leads to.
-/
import Phrasebook.Interner.Table

namespace Phrasebook.Interner

variable {α β : Type}

/-- A call on an interner of `α`; reading a pattern in place computes a `β`. -/
inductive Call (α β : Type)
  /-- Interns a pattern; the caller cannot go on without an id. -/
  | intern (p : α)
  /-- Interns a pattern; the caller handles a refusal. -/
  | tryIntern (p : α)
  | lookup (p : α)
  | get (id : PatternId α)
  | read (id : PatternId α) (f : α → β)
  | contains (id : PatternId α)
  | size

/-- The answer to a call. -/
inductive Answer (α β : Type)
  /-- The pattern is interned under this id. -/
  | issued (id : PatternId α)
  /-- The shard is full, and the caller is told. -/
  | refused (error : InternError)
  /-- The shard is full, and the caller is stopped. -/
  | aborted (error : InternError)
  /-- The id of a pattern, if it is interned. -/
  | found (id : Option (PatternId α))
  /-- The pattern of an id, if it is of this interner. -/
  | pattern (p : Option α)
  /-- What was computed from the pattern of an id. -/
  | result (b : Option β)
  /-- Whether an id is of this interner. -/
  | contained (b : Bool)
  /-- The number of interned patterns. -/
  | size (n : Nat)

/-- What a call leads to. -/
structure Outcome (α β : Type) where
  answer : Answer α β
  table : Interner α
  events : List Event

/-- What a call hands over to tracing. -/
def Outcome.reports (o : Outcome α β) : List Tracing.Report :=
  o.events.map Event.report

/-- A call that only reads. -/
def observe (t : Interner α) (answer : Answer α β) : Outcome α β :=
  ⟨answer, t, []⟩

variable [DecidableEq α] [Fingerprint α]

/-- Carries out a call. Only a pattern that is new changes the table. -/
def call (t : Interner α) : Call α β → Outcome α β
  | .intern p =>
    match t.tryIntern p with
    | .ok r => ⟨.issued r.id, r.table, r.events⟩
    | .error e => t.observe (.aborted e)
  | .tryIntern p =>
    match t.tryIntern p with
    | .ok r => ⟨.issued r.id, r.table, r.events⟩
    | .error e => t.observe (.refused e)
  | .lookup p => t.observe (.found (t.lookup? p))
  | .get id => t.observe (.pattern (t.get? id))
  | .read id f => t.observe (.result (t.read? id f))
  | .contains id => t.observe (.contained (t.contains id))
  | .size => t.observe (.size t.size)

end Phrasebook.Interner
