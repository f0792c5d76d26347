/-
Tracing: the form in which events are reported, and the one-time set-up of the process-wide subscriber
that receives them.
-/

namespace Phrasebook.Tracing

/-- How detailed a report is. -/
inductive Level
  | debug
  | trace
  deriving DecidableEq, Repr

/-- The keyword of a level. -/
def Level.name : Level → String
  | debug => "DEBUG"
  | trace => "TRACE"

/-- The value of a field of a report. -/
inductive Value
  /-- A count or a position. -/
  | number (n : Nat)
  /-- A fingerprint. -/
  | fingerprint (w : UInt64)
  deriving DecidableEq, Repr

/-- A report: its level, a fixed sentence, and named fields. -/
structure Report where
  level : Level
  message : String
  fields : List (String × Value)
  deriving DecidableEq, Repr

/-- What the set-up depends on and changes. -/
structure Setup where
  /-- Whether a set-up was attempted before. -/
  attempted : Bool
  /-- Whether the environment names a valid filter. -/
  filterValid : Bool
  /-- Whether a subscriber is installed. -/
  subscriber : Bool
  deriving DecidableEq, Repr

/-- The report that an installed subscriber stays in place. -/
def subscriberKept : Report :=
  ⟨.debug, "global subscriber already set; keeping it", []⟩

/-- Installs a subscriber. Only the first attempt has an effect, and only under a valid filter; a
subscriber that is already installed is kept, and told so. -/
def Setup.run (s : Setup) : List Report × Setup :=
  if s.attempted then
    ([], s)
  else if !s.filterValid then
    ([], { s with attempted := true })
  else if s.subscriber then
    ([subscriberKept], { s with attempted := true })
  else
    ([], { s with attempted := true, subscriber := true })

end Phrasebook.Tracing
