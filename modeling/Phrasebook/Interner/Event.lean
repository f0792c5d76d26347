/-
What an interner reports: patterns added, and patterns that share a fingerprint.
-/
import Phrasebook.Interner.Id
import Phrasebook.Tracing

namespace Phrasebook.Interner

/-- Something that happened while a pattern was interned. -/
inductive Event
  /-- A new pattern has the fingerprint of `existing` unequal ones. -/
  | collision (fingerprint : UInt64) (shard : ShardIndex) (existing : Nat)
  /-- A new pattern took a slot. -/
  | added (shard : ShardIndex) (slot : Nat)
  deriving DecidableEq, Repr

/-- The report of an event. -/
def Event.report : Event → Tracing.Report
  | collision fp shard existing =>
    ⟨.debug, "fingerprint collision between unequal patterns",
      [("fingerprint", .fingerprint fp), ("shard", .number shard), ("existing", .number existing)]⟩
  | added shard slot =>
    ⟨.trace, "interned new pattern", [("shard", .number shard), ("slot", .number slot)]⟩

end Phrasebook.Interner
