import EdgeNetSwitch.Daemon.WorkerRounds
import EdgeNetSwitch.Tickets.Tickets

/-!
# Sequence numbers

`ReplayOutcomeCollector` and `ReplayRecorder` draw a sequence number with `fetch_add` and append under
their mutex afterwards, so the number of an entry is its place only if the calls append in the order in
which they have drawn.
-/

namespace EdgeNetSwitch

namespace Runtime

open Threads

/-- The number of an outcome that waits for the mutex of the collector. -/
def outcomeNumber : Action → Multiset UInt64
  | .appendOutcome outcome => {outcome.sequence}
  | _ => 0

/-- The number of a record that waits for the mutex of the recorder. -/
def recordNumber : Action → Multiset UInt64
  | .appendRecord record => {record.sequence}
  | _ => 0

/-- The action is part of a `recordProcessed`, `recordDropped` or `onPacketRx` in progress. -/
def Recording : Action → Prop
  | .appendOutcome _ | .appendRecord _ => True
  | _ => False

/-- The number of every entry is its place. -/
structure SequenceIsOrder (s : Runtime) : Prop where
  outcomes : ∀ (i : ℕ) (o : ReplayOutcome), s.collector.outcomes[i]? = some o →
    o.sequence = UInt64.ofNat i
  records : ∀ (i : ℕ) (r : ReplayRecord), s.recorder.records[i]? = some r →
    r.sequence = UInt64.ofNat i

/-- An entry is appended while no call in progress has an older number. A call draws a number while
there is one that no call in progress has. -/
def OldestFirst (c : Config Runtime Action) : Action → Prop
  | .deliver .replayOutcomeCollector msg =>
    msg.terminal? ≠ none → (c.load outcomeNumber).card < 2 ^ 64
  | .deliver .replayRecorder msg => msg.packetRx? ≠ none → (c.load recordNumber).card < 2 ^ 64
  | .appendOutcome outcome => ∀ n ∈ c.load outcomeNumber,
    Tickets.age c.shared.collector.next_sequence n ≤
      Tickets.age c.shared.collector.next_sequence outcome.sequence
  | .appendRecord record => ∀ n ∈ c.load recordNumber,
    Tickets.age c.shared.recorder.next_sequence n ≤
      Tickets.age c.shared.recorder.next_sequence record.sequence
  | _ => True

instance : DecidablePred Recording := fun a => by
  unfold Recording
  split <;> infer_instance

instance (c : Config Runtime Action) (a : Action) : Decidable (OldestFirst c a) := by
  unfold OldestFirst
  split
  -- the numbers at hand are searched, not all numbers there are
  case h_3 | h_4 => exact Multiset.decidableForallMultiset
  all_goals infer_instance

end Runtime

end EdgeNetSwitch
