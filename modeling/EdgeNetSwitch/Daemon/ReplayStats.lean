import EdgeNetSwitch.Daemon.ReplayRuns
import EdgeNetSwitch.Daemon.WorkerRounds

/-!
# The statistics of a run and of its replay

A run in which one thread publishes packets and `PacketStats` counts what becomes of them, and the run
in which `ReplayPlayer` publishes what was recorded, are compared by the aggregates of `PacketStats`.
-/

namespace EdgeNetSwitch

open Threads

/-- The metrics agree on the aggregates of packets. -/
structure PacketMetrics.SameAggregates (m m' : PacketMetrics) : Prop where
  ingress_packets : m'.ingress_packets = m.ingress_packets
  processed_packets : m'.processed_packets = m.processed_packets
  rx_bytes : m'.rx_bytes = m.rx_bytes
  terminal_events : m'.terminal_events = m.terminal_events
  duplicate_events : m'.duplicate_events = m.duplicate_events
  drops_by_reason : m'.drops_by_reason = m.drops_by_reason

namespace Runtime

/-- What becomes of packets that are published in this order and meet no full queue: the injector
decides, and then the checks of the worker. -/
def outcomesOf : FailureInjector → List Packet → List Terminal
  | _, [] => []
  | i, p :: packets =>
    (if (i.inject p).1.is_terminal then
      .dropped ⟨(i.inject p).1.type.dropReason, 0, p.id, p.lifecycle_id⟩
    else classify p) :: outcomesOf (i.inject p).2 packets

/-- The packets have been published, and `PacketStats` has an outcome for each of them. -/
def AllTerminated (packets : List Packet) (c : Config Runtime Action) : Prop :=
  c.threads.getLast? = some [] ∧
    ∀ p ∈ packets, p.lifecycle_id ∈ c.shared.stats.completed_lifecycles

end Runtime

end EdgeNetSwitch
