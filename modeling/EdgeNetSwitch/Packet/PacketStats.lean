import EdgeNetSwitch.Messaging.Message
import Mathlib.Data.Finset.Insert

/-!
# Packet statistics

`PacketStats` of `src/packet/PacketStats.cpp`: its counters, its message handlers, and the snapshot.
The handlers add to the counters one atomic `fetch_add` at a time; here they are whole. `drop_counters_`
has an entry for every reason seen so far.
-/

namespace EdgeNetSwitch

/-- The members of `PacketStats`. -/
structure PacketStats where
  rx_packets : UInt64 := 0
  rx_bytes : UInt64 := 0
  drop_counters : PacketDropReason → Option UInt64 := fun _ => none
  ingress_packets : UInt64 := 0
  processed_packets : UInt64 := 0
  terminal_events : UInt64 := 0
  duplicate_events : UInt64 := 0
  completed_lifecycles : Finset UInt64 := ∅
  total_processing_latency_ns : UInt64 := 0
  max_processing_latency_ns : UInt64 := 0
  latency_samples : UInt64 := 0
  udp_drain_completions : UInt64 := 0

/-- The counters a handler adds to. -/
inductive Counter where
  | rxPackets
  | rxBytes
  | drop (reason : PacketDropReason)
  | ingressPackets
  | processedPackets
  | terminalEvents
  | duplicateEvents
  | totalProcessingLatency
  | latencySamples
  | udpDrainCompletions
  deriving DecidableEq

/-- The messages `PacketStats` subscribes to, with the payload their type stands for. -/
inductive StatsMessage where
  | packetRx (packet : Packet)
  | terminal (outcome : Terminal)
  | ingressIdlePoll
  deriving DecidableEq

/-- What `PacketStats` takes a message for. A `PacketRx` message without a packet is only reported. -/
def Message.stats? (msg : Message) : Option StatsMessage :=
  match msg.type with
  | .packetRx => msg.packetRx?.map .packetRx
  | .packetProcessed | .packetDropped => msg.terminal?.map .terminal
  | .ingressIdlePoll => some .ingressIdlePoll
  | _ => none

namespace PacketStats

/-- The value of a counter; a missing drop counter counts as 0. -/
def value (s : PacketStats) : Counter → UInt64
  | .rxPackets => s.rx_packets
  | .rxBytes => s.rx_bytes
  | .drop reason => (s.drop_counters reason).getD 0
  | .ingressPackets => s.ingress_packets
  | .processedPackets => s.processed_packets
  | .terminalEvents => s.terminal_events
  | .duplicateEvents => s.duplicate_events
  | .totalProcessingLatency => s.total_processing_latency_ns
  | .latencySamples => s.latency_samples
  | .udpDrainCompletions => s.udp_drain_completions

/-- `fetch_add`. -/
def fetchAdd (s : PacketStats) : Counter → UInt64 → PacketStats
  | .rxPackets, n => { s with rx_packets := s.rx_packets + n }
  | .rxBytes, n => { s with rx_bytes := s.rx_bytes + n }
  | .drop reason, n =>
    { s with
      drop_counters := Function.update s.drop_counters reason
        (some ((s.drop_counters reason).getD 0 + n)) }
  | .ingressPackets, n => { s with ingress_packets := s.ingress_packets + n }
  | .processedPackets, n => { s with processed_packets := s.processed_packets + n }
  | .terminalEvents, n => { s with terminal_events := s.terminal_events + n }
  | .duplicateEvents, n => { s with duplicate_events := s.duplicate_events + n }
  | .totalProcessingLatency, n =>
    { s with total_processing_latency_ns := s.total_processing_latency_ns + n }
  | .latencySamples, n => { s with latency_samples := s.latency_samples + n }
  | .udpDrainCompletions, n => { s with udp_drain_completions := s.udp_drain_completions + n }

/-- What the handler of a terminal message adds, in its order, when the lifecycle was completed
before and when it was not. -/
def increments (completed : Bool) : Terminal → List (Counter × UInt64)
  | .processed p =>
    if completed then [(.duplicateEvents, 1)]
    else [(.rxPackets, 1), (.rxBytes, p.payload_size.toUInt64), (.processedPackets, 1),
      (.terminalEvents, 1)]
  | .dropped d =>
    if completed then [(.duplicateEvents, 1)] else [(.drop d.reason, 1), (.terminalEvents, 1)]

/-- The latency of a packet processed at `now_ns`, when it has one. -/
def latency? (p : Packet) (now_ns : UInt64) : Option UInt64 :=
  if p.ingress_timestamp_ns ≠ 0 ∧ now_ns ≥ p.ingress_timestamp_ns then
    some (now_ns - p.ingress_timestamp_ns)
  else none

/-- The end of the `PacketProcessed` handler. -/
def recordLatency (s : PacketStats) (p : Packet) (now_ns : UInt64) : PacketStats :=
  match latency? p now_ns with
  | none => s
  | some latency_ns =>
    let s := (s.fetchAdd .totalProcessingLatency latency_ns).fetchAdd .latencySamples 1
    if latency_ns > s.max_processing_latency_ns then
      { s with max_processing_latency_ns := latency_ns }
    else s

/-- The `PacketProcessed` and `PacketDropped` handlers. -/
def onTerminalMessage (s : PacketStats) (outcome : Terminal) (now_ns : UInt64) : PacketStats :=
  let completed := decide (outcome.lifecycle_id ∈ s.completed_lifecycles)
  let s := { s with completed_lifecycles := insert outcome.lifecycle_id s.completed_lifecycles }
  let s := (increments completed outcome).foldl (fun s x => s.fetchAdd x.1 x.2) s
  match outcome with
  | .processed p => if completed then s else s.recordLatency p now_ns
  | .dropped _ => s

/-- The four handlers. -/
def onMessage (s : PacketStats) (now_ns : UInt64) : StatsMessage → PacketStats
  | .packetRx _ => s.fetchAdd .ingressPackets 1
  | .terminal outcome => s.onTerminalMessage outcome now_ns
  | .ingressIdlePoll => s.fetchAdd .udpDrainCompletions 1

end PacketStats

/-- `PacketMetrics`. -/
structure PacketMetrics where
  rx_packets : UInt64 := 0
  rx_bytes : UInt64 := 0
  rx_packets_per_sec : UInt64 := 0
  rx_bytes_per_sec : UInt64 := 0
  drops_by_reason : PacketDropReason → Option UInt64 := fun _ => none
  rx_packets_per_sec_raw : UInt64 := 0
  rx_bytes_per_sec_raw : UInt64 := 0
  ingress_packets : UInt64 := 0
  processed_packets : UInt64 := 0
  processing_gap : UInt64 := 0
  terminal_events : UInt64 := 0
  duplicate_events : UInt64 := 0
  pending_terminal_events : UInt64 := 0
  total_processing_latency_ns : UInt64 := 0
  max_processing_latency_ns : UInt64 := 0
  average_processing_latency_ns : UInt64 := 0
  latency_samples : UInt64 := 0
  udp_drain_completions : UInt64 := 0

/-- The atomic steps of `snapshotAt`. -/
inductive SnapshotStep where
  | load (counter : Counter)
  | lock
  | loadDrops
  | unlock
  | loadMax
  deriving DecidableEq

namespace PacketMetrics

/-- What a snapshot has read of the statistics `s` after a step. -/
def read (s : PacketStats) (m : PacketMetrics) : SnapshotStep → PacketMetrics
  | .load .rxPackets => { m with rx_packets := s.rx_packets }
  | .load .rxBytes => { m with rx_bytes := s.rx_bytes }
  | .load .ingressPackets => { m with ingress_packets := s.ingress_packets }
  | .load .processedPackets => { m with processed_packets := s.processed_packets }
  | .load .terminalEvents => { m with terminal_events := s.terminal_events }
  | .load .duplicateEvents => { m with duplicate_events := s.duplicate_events }
  | .load .totalProcessingLatency =>
    { m with total_processing_latency_ns := s.total_processing_latency_ns }
  | .load .latencySamples => { m with latency_samples := s.latency_samples }
  | .load .udpDrainCompletions => { m with udp_drain_completions := s.udp_drain_completions }
  | .loadDrops => { m with drops_by_reason := s.drop_counters }
  | .loadMax => { m with max_processing_latency_ns := s.max_processing_latency_ns }
  | .load (.drop _) | .lock | .unlock => m

/-- The fields `snapshotAt` computes from what it has read. -/
def finish (m : PacketMetrics) : PacketMetrics :=
  { m with
    processing_gap :=
      if m.ingress_packets ≥ m.processed_packets then m.ingress_packets - m.processed_packets else 0
    pending_terminal_events :=
      if m.ingress_packets > m.terminal_events then m.ingress_packets - m.terminal_events else 0
    average_processing_latency_ns :=
      if m.latency_samples ≠ 0 then m.total_processing_latency_ns / m.latency_samples else 0 }

end PacketMetrics

namespace PacketStats

/-- The steps of `snapshotAt`, in their order. -/
def snapshotSteps : List SnapshotStep :=
  [.load .rxPackets, .load .rxBytes, .load .ingressPackets, .lock, .load .processedPackets,
    .load .terminalEvents, .load .duplicateEvents, .loadDrops, .unlock,
    .load .totalProcessingLatency, .loadMax, .load .latencySamples, .load .udpDrainCompletions]

/-- `PacketStats::snapshotAt` when nothing runs beside it. -/
def snapshotAt (s : PacketStats) : PacketMetrics :=
  (snapshotSteps.foldl (PacketMetrics.read s) {}).finish

end PacketStats

end EdgeNetSwitch
