import EdgeNetSwitch.Packet.PacketStats
import Mathlib.Algebra.BigOperators.Group.Finset.Basic

/-!
# What the statistics are for

The reference the counters are meant to agree with: a lifecycle is accounted for by its first
terminal message, every later one is a duplicate. It is stated over the messages in the order in
which they take effect, in natural numbers; the counters are 64 bits wide.
-/

namespace EdgeNetSwitch

namespace Terminal

/-- Keep `t` if it is the first outcome of its lifecycle. -/
def addFirst (firsts : List Terminal) (t : Terminal) : List Terminal :=
  if t.lifecycle_id ∈ firsts.map lifecycle_id then firsts else firsts ++ [t]

/-- The first outcome of every lifecycle. -/
def firsts (l : List Terminal) : List Terminal := l.foldl addFirst []

/-- The lifecycles with an outcome. -/
def lifecycles (l : List Terminal) : Finset UInt64 := (l.map lifecycle_id).toFinset

def processed? : Terminal → Option Packet
  | processed p => some p
  | dropped _ => none

def reason? : Terminal → Option PacketDropReason
  | processed _ => none
  | dropped d => some d.reason

end Terminal

namespace StatsMessage

def packetRx? : StatsMessage → Option Packet
  | packetRx p => some p
  | _ => none

def terminal? : StatsMessage → Option Terminal
  | terminal t => some t
  | _ => none

/-- The outcomes reported in a history. -/
def terminals (h : List StatsMessage) : List Terminal := h.filterMap terminal?

/-- The packets processed first time. -/
def processed (h : List StatsMessage) : List Packet :=
  (Terminal.firsts (terminals h)).filterMap Terminal.processed?

/-- The reasons of the lifecycles that were dropped. -/
def reasons (h : List StatsMessage) : List PacketDropReason :=
  (Terminal.firsts (terminals h)).filterMap Terminal.reason?

/-- The reference count of each counter. The latency counters depend on the clock and have none. -/
def expected (h : List StatsMessage) : Counter → ℕ
  | .rxPackets | .processedPackets => (processed h).length
  | .rxBytes => ((processed h).map fun p => p.payload_size.toNat).sum
  | .drop reason => (reasons h).count reason
  | .ingressPackets => (h.filterMap packetRx?).length
  | .terminalEvents => (Terminal.lifecycles (terminals h)).card
  | .duplicateEvents => (terminals h).length - (Terminal.lifecycles (terminals h)).card
  | .udpDrainCompletions => h.count .ingressIdlePoll
  | .totalProcessingLatency | .latencySamples => 0

end StatsMessage

/-- The counters that do not depend on the clock. -/
def Counter.Counted : Counter → Prop
  | .totalProcessingLatency | .latencySamples => False
  | _ => True

open StatsMessage in
/-- The metrics `m` are the reference counts of the history `h`, as far as `f` says. -/
structure PacketMetrics.Accounts (f : ℕ → ℕ) (m : PacketMetrics) (h : List StatsMessage) : Prop where
  ingress_packets : m.ingress_packets.toNat = f (h.filterMap packetRx?).length
  terminal_events : m.terminal_events.toNat = f (Terminal.lifecycles (terminals h)).card
  terminal_sum : m.terminal_events.toNat =
    f (m.processed_packets.toNat + ∑ r, ((m.drops_by_reason r).getD 0).toNat)
  duplicate_events : m.duplicate_events.toNat =
    f ((terminals h).length - (Terminal.lifecycles (terminals h)).card)
  processed_packets : m.processed_packets.toNat = f (processed h).length
  drops_by_reason : ∀ r, ((m.drops_by_reason r).getD 0).toNat = f ((reasons h).count r)
  rx_packets : m.rx_packets = m.processed_packets
  rx_bytes : m.rx_bytes.toNat = ((processed h).map fun p => p.payload_size.toNat).sum % 2 ^ 64

end EdgeNetSwitch
