import EdgeNetSwitch.Daemon.Ingress
import Mathlib.Algebra.Order.Group.Multiset

/-!
# The outstanding backlog

What `processing_gap` is meant to report of a run in which packets are published by any number of threads:
the packets that were published and have no terminal outcome yet.
-/

namespace EdgeNetSwitch

open Threads

/-- A `PacketRx` message, published by anyone but the processor itself. -/
structure Publication where
  source : Source
  timestamp_ms : UInt64
  packet : Packet
  outside : source ≠ .processor ∧ source ≠ .worker

namespace Publication

def message (x : Publication) : Message := ⟨.packetRx, x.timestamp_ms, .packet x.packet⟩

def action (x : Publication) : Action := .publish x.source x.message

def lifecycle_id (x : Publication) : UInt64 := x.packet.lifecycle_id

end Publication

/-- Each packet has a lifecycle of its own, and the counters can hold the number of packets. -/
structure DistinctLifecycles (publishers : List (List Publication)) : Prop where
  nodup : (publishers.flatten.map Publication.lifecycle_id).Nodup
  bounded : publishers.flatten.length < 2 ^ 64

namespace StatsMessage

def isPacketRx : StatsMessage → Bool
  | packetRx _ => true
  | _ => false

def isProcessed : StatsMessage → Bool
  | terminal (.processed _) => true
  | _ => false

def isDropped : StatsMessage → Bool
  | terminal (.dropped _) => true
  | _ => false

end StatsMessage

namespace Runtime

/-- The worker, and the threads that publish packets. -/
def publishing (subscribers : List Subscriber) (cfg : FailureConfig)
    (forwarding_engine : Option SwitchForwardingEngine)
    (transport_manager : Option TransportManager) (publishers : List (List Publication)) :
    Config Runtime Action :=
  start (initial subscribers cfg forwarding_engine transport_manager)
    (publishers.map (List.map Publication.action))

/-- The lifecycles without a terminal outcome. -/
def outstanding (log : List (Source × Message)) : Finset UInt64 :=
  (rxIds log).toFinset \ (terminalIds log).toFinset

/-- The messages published that `PacketStats` subscribes to. -/
def told (log : List (Source × Message)) : List StatsMessage := log.filterMap fun x => x.2.stats?

/-- The packets dropped so far, for whatever reason. -/
def drops (log : List (Source × Message)) : ℕ := (told log).countP StatsMessage.isDropped

/-- A message published that `PacketStats` has still to be given. -/
def late : Action → Multiset StatsMessage
  | .deliver .packetStats msg => (msg.stats?.toList : List StatsMessage)
  | _ => 0

/-- No packet is queued, inside a dispatch or being processed. -/
def Idle (c : Config Runtime Action) : Prop :=
  c.shared.queue = [] ∧ ¬ c.Pending InDispatch ∧ ¬ c.Pending OfWorker

/-- A snapshot reports the outstanding backlog. -/
structure BacklogReported (c : Config Runtime Action) : Prop where
  backlog : c.shared.stats.snapshotAt.processing_gap.toNat = (outstanding c.shared.log).card
  idle : Idle c → c.shared.stats.snapshotAt.processing_gap = 0

/-- As many `PacketRx` messages are still on their way to `PacketStats` as packets were dropped and
`PacketProcessed` messages are on their way; or more of them, when nothing is outstanding. -/
def Offset (c : Config Runtime Action) : Prop :=
  let arrived := (c.load late).countP (StatsMessage.isPacketRx ·)
  let left := drops c.shared.log + (c.load late).countP (StatsMessage.isProcessed ·)
  left = arrived ∨ left ≤ arrived ∧ outstanding c.shared.log = ∅

end Runtime

end EdgeNetSwitch
