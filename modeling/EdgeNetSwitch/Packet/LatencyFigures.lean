import EdgeNetSwitch.Packet.StatsThreads

/-!
# The latency figures of a snapshot

A handler adds a latency to the total, counts it, and raises the maximum to it, under the lock; a snapshot
reads the three without the lock.
-/

namespace EdgeNetSwitch

open Threads

namespace PacketStats

/-- The average and the total are what so many latencies up to the maximum can give. -/
structure LatencyConsistent (m : PacketMetrics) : Prop where
  average : m.average_processing_latency_ns ≤ m.max_processing_latency_ns
  total : m.total_processing_latency_ns.toNat ≤
    m.latency_samples.toNat * m.max_processing_latency_ns.toNat

/-- A latency that a handler has still to add to the total. -/
def unadded : StatsAction → ℕ
  | .fetchAdd .totalProcessingLatency n => n.toNat
  | _ => 0

/-- A latency to which a handler has still to raise the maximum. -/
def unraised : StatsAction → ℕ
  | .loadMax n | .storeMax n => n.toNat
  | _ => 0

/-- The sums of latencies and samples stay below `2 ^ 64`. -/
def Fits (c : Config StatsState StatsAction) : StatsAction → Prop
  | .fetchAdd .totalProcessingLatency n =>
    c.shared.stats.total_processing_latency_ns.toNat + n.toNat < 2 ^ 64
  | .fetchAdd .latencySamples n => c.shared.stats.latency_samples.toNat + n.toNat < 2 ^ 64
  | _ => True

/-- When a snapshot loads the maximum, no handler is under way that had added to the total before the
snapshot loaded it: the total read is at most the one without the latencies of the handlers that have added
theirs and have still to raise the maximum. -/
def Untorn (c : Config StatsState StatsAction) : StatsAction → Prop
  | .snapshot (.loadMax :: _) m =>
    m.total_processing_latency_ns.toNat + c.load unraised ≤
      c.shared.stats.total_processing_latency_ns.toNat + c.load unadded
  | _ => True

instance (c : Config StatsState StatsAction) (a : StatsAction) : Decidable (Fits c a) := by
  unfold Fits
  split <;> infer_instance

instance (c : Config StatsState StatsAction) (a : StatsAction) : Decidable (Untorn c a) := by
  unfold Untorn
  split <;> infer_instance

end PacketStats

end EdgeNetSwitch
