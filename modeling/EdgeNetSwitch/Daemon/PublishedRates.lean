import EdgeNetSwitch.Daemon.MainLoop
import EdgeNetSwitch.Telemetry.RateWindows

/-!
# The rates in the snapshots

The status builder gives what it reads for each status to two smoothers, one for the packets and one for the bytes.
The rates in a snapshot are stated in terms of what was read for it and for the snapshots before.
-/

namespace EdgeNetSwitch

open WindowedEwmaRateSmoother

namespace MainLoop

/-- What the two smoothers are given for a status. -/
def packetsAt (w : Reading) : Observation := ⟨w.raw_metrics.rx_packets, w.first⟩

def bytesAt (w : Reading) : Observation := ⟨w.raw_metrics.rx_bytes, w.first⟩

/-- Rates to show after these observations: 0 without a window since the last counter reset, and else that of the
last window and one between the least and the greatest of the windows. -/
structure ShowsRate (config : RateSmootherConfig) (l : List Observation) (smoothed raw : UInt64) : Prop where
  none_yet : current config l = [] → smoothed = 0 ∧ raw = 0
  last : ∀ w ∈ (current config l).getLast?, raw = w.raw_per_sec
  between : current config l ≠ [] → (∀ w ∈ windows config l, w.rate < 2 ^ 63) →
    Between ((current config l).map RateWindow.raw_per_sec) smoothed

/-- The packets of a snapshot, for what was read for it and before: the counters read last, and the two rates. -/
structure ShowsRates (config : RateSmootherConfig) (readings : List Reading) (packet : PacketMetrics) : Prop where
  counters : ∃ w, readings.getLast? = some w ∧
    packet = { w.raw_metrics with
      rx_packets_per_sec := packet.rx_packets_per_sec
      rx_packets_per_sec_raw := packet.rx_packets_per_sec_raw
      rx_bytes_per_sec := packet.rx_bytes_per_sec
      rx_bytes_per_sec_raw := packet.rx_bytes_per_sec_raw }
  packets : ShowsRate config (readings.map packetsAt) packet.rx_packets_per_sec packet.rx_packets_per_sec_raw
  bytes : ShowsRate config (readings.map bytesAt) packet.rx_bytes_per_sec packet.rx_bytes_per_sec_raw

end MainLoop

end EdgeNetSwitch
