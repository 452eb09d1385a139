import EdgeNetSwitch.Runs.Trail
import EdgeNetSwitch.Transport.TransportManager
import Mathlib.Data.Nat.ModEq

/-!
# The balance of the transport counters

What the counters say of the calls of `transmit` since they were reset, each with a result that is up to the
backend.
-/

namespace EdgeNetSwitch

open Runs

namespace TransportManager

/-- A call, with what the backend returns if there is one. -/
inductive Call where
  | registerBackend (port_id : UInt32)
  | transmit (port_id : UInt32) (returned : TransmitResult)
  | resetCounters

def step (t : TransportManager) : Call → TransportManager
  | .registerBackend port_id => t.registerBackend port_id
  | .transmit port_id returned => (t.transmit port_id returned).2
  | .resetCounters => t.resetCounters

/-- The manager after calls. -/
def run (l : List Call) : TransportManager := l.foldl step {}

/-- The results of the calls of `transmit` since the counters were reset, or since the beginning. -/
def results (l : List Call) : List TransmitResult :=
  (trail step {} l).foldl
    (fun rs x =>
      match x.2 with
      | .registerBackend _ => rs
      | .transmit port_id returned => rs ++ [(x.1.transmit port_id returned).1]
      | .resetCounters => [])
    []

/-- How many of the results have the status. -/
def made (status : TransmitStatus) (rs : List TransmitResult) : ℕ := rs.countP fun r => r.status = status

/-- The bytes of the successful results. -/
def bytesMade (rs : List TransmitResult) : ℕ :=
  ((rs.filter fun r => r.status = .success).map TransmitResult.bytes_transmitted).sum

/-- The counters tell what the results are, as far as `eq` tells numbers apart. -/
structure Balances (eq : ℕ → ℕ → Prop) (c : TransportCounters) (rs : List TransmitResult) : Prop where
  calls : eq (c.tx_packets.toNat + c.tx_failed.toNat) rs.length
  bytes : eq c.tx_bytes.toNat (bytesMade rs)
  backend_unavailable : eq c.backend_unavailable.toNat (made .backendUnavailable rs)
  port_down : eq c.port_down.toNat (made .portDown rs)
  invalid_packet : eq c.invalid_packet.toNat (made .invalidPacket rs)
  send_failed : eq c.tx_failed.toNat
    (c.backend_unavailable.toNat + c.port_down.toNat + c.invalid_packet.toNat + made .sendFailed rs)

/-- The counters are `uint64_t`: they tell the results apart modulo `2 ^ 64`, and exactly as long as fewer
calls have been made and fewer bytes sent. -/
def BalancesCounters (c : TransportCounters) (rs : List TransmitResult) : Prop :=
  Balances (fun n m => n ≡ m [MOD 2 ^ 64]) c rs ∧
    (rs.length < 2 ^ 64 → bytesMade rs < 2 ^ 64 → Balances (· = ·) c rs)

end TransportManager

end EdgeNetSwitch
