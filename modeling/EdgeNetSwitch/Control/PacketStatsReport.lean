import EdgeNetSwitch.Control.ControlDispatch
import EdgeNetSwitch.Json.Lookup
import EdgeNetSwitch.Text.Lines
import Mathlib.Algebra.BigOperators.Group.Finset.Basic

/-!
# Reading `packet-stats` back

What a client can learn from the two forms of the response to `packet-stats` about the snapshot they report.
-/

namespace EdgeNetSwitch.Control

open Bytes

/-- A request in the version of the protocol that there is. -/
def request (command : String) : ControlRequest where
  version := bytesOf "1.2"
  command := bytesOf command

/-- The payload of `packet-stats` is `text`, and that of `packet-stats:json` has `data`. -/
structure Reports (p : Platform) (ctx : ControlContext) (text : Bytes) (data : Json) : Prop where
  text_eq : (dispatchControlRequest p ctx (request "packet-stats")).response =
    some { success := true, payload := text }
  json_eq : (dispatchControlRequest p ctx (request "packet-stats:json")).response =
    makeJsonSuccess p.dump data

/-- A line that is a key and a decimal number. -/
def readCount (line : Bytes) : Option (Bytes × ℕ) :=
  (Lines.keyValue? 0x3D line).bind fun e =>
    if e.1 ≠ [] ∧ e.2 ≠ [] ∧ e.2.all isdigit then some (e.1, digitsValue e.2) else none

/-- The numbers in a text of lines. -/
def readCounts (text : Bytes) : List (Bytes × ℕ) := (Lines.lines 0x0A text).filterMap readCount

/-- The keys that both forms of the response have. -/
def sharedKeys : List Bytes :=
  [bytesOf "rx_packets", bytesOf "rx_bytes", bytesOf "ingress_packets", bytesOf "processed_packets",
    bytesOf "processing_gap", bytesOf "rx_packets_per_sec", bytesOf "rx_bytes_per_sec",
    bytesOf "rx_packets_per_sec_raw", bytesOf "rx_bytes_per_sec_raw", bytesOf "terminal_events",
    bytesOf "duplicate_events", bytesOf "pending_terminal_events", bytesOf "average_processing_latency_ns",
    bytesOf "max_processing_latency_ns", bytesOf "udp_drain_completions"]

/-- The text is a list of numbers under different keys, the same as in the JSON form. -/
structure DecodesBack (text : Bytes) (data : Json) : Prop where
  lines_ok : ∀ line ∈ Lines.lines 0x0A text, (readCount line).isSome = true
  nodup : ((readCounts text).map Prod.fst).Nodup
  agrees : ∀ key ∈ sharedKeys, ∃ n, (readCounts text).lookup key = some n ∧
    data.field? key = some (.unsigned n)

/-- The number of packets dropped, for all reasons. -/
def dropsSum (m : PacketMetrics) : ℕ := ∑ reason, ((m.drops_by_reason reason).getD 0).toNat

/-- The fields of the object under `drops`. -/
def dropsObject (data : Json) : List (Bytes × Json) :=
  match data.field? (bytesOf "drops") with
  | some (.object fields) => fields
  | _ => []

/-- The count of every reason is in the JSON form, under the key of the reason, and the counts there add up
to those of the snapshot and to the total that the text form has. -/
structure LosesNoDrops (text : Bytes) (data : Json) (m : PacketMetrics) : Prop where
  recoverable : ∀ reason n, m.drops_by_reason reason = some n →
    (dropsObject data).lookup (dropReasonToString reason) = some (.unsigned n.toNat)
  sum_eq : Json.total (dropsObject data) = dropsSum m
  total_eq : (readCounts text).lookup (bytesOf "drops_total") = some (dropsSum m)

/-- The reasons that have no key of their own. -/
def unnamed : List PacketDropReason := [.simulatedLoss, .processingError, .internalError, .unknown]

/-- No two of the reasons that share a key have packets to report, and the total is a 64-bit number. -/
structure DropsFit (m : PacketMetrics) : Prop where
  apart : ∀ reason ∈ unnamed, ∀ reason' ∈ unnamed, reason ≠ reason' → ∀ n n',
    m.drops_by_reason reason = some n → m.drops_by_reason reason' = some n' → n = 0 ∧ n' = 0
  sum_lt : dropsSum m < 2 ^ 64

end EdgeNetSwitch.Control
