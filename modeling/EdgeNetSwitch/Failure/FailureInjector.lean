import EdgeNetSwitch.Packet.Packet
import Mathlib.Data.Rat.Defs

/-!
# Failure injection

`FailureInjector` of `src/failure/FailureInjector.cpp`.
-/

namespace EdgeNetSwitch

inductive FailureType where
  | none
  | malformedPacket
  | validationError
  | simulatedLoss
  | artificialDelay
  | processingRejection
  deriving DecidableEq

/-- `FailureResult`; a delay is a `double` in the source. -/
structure FailureResult where
  type : FailureType
  is_terminal : Bool
  delay_ms : ℚ := 0
  deriving DecidableEq

structure FailureRule where
  lifecycle_id : UInt64 := 0
  type : FailureType := .none
  deriving DecidableEq

structure FailureConfig where
  type : FailureType := .none
  enabled : Bool := false
  every_n_packets : UInt64 := 0
  delay_ms : ℚ := 0
  lifecycle_rules : List FailureRule := []
  deriving DecidableEq

structure FailureInjector where
  config : FailureConfig
  seen_packets : UInt64 := 0
  deriving DecidableEq

namespace FailureInjector

/-- `makeFailureResult`. -/
def makeFailureResult (type : FailureType) (delay_ms : ℚ) : FailureResult :=
  if type = .none then { type := .none, is_terminal := false }
  else if type = .artificialDelay then { type, is_terminal := false, delay_ms }
  else { type, is_terminal := true }

/-- `inject`: the result, and the injector after it. -/
def inject (i : FailureInjector) (pkt : Packet) : FailureResult × FailureInjector :=
  if !i.config.enabled then ({ type := .none, is_terminal := false }, i)
  else
    match i.config.lifecycle_rules.find? fun rule => rule.lifecycle_id == pkt.lifecycle_id with
    | some rule => (makeFailureResult rule.type i.config.delay_ms, i)
    | none =>
      if i.config.every_n_packets = 0 then ({ type := .none, is_terminal := false }, i)
      else if i.config.type = .none then ({ type := .none, is_terminal := false }, i)
      else
        let seen_packets := i.seen_packets + 1
        if seen_packets % i.config.every_n_packets ≠ 0 then
          ({ type := .none, is_terminal := false }, { i with seen_packets })
        else (makeFailureResult i.config.type i.config.delay_ms, { i with seen_packets })

end FailureInjector

/-- The reason `handleInjectedFailure` reports. -/
def FailureType.dropReason : FailureType → PacketDropReason
  | malformedPacket => .parseError
  | validationError => .validationError
  | simulatedLoss => .simulatedLoss
  | processingRejection => .processingError
  | none | artificialDelay => .internalError

end EdgeNetSwitch
