import EdgeNetSwitch.Packet.Packet

/-!
# Replay

`ReplayRecord` and `ReplayRecorder`, `ReplayOutcome` and `ReplayOutcomeCollector` of `src/replay/`.
Both take a sequence number first and append under their mutex afterwards.
-/

namespace EdgeNetSwitch

structure ReplayRecord where
  sequence : UInt64
  packet : Packet
  deriving DecidableEq

inductive ReplayOutcomeType where
  | processed
  | dropped
  deriving DecidableEq

structure ReplayOutcome where
  sequence : UInt64 := 0
  type : ReplayOutcomeType := .processed
  lifecycle_id : UInt64 := 0
  drop_reason : PacketDropReason := .unknown
  deriving DecidableEq

structure ReplayRecorder where
  next_sequence : UInt64 := 0
  records : List ReplayRecord := []

structure ReplayOutcomeCollector where
  next_sequence : UInt64 := 0
  outcomes : List ReplayOutcome := []

end EdgeNetSwitch
