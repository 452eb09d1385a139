import EdgeNetSwitch.Failure.FailureInjector

/-!
# The failure schedule

What `FailureInjector` is to inject into a sequence of packets: a packet with a lifecycle rule gets the failure
of the rule, and of the others every `every_n_packets`-th fails.
-/

namespace EdgeNetSwitch

namespace FailureInjector

/-- The results of one call after the other. -/
def injectAll (i : FailureInjector) : List Packet → List FailureResult
  | [] => []
  | packet :: packets => (i.inject packet).1 :: injectAll (i.inject packet).2 packets

end FailureInjector

namespace FailureConfig

open FailureInjector

/-- The first rule for the lifecycle of a packet. -/
def rule? (cfg : FailureConfig) (packet : Packet) : Option FailureRule :=
  cfg.lifecycle_rules.find? fun rule => rule.lifecycle_id == packet.lifecycle_id

/-- No rule is for the packet. -/
def unmatched (cfg : FailureConfig) (packet : Packet) : Bool := (cfg.rule? packet).isNone

/-- The failure that is due for a packet, if `n` packets without a rule have come by then. -/
def due (cfg : FailureConfig) (n : ℕ) (packet : Packet) : FailureType :=
  match cfg.rule? packet with
  | some rule => rule.type
  | none =>
    if cfg.every_n_packets ≠ 0 ∧ cfg.type ≠ .none ∧ cfg.every_n_packets.toNat ∣ n then cfg.type else .none

/-- The result for a packet: the failure that is due, which is terminal unless it is a delay, and of a delay the
configured length. -/
def scheduled (cfg : FailureConfig) (n : ℕ) (packet : Packet) : FailureResult where
  type := cfg.due n packet
  is_terminal := cfg.due n packet ≠ .none ∧ cfg.due n packet ≠ .artificialDelay
  delay_ms := if cfg.due n packet = .artificialDelay then cfg.delay_ms else 0

/-- The packets, and then the results, of a sequence in which some are marked as left out. -/
def kept {α : Type*} (marked : List (α × Bool)) : List α :=
  marked.filterMap fun x => if x.2 then none else some x.1

/-- The schedule of a sequence of packets. -/
structure FollowsSchedule (cfg : FailureConfig) (packets : List Packet) : Prop where
  results : injectAll { config := cfg } packets =
    packets.mapIdx fun i packet => cfg.scheduled ((packets.take (i + 1)).countP cfg.unmatched) packet
  /-- Leaving out packets with a rule, wherever they are, leaves the results of the others. -/
  others : ∀ marks : List Bool, marks.length = packets.length →
    (∀ x ∈ packets.zip marks, x.2 = true → cfg.unmatched x.1 = false) →
    injectAll { config := cfg } (kept (packets.zip marks)) =
      kept ((injectAll { config := cfg } packets).zip marks)
  terminal : ∀ result ∈ injectAll { config := cfg } packets,
    result.is_terminal = true ↔ result.type ≠ .none ∧ result.type ≠ .artificialDelay

end FailureConfig

end EdgeNetSwitch
