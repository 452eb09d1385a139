import EdgeNetSwitch.Control.ControlDispatch
import EdgeNetSwitch.Daemon.RuntimeStatusBuilder
import EdgeNetSwitch.Runs.Changes
import EdgeNetSwitch.Runs.Trail

/-!
# What the health monitor reports

Runs of the monitor, with any readings of the clock: what it computes, publishes and returns.
-/

namespace EdgeNetSwitch

open Runs

namespace HealthMonitor

inductive Call where
  | onHeartbeat
  | onTick
  | snapshot
  | currentStatus
  deriving DecidableEq

/-- A call and what it reads from the clock. -/
structure ClockedCall where
  call : Call
  now : UInt64

/-- The monitor, and the call made. -/
abbrev Step := HealthMonitor × ClockedCall

def step (m : HealthMonitor) (c : ClockedCall) : HealthMonitor :=
  match c.call with
  | .onHeartbeat => m.onHeartbeat c.now
  | .onTick => m.onTick c.now
  | .snapshot | .currentStatus => m

/-- The monitor after calls. -/
def run (timeout_ms first second : UInt64) (l : List ClockedCall) : HealthMonitor :=
  l.foldl step (new timeout_ms first second)

/-- The calls of a run, each with the monitor it finds. -/
def calls (timeout_ms first second : UInt64) (l : List ClockedCall) : List Step :=
  trail step (new timeout_ms first second) l

/-! ## Transitions -/

/-- The alive flag, as the functions compute it. -/
def alive (m : HealthMonitor) (now : UInt64) : Bool := decide (now - m.last_heartbeat_ms ≤ m.timeout_ms)

/-- The flag a tick computes. -/
def computed? (x : Step) : Option Bool :=
  match x.2.call with
  | .onTick => some (x.1.alive x.2.now)
  | _ => none

/-- The flags computed at the ticks of a run. -/
def computed (timeout_ms first second : UInt64) (l : List ClockedCall) : List Bool :=
  (calls timeout_ms first second l).filterMap computed?

/-- The flag of a message. -/
def flag? (msg : Message) : Option Bool :=
  match msg.type, msg.payload with
  | .healthStatus, .healthStatus status => some status.is_alive
  | _, _ => none

/-- The flags of what the monitor has published. -/
def published (m : HealthMonitor) : List Bool := m.bus.filterMap flag?

/-- What a run of the monitor tells the subscribers. -/
structure ReportsTransitions (timeout_ms first second : UInt64) (l : List ClockedCall) : Prop where
  alternating : (run timeout_ms first second l).published.IsChain (· ≠ ·)
  /-- A tick after the run publishes unless the tick before it has computed the same flag. -/
  publishes : ∀ now,
    let m := run timeout_ms first second l
    if (computed timeout_ms first second l).getLast? = some (m.alive now) then
      (m.onTick now).bus = m.bus
    else ∃ msg, (m.onTick now).bus = m.bus ++ [msg] ∧ flag? msg = some (m.alive now)
  /-- Nothing but a tick publishes. -/
  quiet : ∀ c : ClockedCall, c.call ≠ .onTick →
    ((run timeout_ms first second l).step c).bus = (run timeout_ms first second l).bus
  last : ∀ now, ((run timeout_ms first second l).onTick now).published.getLast? =
    some ((run timeout_ms first second l).alive now)

/-! ## Deaths -/

/-- The flag that stands after a call has reported. -/
def reported? (x : Step) : Option Bool :=
  match x.2.call with
  | .onHeartbeat => none
  | .onTick => (x.1.onTick x.2.now).last_alive_state
  | .snapshot => some (x.1.snapshot x.2.now).alive
  | .currentStatus => some (x.1.currentStatus x.2.now).is_alive

/-- A death is reported only after a silence longer than the timeout, over the integers. -/
def JustDeath (x : Step) : Prop :=
  reported? x = some false →
    (x.1.last_heartbeat_ms.toNat : ℤ) + x.1.timeout_ms.toNat < x.2.now.toNat

/-- What the last heartbeat of a run has read from the clock, or the constructor if there was none. -/
def lastHeartbeat (first : UInt64) (l : List ClockedCall) : UInt64 :=
  ((l.filter fun c => c.call = .onHeartbeat).getLast?.map ClockedCall.now).getD first

/-- Every call finds the monitor with the last heartbeat before it, and with the timeout it was made with. -/
def FindsHeartbeat (timeout_ms first second : UInt64) (l : List ClockedCall) : Prop :=
  ∀ before c after, l = before ++ c :: after → ∃ x ∈ calls timeout_ms first second l, x.2 = c ∧
    x.1.last_heartbeat_ms = lastHeartbeat first before ∧ x.1.timeout_ms = timeout_ms

/-- The clock is not behind the last heartbeat, or so far behind that the silence wraps around to one within
the timeout. -/
def ClockAhead (x : Step) : Prop :=
  x.2.call ≠ .onHeartbeat → x.1.last_heartbeat_ms ≤ x.2.now ∨
    x.2.now.toNat + 2 ^ 64 ≤ x.1.last_heartbeat_ms.toNat + x.1.timeout_ms.toNat

/-! ## The record -/

/-- The status says how long the silence was, and the flag follows from it. -/
structure Consistent (x : Step) (status : HealthStatus) : Prop where
  silence : (status.silence_duration_ms.toNat : ℤ) = x.2.now.toNat - x.1.last_heartbeat_ms.toNat
  alive : status.is_alive = true ↔ status.silence_duration_ms ≤ x.1.timeout_ms

/-- The status of a message. -/
def status? (msg : Message) : Option HealthStatus :=
  match msg.type, msg.payload with
  | .healthStatus, .healthStatus status => some status
  | _, _ => none

/-- The call publishes a status, or returns one. -/
def Produces (x : Step) : Prop :=
  match x.2.call with
  | .onTick => x.1.last_alive_state ≠ some (x.1.alive x.2.now)
  | .currentStatus => True
  | .onHeartbeat | .snapshot => False

/-- The text form of the health command. -/
def healthText (status : HealthStatus) : Bytes :=
  Control.line "alive" (Control.boolText status.is_alive) ++
    Control.count "silence_ms" status.silence_duration_ms ++
    Control.entry "last_heartbeat_ms" (Control.to_string status.last_heartbeat_ms.toNat)

/-- The data of its JSON form. -/
def healthJson (status : HealthStatus) : Json :=
  Control.jsonObject [
    ("alive", .boolean status.is_alive),
    ("silence_ms", .unsigned status.silence_duration_ms.toNat),
    ("last_heartbeat_ms", .unsigned status.last_heartbeat_ms.toNat)]

/-- What the health command says when the main loop has published a snapshot. -/
def shown (p : Control.Platform) (publisher : SnapshotPublisher) (arg : Bytes) :
    Option Control.ControlResponse :=
  Control.handleHealth p { publisher := some publisher.load } arg

/-- Every status a call produces is consistent. -/
structure SelfConsistent (x : Step) : Prop where
  published : ∀ msg, (step x.1 x.2).bus = x.1.bus ++ [msg] → ∃ status, status? msg = some status ∧
    Consistent x status
  returned : x.2.call = .currentStatus → Consistent x (x.1.currentStatus x.2.now)
  /-- The status of a snapshot is what `currentStatus` returns. -/
  shown : x.2.call = .currentStatus → ∀ (p : Control.Platform) (publisher : SnapshotPublisher)
    (builder : RuntimeStatusBuilder) (telemetry : Telemetry) (metrics : PacketMetrics)
    (state : RuntimeState) (now_ms telemetry_now : UInt64),
    let built := (builder.build telemetry x.1 metrics state now_ms telemetry_now x.2.now).1
    ∃ status, Consistent x status ∧
      HealthMonitor.shown p (publisher.publish built) [] =
        some { success := true, payload := healthText status } ∧
      HealthMonitor.shown p (publisher.publish built) Control.json =
        Control.makeJsonSuccess p.dump (healthJson status)

end HealthMonitor

end EdgeNetSwitch
