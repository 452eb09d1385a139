import EdgeNetSwitch.Control.TextReports
import EdgeNetSwitch.Daemon.RuntimeStatusBuilder
import EdgeNetSwitch.Runs.Runs

/-!
# The main loop

The thread of `main` in `src/daemon/main.cpp`, from the first snapshot to the last status, with the signal
handler: `handleSignal`, `ShutdownRequest` of `src/runtime/ShutdownRequest.cpp`, `Telemetry::onTick` of
`src/telemetry/Telemetry.cpp` with the callback of `main` for its message, and the order in which the loop goes
through them. A signal may arrive between any two steps. The other threads do not call what the loop calls, but
for the statistics, of which each snapshot is given its metrics. After the loop `main` stops and joins the other
threads (`epollLoop.stop`, `epollThread.join`, `udpReceiver->stop`, `exportManager.stop`) before it builds the
last status: the step that builds it is one that `main` takes if these calls come back, which is not said here.
-/

namespace EdgeNetSwitch

inductive ShutdownReason where
  | unknown
  | controlPlaneRequest
  | signalInterrupt
  | signalTerminate
  deriving DecidableEq

structure ShutdownRequest where
  requested : Bool := false
  reason : ShutdownReason := .unknown

namespace ShutdownRequest

def request (r : ShutdownRequest) (reason : ShutdownReason) : ShutdownRequest :=
  if r.requested then r else { requested := true, reason }

end ShutdownRequest

/-- `onTick`, with what it reads from the clock for the uptime and for the time of the message. -/
def Telemetry.onTick (t : Telemetry) (first second : UInt64) : Telemetry × Message :=
  let t := { t with tick_count := t.tick_count + 1 }
  (t, {
    type := .telemetry
    timestamp_ms := second
    payload := .telemetryData {
      uptime_ms := first - t.start_time_ms
      tick_count := t.tick_count
      timestamp_ms := second } })

def toSmootherConfig (cfg : Core.RateConfig) : RateSmootherConfig where
  alpha := cfg.alpha
  window_ms := cfg.window_ms

/-- The signals with a handler. -/
inductive Signal where
  | interrupt
  | terminate
  deriving DecidableEq

/-- What the loop makes of a signal. -/
def Signal.reason : Signal → ShutdownReason
  | interrupt => .signalInterrupt
  | terminate => .signalTerminate

/-- What `main` does next: publish the first snapshot; announce the start; in the loop, test `isRequested`, test
the signal received for each of the two, tick, let the monitor tick, publish a snapshot, sleep; and after the
loop, once the other threads have been joined, build the last status. -/
inductive MainPoint where
  | starting
  | announcing
  | requested
  | interrupted
  | terminated
  | ticking
  | monitoring
  | publishing
  | sleeping
  | stopping
  | stopped
  deriving DecidableEq

/-- What a step of `main` reads: the clock, up to three times in this order, and the metrics of the packets. -/
structure Reading where
  first : UInt64 := 0
  second : UInt64 := 0
  third : UInt64 := 0
  raw_metrics : PacketMetrics

/-- `received` is `g_receivedSignal`. `signals`, `heartbeats`, `readings`, `published` and `enqueued` record the
signals that arrived, what `onHeartbeat` read from the clock, what was read for each status published, and what
went to the publisher and to the export queue. -/
structure MainLoop where
  telemetry : Telemetry
  healthMonitor : HealthMonitor
  statusBuilder : RuntimeStatusBuilder
  publisher : SnapshotPublisher := {}
  runtimeState : RuntimeState := .booting
  received : Option Signal := none
  shutdownRequest : ShutdownRequest := {}
  point : MainPoint := .starting
  last : Option RuntimeStatus := none
  signals : List Signal := []
  heartbeats : List UInt64 := []
  readings : List Reading := []
  published : List RuntimeStatus := []
  enqueued : List RuntimeMetrics := []

/-- What happens next. -/
inductive MainLabel where
  | signal (s : Signal)
  | main (w : Reading)

/-- A step of `main`, and not a signal. -/
def MainLabel.isMain : MainLabel → Bool
  | signal _ => false
  | main _ => true

namespace MainLoop

/-- The callback for `Telemetry`. -/
def onTelemetry (m : MainLoop) (msg : Message) (now : UInt64) : MainLoop :=
  let m := { m with healthMonitor := m.healthMonitor.onHeartbeat now, heartbeats := m.heartbeats ++ [now] }
  match msg.payload with
  | .telemetryData data =>
    { m with enqueued := m.enqueued ++ [{ uptime_ms := data.uptime_ms, tick_count := data.tick_count }] }
  | _ => m

/-- A status of what there is, in the order in which it reads the clock. -/
def build (m : MainLoop) (w : Reading) : RuntimeStatus × RuntimeStatusBuilder :=
  m.statusBuilder.build m.telemetry m.healthMonitor w.raw_metrics m.runtimeState w.first w.second w.third

/-- Build a status and publish it. -/
def publish (m : MainLoop) (w : Reading) : MainLoop :=
  let (status, statusBuilder) := m.build w
  let publisher := m.publisher.publish status
  { m with statusBuilder, publisher, readings := m.readings ++ [w]
           published := m.published ++ publisher.snapshot.toList }

/-- The next step of `main`. -/
def main (w : Reading) (m : MainLoop) : Option MainLoop :=
  match m.point with
  | .starting => some { m.publish w with point := .announcing }
  | .announcing => some { m with runtimeState := .running, point := .requested }
  | .requested => some { m with point := if m.shutdownRequest.requested then .stopping else .interrupted }
  | .interrupted =>
    if m.received = some .interrupt then
      some { m with shutdownRequest := m.shutdownRequest.request .signalInterrupt, point := .stopping }
    else some { m with point := .terminated }
  | .terminated =>
    if m.received = some .terminate then
      some { m with shutdownRequest := m.shutdownRequest.request .signalTerminate, point := .stopping }
    else some { m with point := .ticking }
  | .ticking =>
    let (telemetry, msg) := m.telemetry.onTick w.first w.second
    some { ({ m with telemetry }).onTelemetry msg w.third with point := .monitoring }
  | .monitoring => some { m with healthMonitor := m.healthMonitor.onTick w.first, point := .publishing }
  | .publishing => some { m.publish w with point := .sleeping }
  | .sleeping => some { m with point := .requested }
  | .stopping =>
    let m := { m with runtimeState := .stopping }
    let (status, statusBuilder) := m.build w
    some { m with statusBuilder, last := some status, point := .stopped }
  | .stopped => none

def step : MainLabel → MainLoop → Option MainLoop
  | .signal s, m => some { m with received := some s, signals := m.signals ++ [s] }
  | .main w, m => m.main w

/-- `main` before its first snapshot; the constructors of `Telemetry` and `HealthMonitor` have read the clock. -/
def initial (cfg : Core.Config) (start first second : UInt64) : MainLoop where
  telemetry := { start_time_ms := start }
  healthMonitor := .new 500 first second
  statusBuilder := .new (toSmootherConfig cfg.rate)

/-! ## What the loop tells -/

/-- The state of publication `k`. -/
def stateAt (k : ℕ) : RuntimeState := if k = 0 then .booting else .running

/-- Publication `k` is version `k + 1` and tells of `k` ticks. Its health is judged by the heartbeat of its own
pass. -/
structure Tells (m : MainLoop) (k : ℕ) (status : RuntimeStatus) : Prop where
  version : status.snapshot_version = UInt64.ofNat (k + 1)
  ticks : status.metrics.tick_count = UInt64.ofNat k
  state : status.state = stateAt k
  heartbeat : 0 < k → m.heartbeats[k - 1]? = some status.health.last_heartbeat_ms
  alive : ∃ w, m.readings[k]? = some w ∧
    status.health.is_alive = decide (w.third - status.health.last_heartbeat_ms ≤ 500)

/-- What has been published and enqueued. -/
structure TellsAll (m : MainLoop) : Prop where
  /-- Clients load what was published last. -/
  loaded : m.publisher.load = m.published.getLast?
  published : ∀ k status, m.published[k]? = some status → m.Tells k status
  enqueued : ∀ k sample, m.enqueued[k]? = some sample → sample.tick_count = UInt64.ofNat (k + 1)
  /-- There is a sample for each snapshot but the first, and there may be one for the next. -/
  length : m.published.length ≤ m.enqueued.length + 1 ∧ m.enqueued.length ≤ m.published.length
  /-- The last status is not published. -/
  last : ∀ status, m.last = some status → status.state = .stopping ∧ status.snapshot_version = 0 ∧
    status.metrics.tick_count = UInt64.ofNat m.enqueued.length

/-- What a client is told that asks for the status between two steps. -/
def StatusTells (p : Control.Platform) (ctx : Control.ControlContext) (m : MainLoop) : Prop :=
  ∀ resp, (Control.dispatchControlRequest p { ctx with publisher := some m.publisher.load }
    Control.Command.status.plain).response = some resp → resp.success = true →
      ∃ k, m.published.length = k + 1 ∧
        (bytesOf "state", stateToString (stateAt k)) ∈ Lines.entries 0x0A 0x3D resp.payload ∧
        (bytesOf "tick_count", Control.to_string (k % 2 ^ 64)) ∈ Lines.entries 0x0A 0x3D resp.payload ∧
        (bytesOf "snapshot_version", Control.to_string ((k + 1) % 2 ^ 64)) ∈ Lines.entries 0x0A 0x3D resp.payload

/-! ## How it ends -/

/-- The loop is over. -/
def Over (m : MainLoop) : Prop := m.point = .stopping ∨ m.point = .stopped

/-- No interrupt takes the place of the signal received after the loop has found that it is no interrupt, and
before it tests whether it is a termination. -/
def InTime (m : MainLoop) : MainLabel → Prop
  | .signal s => m.point = .terminated → s ≠ .interrupt
  | .main _ => True

instance (m : MainLoop) (l : MainLabel) : Decidable (m.InTime l) :=
  match l with
  | .signal s => inferInstanceAs (Decidable (m.point = .terminated → s ≠ .interrupt))
  | .main _ => isTrue trivial

/-- The loop is over because of a signal, and any signal ends it. -/
structure EndsOnSignal (m : MainLoop) : Prop where
  /-- The reason recorded is a signal that arrived. -/
  cause : m.Over → m.shutdownRequest.requested = true ∧ ∃ s ∈ m.signals, m.shutdownRequest.reason = s.reason
  running : ¬ m.Over → m.shutdownRequest.requested = false
  /-- In the loop `main` goes on. -/
  moves : ¬ m.Over → ∀ w, (m.main w).isSome = true
  /-- After a signal `main` leaves the loop in few steps, and ticks once more at most. -/
  bounded : m.signals ≠ [] → ∀ labels m', Runs.Run step InTime m labels m' →
    (8 ≤ labels.countP MainLabel.isMain → m'.Over) ∧ m'.enqueued.length ≤ m.enqueued.length + 1

end MainLoop

end EdgeNetSwitch
