import EdgeNetSwitch.Packet.LifecycleAccounting
import EdgeNetSwitch.Threads.Program

/-!
# The statistics under concurrency

The handlers and `snapshotAt` one atomic step at a time: the lock, the insertion into
`completed_lifecycles_`, every `fetch_add`, load and store. `delivered` and `history` record the
messages in the order in which their handlers were called and took effect.
-/

namespace EdgeNetSwitch

open Threads

namespace PacketStats

structure StatsState where
  stats : PacketStats := {}
  locked : Bool := false
  delivered : List StatsMessage := []
  history : List StatsMessage := []
  snapshots : List PacketMetrics := []

inductive StatsAction where
  /-- A callback is invoked. -/
  | deliver (msg : StatsMessage)
  /-- Construct the `lock_guard`. -/
  | lock (outcome : Terminal)
  /-- `completed_lifecycles_.insert`. -/
  | complete (outcome : Terminal)
  | fetchAdd (counter : Counter) (n : UInt64)
  /-- `nowNs()`, and the latency test. -/
  | readClock (packet : Packet)
  /-- Compare with the greatest latency so far. -/
  | loadMax (latency_ns : UInt64)
  | storeMax (latency_ns : UInt64)
  | unlock
  /-- `snapshotAt`, with `m` read so far. -/
  | snapshot (rest : List SnapshotStep) (m : PacketMetrics)

/-- What follows the insertion of a lifecycle. -/
def afterInsert (completed : Bool) (outcome : Terminal) : List StatsAction :=
  (increments completed outcome).map (fun x => .fetchAdd x.1 x.2) ++
    (match outcome with
      | .processed p => if completed then [] else [.readClock p]
      | .dropped _ => []) ++ [.unlock]

def exec : StatsAction → UInt64 → StatsState → Option (StatsState × List StatsAction)
  | .deliver msg, _, s =>
    let s := { s with delivered := s.delivered ++ [msg] }
    match msg with
    | .packetRx _ => some ({ s with history := s.history ++ [msg] }, [.fetchAdd .ingressPackets 1])
    | .ingressIdlePoll =>
      some ({ s with history := s.history ++ [msg] }, [.fetchAdd .udpDrainCompletions 1])
    | .terminal outcome => some (s, [.lock outcome])
  | .lock outcome, _, s =>
    if s.locked then none else some ({ s with locked := true }, [.complete outcome])
  | .complete outcome, _, s =>
    let completed := decide (outcome.lifecycle_id ∈ s.stats.completed_lifecycles)
    let completed_lifecycles := insert outcome.lifecycle_id s.stats.completed_lifecycles
    some ({ s with
      stats := { s.stats with completed_lifecycles }
      history := s.history ++ [.terminal outcome] }, afterInsert completed outcome)
  | .fetchAdd counter n, _, s => some ({ s with stats := s.stats.fetchAdd counter n }, [])
  | .readClock p, now_ns, s =>
    match latency? p now_ns with
    | none => some (s, [])
    | some latency_ns =>
      some (s, [.fetchAdd .totalProcessingLatency latency_ns, .fetchAdd .latencySamples 1,
        .loadMax latency_ns])
  | .loadMax latency_ns, _, s =>
    some (s, if latency_ns > s.stats.max_processing_latency_ns then [.storeMax latency_ns] else [])
  | .storeMax latency_ns, _, s =>
    some ({ s with stats := { s.stats with max_processing_latency_ns := latency_ns } }, [])
  | .unlock, _, s => some ({ s with locked := false }, [])
  | .snapshot [] m, _, s => some ({ s with snapshots := s.snapshots ++ [m.finish] }, [])
  | .snapshot (.lock :: rest) m, _, s =>
    if s.locked then none else some ({ s with locked := true }, [.snapshot rest m])
  | .snapshot (.unlock :: rest) m, _, s => some ({ s with locked := false }, [.snapshot rest m])
  | .snapshot (step :: rest) m, _, s => some (s, [.snapshot rest (m.read s.stats step)])

def program : Program StatsState StatsAction UInt64 where
  exec := exec

/-- What other components do: deliver messages, and take snapshots. -/
def IsCall : StatsAction → Prop
  | .deliver _ => True
  | .snapshot rest m => rest = snapshotSteps ∧ m = {}
  | _ => False

/-- New statistics, and threads that will make calls. -/
def init (callers : List (List StatsAction)) : Config StatsState StatsAction := ⟨{}, callers⟩

/-- No delivery is in progress; snapshots may be. -/
def BetweenDeliveries (c : Config StatsState StatsAction) : Prop :=
  ∀ t ∈ c.threads, ∀ a ∈ t, match a with
    | .deliver _ | .snapshot _ _ => True
    | _ => False

end PacketStats

end EdgeNetSwitch
