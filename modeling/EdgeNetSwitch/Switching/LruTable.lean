import EdgeNetSwitch.Switching.MacTable
import EdgeNetSwitch.Recency.Promote

/-!
# What the MAC table is for

The table is meant to hold the stations heard most recently, as far as they have not aged out. This
module states that purpose over histories of `learn` and `ageOut` calls: the recency list of all
stations ever learned (`seen`), and the entry a station has to have (`Current`).
-/

namespace EdgeNetSwitch

/-- The calls that change a `MacTable`. -/
inductive TableOp where
  | learn (mac : MacAddress) (port_id : UInt32) (tick : UInt64)
  | ageOut (current_tick max_age : UInt64)

namespace TableOp

/-- The addresses learned, in the order of the calls. -/
def macs (ops : List TableOp) : List MacAddress :=
  ops.filterMap fun
    | learn mac _ _ => some mac
    | ageOut _ _ => none

/-- The ticks of the `learn` calls. -/
def ticks (ops : List TableOp) : List UInt64 :=
  ops.filterMap fun
    | learn _ _ tick => some tick
    | ageOut _ _ => none

/-- The clock the callers use: `learn` ticks increase strictly, and a sweep never runs at a tick
earlier than one learned before it. -/
inductive WellTimed : List TableOp → Prop where
  | nil : WellTimed []
  | learn {ops : List TableOp} (mac : MacAddress) (port_id : UInt32) {tick : UInt64}
      (h : WellTimed ops) (ht : ∀ t ∈ ticks ops, t < tick) :
      WellTimed (ops ++ [.learn mac port_id tick])
  | ageOut {ops : List TableOp} {current_tick : UInt64} (max_age : UInt64) (h : WellTimed ops)
      (ht : ∀ t ∈ ticks ops, t ≤ current_tick) : WellTimed (ops ++ [.ageOut current_tick max_age])

/-- The last `learn` of `m` in `ops` was for `port_id` at `tick`, and `post` came after it. -/
def LastLearn (ops : List TableOp) (m : MacAddress) (port_id : UInt32) (tick : UInt64)
    (post : List TableOp) : Prop :=
  ∃ pre, ops = pre ++ .learn m port_id tick :: post ∧ m ∉ macs post

/-- No sweep in `post` found an entry of the given tick older than it allowed. -/
def NotAged (tick : UInt64) (post : List TableOp) : Prop :=
  ∀ now max_age, .ageOut now max_age ∈ post → now.toNat - tick.toNat ≤ max_age.toNat

end TableOp

open TableOp

/-- After `ops`, a table of capacity `c` has to hold the entry `e` for `m`: `m` is among the `c` most
recently learned distinct addresses, `e` records its last `learn`, and no sweep since then removed
it. -/
def Current (c : ℕ) (ops : List TableOp) (m : MacAddress) (e : MacTableEntry) : Prop :=
  m ∈ (Recency.recent (macs ops)).take c ∧ e.mac = m ∧
    ∃ post, LastLearn ops m e.port_id e.last_seen_tick post ∧ NotAged e.last_seen_tick post

/-- A station of the recency list: its last `learn`, and whether every sweep since has kept it. -/
structure Seen where
  mac : MacAddress
  port_id : UInt32
  tick : UInt64
  fresh : Bool

namespace Seen

/-- The entry a table holds for the station. -/
def entry (s : Seen) : MacTableEntry := ⟨s.mac, s.port_id, s.tick⟩

/-- What a sweep makes of a station. -/
def sweep (now max_age : UInt64) (s : Seen) : Seen :=
  { s with fresh := s.fresh && decide (now.toNat - s.tick.toNat ≤ max_age.toNat) }

/-- The effect of a call on the recency list. -/
def step (l : List Seen) : TableOp → List Seen
  | .learn mac port_id tick => Recency.promote Seen.mac ⟨mac, port_id, tick, true⟩ l
  | .ageOut now max_age => l.map (sweep now max_age)

/-- The stations learned in a history, the most recent one first. -/
def seen (ops : List TableOp) : List Seen := ops.foldl step []

end Seen

namespace MacTable

/-- One call. -/
def step (t : MacTable) : TableOp → MacTable
  | .learn mac port_id tick => t.learn mac port_id tick
  | .ageOut current_tick max_age => t.ageOut current_tick max_age

/-- A sequence of calls on a new table. -/
def run (c : ℕ) (ops : List TableOp) : MacTable := ops.foldl step (empty c)

/-- The table `t` of capacity `c` realises the recency list `l`. -/
structure Realises (c : ℕ) (l : List Seen) (t : MacTable) : Prop where
  capacity : t.capacity = c
  nodup : (l.map Seen.mac).Nodup
  sorted : l.Pairwise fun s s' => s'.tick < s.tick
  fresh : l.Pairwise fun s s' => s'.fresh = true → s.fresh = true
  entries : ∀ (m : MacAddress) (e : MacTableEntry), t.entries[m]? = some e ↔
    ∃ s ∈ l.take c, s.fresh = true ∧ s.mac = m ∧ s.entry = e

end MacTable

end EdgeNetSwitch
