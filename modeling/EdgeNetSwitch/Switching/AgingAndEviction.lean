import EdgeNetSwitch.Switching.SwitchForwardingEngine

/-!
# Aging and eviction

Which entries `ageOut` is to remove, with ticks as numbers without a bound, and which entry a `learn` removes
from a full table.
-/

namespace EdgeNetSwitch

namespace MacTable

/-- A sweep keeps exactly the entries that are not too old. -/
def AgesExactly (t : MacTable) (current_tick max_age : UInt64) : Prop :=
  ∀ (m : MacAddress) (e : MacTableEntry), (t.ageOut current_tick max_age).entries[m]? = some e ↔
    t.entries[m]? = some e ∧ current_tick.toNat ≤ e.last_seen_tick.toNat + max_age.toNat

/-- The later of two sweeps does all of their work. -/
def LaterSweepSuffices (t : MacTable) (t1 t2 max_age : UInt64) : Prop :=
  (t.ageOut t1 max_age).ageOut t2 max_age = t.ageOut t2 max_age

/-- No entry is ahead of the sweep, or its unsigned age, which is close to 2^64 then, is no more than
`max_age` all the same. -/
def NotAhead (t : MacTable) (current_tick max_age : UInt64) : Prop :=
  ∀ (m : MacAddress) (e : MacTableEntry), t.entries[m]? = some e →
    e.last_seen_tick ≤ current_tick ∨
      current_tick.toNat + 2 ^ 64 ≤ e.last_seen_tick.toNat + max_age.toNat

/-- To learn `src`, the table gives up `dst`: it is full, has no entry for `src`, and `dst` has the oldest tick,
and the lowest address among those with this tick. -/
structure EvictedBy (t : MacTable) (src dst : MacAddress) : Prop where
  full : t.capacity ≤ t.size
  new : t.entries[src]? = none
  oldest : ∃ entry, t.entries[dst]? = some entry ∧
    ∀ (m : MacAddress) (e : MacTableEntry), t.entries[m]? = some e →
      m = dst ∨ entry.last_seen_tick < e.last_seen_tick ∨
        entry.last_seen_tick = e.last_seen_tick ∧ compare dst m = .lt

end MacTable

end EdgeNetSwitch
