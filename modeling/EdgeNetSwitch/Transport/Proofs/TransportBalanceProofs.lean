import EdgeNetSwitch.Transport.TransportBalance

/-!
# Proofs: the transport counters balance

Whatever the order of the calls, the counters are those the results lead to, `tally`.
-/

namespace EdgeNetSwitch

namespace TransportManager

open Runs

variable {rs : List TransmitResult} {r : TransmitResult} {t : TransportManager}

/-- The counters after results. -/
def tally (rs : List TransmitResult) : TransportCounters := rs.foldl count {}

theorem tally_concat (rs : List TransmitResult) (r : TransmitResult) :
    tally (rs ++ [r]) = count (tally rs) r := by
  unfold tally
  rw [List.foldl_append, List.foldl_cons, List.foldl_nil]

theorem made_concat (status : TransmitStatus) (rs : List TransmitResult) (r : TransmitResult) :
    made status (rs ++ [r]) = made status rs + if r.status = status then 1 else 0 := by
  unfold made
  rw [List.countP_append, List.countP_singleton]
  simp only [decide_eq_true_eq]

theorem bytesMade_concat (rs : List TransmitResult) (r : TransmitResult) :
    bytesMade (rs ++ [r]) = bytesMade rs + if r.status = .success then r.bytes_transmitted else 0 := by
  unfold bytesMade
  rw [List.filter_append, List.map_append, List.sum_append]
  by_cases h : r.status = .success <;> simp [h]

/-- Every result has one status. -/
theorem length_eq (rs : List TransmitResult) : rs.length = made .success rs +
    (made .backendUnavailable rs + made .portDown rs + made .invalidPacket rs + made .sendFailed rs) := by
  induction rs using List.reverseRecOn with
  | nil => rfl
  | append_singleton rs r ih =>
    simp only [made_concat, List.length_append, List.length_singleton]
    cases h : r.status <;> simp <;> omega

/-- The counters of results, each modulo `2 ^ 64`. -/
theorem tally_eq (rs : List TransmitResult) : tally rs = {
    tx_packets := UInt64.ofNat (made .success rs)
    tx_bytes := UInt64.ofNat (bytesMade rs)
    tx_failed := UInt64.ofNat (made .backendUnavailable rs + made .portDown rs +
      made .invalidPacket rs + made .sendFailed rs)
    backend_unavailable := UInt64.ofNat (made .backendUnavailable rs)
    port_down := UInt64.ofNat (made .portDown rs)
    invalid_packet := UInt64.ofNat (made .invalidPacket rs) } := by
  induction rs using List.reverseRecOn with
  | nil => rfl
  | append_singleton rs r ih =>
    rw [tally_concat, ih]
    unfold count
    simp only [made_concat, bytesMade_concat]
    cases h : r.status with
    | success =>
      simp only [reduceCtorEq, if_true, if_false, add_zero, UInt64.ofNat_add, UInt64.ofNat_one]
    | sendFailed | portDown | backendUnavailable | invalidPacket =>
      simp only [reduceCtorEq, if_true, if_false, add_zero, UInt64.ofNat_add, UInt64.ofNat_one]
      congr 1
      ac_rfl

theorem balancesCounters_tally (rs : List TransmitResult) : BalancesCounters (tally rs) rs := by
  have hlength := length_eq rs
  rw [tally_eq]
  refine ⟨?_, fun hcalls hbytes => ?_⟩
  · constructor <;> simp only [UInt64.toNat_ofNat', Nat.ModEq] <;> omega
  · constructor <;> simp only [UInt64.toNat_ofNat'] <;> omega

/-- A call of `transmit` counts what it returns. -/
theorem transmit_counters (t : TransportManager) (port_id : UInt32) (returned : TransmitResult) :
    (t.transmit port_id returned).2.counters = count t.counters (t.transmit port_id returned).1 := by
  unfold transmit
  split_ifs <;> rfl

theorem results_concat (l : List Call) (c : Call) : results (l ++ [c]) =
    match c with
    | .registerBackend _ => results l
    | .transmit port_id returned => results l ++ [((run l).transmit port_id returned).1]
    | .resetCounters => [] := by
  unfold results run
  rw [trail_concat]
  cases c <;> simp only [List.foldl_append, List.foldl_cons, List.foldl_nil]

theorem run_counters (l : List Call) : (run l).counters = tally (results l) := by
  induction l using List.reverseRecOn with
  | nil => rfl
  | append_singleton l c ih =>
    have hrun : run (l ++ [c]) = (run l).step c := foldl_concat ..
    rw [hrun, results_concat]
    cases c with
    | registerBackend port_id => exact ih
    | resetCounters => rfl
    | transmit port_id returned =>
      simp only
      rw [tally_concat, ← ih]
      exact transmit_counters ..

/-- The counters of every run balance. -/
theorem balancesCounters_run (l : List Call) : BalancesCounters (run l).counters (results l) := by
  rw [run_counters]
  exact balancesCounters_tally _

end TransportManager

end EdgeNetSwitch
