import EdgeNetSwitch.Transport.PortBackend

/-!
# Proofs: which results name their port
-/

namespace EdgeNetSwitch

namespace PortBackends

variable {registrations : List (UInt32 × BackendKind)} {port : UInt32} {packet : Packet} {sendto : SendTo}

theorem install_concat (registrations : List (UInt32 × BackendKind)) (x : UInt32 × BackendKind) :
    install (registrations ++ [x]) = (install registrations).registerBackend x.1 (x.2.construct x.1) := by
  unfold install
  rw [List.foldl_append, List.foldl_cons, List.foldl_nil]

/-- The manager knows the ports registered. -/
theorem install_manager (registrations : List (UInt32 × BackendKind)) :
    (install registrations).manager.backends = (registrations.map Prod.fst).reverse := by
  induction registrations using List.reverseRecOn with
  | nil => rfl
  | append_singleton registrations x ih =>
    rw [install_concat, List.map_append, List.reverse_append, ← ih]
    rfl

/-- Each port has the backend registered last, with the port in it. -/
theorem install_lookup (registrations : List (UInt32 × BackendKind)) (port : UInt32) :
    (install registrations).backends.lookup port =
      (kindOf registrations port).map (BackendKind.construct port) := by
  unfold kindOf
  induction registrations using List.reverseRecOn with
  | nil => rfl
  | append_singleton registrations x ih =>
    obtain ⟨q, kind⟩ := x
    rw [install_concat, List.reverse_append, List.reverse_singleton, List.singleton_append]
    unfold registerBackend
    rw [List.lookup_cons, List.lookup_cons, ih]
    by_cases hq : port = q
    · subst hq
      simp
    · simp [beq_false_of_ne hq]

/-- A port has a backend when one is registered for it. -/
theorem mem_backends_iff (registrations : List (UInt32 × BackendKind)) (port : UInt32) :
    port ∈ (install registrations).manager.backends ↔ kindOf registrations port ≠ none := by
  unfold kindOf
  rw [install_manager, List.mem_reverse, ne_eq, List.lookup_eq_none_iff]
  simp only [List.mem_reverse, List.mem_map, not_forall]
  constructor
  · rintro ⟨x, hx, rfl⟩
    exact ⟨x, hx, by simp⟩
  · rintro ⟨x, hx, hport⟩
    have hport : port = x.1 := by simpa using hport
    exact ⟨x, hx, hport.symm⟩

/-- The port in the result: that of the backend, if there is one. -/
theorem transmit_port_id (registrations : List (UInt32 × BackendKind)) (port : UInt32) (packet : Packet)
    (sendto : SendTo) : ((install registrations).transmit port packet sendto).1.port_id =
      match kindOf registrations port with
      | none => port
      | some kind => ((kind.construct port).transmit packet sendto).port_id := by
  have hmem := mem_backends_iff registrations port
  unfold transmit TransportManager.transmit
  rw [install_lookup]
  cases hkind : kindOf registrations port with
  | none =>
    rw [hkind] at hmem
    simp only [Option.map_none]
    rw [if_neg (fun h => hmem.1 h rfl)]
  | some kind =>
    rw [hkind] at hmem
    simp only [Option.map_some]
    rw [if_pos (hmem.2 (by simp))]

theorem udp_port_id (port : UInt32) (endpoint : UdpEndpoint) (packet : Packet) (sendto : SendTo) :
    ((PortBackend.udp port endpoint).transmit packet sendto).port_id =
      if packet.payload = [] ∨ 0 ≤ sendto.bytes_sent then port else 0 := by
  unfold PortBackend.transmit
  by_cases hp : packet.payload = []
  · simp [hp]
  · by_cases hs : sendto.bytes_sent < 0
    · simp [hp, hs]
    · simp [hp, hs, not_lt.1 hs]

/-- A result names its port when its backend puts it there; what it names otherwise is port 0. -/
theorem names_iff (registrations : List (UInt32 × BackendKind)) (port : UInt32) (packet : Packet)
    (sendto : SendTo) : Names ((install registrations).transmit port packet sendto).1 port ↔
      port = 0 ∨ Attributes registrations port packet sendto := by
  have hnames : ∀ result : TransmitResult, Names result port ↔ result.port_id = port := by
    intro result
    constructor
    · intro h
      exact h.port_id
    · intro h
      refine ⟨h, ?_⟩
      rw [← h]
  rw [hnames, transmit_port_id]
  unfold Attributes
  cases kindOf registrations port with
  | none => simp
  | some kind =>
    cases kind with
    | virtual =>
      have hzero : ((BackendKind.construct port .virtual).transmit packet sendto).port_id = 0 := rfl
      simp only [hzero, or_false]
      exact eq_comm
    | udp endpoint =>
      have hudp := udp_port_id port endpoint packet sendto
      simp only [BackendKind.construct, hudp]
      by_cases h : packet.payload = [] ∨ 0 ≤ sendto.bytes_sent
      · simp [h]
      · rw [if_neg h]
        simp only [h, or_false]
        exact eq_comm

/-- The backend of the daemon at port 1 fails to send: the failure is reported for port 0. -/
theorem misattributes_failure :
    let t := install [(1, .udp ⟨bytesOf "127.0.0.1", 9101⟩)]
    let r := (t.transmit 1 { payload := bytesOf "x" } { bytes_sent := -1, errno := 101 }).1
    r.status = .sendFailed ∧ r.port_id = 0 ∧ ¬ Names r 1 := by
  intro t r
  refine ⟨by decide, by decide, fun h => ?_⟩
  have hport := h.port_id
  revert hport
  decide

end PortBackends

end EdgeNetSwitch
