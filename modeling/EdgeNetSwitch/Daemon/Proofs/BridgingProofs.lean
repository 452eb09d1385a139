import EdgeNetSwitch.Daemon.Bridging
import EdgeNetSwitch.Daemon.Proofs.SequentialWorkerProofs
import EdgeNetSwitch.Switching.Proofs.SwitchForwardingEngineProofs

/-!
# Proofs: the daemon is a learning bridge

The table knows no station at another port than the one where it was heard last (`Knows`), whatever it has evicted
and whatever its ticks are: `learn` always takes the new port.
-/

namespace EdgeNetSwitch

open LearningBridge

/-! ## The table -/

/-- What the table knows after a `learn` is what it has learned, or what it knew before. -/
theorem MacTable.lookup_of_learn {t : MacTable} {mac m : MacAddress} {port_id p : UInt32} {tick : UInt64}
    (h : (t.learn mac port_id tick).lookup m = some p) : if mac = m then p = port_id else t.lookup m = some p := by
  obtain ⟨e, he, rfl⟩ := Option.map_eq_some_iff.1 h
  change (t.learned mac port_id tick)[m]? = some e at he
  unfold learned at he
  split_ifs at he with h0
  · -- there is nothing in a table without room
    have hempty : t.entries = ∅ := by
      rw [Std.ExtTreeMap.eq_empty_iff_size_eq_zero]
      have hle := t.size_le
      omega
    rw [hempty, Std.ExtTreeMap.getElem?_empty] at he
    cases he
  · have hknown : ∀ e, t.entries[m]? = some e → t.lookup m = some e.port_id := by
      intro e he
      rw [lookup, he]
      rfl
    split at he
    · rw [Std.ExtTreeMap.getElem?_insert] at he
      split_ifs at he with hcompare
      · obtain rfl := Option.some.inj he
        rw [if_pos (Std.LawfulEqCmp.eq_of_compare hcompare)]
      · rw [if_neg fun heq => hcompare (Std.LawfulEqCmp.compare_eq_iff_eq.2 heq)]
        exact hknown e he
    · rename_i hmiss
      rw [Std.ExtTreeMap.getElem?_insertIfNew] at he
      split_ifs at he with hnew
      · obtain rfl := Option.some.inj he
        rw [if_pos (Std.LawfulEqCmp.eq_of_compare hnew.1)]
      · have hentry := evicted_getElem? he
        rw [if_neg]
        · exact hknown e hentry
        · rintro rfl
          rw [hmiss] at hentry
          cases hentry

/-! ## One packet -/

namespace Packet

variable {p : Packet} {f : Frame MacAddress UInt32}

theorem frame?_eq_some : p.frame? = some f ↔
    ¬ (p.payload.length > PacketProcessor.maxPayloadSize ∨ p.timestamp_ms = 0) ∧
      p.ingress_port = some f.ingress ∧ p.source_mac = some f.source ∧ p.destination_mac = some f.destination := by
  unfold frame?
  split_ifs with h
  · exact ⟨nofun, fun hsome => absurd h hsome.1⟩
  · cases hi : p.ingress_port <;> cases hs : p.source_mac <;> cases hd : p.destination_mac
    all_goals simp [h, Frame.ext_iff]

end Packet

namespace Runtime

open Threads PacketProcessor

variable {s : Runtime} {c : Config Runtime Action} {tr : List (Runtime × Action)}
  {engine : SwitchForwardingEngine} {p : Packet} {f : LearningBridge.Frame MacAddress UInt32}

theorem transmits_of_map (ports : List UInt32) (p : Packet) :
    (ports.map (Action.transmit · p)).filterMap transmit? = ports.map (·, p) := by
  rw [List.filterMap_map, ← List.filterMap_eq_map]
  exact List.filterMap_congr fun port _ => rfl

theorem transmit?_untimed (a : Action) : transmit? a.untimed = transmit? a := by
  cases a with
  | publish source msg =>
    obtain ⟨type, t, payload⟩ := msg
    cases payload <;> rfl
  | _ => rfl

/-- What is sent of a packet that is checked, and the engine after it. -/
theorem handle_checked (engine : SwitchForwardingEngine) {port : UInt32}
    (hchecks : ¬ (p.payload.length > maxPayloadSize ∨ p.timestamp_ms = 0))
    (hport : p.ingress_port = some port) :
    (handle true (some engine) p).1.filterMap transmit? =
        (engine.processPacket (sized p) port p.timestamp_ms).1.egress_ports.map (·, sized p) ∧
      (handle true (some engine) p).2 = some (engine.processPacket (sized p) port p.timestamp_ms).2 := by
  unfold handle
  rw [if_neg hchecks, hport]
  refine ⟨?_, rfl⟩
  dsimp only
  rw [if_pos rfl, List.filterMap_append, transmits_of_map]
  exact List.append_nil _

/-- A packet that is no frame is not sent, and the engine learns nothing from it. -/
theorem handle_other (engine : SwitchForwardingEngine) (h : p.frame? = none) :
    (handle true (some engine) p).1.filterMap transmit? = [] ∧
    (handle true (some engine) p).2 = some engine := by
  by_cases hchecks : p.payload.length > maxPayloadSize ∨ p.timestamp_ms = 0
  · unfold handle
    rw [if_pos hchecks]
    exact ⟨rfl, rfl⟩
  · cases hport : p.ingress_port with
    | none =>
      unfold handle
      rw [if_neg hchecks, hport]
      exact ⟨rfl, rfl⟩
    | some port =>
      have hmac : (sized p).source_mac = none ∨ (sized p).destination_mac = none := by
        unfold Packet.frame? at h
        rw [if_neg hchecks, hport] at h
        change p.source_mac = none ∨ p.destination_mac = none
        cases hs : p.source_mac with
        | none => exact .inl rfl
        | some source =>
          cases hd : p.destination_mac with
          | none => exact .inr rfl
          | some destination =>
            rw [hs, hd] at h
            cases h
      obtain ⟨hsent, hengine⟩ := handle_checked engine hchecks hport
      rw [hsent, hengine, engine.processPacket_of_none port p.timestamp_ms hmac]
      exact ⟨rfl, rfl⟩

/-- The engine sends a frame as a bridge may that knows what the table does. -/
theorem handle_frame (engine : SwitchForwardingEngine) (h : p.frame? = some f) :
    ∃ (engine' : SwitchForwardingEngine) (ports : List UInt32),
      (handle true (some engine) p).1.filterMap transmit? = ports.map (·, sized p) ∧
      (handle true (some engine) p).2 = some engine' ∧ engine'.interfaces = engine.interfaces ∧
      engine'.mac_table = engine.mac_table.learn f.source f.ingress p.timestamp_ms ∧
      Egress engine.interfaces.activePortIds (fun mac => mac.isBroadcast = true) engine'.mac_table.lookup f
        ports := by
  obtain ⟨hchecks, hport, hsource, hdestination⟩ := Packet.frame?_eq_some.1 h
  obtain ⟨hsent, hengine⟩ := handle_checked engine hchecks hport
  change (sized p).source_mac = some f.source at hsource
  change (sized p).destination_mac = some f.destination at hdestination
  have hlearned : (engine.processPacket (sized p) f.ingress p.timestamp_ms).2 =
      { engine with mac_table := engine.mac_table.learn f.source f.ingress p.timestamp_ms } := by
    rw [engine.processPacket_engine, EngineOp.tableOp?, hsource, hdestination]
    rfl
  rw [hlearned] at hengine
  refine ⟨_, _, hsent, hengine, rfl, rfl, ?_⟩
  rw [engine.processPacket_of_some f.ingress p.timestamp_ms hsource hdestination rfl]
  have hflood : SwitchForwardingEngine.floodPorts
      { engine with mac_table := engine.mac_table.learn f.source f.ingress p.timestamp_ms } f.ingress =
        engine.interfaces.activePortIds.filter (· ≠ f.ingress) := by
    apply List.filter_congr
    intro port _
    rw [Bool.eq_iff_iff, bne_iff_ne, decide_eq_true_iff]
  split_ifs with hbroadcast
  · rw [hflood]
    exact .flood
  · cases hlookup : (engine.mac_table.learn f.source f.ingress p.timestamp_ms).lookup f.destination with
    | none =>
      rw [hflood]
      exact .flood
    | some port =>
      dsimp only
      split_ifs with hup
      · exact .forward port hbroadcast hlookup ((InterfaceRegistry.mem_activePortIds port).2 hup)
      · exact .discard port hbroadcast hlookup fun hmem => hup ((InterfaceRegistry.mem_activePortIds port).1 hmem)

/-! ## All packets -/

/-- The table knows stations only where they were heard last. -/
def Knows (engine : SwitchForwardingEngine) (packets : List Packet) (engine' : SwitchForwardingEngine) : Prop :=
  ∀ mac port, engine'.mac_table.lookup mac = some port →
    heard engine.mac_table.lookup (packets.filterMap Packet.frame?) mac = some port

theorem bridges_handleAll (engine : SwitchForwardingEngine) (packets : List Packet) :
    ∃ (engine' : SwitchForwardingEngine) (sent : List (UInt32 × Packet)),
      (handleAll true (some engine) packets).2 = some engine' ∧ engine'.interfaces = engine.interfaces ∧
      Knows engine packets engine' ∧ engine.Bridges packets sent ∧
      (handleAll true (some engine) packets).1.filterMap transmit? = sent.map (Prod.map id sized) := by
  induction packets using List.reverseRecOn with
  | nil => exact ⟨engine, [], rfl, rfl, fun _ _ hlookup => hlookup, .nil, rfl⟩
  | append_singleton packets p ih =>
    obtain ⟨engine', sent, hengine, hinterfaces, hknows, hbridges, hsent⟩ := ih
    have hframes : (packets ++ [p]).filterMap Packet.frame? =
        packets.filterMap Packet.frame? ++ p.frame?.toList := by
      rw [List.filterMap_append]
      congr 1
    rw [handleAll_append, hengine, List.filterMap_append, hsent]
    cases hframe : p.frame? with
    | none =>
      obtain ⟨hnone, hsame⟩ := handle_other engine' hframe
      refine ⟨engine', sent, hsame, hinterfaces, ?_, .other p hbridges hframe, ?_⟩
      · unfold Knows
        rw [hframes, hframe, Option.toList_none, List.append_nil]
        exact hknows
      · rw [hnone, List.append_nil]
    | some f =>
      obtain ⟨engine'', ports, hports, hengine', hinterfaces', htable, hegress⟩ := handle_frame engine' hframe
      have hknows' : Knows engine (packets ++ [p]) engine'' := by
        intro mac port hlookup
        rw [hframes, hframe, Option.toList_some, heard_concat]
        rw [htable] at hlookup
        have hlearn := MacTable.lookup_of_learn hlookup
        split_ifs at hlearn ⊢
        · rw [hlearn]
        · exact hknows mac port hlearn
      refine ⟨engine'', sent ++ ports.map (·, p), hengine', hinterfaces'.trans hinterfaces, hknows', ?_, ?_⟩
      · apply Sends.frame p hbridges hframe
        rw [← hinterfaces]
        exact hegress.mono hknows'
      · rw [hports, List.map_append, List.map_map]
        rfl

/-- In every run the worker sends what a learning bridge would send of the packets accepted. -/
theorem runs_as_bridge (subscribers : List Subscriber) (cfg : FailureConfig) (engine : SwitchForwardingEngine)
    (transport : TransportManager) {callers : List (List Action)} (hcallers : ∀ t ∈ callers, ∀ a ∈ t, IsEntry a)
    (h : Trace program (start (initial subscribers cfg (some engine) (some transport)) callers) tr c) :
    RunsAsBridge engine tr := by
  have hlearned : Learned true (some engine) tr c.shared := learned_of_trace rfl rfl h
  obtain ⟨rounds, hrounds⟩ := inRounds_of_trace hcallers rfl rfl rfl h
  have heffects := congrArg (List.filterMap transmit?) (hrounds.effects_append hlearned)
  obtain ⟨-, sent, -, -, -, hbridges, hsent⟩ := bridges_handleAll engine (rounds.map Round.packet)
  have htransmits : ((Runtime.effects tr).map Action.untimed).filterMap transmit? = transmits tr := by
    rw [List.filterMap_map]
    exact List.filterMap_congr fun a _ => transmit?_untimed a
  rw [List.filterMap_append, htransmits, hsent] at heffects
  refine ⟨⟨_, _, sent, _, hrounds.begun_append, hbridges, heffects⟩, fun port p hmem => ?_⟩
  have hmem' : (port, p) ∈ sent.map (Prod.map id sized) := by
    rw [← heffects]
    exact List.mem_append_left _ hmem
  obtain ⟨⟨port', q⟩, hq, heq⟩ := List.mem_map.1 hmem'
  obtain ⟨rfl, rfl⟩ := Prod.mk.inj heq
  obtain ⟨before, after, f, hpackets, hframe, hup, hback⟩ := hbridges.mem hq
  have haccepted := hrounds.begun_append
  rw [hpackets, List.append_assoc, List.cons_append] at haccepted
  exact ⟨before, q, _, f, haccepted.symm, rfl, hframe, (InterfaceRegistry.mem_activePortIds _).1 hup, hback⟩

/-- A packet that came in at one of two ports has gone out at the other. -/
theorem runs_as_bridge_flood : ∃ tr c,
    Trace program (start (initial [.packetProcessor] {} (some twoPorts) (some {}))
      [[.publish .publisher ⟨.packetRx, 5, .packet arrival⟩]]) tr c ∧
    c.shared.log = [(.publisher, ⟨.packetRx, 5, .packet arrival⟩)] ∧ RunsAsBridge twoPorts tr := by
  have hplay : ∃ c, play program anyStep [(1, {}), (1, {}), (1, {}), (1, {}), (0, {}), (0, {}), (0, {})]
      (start (initial [.packetProcessor] {} (some twoPorts) (some {}))
        [[.publish .publisher ⟨.packetRx, 5, .packet arrival⟩]]) = some c ∧
      c.shared.log = [(.publisher, ⟨.packetRx, 5, .packet arrival⟩)] := ⟨_, rfl, rfl⟩
  obtain ⟨c, hplay, hlog⟩ := hplay
  obtain ⟨tr, htr⟩ := (reaches_of_play hplay).trace
  exact ⟨tr, c, htr, hlog, runs_as_bridge _ _ _ _ (by simp [IsEntry]) htr⟩

end Runtime

end EdgeNetSwitch
