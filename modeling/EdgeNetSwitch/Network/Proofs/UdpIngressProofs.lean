import EdgeNetSwitch.Network.UdpIngress
import EdgeNetSwitch.Packet.Proofs.PacketParserProofs

/-!
# Proofs: ingress at a readable socket

Every datagram is turned into one message, numbered in the order of arrival, wherever the wake-ups end. A
datagram that does not fit the receive buffer is cut off, and may be published without the rest.
-/

namespace EdgeNetSwitch

open Bytes Search

namespace UdpReceiver

/-! ## Any division into wake-ups -/

variable {queue : List Datagram} {s : Ingress} {d : Datagram}

/-- What has been published is the outcome of the datagrams that are no longer pending. -/
structure Served (queue : List Datagram) (s : Ingress) (delivered : List Datagram) : Prop where
  queue_eq : queue = delivered ++ s.pending
  counter_eq : s.counter = UInt64.ofNat (delivered.length + 1)
  outcomes_eq : s.outcomes = outcomesOf delivered

theorem take_bufferSize (h : d.data.length ≤ bufferSize) : d.data.take bufferSize = d.data :=
  List.take_of_length_le h

/-- The message of a datagram that fits the buffer, apart from the clock. -/
theorem untimed_datagramMessage (h : d.data.length ≤ bufferSize) (lifecycle_id : UInt64)
    (clock : ReadClock) : (datagramMessage d lifecycle_id clock).isIngress = true ∧
      (datagramMessage d lifecycle_id clock).untimed = outcome d lifecycle_id := by
  have hpacket : receivedPacket d lifecycle_id clock = { datagramPacket d lifecycle_id with
      ingress_timestamp_ns := clock.ingress_ns, timestamp_ms := clock.now_ms } := by
    rw [receivedPacket, take_bufferSize h]
    rfl
  have hvalid : (receivedPacket d lifecycle_id clock).valid = (parsePacket d.data).valid := by
    rw [hpacket]
    rfl
  have haccepted : PacketValidator.validate (receivedPacket d lifecycle_id clock) =
      PacketValidator.validate (datagramPacket d lifecycle_id) := by
    rw [hpacket]
    rfl
  have hid : (receivedPacket d lifecycle_id clock).id = (parsePacket d.data).id := by
    rw [hpacket]
    rfl
  rw [datagramMessage, outcome]
  simp only [hvalid, haccepted]
  by_cases hparse : (parsePacket d.data).valid = false
  · simp [hparse, Message.isIngress, Message.untimed]
  · by_cases hval : (PacketValidator.validate (datagramPacket d lifecycle_id)).accepted = false
    · simp [hparse, hval, hid, Message.isIngress, Message.untimed]
    · have hrest : Message.untimed ⟨.packetRx, (receivedPacket d lifecycle_id clock).timestamp_ms,
          .packet (receivedPacket d lifecycle_id clock)⟩ =
          ⟨.packetRx, 0, .packet (datagramPacket d lifecycle_id)⟩ := by
        rw [hpacket]
        rfl
      simp [hparse, hval, hrest, Message.isIngress]

/-- A read without a datagram leaves all as it is, and ends the call. -/
theorem Served.stay {delivered : List Datagram} (hs : Served queue s delivered) {r : Read} {recv : RecvResult}
    (hrecv : ∀ d, recv ≠ .datagram d) (heq : recvfrom s.pending r.fault = (recv, s.pending)) :
    Served queue (s.read r).2 delivered ∧ (s.read r).1 ≠ .packetProcessed := by
  obtain ⟨hqueue, hcounter, houtcomes⟩ := hs
  rw [Ingress.read, heq]
  cases recv with
  | datagram d => exact absurd rfl (hrecv d)
  | _ =>
    refine ⟨⟨hqueue, hcounter, ?_⟩, by simp [handleReadable]⟩
    rw [← houtcomes]
    simp [handleReadable, Ingress.outcomes, Message.isIngress]

theorem Served.fault {delivered : List Datagram} (hs : Served queue s delivered) {r : Read} {fault : Fault}
    (hfault : r.fault = some fault) :
    Served queue (s.read r).2 delivered ∧ (s.read r).1 ≠ .packetProcessed := by
  have hrecv : recvfrom s.pending r.fault = (fault.result, s.pending) := by rw [hfault, recvfrom]
  refine hs.stay ?_ hrecv
  intro d
  cases fault <;> simp [Fault.result]

theorem Served.idle {delivered : List Datagram} (hs : Served queue s delivered) {r : Read}
    (hfault : r.fault = none) (hpending : s.pending = []) :
    Served queue (s.read r).2 delivered ∧ (s.read r).1 ≠ .packetProcessed := by
  have hrecv : recvfrom s.pending r.fault = (.wouldBlock, s.pending) := by rw [hfault, hpending, recvfrom]
  exact hs.stay (by simp) hrecv

/-- A read that meets no fault takes the next datagram. -/
theorem Served.datagram {delivered pending : List Datagram} (hs : Served queue s delivered) {r : Read}
    (hsize : d.data.length ≤ bufferSize) (hfault : r.fault = none) (hpending : s.pending = d :: pending) :
    Served queue (s.read r).2 (delivered ++ [d]) ∧ (s.read r).1 = .packetProcessed := by
  obtain ⟨hqueue, hcounter, houtcomes⟩ := hs
  obtain ⟨hingress, huntimed⟩ := untimed_datagramMessage hsize s.counter r.clock
  have hread : s.read r = (.packetProcessed, Ingress.mk pending (s.counter + 1)
      (s.published ++ [datagramMessage d s.counter r.clock])) := by
    rw [Ingress.read, hfault, hpending]
    rfl
  rw [hread]
  refine ⟨⟨?_, ?_, ?_⟩, rfl⟩
  · rw [hqueue, hpending, List.append_assoc, List.singleton_append]
  · rw [hcounter, List.length_append]
    exact (UInt64.ofNat_add _ 1).symm
  · have hlast : (Ingress.mk pending (s.counter + 1)
        (s.published ++ [datagramMessage d s.counter r.clock])).outcomes = s.outcomes ++ [outcome d s.counter] := by
      simp [Ingress.outcomes, hingress, huntimed]
    rw [hlast, houtcomes, outcomesOf, outcomesOf, List.mapIdx_concat, hcounter]

/-- A read takes the next datagram, or leaves all as it is. -/
theorem Served.read {delivered : List Datagram} (hsize : ∀ d ∈ queue, d.data.length ≤ bufferSize)
    (hs : Served queue s delivered) (r : Read) : ∃ delivered', Served queue (s.read r).2 delivered' := by
  cases hfault : r.fault with
  | some fault => exact ⟨_, (hs.fault hfault).1⟩
  | none =>
    cases hpending : s.pending with
    | nil => exact ⟨_, (hs.idle hfault hpending).1⟩
    | cons d pending =>
      have hd : d.data.length ≤ bufferSize := hsize d (by simp [hs.queue_eq, hpending])
      exact ⟨_, (hs.datagram hd hfault hpending).1⟩

/-- The datagrams taken when there are none left. -/
theorem Served.exhausted {n : ℕ} (hs : Served queue s (queue.take n)) (hpending : s.pending = []) (m : ℕ) :
    Served queue s (queue.take (n + m)) := by
  have hall : queue.take n = queue := by
    have hqueue := hs.queue_eq
    rw [hpending, List.append_nil] at hqueue
    exact hqueue.symm
  have hmore : queue.take (n + m) = queue.take n := by
    rw [hall]
    apply List.take_of_length_le
    have hlength := congrArg List.length hall
    rw [List.length_take] at hlength
    omega
  rw [hmore]
  exact hs

theorem readPackets_stop {reads : ℕ → Read} {left : ℕ}
    (h : (s.read (reads (256 - (left + 1)))).1 ≠ .packetProcessed) :
    s.readPackets reads (left + 1) = (s.read (reads (256 - (left + 1)))).2 := by
  rw [Ingress.readPackets]
  cases hresult : (s.read (reads (256 - (left + 1)))).1 with
  | packetProcessed => exact absurd hresult h
  | _ => simp only [maxPacketsPerWakeup, hresult]

theorem readPackets_next {reads : ℕ → Read} {left : ℕ}
    (h : (s.read (reads (256 - (left + 1)))).1 = .packetProcessed) :
    s.readPackets reads (left + 1) = (s.read (reads (256 - (left + 1)))).2.readPackets reads left := by
  rw [Ingress.readPackets]
  simp only [maxPacketsPerWakeup, h]

/-- The loop takes a datagram with every read before the first fault, as long as there are any. -/
theorem Served.readPackets (hsize : ∀ d ∈ queue, d.data.length ≤ bufferSize) (reads : ℕ → Read) {left : ℕ}
    (hleft : left ≤ 256) : ∀ {s : Ingress} {n : ℕ}, Served queue s (queue.take n) →
      Served queue (s.readPackets reads left)
        (queue.take (n + ((List.range' (256 - left) left).takeWhile fun i => (reads i).fault = none).length)) := by
  induction left with
  | zero => exact fun hs => hs
  | succ left ih =>
    intro s n hs
    have hnext : 256 - (left + 1) + 1 = 256 - left := by omega
    rw [List.range'_succ, hnext, List.takeWhile_cons]
    cases hfault : (reads (256 - (left + 1))).fault with
    | some fault =>
      obtain ⟨hs', hstop⟩ := hs.fault hfault
      rw [readPackets_stop hstop]
      simpa using hs'
    | none =>
      rw [decide_eq_true rfl, if_pos rfl, List.length_cons]
      cases hpending : s.pending with
      | nil =>
        obtain ⟨hs', hstop⟩ := (hs.exhausted hpending _).idle hfault hpending
        rw [readPackets_stop hstop]
        exact hs'
      | cons d pending =>
        have hqueue := hs.queue_eq
        have hd : d.data.length ≤ bufferSize := hsize d (by rw [hqueue, hpending]; simp)
        obtain ⟨hs', hgo⟩ := hs.datagram hd hfault hpending
        have htake : queue.take n ++ [d] = queue.take (n + 1) := by
          have hdrop : queue.drop n = d :: pending := by
            rw [← hpending]
            exact List.append_cancel_left ((List.take_append_drop n queue).trans hqueue)
          rw [List.take_add_one, ← List.head?_drop, hdrop]
          rfl
        rw [htake] at hs'
        rw [readPackets_next hgo, ← Nat.add_assoc, Nat.add_right_comm]
        exact ih (Nat.le_of_succ_le hleft) hs'

theorem Served.wakeUps (hsize : ∀ d ∈ queue, d.data.length ≤ bufferSize) (calls : List (ℕ → Read)) :
    ∀ {s : Ingress} {n : ℕ}, Served queue s (queue.take n) →
      Served queue (s.wakeUps calls) (queue.take (n + (calls.map budget).sum)) := by
  induction calls with
  | nil => exact fun hs => hs
  | cons reads calls ih =>
    intro s n hs
    have hread := ih (hs.readPackets hsize reads (Nat.le_refl 256))
    rw [List.map_cons, List.sum_cons, ← Nat.add_assoc]
    rw [budget, List.range_eq_range']
    exact hread

theorem budget_of_faultFree {reads : ℕ → Read} (h : faultFree reads = true) : budget reads = 256 := by
  have hall : ∀ i ∈ List.range 256, decide ((reads i).fault = none) = true := List.all_eq_true.1 h
  rw [budget, List.takeWhile_eq_self_iff.2 hall, List.length_range]

theorem le_sum_budget (calls : List (ℕ → Read)) : 256 * calls.countP faultFree ≤ (calls.map budget).sum := by
  induction calls with
  | nil => exact Nat.le_refl _
  | cons reads calls ih =>
    rw [List.countP_cons, List.map_cons, List.sum_cons]
    split_ifs with h
    · rw [budget_of_faultFree h]
      omega
    · omega

/-- However the wake-ups divide the datagrams, those the calls have room for are read, and each has led to its
outcome, in the order of arrival. -/
theorem outcomes_wakeUps (queue : List Datagram) (hsize : ∀ d ∈ queue, d.data.length ≤ 1024)
    (calls : List (ℕ → Read)) : (Ingress.wakeUps { pending := queue } calls).Batched queue calls := by
  have hstart : Served queue { pending := queue } (queue.take 0) := ⟨rfl, rfl, rfl⟩
  have hs := hstart.wakeUps hsize calls
  rw [Nat.zero_add] at hs
  have hpending : (Ingress.wakeUps { pending := queue } calls).pending = queue.drop (calls.map budget).sum :=
    List.append_cancel_left (hs.queue_eq.symm.trans (List.take_append_drop _ _).symm)
  refine ⟨hpending, hs.outcomes_eq, fun hle => ?_⟩
  have hroom := hle.trans (le_sum_budget calls)
  rw [hpending, hs.outcomes_eq, List.take_of_length_le hroom]
  exact ⟨List.drop_of_length_le hroom, rfl⟩

/-- Two datagrams, the first read interrupted. -/
theorem outcomes_wakeUps_interrupted :
    let queue : List Datagram := [⟨[], (10, 0, 0, 1), 9000⟩, ⟨bytesOf "id=1;payload=x", (10, 0, 0, 1), 9000⟩]
    let calls : List (ℕ → Read) := [fun _ => { fault := some .interrupted }, fun _ => {}]
    let s := Ingress.wakeUps { pending := queue } calls
    s.Batched queue calls ∧ s.pending = [] ∧ s.outcomes.map Message.type = [.packetDropped, .packetRx] := by
  intro queue calls s
  have hbatched : s.Batched queue calls := outcomes_wakeUps _ (by decide) _
  have hfree : faultFree (fun _ => {}) = true := by simp [faultFree]
  have hcount : 0 < calls.countP faultFree := List.countP_pos_iff.2 ⟨fun _ => {}, by simp [calls], hfree⟩
  have hlength : queue.length = 2 := rfl
  obtain ⟨hpending, houtcomes⟩ := hbatched.complete (by omega)
  refine ⟨hbatched, hpending, ?_⟩
  rw [houtcomes]
  decide

/-! ## Datagrams that do not fit the buffer -/

variable {counter id : UInt64} {clock : ReadClock} {msg : Message} {packet : Packet} {data : Bytes}
  {idRest payloadRest : Bytes}

/-- A datagram is published if it is accepted, with the packet that its first part holds. -/
theorem packetRx?_datagramMessage : (datagramMessage d counter clock).packetRx? =
    if accepts d = true then some (receivedPacket d counter clock) else none := by
  have hvalid : (receivedPacket d counter clock).valid = (parsePacket (d.data.take bufferSize)).valid := rfl
  have haccepted : PacketValidator.validate (receivedPacket d counter clock) =
      PacketValidator.validate (receivedPacket d 0 {}) := rfl
  simp only [datagramMessage, hvalid, haccepted, accepts]
  by_cases hparse : (parsePacket (d.data.take bufferSize)).valid = true
  · by_cases hval : (PacketValidator.validate (receivedPacket d 0 {})).accepted = true
    · simp [hparse, hval, Message.packetRx?]
    · simp [hparse, hval, Message.packetRx?]
  · simp [hparse, Message.packetRx?]

theorem publishesWhole_def : PublishesWhole counter d clock ↔ (accepts d = true →
    (parsePacket d.data).valid = true ∧
    (parsePacket (d.data.take bufferSize)).id = (parsePacket d.data).id ∧
    (parsePacket (d.data.take bufferSize)).payload = (parsePacket d.data).payload) := by
  constructor
  · intro h haccepts
    apply h _ (receivedPacket d counter clock) rfl
    rw [packetRx?_datagramMessage, if_pos haccepts]
  · rintro h msg packet hmsg hrx
    cases hmsg
    rw [packetRx?_datagramMessage] at hrx
    split_ifs at hrx with haccepts
    cases hrx
    exact h haccepts

/-- The two fields of a packet with a payload, and what follows their keys. -/
structure Located (data idRest payloadRest : Bytes) (id : UInt64) : Prop where
  id_at : after (bytesOf "id=") data = some idRest
  payload_at : after (bytesOf "payload=") data = some payloadRest
  id_eq : stoull (idRest.takeWhile fun c => c ≠ 0x3B) = some id

theorem located_of_accepts (h : accepts d = true) :
    ∃ idRest payloadRest id, Located (d.data.take bufferSize) idRest payloadRest id := by
  rw [accepts, Bool.and_eq_true] at h
  obtain ⟨hvalid, hval⟩ := h
  have hne : (parsePacket (d.data.take bufferSize)).payload ≠ [] := by
    intro hnil
    have hempty : (receivedPacket d 0 {}).payload = [] := hnil
    simp [PacketValidator.validate, hempty] at hval
    split_ifs at hval
  have hid := id_of_valid hvalid
  rw [payload_of_valid hvalid] at hne
  simp only [field] at hid hne
  cases hidRest : after (bytesOf "id=") (d.data.take bufferSize) with
  | none =>
    rw [hidRest] at hid
    cases hid
  | some idRest =>
    cases hpayloadRest : after (bytesOf "payload=") (d.data.take bufferSize) with
    | none =>
      rw [hpayloadRest] at hne
      exact absurd rfl hne
    | some payloadRest =>
      rw [hidRest] at hid
      exact ⟨idRest, payloadRest, _, hidRest, hpayloadRest, hid⟩

theorem Located.parse (h : Located data idRest payloadRest id) :
    (parsePacket data).valid = true ∧ (parsePacket data).id = id ∧
      (parsePacket data).payload = payloadRest.takeWhile fun c => c ≠ 0x3B := by
  have hid : (field 0x3B (bytesOf "id=") data).bind stoull = some id := by
    rw [field, h.id_at]
    exact h.id_eq
  obtain ⟨hvalid, hvalue⟩ := valid_of_id hid
  refine ⟨hvalid, hvalue, ?_⟩
  rw [payload_of_valid hvalid, field, h.payload_at]
  rfl

/-- A field in the buffer, and the same field in the whole of the datagram. -/
theorem field_extends {key rest : Bytes} (h : after key data = some rest) (more : Bytes) :
    ∃ extra, field 0x3B key (data ++ more) = some ((rest.takeWhile fun c => c ≠ 0x3B) ++ extra) ∧
      (extra = [] ↔ 0x3B ∈ rest ++ more.take 1 ∨ more = []) := by
  rw [field_append h]
  by_cases hmem : (0x3B : UInt8) ∈ rest
  · refine ⟨[], ?_, by simp [hmem]⟩
    rw [if_pos hmem, List.append_nil]
  · refine ⟨more.takeWhile fun c => c ≠ 0x3B, ?_, ?_⟩
    · rw [if_neg hmem, takeWhile_all hmem]
    · cases more with
      | nil => simp
      | cons c more =>
        by_cases hc : c = 0x3B
        · simp [hc]
        · have hc' : (0x3B : UInt8) ≠ c := fun heq => hc heq.symm
          simp [hmem, hc, hc']

/-- The id is that of the whole if its digits are all in the buffer, or are zeros. -/
theorem Located.id_iff (h : Located data idRest payloadRest id) (more : Bytes) :
    (field 0x3B (bytesOf "id=") (data ++ more)).bind stoull = some id ↔
      idDigits data = idDigits (data ++ more) ∨ ∀ c ∈ idDigits (data ++ more), c = 0x30 := by
  obtain ⟨extra, hextra, -⟩ := field_extends h.id_at more
  have hfield : field 0x3B (bytesOf "id=") data = some (idRest.takeWhile fun c => c ≠ 0x3B) := by
    rw [field, h.id_at]
    rfl
  rw [idDigits, idDigits, hfield, hextra]
  exact stoull_append_iff h.id_eq extra

/-- A datagram that is too long is published as a whole exactly if its fields fit. -/
theorem publishesWhole_of_long (hlong : bufferSize < d.data.length) (haccepts : accepts d = true) :
    PublishesWhole counter d clock ↔ FieldsFit d.data := by
  obtain ⟨idRest, payloadRest, id, h⟩ := located_of_accepts haccepts
  obtain ⟨-, hid, hpayload⟩ := h.parse
  obtain ⟨c, more, hmore⟩ : ∃ c more, d.data.drop bufferSize = c :: more := by
    cases hdrop : d.data.drop bufferSize with
    | nil => exact absurd (List.drop_eq_nil_iff.1 hdrop) (by omega)
    | cons c more => exact ⟨c, more, rfl⟩
  have hdata : d.data = d.data.take bufferSize ++ c :: more := by
    rw [← hmore, List.take_append_drop]
  have hnext : d.data.take (bufferSize + 1) = d.data.take bufferSize ++ [c] := by
    rw [List.take_add, hmore]
    rfl
  have hidIff := h.id_iff (c :: more)
  obtain ⟨extra, hextra, hends⟩ := field_extends h.payload_at (c :: more)
  rw [← hdata] at hidIff hextra
  have hfit : (∃ rest, after (bytesOf "payload=") (d.data.take (bufferSize + 1)) = some rest ∧
      0x3B ∈ rest) ↔ extra = [] := by
    rw [hnext, after_append h.payload_at, hends]
    simp
  rw [publishesWhole_def, hid, hpayload]
  constructor
  · intro hwhole
    obtain ⟨hvalid, hidEq, hpayloadEq⟩ := hwhole haccepts
    refine ⟨hfit.2 ?_, hidIff.1 ?_⟩
    · rw [payload_of_valid hvalid, hextra] at hpayloadEq
      exact List.self_eq_append_right.1 hpayloadEq
    · rw [id_of_valid hvalid, hidEq]
  · rintro ⟨hpayloadEnds, hidEnds⟩ -
    obtain ⟨hvalid, hvalue⟩ := valid_of_id (hidIff.2 hidEnds)
    refine ⟨hvalid, hvalue.symm, ?_⟩
    rw [payload_of_valid hvalid, hextra, hfit.1 hpayloadEnds]
    exact (List.append_nil _).symm

/-- A datagram is published as a whole exactly if it fits the buffer, or its fields do. -/
theorem publishesWhole_iff (counter : UInt64) (d : Datagram) (clock : ReadClock) :
    PublishesWhole counter d clock ↔
      (accepts d = true → d.data.length ≤ bufferSize ∨ FieldsFit d.data) := by
  by_cases haccepts : accepts d = true
  · by_cases hlong : bufferSize < d.data.length
    · have hno : ¬ d.data.length ≤ bufferSize := Nat.not_le_of_lt hlong
      rw [publishesWhole_of_long hlong haccepts]
      simp [haccepts, hno]
    · have hle : d.data.length ≤ bufferSize := Nat.le_of_not_lt hlong
      refine iff_of_true (publishesWhole_def.2 fun _ => ?_) fun _ => Or.inl hle
      obtain ⟨idRest, payloadRest, id, h⟩ := located_of_accepts haccepts
      rw [take_bufferSize hle] at h ⊢
      exact ⟨h.parse.1, rfl, rfl⟩
  · refine iff_of_true (publishesWhole_def.2 fun h => absurd h haccepts) fun h => absurd h haccepts

/-- The payload `ab` of this datagram of 1025 bytes ends one byte behind the buffer. -/
def cutDatagram : Datagram where
  data := List.replicate 1009 0x78 ++ bytesOf ";id=1;payload=ab"
  source_address := (10, 0, 0, 1)
  source_port := 9000

theorem payload_cut : ¬ ∀ counter d clock, PublishesWhole counter d clock := by
  intro h
  have haccepts : accepts cutDatagram = true := by decide +kernel
  obtain ⟨-, -, hpayload⟩ := publishesWhole_def.1 (h 1 cutDatagram {}) haccepts
  exact absurd hpayload (by decide +kernel)

end UdpReceiver

end EdgeNetSwitch
