import EdgeNetSwitch.Control.ControlClient
import EdgeNetSwitch.Control.Proofs.ClassificationProofs
import EdgeNetSwitch.Control.Proofs.ControlServerProofs

/-!
# Proofs: the command line

The server owes a client one answer, to what it has read of the request, and writes it once. The command line
collects what is written to its connection until that is closed, and tells by the status in the answer whether
it is a success.
-/

namespace EdgeNetSwitch.Control

open Runs

variable {p : Platform} {ctx : ControlContext} {contexts : List ControlContext} {s t : ControlState}
  {l : ControlLabel}

section Replies

variable {i j : ℕ} {c d : Connection} {events : List ControlEvent}

/-! ## What is written to a client -/

theorem writtenTo_append (s : ControlState) (events : List ControlEvent) (j : ℕ) (phase : Phase) (alive : Bool) :
    ControlState.writtenTo { s with events := s.events ++ events, phase, alive } j =
      s.writtenTo j ++ ControlState.writtenTo { events } j := List.filterMap_append

theorem writtenTo_dispatchEvents (i j : ℕ) (cmd : Bytes) (ctx : ControlContext) :
    ControlState.writtenTo { events := ControlState.dispatchEvents i cmd ctx } j = [] := by
  unfold ControlState.writtenTo ControlState.dispatchEvents
  cases parseRequest cmd <;> rfl

theorem writtenTo_of_eventsOf (h : t.eventsOf j = s.eventsOf j) : t.writtenTo j = s.writtenTo j := by
  have hfilter : ∀ u : ControlState, u.writtenTo j = ({ events := u.eventsOf j } : ControlState).writtenTo j := by
    intro u
    unfold ControlState.writtenTo ControlState.eventsOf
    rw [List.filterMap_filter]
    refine List.filterMap_congr fun e _ => ?_
    cases e with
    | written k bytes => by_cases hk : k = j <;> simp [ControlEvent.client, hk]
    | dispatched | closed => simp
  rw [hfilter t, hfilter s, h]

/-! ## The answer owed -/

/-- What the server has written to the client it serves. -/
def InReply (p : Platform) (contexts : List ControlContext) (s : ControlState) (j : ℕ) (c : Connection) : Phase → Prop
  | .reading _ => s.writtenTo j = [] ∧ c.stream = c.request
  | .dispatching _ cmd => s.writtenTo j = [] ∧ Heard c.request cmd
  | .writing _ resp => s.writtenTo j = [] ∧ Answers p contexts c.request resp
  | .closing _ => RepliedOnce p contexts c.request (s.writtenTo j)
  | .waiting | .accepting => True

/-- What the server has written to a client: nothing as long as it waits. -/
structure Owed (p : Platform) (contexts : List ControlContext) (s : ControlState) (j : ℕ) (c : Connection) :
    Prop where
  waiting : j ∈ s.backlog → s.writtenTo j = [] ∧ c.stream = c.request
  serving : s.phase.client? = some j → InReply p contexts s j c s.phase
  served : j ∈ s.served → RepliedOnce p contexts c.request (s.writtenTo j)

/-- How every client stands. -/
def Owes (p : Platform) (contexts : List ControlContext) (s : ControlState) : Prop :=
  ∀ j c, s.connections[j]? = some c → Owed p contexts s j c

theorem Owed.repliedOnce (h : Owed p contexts s j c) (hl : Ledger s) (hj : j < s.connections.length) :
    RepliedOnce p contexts c.request (s.writtenTo j) := by
  rcases hl.mem_iff.1 hj with hserved | hclient | hwaiting
  · exact h.served hserved
  · have hin := h.serving hclient
    cases hphase : s.phase with
    | waiting | accepting =>
      rw [hphase] at hclient
      exact absurd hclient nofun
    | reading | dispatching | writing =>
      rw [hphase] at hin
      exact .inl hin.1
    | closing =>
      rw [hphase] at hin
      exact hin
  · exact .inl (h.waiting hwaiting).1

/-- A client is owed the same after a step that does nothing for it. -/
theorem Owed.other (h : Owed p contexts s j c) (hstream : d.stream = c.stream) (hrequest : d.request = c.request)
    (hbacklog : j ∈ t.backlog → j ∈ s.backlog) (hclient : t.phase.client? ≠ some j)
    (hwritten : t.writtenTo j = s.writtenTo j) (hserved : j ∈ t.served → j ∈ s.served) : Owed p contexts t j d := by
  refine ⟨fun hwaiting => ?_, fun hserving => absurd hserving hclient, fun hdone => ?_⟩
  · rw [hwritten, hstream, hrequest]
    exact h.waiting (hbacklog hwaiting)
  · rw [hwritten, hrequest]
    exact h.served (hserved hdone)

theorem Owed.of_serving (hl : Ledger t) (hj : t.phase.client? = some j) (hin : InReply p contexts t j c t.phase) :
    Owed p contexts t j c :=
  ⟨fun hmem => absurd hmem (hl.serving hj).2, fun _ => hin, fun hmem => absurd hmem (hl.serving hj).1⟩

/-- The response to what has been heard is an answer. -/
theorem answers_of_respond {request cmd : Bytes} {resp : ControlResponse} (hheard : Heard request cmd)
    (hctx : ctx ∈ contexts) (h : (respond p ctx cmd).response = some resp) : Answers p contexts request resp := by
  unfold respond at h
  refine ⟨cmd, hheard, ?_⟩
  cases hparse : parseRequest cmd with
  | some req =>
    rw [hparse] at h
    exact .inl ⟨req, parseRequest_eq_some_iff.1 hparse, ctx, hctx, h⟩
  | none =>
    rw [hparse] at h
    refine .inr ⟨fun hbar => ?_, h⟩
    obtain ⟨version, rest, rfl, hversion⟩ := List.eq_append_cons_of_mem hbar
    rw [parseRequest_split hversion] at hparse
    cases hparse

/-- What a `read` gets is heard of the request. -/
theorem heard_readBuffer (hstream : c.stream = c.request) (h : readBuffer c.available ≠ []) :
    Heard c.request (readBuffer c.available) := by
  refine ⟨h, ?_, List.length_take_le _ _⟩
  have havailable : c.available <+: c.request := by
    rw [← hstream, Connection.stream, List.append_assoc]
    exact List.prefix_append _ _
  exact (List.take_prefix _ _).trans havailable

/-- A call for the client in service. -/
theorem Call.owed_serving (h : Call p ctx s t) (hl : Ledger s) (hl' : Ledger t) (hs : Owes p contexts s)
    (hctx : ctx ∈ contexts) (hj : s.phase.client? = some j) (hd : t.connections[j]? = some d) :
    Owed p contexts t j d := by
  cases h with
  | idle hphase | wake hphase | leave hphase | accept hphase =>
    rw [hphase] at hj
    exact absurd hj nofun
  | lost => exact hs j d hd
  | @readNothing i c hphase hconnection hempty =>
    rw [hphase] at hj
    obtain rfl := Option.some.inj hj
    obtain rfl := eq_read hconnection hd
    have hin := (hs i c hconnection).serving (by rw [hphase]; rfl)
    rw [hphase] at hin
    exact Owed.of_serving hl' rfl (.inl hin.1)
  | @read i c hphase hconnection hsome =>
    rw [hphase] at hj
    obtain rfl := Option.some.inj hj
    obtain rfl := eq_read hconnection hd
    have hin := (hs i c hconnection).serving (by rw [hphase]; rfl)
    rw [hphase] at hin
    exact Owed.of_serving hl' rfl ⟨hin.1, heard_readBuffer hin.2 hsome⟩
  | @dispatch i cmd resp hphase hresp =>
    have hin := (hs j d hd).serving hj
    rw [hphase] at hj hin
    obtain rfl := Option.some.inj hj
    refine Owed.of_serving hl' rfl ⟨?_, answers_of_respond hin.2 hctx hresp⟩
    rw [writtenTo_append, hin.1, writtenTo_dispatchEvents]
    rfl
  | @throw i cmd hphase hresp =>
    have hin := (hs j d hd).serving hj
    have hclient := hj
    rw [hphase] at hj hin
    obtain rfl := Option.some.inj hj
    apply Owed.of_serving hl' hclient
    show InReply p contexts _ i d s.phase
    rw [hphase]
    refine ⟨?_, hin.2⟩
    rw [writtenTo_append, hin.1, writtenTo_dispatchEvents]
    rfl
  | @write i resp c hphase hconnection =>
    have hin := (hs j d hd).serving hj
    rw [hphase] at hj hin
    obtain rfl := Option.some.inj hj
    refine Owed.of_serving hl' rfl (.inr ⟨resp, hin.2, ?_⟩)
    rw [writtenTo_append, hin.1]
    simp [ControlState.writtenTo]
  | kill hphase hconnection hclosed =>
    have hold := hs j d hd
    exact ⟨hold.waiting, hold.serving, hold.served⟩
  | @close i hphase =>
    have hin := (hs j d hd).serving hj
    have hwaiting := (hl.serving hj).2
    rw [hphase] at hj hin
    obtain rfl := Option.some.inj hj
    refine ⟨fun hmem => absurd hmem hwaiting, nofun, fun _ => ?_⟩
    rw [writtenTo_append]
    have hnothing : ControlState.writtenTo { events := [.closed i] } i = [] := rfl
    rw [hnothing, List.append_nil]
    exact hin

theorem Call.owes (h : Call p ctx s t) (hl : Ledger s) (hl' : Ledger t) (hs : Owes p contexts s)
    (hctx : ctx ∈ contexts) : Owes p contexts t := by
  intro j d hd
  by_cases hbefore : s.phase.client? = some j
  · exact h.owed_serving hl hl' hs hctx hbefore hd
  · by_cases hafter : t.phase.client? = some j
    · cases h with
      | accept hphase hbacklog =>
        obtain rfl := Option.some.inj hafter
        have hold := hs _ d hd
        have hwaiting := hold.waiting (hbacklog ▸ List.mem_cons_self)
        exact ⟨fun _ => hwaiting, fun _ => hwaiting, hold.served⟩
      | wake | leave => exact absurd hafter nofun
      | idle | lost | throw | kill => exact absurd hafter hbefore
      | readNothing hphase | read hphase | dispatch hphase | write hphase =>
        rw [hphase] at hbefore
        exact absurd hafter hbefore
      | close => exact absurd hafter nofun
    · obtain ⟨hevents, hconnection, hbacklog, hserved⟩ := h.frame hbefore hafter
      rw [hconnection] at hd
      exact (hs j d hd).other rfl rfl hbacklog hafter (writtenTo_of_eventsOf hevents) hserved

theorem Owes.step (h : s.step p l = some t) (hl : Ledger s) (hs : Owes p contexts s)
    (hctx : ∀ ctx ∈ l.context?, ctx ∈ contexts) : Owes p contexts t := by
  have hl' : Ledger t := hl.step h
  rcases step_cases h with ⟨ctx, rfl, -, hcall⟩ | ⟨request, -, rfl⟩ | ⟨-, i, f, hf, rfl⟩
  · exact hcall.owes hl hl' hs (hctx ctx rfl)
  · intro j c hc
    dsimp only at hc
    by_cases hj : j < s.connections.length
    · rw [List.getElem?_append_left hj] at hc
      have hold := hs j c hc
      refine ⟨fun hwaiting => hold.waiting ?_, hold.serving, hold.served⟩
      rcases List.mem_append.1 hwaiting with hmem | hmem
      · exact hmem
      · exact absurd (List.mem_singleton.1 hmem) (Nat.ne_of_lt hj)
    · have hnone : s.writtenTo j = [] := by
        unfold ControlState.writtenTo
        rw [List.filterMap_eq_nil_iff]
        intro e he
        have hlt := hl.known e he
        cases e with
        | written k bytes =>
          refine if_neg fun heq => hj ?_
          rw [← heq]
          exact hlt
        | dispatched | closed => rfl
      have hnot : ¬ (j ∈ s.served ∨ s.phase.client? = some j ∨ j ∈ s.backlog) := fun hmem =>
        hj (hl.mem_iff.2 hmem)
      rw [List.getElem?_append_right (by omega)] at hc
      obtain rfl := List.mem_singleton.1 (List.mem_of_getElem? hc)
      exact ⟨fun _ => ⟨hnone, rfl⟩, fun hserving => absurd (Or.inr (Or.inl hserving)) hnot,
        fun hserved => absurd (Or.inl hserved) hnot⟩
  · intro j d hd
    rw [onConnection_getElem?] at hd
    split_ifs at hd with hij
    · obtain ⟨c, hc, rfl⟩ := Option.map_eq_some_iff.1 hd
      have hold := hs j c hc
      refine ⟨?_, ?_, ?_⟩
      · rw [(hf c).stream, (hf c).request]
        exact hold.waiting
      · intro hserving
        have hin := hold.serving hserving
        show InReply p contexts _ j (f c) s.phase
        unfold InReply at hin ⊢
        rw [(hf c).stream, (hf c).request]
        exact hin
      · rw [(hf c).request]
        exact hold.served
    · have hold := hs j d hd
      exact ⟨hold.waiting, hold.serving, hold.served⟩

theorem owes_initial : Owes p contexts {} := fun _ _ hc => absurd hc nofun

/-- In every run the server writes to a client once, and the whole answer to what it has read of the request
of this client. -/
theorem replies_once {labels : List ControlLabel} (h : Run (ControlState.step p) anyStep {} labels s)
    (hc : s.connections[j]? = some c) :
    RepliedOnce p (labels.filterMap ControlLabel.context?) c.request (s.writtenTo j) := by
  have hkept : Ledger s ∧ Owes p (labels.filterMap ControlLabel.context?) s := by
    apply h.with_mem.keeps (I := fun s => Ledger s ∧ Owes p (labels.filterMap ControlLabel.context?) s)
    · intro s t l hs hφ hstep
      exact ⟨hs.1.step hstep, hs.2.step hstep hs.1 fun ctx hctx => List.mem_filterMap.2 ⟨l, hφ.2, hctx⟩⟩
    · exact ⟨ledger_initial, owes_initial⟩
  have hlt : j < s.connections.length := (List.getElem?_eq_some_iff.1 hc).1
  exact (hkept.2 j c hc).repliedOnce hkept.1 hlt

theorem replies_once_version : ∃ s c, play (ControlState.step printing) anyStep versionRequest {} = some s ∧
    s.connections[0]? = some c ∧
    RepliedOnce printing (versionRequest.filterMap ControlLabel.context?) c.request (s.writtenTo 0) := by
  have hplay : ((play (ControlState.step printing) anyStep versionRequest {}).bind fun s =>
      s.connections[0]?).isSome = true := by decide
  obtain ⟨c, hbind⟩ := Option.isSome_iff_exists.1 hplay
  obtain ⟨s, hs, hc⟩ := Option.bind_eq_some_iff.1 hbind
  exact ⟨s, c, hs, hc, replies_once (run_of_play hs) hc⟩

end Replies

/-! ## Telling answers apart -/

section Telling

variable {parse : Parse} {response next : Option ControlResponse} {arg code msg text rest : Bytes} {data : Json}

/-- A text that is no object: its first byte is neither a blank nor a brace, and begins no byte order mark. -/
def isPlain (text : Bytes) : Bool := text.head?.any fun c => !isJsonBlank c && c != 0x7B && c != 0xEF

theorem isPlain_append (h : isPlain text = true) (rest : Bytes) : isPlain (text ++ rest) = true := by
  cases text with
  | nil => exact absurd h Bool.false_ne_true
  | cons c text => exact h

theorem isPlain_line {key : String} (h : isPlain (bytesOf key) = true) (value : Bytes) :
    isPlain (line key value) = true := by
  unfold line entry
  iterate 3 apply isPlain_append
  exact h

theorem skipBom_cons {c : UInt8} (h : c ≠ 0xEF) (text : Bytes) : skipBom (c :: text) = c :: text := by
  unfold skipBom
  split
  · next heq => exact absurd (List.cons.inj heq).1 h
  · rfl

theorem cliResult_of_isPlain (hlib : ReadsBack p.dump parse) (h : isPlain text = true) :
    text ≠ [] ∧ cliResult parse text = true := by
  cases text with
  | nil => exact absurd h Bool.false_ne_true
  | cons c text =>
    obtain ⟨⟨hblank, hbrace⟩, hmark⟩ : (isJsonBlank c = false ∧ c ≠ 0x7B) ∧ c ≠ 0xEF := by simpa [isPlain] using h
    refine ⟨List.cons_ne_nil c text, ?_⟩
    rw [cliResult, if_neg (List.cons_ne_nil c text)]
    cases hparse : parse (c :: text) with
    | none => rfl
    | some j =>
      cases j with
      | object fields =>
        have hhead := hlib.object _ _ hparse
        rw [skipBom_cons hmark, List.dropWhile_cons_of_neg (by rw [hblank]; exact Bool.false_ne_true)] at hhead
        exact absurd (Option.some.inj hhead) hbrace
      | null | boolean | unsigned | integer | float | string | array => rfl

/-- The command line tells by the status in a document. -/
theorem cliResult_of_status {fields : List (String × Json)} {status : Bytes} (hlib : ReadsBack p.dump parse)
    (hdump : p.dump (jsonObject fields) = some text)
    (hkeys : (fields.map fun field => bytesOf field.1).Nodup) (hstatus : ("status", .string status) ∈ fields) :
    text ≠ [] ∧ cliResult parse text = decide (status = bytesOf "ok") := by
  obtain ⟨j, hparse, halike⟩ := hlib.dumped _ _ hdump
  obtain ⟨v, hfield, hv⟩ := halike.field?_eq_some (field?_jsonObject hkeys hstatus)
  obtain rfl := hv.string_eq
  cases j with
  | object fields' =>
    have hne : text ≠ [] := by
      rintro rfl
      exact absurd (hlib.object _ _ hparse) nofun
    refine ⟨hne, ?_⟩
    rw [cliResult, if_neg hne]
    simp only [hparse]
    have hlookup : fields'.lookup (bytesOf "status") = some (.string status) := hfield
    rw [hlookup]
  | null | boolean | unsigned | integer | float | string | array => cases hfield

/-- What a response says is what the command line tells by its payload. -/
def Told (parse : Parse) (response : Option ControlResponse) : Prop :=
  ∀ r, response = some r → r.payload ≠ [] ∧ cliResult parse r.payload = r.success

theorem told_makeJsonError (hlib : ReadsBack p.dump parse) : Told parse (makeJsonError p.dump code msg) := by
  intro r hr
  obtain ⟨payload, hdump, hr⟩ := Option.bind_eq_some_iff.1 hr
  cases hr
  obtain ⟨hne, hresult⟩ := cliResult_of_status hlib hdump (by simp only [List.map]; decide) List.mem_cons_self
  exact ⟨hne, hresult.trans (decide_eq_false (by decide))⟩

theorem told_makeJsonSuccess (hlib : ReadsBack p.dump parse) : Told parse (makeJsonSuccess p.dump data) := by
  intro r hr
  obtain ⟨payload, hdump, hr⟩ := Option.bind_eq_some_iff.1 hr
  cases hr
  obtain ⟨hne, hresult⟩ := cliResult_of_status hlib hdump (by simp only [List.map]; decide) List.mem_cons_self
  exact ⟨hne, hresult.trans (decide_eq_true rfl)⟩

theorem told_text (hlib : ReadsBack p.dump parse) (h : isPlain text = true) :
    Told parse (some { success := true, payload := text }) := by
  intro r hr
  cases hr
  exact cliResult_of_isPlain hlib h

theorem told_checkArgument (hlib : ReadsBack p.dump parse) (h : Told parse next) :
    Told parse (checkArgument p arg next) := by
  unfold checkArgument
  split_ifs
  · exact told_makeJsonError hlib
  · exact h

theorem told_requirePart {α : Type} {part : Option α} {missing : String} {next : α → Option ControlResponse}
    (hlib : ReadsBack p.dump parse) (h : ∀ x, Told parse (next x)) :
    Told parse (requirePart p part missing next) := by
  cases part with
  | none => exact told_makeJsonError hlib
  | some x => exact h x

theorem told_report (hlib : ReadsBack p.dump parse) (h : isPlain text = true) :
    Told parse (report p arg data text) := by
  unfold report
  split_ifs
  · exact told_makeJsonSuccess hlib
  · exact told_text hlib h

theorem told_reportSnapshot {data : RuntimeStatus → Json} {text : RuntimeStatus → Bytes}
    (hlib : ReadsBack p.dump parse) (h : ∀ snap, isPlain (text snap) = true) :
    Told parse (reportSnapshot p ctx arg data text) :=
  told_checkArgument hlib (told_requirePart hlib fun snap => told_report hlib (h snap))

theorem told_handleHelp (hlib : ReadsBack p.dump parse) : Told parse (handleHelp p arg) := by
  unfold handleHelp
  split_ifs
  · exact told_makeJsonSuccess hlib
  · cases Command.find arg with
    | none => exact told_makeJsonError hlib
    | some command =>
      apply told_text hlib
      iterate 3 apply isPlain_append
      exact isPlain_line (by decide) _
  · apply told_text hlib
    apply isPlain_append
    decide

theorem told_sendPacketResponse (hlib : ReadsBack p.dump parse) : Told parse (sendPacketResponse p ctx arg) := by
  unfold sendPacketResponse
  split_ifs
  · exact told_makeJsonError hlib
  · exact told_makeJsonSuccess hlib
  · exact told_makeJsonSuccess hlib
  · exact told_makeJsonSuccess hlib
  · exact told_makeJsonError hlib

theorem told_handleShow (hlib : ReadsBack p.dump parse) : Told parse (handleShow p ctx arg) := by
  refine told_requirePart hlib fun engine => ?_
  split_ifs
  · apply told_text hlib
    apply isPlain_append
    exact isPlain_line (by decide) _
  · exact told_makeJsonError hlib

theorem isPlain_packetStatsText (order : IterationOrder PacketDropReason) (m : PacketMetrics) :
    isPlain (packetStatsText order m) = true := by
  unfold packetStatsText
  iterate 16 apply isPlain_append
  exact isPlain_line (by decide) _

theorem told_handler (hlib : ReadsBack p.dump parse) (command : Command) :
    Told parse (handler p ctx arg command) := by
  cases command with
  | status =>
    refine told_reportSnapshot hlib fun snap => ?_
    iterate 4 apply isPlain_append
    exact isPlain_line (by decide) _
  | health =>
    refine told_reportSnapshot hlib fun snap => ?_
    iterate 2 apply isPlain_append
    exact isPlain_line (by decide) _
  | metrics =>
    refine told_reportSnapshot hlib fun snap => ?_
    apply isPlain_append
    exact isPlain_line (by decide) _
  | version =>
    refine told_checkArgument hlib (told_report hlib ?_)
    iterate 2 apply isPlain_append
    exact isPlain_line (by decide) _
  | help => exact told_handleHelp hlib
  | packetStats => exact told_reportSnapshot hlib fun snap => isPlain_packetStatsText _ _
  | showConfig =>
    refine told_requirePart hlib fun cfg => told_checkArgument hlib (told_report hlib ?_)
    iterate 6 apply isPlain_append
    exact isPlain_line (by decide) _
  | sendPacket => exact told_sendPacketResponse hlib
  | showTable => exact told_handleShow hlib
  | fdStatus =>
    refine told_requirePart hlib fun records => told_checkArgument hlib (told_report hlib ?_)
    apply isPlain_append
    exact isPlain_line (by decide) _
  | transportStats =>
    refine told_requirePart hlib fun counters => told_checkArgument hlib (told_report hlib ?_)
    iterate 5 apply isPlain_append
    exact isPlain_line (by decide) _

theorem told_dispatch (hlib : ReadsBack p.dump parse) (req : ControlRequest) :
    Told parse (dispatchControlRequest p ctx req).response := by
  rcases dispatchControlRequest_cases p ctx req with ⟨code, -, msg, heq⟩ | ⟨command, hversion, hname⟩
  · rw [heq]
    exact told_makeJsonError hlib
  · rw [dispatchControlRequest_of_name hversion hname]
    exact told_handler hlib command

/-- The command line tells by what is written to it whether the answer is a success. -/
theorem cliResult_wire {request : Bytes} {resp : ControlResponse} (hlib : ReadsBack p.dump parse)
    (h : Answers p contexts request resp) : wire resp ≠ [] ∧ cliResult parse (wire resp) = resp.success := by
  have htold : resp.payload ≠ [] ∧ cliResult parse resp.payload = resp.success := by
    obtain ⟨cmd, -, ⟨req, -, ctx, -, hresp⟩ | ⟨-, hresp⟩⟩ := h
    · exact told_dispatch hlib req resp hresp
    · exact told_makeJsonError hlib resp hresp
  rw [wire, if_neg htold.1]
  exact htold

end Telling

/-! ## Runs of the command line -/

section CommandLine

variable {parse : Parse} {command : Bytes} {i j count : ℕ} {c : Connection} {a b : CliState} {l : CliLabel}

/-- From `s` to `t` the server may have done more. -/
structure Follows (s t : ControlState) : Prop where
  written : ∀ j, s.writtenTo j <+: t.writtenTo j
  request : ∀ (j : ℕ) (c : Connection), s.connections[j]? = some c →
    ∃ d : Connection, t.connections[j]? = some d ∧ d.request = c.request

theorem writtenTo_isPrefix_append {events : List ControlEvent} (h : t.events = s.events ++ events) (j : ℕ) :
    s.writtenTo j <+: t.writtenTo j := by
  unfold ControlState.writtenTo
  rw [h, List.filterMap_append]
  exact List.prefix_append _ _

theorem request_onConnection {f : Connection → Connection} (hf : ∀ c, (f c).request = c.request)
    (hc : s.connections[j]? = some c) (i : ℕ) :
    ∃ d, (s.onConnection i f).connections[j]? = some d ∧ d.request = c.request := by
  rw [onConnection_getElem?, hc]
  split_ifs
  · exact ⟨f c, rfl, hf c⟩
  · exact ⟨c, rfl, rfl⟩

theorem follows_step {l : ControlLabel} (h : s.step p l = some t) : Follows s t := by
  rcases step_cases h with ⟨ctx, -, -, hcall⟩ | ⟨request, -, rfl⟩ | ⟨-, i, f, hf, rfl⟩
  · obtain ⟨events, hevents, -⟩ := hcall.events
    refine ⟨writtenTo_isPrefix_append hevents, fun j c hc => ?_⟩
    cases hcall with
    | readNothing | read => exact request_onConnection (f := Connection.read) (fun _ => rfl) hc _
    | _ => exact ⟨c, hc, rfl⟩
  · refine ⟨fun j => List.prefix_refl _, fun j c hc => ⟨c, ?_, rfl⟩⟩
    show (s.connections ++ _)[j]? = some c
    rw [List.getElem?_append_left (List.getElem?_eq_some_iff.1 hc).1]
    exact hc
  · exact ⟨fun j => List.prefix_refl _, fun j c hc => request_onConnection (fun c => (hf c).request) hc i⟩

theorem connection_of_connect {request : Bytes} (h : s.step p (.connect request) = some t) :
    ∃ c : Connection, t.connections[s.connections.length]? = some c ∧ c.request = request := by
  simp only [ControlState.step] at h
  split_ifs at h
  obtain rfl := Option.some.inj h
  exact ⟨{ request, unsent := request }, List.getElem?_concat_length, rfl⟩

/-- No dispatch is made in what clients and sockets do. -/
theorem context_of_client {l : ControlLabel} (h : l.IsServer = false) : ∀ ctx ∈ l.context?, ctx ∈ contexts := by
  intro ctx hctx
  cases l with
  | server => cases h
  | connect | write | arrive | closeClient => cases hctx

/-- The connection of the process, once it has one. -/
def CliPhase.client? : CliPhase → Option ℕ
  | writing i | reading i => some i
  | _ => none

/-- What the process has got so far. -/
def Collected (p : Platform) (contexts : List ControlContext) (command : Bytes) (s : CliState) : CliPhase → Prop
  | .reading i => s.accum <+: (s.server.writtenTo i).flatten
  | .finished ok => ReportsAnswer p contexts command s.accum ok
  | .killed => True
  | _ => s.accum = []

/-- The process has sent its own request, and got what is written to its own connection. -/
structure Following (p : Platform) (contexts : List ControlContext) (command : Bytes) (s : CliState) : Prop where
  ledger : Ledger s.server
  owes : Owes p contexts s.server
  own : ∀ i, s.phase.client? = some i → ∃ c, s.server.connections[i]? = some c ∧ c.request = cliRequest command
  collected : Collected p contexts command s s.phase

theorem following_initial : Following p contexts command {} := ⟨ledger_initial, owes_initial, nofun, rfl⟩

/-- The server and the other clients go on, and the process is where it was. -/
theorem Following.goOn {l : ControlLabel} (h : Following p contexts command a) (hstep : a.server.step p l = some t)
    (hctx : ∀ ctx ∈ l.context?, ctx ∈ contexts) : Following p contexts command { a with server := t } := by
  have hfollows := follows_step hstep
  refine ⟨h.ledger.step hstep, h.owes.step hstep h.ledger hctx, fun i hi => ?_, ?_⟩
  · obtain ⟨c, hc, hrequest⟩ := h.own i hi
    obtain ⟨d, hd, heq⟩ := hfollows.request i c hc
    exact ⟨d, hd, heq.trans hrequest⟩
  · have hcollected := h.collected
    show Collected p contexts command { a with server := t } a.phase
    cases hphase : a.phase with
    | reading i =>
      rw [hphase] at hcollected
      exact hcollected.trans (hfollows.written i).flatten
    | creating | connecting | writing | finished | killed =>
      rw [hphase] at hcollected
      exact hcollected

/-- What the process has when its connection is at its end. -/
theorem Following.reports (h : Following p contexts command a) (hlib : ReadsBack p.dump parse)
    (hphase : a.phase = .reading i) (hend : (a.server.writtenTo i).flatten.drop a.accum.length = []) :
    ReportsAnswer p contexts command a.accum (cliResult parse a.accum) := by
  obtain ⟨c, hc, hrequest⟩ := h.own i (by rw [hphase]; rfl)
  have hcollected := h.collected
  rw [hphase] at hcollected
  have hall : a.accum = (a.server.writtenTo i).flatten := by
    rw [List.drop_eq_nil_iff] at hend
    exact hcollected.eq_of_length_le hend
  have hlt : i < a.server.connections.length := (List.getElem?_eq_some_iff.1 hc).1
  have hreplied := (h.owes i c hc).repliedOnce h.ledger hlt
  rw [hrequest] at hreplied
  rcases hreplied with hnone | ⟨resp, hanswers, hone⟩
  · rw [hnone] at hall
    have hnil : a.accum = [] := hall
    exact .inl ⟨hnil, if_pos hnil⟩
  · rw [hone, List.flatten_singleton] at hall
    rw [hall]
    exact .inr ⟨resp, hanswers, rfl, (cliResult_wire hlib hanswers).2⟩

/-- Some more of a list. -/
theorem prefix_append_take {got all : Bytes} (h : got <+: all) (n : ℕ) :
    got ++ (all.drop got.length).take n <+: all := by
  obtain ⟨rest, rfl⟩ := h
  rw [List.drop_left]
  exact (List.prefix_append_right_inj got).2 (List.take_prefix n rest)

theorem Following.read (h : Following p contexts command a) (hlib : ReadsBack p.dump parse)
    (hphase : a.phase = .reading i) (hread : a.read parse i count = some b) : Following p contexts command b := by
  unfold CliState.read at hread
  split at hread
  · split_ifs at hread
    obtain rfl := Option.some.inj hread
    exact ⟨h.ledger, h.owes, nofun, h.reports hlib hphase ‹_›⟩
  · next heq =>
    obtain rfl := Option.some.inj hread
    refine ⟨h.ledger, h.owes, h.own, ?_⟩
    have hcollected := h.collected
    rw [hphase] at hcollected
    show Collected p contexts command { a with accum := _ } a.phase
    rw [hphase, ← heq]
    exact prefix_append_take hcollected _

theorem Following.call {created : Bool} (h : Following p contexts command a) (hlib : ReadsBack p.dump parse)
    (hstep : a.step p parse command (.call created count) = some b) : Following p contexts command b := by
  unfold CliState.step at hstep
  have hcollected := h.collected
  cases hphase : a.phase with
  | creating =>
    simp only [hphase] at hstep hcollected
    obtain rfl := Option.some.inj hstep
    refine ⟨h.ledger, h.owes, ?_, ?_⟩
    · cases created <;> exact nofun
    · cases created
      · exact .inl ⟨hcollected, rfl⟩
      · exact hcollected
  | connecting =>
    simp only [hphase] at hstep hcollected
    split_ifs at hstep
    · obtain ⟨t, ht, rfl⟩ := Option.map_eq_some_iff.1 hstep
      have hon := h.goOn ht (context_of_client rfl)
      refine ⟨hon.ledger, hon.owes, fun i hi => ?_, hcollected⟩
      obtain rfl := Option.some.inj hi
      exact connection_of_connect ht
    · obtain rfl := Option.some.inj hstep
      exact ⟨h.ledger, h.owes, nofun, .inl ⟨hcollected, rfl⟩⟩
  | writing i =>
    simp only [hphase] at hstep hcollected
    split_ifs at hstep
    · obtain rfl := Option.some.inj hstep
      exact ⟨h.ledger, h.owes, nofun, trivial⟩
    · obtain ⟨t, ht, rfl⟩ := Option.map_eq_some_iff.1 hstep
      have hon := h.goOn ht (context_of_client rfl)
      refine ⟨hon.ledger, hon.owes, fun j hj => hon.own j (by rw [hphase]; exact hj), ?_⟩
      show a.accum <+: (t.writtenTo i).flatten
      rw [hcollected]
      exact List.nil_prefix
  | reading i =>
    simp only [hphase] at hstep
    exact h.read hlib hphase hstep
  | finished ok | killed =>
    simp only [hphase] at hstep
    cases hstep

theorem Following.step (h : Following p contexts command a) (hlib : ReadsBack p.dump parse)
    (hstep : a.step p parse command l = some b) (hctx : ∀ ctx ∈ l.context?, ctx ∈ contexts) :
    Following p contexts command b := by
  cases l with
  | call created count => exact h.call hlib hstep
  | other l =>
    simp only [CliState.step] at hstep
    split_ifs at hstep
    obtain ⟨t, ht, rfl⟩ := Option.map_eq_some_iff.1 hstep
    exact h.goOn ht hctx

/-- In every run the command line that comes to its end has got no answer and fails, or one whole answer to
its own request, and tells whether it is a success. -/
theorem reports_answer {first : Bytes} {second : Option Bytes} {labels : List CliLabel} {ok : Bool}
    (hlib : ReadsBack p.dump parse)
    (h : Run (CliState.step p parse (cliCommand first second)) anyStep {} labels a)
    (hphase : a.phase = .finished ok) :
    ReportsAnswer p (labels.filterMap CliLabel.context?) (cliCommand first second) a.accum ok := by
  have hkept : Following p (labels.filterMap CliLabel.context?) (cliCommand first second) a := by
    apply h.with_mem.keeps _ following_initial
    intro s t l hs hφ hstep
    exact hs.step hlib hstep fun ctx hctx => List.mem_filterMap.2 ⟨l, hφ.2, hctx⟩
  have hcollected := hkept.collected
  rw [hphase] at hcollected
  exact hcollected

/-- The response to `nope`. -/
def refusal : Json := jsonObject [("status", jsonText "error"), ("error", jsonObject [
  ("code", .string error.unknownCommand), ("message", .string (bytesOf "unknown command: nope"))])]

def refusalText : Bytes := Json.print to_string_double 0 refusal

/-- A JSON library that has this document only, and this text for it. -/
def dumpOnly (document : Json) (text : Bytes) : Dump := fun j => if j = document then some text else none

def parseOnly (document : Json) (text : Bytes) : Parse := fun t => if t = text then some document else none

theorem readsBack_only {document : Json} {text : Bytes}
    (h : ((skipBom text).dropWhile isJsonBlank).head? = some 0x7B) :
    ReadsBack (dumpOnly document text) (parseOnly document text) where
  dumped j t hdump := by
    unfold dumpOnly at hdump
    split_ifs at hdump with heq
    cases hdump
    subst heq
    exact ⟨j, if_pos rfl, Json.alike_refl j⟩
  object t fields hparse := by
    unfold parseOnly at hparse
    split_ifs at hparse with heq
    rw [heq]
    exact h

def refusing : Platform := { printing with dump := dumpOnly refusal refusalText }

def refused : Parse := parseOnly refusal refusalText

def nopeCalls : List CliLabel :=
  [.call true 0, .call true 0, .call true 0, .other (.arrive 0 127),
    .other (.server {}), .other (.server {}), .other (.server {}), .other (.server {}), .other (.server {}),
    .call true 100, .other (.server {}), .call true 500, .call true 500]

set_option maxRecDepth 2048 in
theorem reports_answer_nope : ∃ s,
    play (CliState.step refusing refused (cliCommand (bytesOf "nope") none)) anyStep nopeCalls {} = some s ∧
    s.phase = .finished false ∧ ReportsAnswer refusing (nopeCalls.filterMap CliLabel.context?)
      (cliCommand (bytesOf "nope") none) s.accum false := by
  have hplay : (play (CliState.step refusing refused (cliCommand (bytesOf "nope") none)) anyStep nopeCalls {}).map
      CliState.phase = some (.finished false) := rfl
  obtain ⟨s, hs, hphase⟩ := Option.map_eq_some_iff.1 hplay
  exact ⟨s, hs, hphase, reports_answer (readsBack_only (by decide)) (run_of_play hs) hphase⟩

end CommandLine

end EdgeNetSwitch.Control
