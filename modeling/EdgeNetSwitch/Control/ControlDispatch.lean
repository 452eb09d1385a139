import EdgeNetSwitch.Control.ControlContext
import EdgeNetSwitch.Control.ControlProtocol
import EdgeNetSwitch.Control.SendPacket

/-!
# Control dispatch

`dispatchControlRequest` of `src/control/ControlDispatch.cpp`, with the handlers of all commands. A
handler gives `none` where it throws, which only `json::dump` does.
-/

namespace EdgeNetSwitch.Control

/-- The keys of `commandTable`. -/
inductive Command where
  | status
  | health
  | metrics
  | version
  | help
  | packetStats
  | showConfig
  | sendPacket
  | showTable
  | fdStatus
  | transportStats
  deriving DecidableEq

namespace Command

def all : List Command :=
  [status, health, metrics, version, help, packetStats, showConfig, sendPacket, showTable, fdStatus,
    transportStats]

def name : Command → Bytes
  | status => bytesOf "status"
  | health => bytesOf "health"
  | metrics => bytesOf "metrics"
  | version => bytesOf "version"
  | help => bytesOf "help"
  | packetStats => bytesOf "packet-stats"
  | showConfig => bytesOf "show-config"
  | sendPacket => bytesOf "send-packet"
  | showTable => bytesOf "show"
  | fdStatus => bytesOf "fd-status"
  | transportStats => bytesOf "transport-stats"

def description : Command → Bytes
  | status => bytesOf "runtime state and core metrics"
  | health => bytesOf "liveness monitoring"
  | metrics => bytesOf "telemetry snapshot"
  | version => bytesOf "daemon and protocol identification"
  | help => bytesOf "command listing"
  | packetStats => bytesOf "packet pipeline statistics"
  | showConfig => bytesOf "current runtime configuration"
  | sendPacket => bytesOf "inject synthetic packet into runtime"
  | showTable => bytesOf "runtime inspection commands"
  | fdStatus => bytesOf "file descriptor runtime state"
  | transportStats => bytesOf "transport layer statistics"

def fields : Command → List Bytes
  | status => [bytesOf "state", bytesOf "uptime_ms", bytesOf "tick_count"]
  | health => [bytesOf "alive", bytesOf "timeout_ms"]
  | metrics => [bytesOf "uptime_ms", bytesOf "tick_count"]
  | version => [bytesOf "version", bytesOf "protocol", bytesOf "build"]
  | help => [bytesOf "commands"]
  | packetStats => [bytesOf "rx_packets", bytesOf "rx_bytes", bytesOf "drops"]
  | showConfig => [bytesOf "log", bytesOf "daemon", bytesOf "udp", bytesOf "rate"]
  | sendPacket => [bytesOf "broadcast", bytesOf "learn", bytesOf "topology-demo"]
  | showTable => [bytesOf "mac-table"]
  | fdStatus => [bytesOf "fd", bytesOf "state", bytesOf "type"]
  | transportStats =>
    [bytesOf "tx_packets", bytesOf "tx_bytes", bytesOf "tx_failed", bytesOf "backend_unavailable",
      bytesOf "port_down", bytesOf "invalid_packet"]

/-- `commandTable().find(name)`. -/
def find (name : Bytes) : Option Command := all.find? fun command => command.name = name

end Command

/-- What the code takes from the JSON library, and the order in which `commandTable` iterates. -/
structure Platform where
  dump : Dump
  commands : IterationOrder Command

/-- `key=value`. -/
def entry (key : String) (value : Bytes) : Bytes := bytesOf key ++ bytesOf "=" ++ value

def line (key : String) (value : Bytes) : Bytes := entry key value ++ newline

/-- A number as a line of a text response. -/
def count (key : String) (n : UInt64) : Bytes := line key (to_string n.toNat)

def boolText (b : Bool) : Bytes := if b then bytesOf "true" else bytesOf "false"

def json : Bytes := bytesOf "json"

section

variable (p : Platform) (ctx : ControlContext) (arg : Bytes)

/-- Commands with an optional `json` refuse every other argument. -/
def checkArgument (next : Option ControlResponse) : Option ControlResponse :=
  if arg ≠ [] ∧ arg ≠ json then
    makeJsonError p.dump error.invalidRequest (bytesOf "unsupported argument: " ++ arg)
  else next

/-- A part of the context has to be there. -/
def requirePart {α : Type} (part : Option α) (missing : String) (next : α → Option ControlResponse) :
    Option ControlResponse :=
  match part with
  | some x => next x
  | none => makeJsonError p.dump error.internalError (bytesOf missing)

/-- The JSON form of a response, or its text form. -/
def report (data : Json) (text : Bytes) : Option ControlResponse :=
  if arg = json then makeJsonSuccess p.dump data else some { success := true, payload := text }

/-- The handlers that report on the runtime snapshot. -/
def reportSnapshot (data : RuntimeStatus → Json) (text : RuntimeStatus → Bytes) :
    Option ControlResponse :=
  checkArgument p arg <|
    requirePart p (loadSnapshot ctx) "runtime snapshot not available" fun snap =>
      report p arg (data snap) (text snap)

def handleStatus : Option ControlResponse :=
  reportSnapshot p ctx arg
    (fun snap => jsonObject [
      ("state", .string (stateToString snap.state)),
      ("uptime_ms", .unsigned snap.metrics.uptime_ms.toNat),
      ("tick_count", .unsigned snap.metrics.tick_count.toNat),
      ("snapshot_version", .unsigned snap.snapshot_version.toNat),
      ("snapshot_timestamp_ms", .unsigned snap.snapshot_timestamp_ms.toNat)])
    (fun snap =>
      line "state" (stateToString snap.state) ++
      count "uptime_ms" snap.metrics.uptime_ms ++
      count "tick_count" snap.metrics.tick_count ++
      count "snapshot_version" snap.snapshot_version ++
      entry "snapshot_timestamp_ms" (to_string snap.snapshot_timestamp_ms.toNat))

def handleHealth : Option ControlResponse :=
  reportSnapshot p ctx arg
    (fun snap => jsonObject [
      ("alive", .boolean snap.health.is_alive),
      ("silence_ms", .unsigned snap.health.silence_duration_ms.toNat),
      ("last_heartbeat_ms", .unsigned snap.health.last_heartbeat_ms.toNat)])
    (fun snap =>
      line "alive" (boolText snap.health.is_alive) ++
      count "silence_ms" snap.health.silence_duration_ms ++
      entry "last_heartbeat_ms" (to_string snap.health.last_heartbeat_ms.toNat))

def handleMetrics : Option ControlResponse :=
  reportSnapshot p ctx arg
    (fun snap => jsonObject [
      ("uptime_ms", .unsigned snap.metrics.uptime_ms.toNat),
      ("tick_count", .unsigned snap.metrics.tick_count.toNat)])
    (fun snap =>
      count "uptime_ms" snap.metrics.uptime_ms ++
      entry "tick_count" (to_string snap.metrics.tick_count.toNat))

def handleVersion : Option ControlResponse :=
  checkArgument p arg <| report p arg
    (jsonObject [("version", jsonText "1.2.0"), ("protocol", jsonText "1.2"), ("build", jsonText "debug")])
    (line "version" (bytesOf "1.2.0") ++ line "protocol" (bytesOf "1.2") ++ entry "build" (bytesOf "debug"))

/-- The entry of a command in `help:json`. -/
def helpEntry (command : Command) : Bytes × Json :=
  (command.name, jsonObject [
    ("description", .string command.description),
    ("fields", .array (command.fields.map .string))])

def handleHelp : Option ControlResponse :=
  if arg = json then
    makeJsonSuccess p.dump (jsonObject [("commands", .ofFields (p.commands.items.map helpEntry))])
  else if arg ≠ [] then
    match Command.find arg with
    | none => makeJsonError p.dump error.unknownCommand (bytesOf "unknown command: " ++ arg)
    | some command =>
      some {
        success := true
        payload :=
          line "command" command.name ++
          line "description" command.description ++
          bytesOf "fields:\n" ++
          (command.fields.map fun field => bytesOf "  - " ++ field ++ newline).flatten }
  else
    some {
      success := true
      payload :=
        bytesOf "commands:\n" ++
        (p.commands.items.map fun command =>
          bytesOf "  " ++ command.name ++ bytesOf " - " ++ command.description ++ newline).flatten }

def dropReasonToString : PacketDropReason → Bytes
  | .parseError => bytesOf "parse_error"
  | .validationError => bytesOf "validation_error"
  | .queueOverflow => bytesOf "queue_overflow"
  | .rateLimited => bytesOf "rate_limited"
  | _ => bytesOf "unknown"

/-- The entries of `drops_by_reason`, as the loops see them. -/
def drops (order : IterationOrder PacketDropReason) (m : PacketMetrics) :
    List (PacketDropReason × UInt64) :=
  order.items.filterMap fun reason => (m.drops_by_reason reason).map fun n => (reason, n)

def packetStatsJson (order : IterationOrder PacketDropReason) (m : PacketMetrics) : Json :=
  jsonObject [
    ("rx_packets", .unsigned m.rx_packets.toNat),
    ("rx_bytes", .unsigned m.rx_bytes.toNat),
    ("ingress_packets", .unsigned m.ingress_packets.toNat),
    ("processed_packets", .unsigned m.processed_packets.toNat),
    ("processing_gap", .unsigned m.processing_gap.toNat),
    ("drops", .ofFields ((drops order m).map fun drop =>
      (dropReasonToString drop.1, .unsigned drop.2.toNat))),
    ("rx_packets_per_sec", .unsigned m.rx_packets_per_sec.toNat),
    ("rx_bytes_per_sec", .unsigned m.rx_bytes_per_sec.toNat),
    ("rx_packets_per_sec_raw", .unsigned m.rx_packets_per_sec_raw.toNat),
    ("rx_bytes_per_sec_raw", .unsigned m.rx_bytes_per_sec_raw.toNat),
    ("terminal_events", .unsigned m.terminal_events.toNat),
    ("duplicate_events", .unsigned m.duplicate_events.toNat),
    ("pending_terminal_events", .unsigned m.pending_terminal_events.toNat),
    ("average_processing_latency_ns", .unsigned m.average_processing_latency_ns.toNat),
    ("max_processing_latency_ns", .unsigned m.max_processing_latency_ns.toNat),
    ("latency_samples", .unsigned m.latency_samples.toNat),
    ("udp_drain_completions", .unsigned m.udp_drain_completions.toNat)]

def packetStatsText (order : IterationOrder PacketDropReason) (m : PacketMetrics) : Bytes :=
  count "rx_packets" m.rx_packets ++
  count "rx_bytes" m.rx_bytes ++
  count "ingress_packets" m.ingress_packets ++
  count "processed_packets" m.processed_packets ++
  count "processing_gap" m.processing_gap ++
  ((drops order m).map fun drop =>
    bytesOf "drops_" ++ dropReasonToString drop.1 ++ bytesOf "=" ++ to_string drop.2.toNat ++
      newline).flatten ++
  count "drops_total" ((drops order m).foldl (fun total_drops drop => total_drops + drop.2) 0) ++
  count "rx_packets_per_sec" m.rx_packets_per_sec ++
  count "rx_bytes_per_sec" m.rx_bytes_per_sec ++
  count "rx_packets_per_sec_raw" m.rx_packets_per_sec_raw ++
  -- the source ends these four without a newline
  entry "rx_bytes_per_sec_raw" (to_string m.rx_bytes_per_sec_raw.toNat) ++
  entry "terminal_events" (to_string m.terminal_events.toNat) ++
  entry "duplicate_events" (to_string m.duplicate_events.toNat) ++
  entry "pending_terminal_events" (to_string m.pending_terminal_events.toNat) ++
  count "average_processing_latency_ns" m.average_processing_latency_ns ++
  count "max_processing_latency_ns" m.max_processing_latency_ns ++
  count "udp_drain_completions" m.udp_drain_completions

def handlePacketStats : Option ControlResponse :=
  reportSnapshot p ctx arg (fun snap => packetStatsJson ctx.drop_order snap.packet)
    (fun snap => packetStatsText ctx.drop_order snap.packet)

def handleConfig : Option ControlResponse :=
  requirePart p ctx.config "config is not available" fun cfg =>
    checkArgument p arg <| report p arg
      (jsonObject [
        ("log", jsonObject [("level", .string cfg.log.level), ("file", .string cfg.log.file)]),
        ("daemon", jsonObject [("tick_ms", .unsigned cfg.daemon.tick_ms.toNat)]),
        ("udp", jsonObject [("enabled", .boolean cfg.udp.enabled), ("port", .integer cfg.udp.port)]),
        ("rate", jsonObject [
          ("alpha", .float cfg.rate.alpha),
          ("window_ms", .unsigned cfg.rate.window_ms.toNat)])])
      (line "log.level" cfg.log.level ++
      line "log.file" cfg.log.file ++
      line "daemon.tick_ms" (to_string cfg.daemon.tick_ms.toNat) ++
      line "udp.enabled" (boolText cfg.udp.enabled) ++
      line "udp.port" (to_string_int cfg.udp.port) ++
      line "rate.alpha" (to_string_double cfg.rate.alpha) ++
      entry "rate.window_ms" (to_string cfg.rate.window_ms.toNat))

/-- The response of `handleSendPacket`; what it publishes is `handleSendPacket`. -/
def sendPacketResponse : Option ControlResponse :=
  if !ctx.bus then makeJsonError p.dump error.internalError (bytesOf "messaging bus unavailable")
  else if arg = bytesOf "broadcast" then
    makeJsonSuccess p.dump (jsonObject [
      ("result", jsonText "packet injected"), ("mode", .string arg), ("lifecycle_id", .integer 999)])
  else if arg = bytesOf "learn" then
    makeJsonSuccess p.dump (jsonObject [("result", jsonText "mac learning sequence injected")])
  else if arg = bytesOf "topology-demo" then
    makeJsonSuccess p.dump (jsonObject [
      ("result", jsonText "topology demo injected"),
      ("ports", .array [.integer 1, .integer 2, .integer 3, .integer 4, .integer 5]),
      ("packet_count", .integer 5)])
  else makeJsonError p.dump error.invalidRequest (bytesOf "unsupported packet mode: " ++ arg)

def handleShow : Option ControlResponse :=
  requirePart p ctx.forwarding_engine "forwarding engine unavailable" fun engine =>
    if arg = bytesOf "mac-table" then
      let entries := engine.mac_table.snapshot
      some {
        success := true
        payload :=
          line "mac_table_size" (to_string entries.length) ++
          (entries.map fun e =>
            e.mac.toString ++ bytesOf " port=" ++ to_string e.port_id.toNat ++ bytesOf " last_seen=" ++
              to_string e.last_seen_tick.toNat ++ newline).flatten }
    else makeJsonError p.dump error.invalidRequest (bytesOf "unsupported packet mode: " ++ arg)

def fdStateToString : FdState → Bytes
  | .active => bytesOf "active"
  | .closed => bytesOf "closed"
  | .released => bytesOf "released"
  | .invalid => bytesOf "invalid"

def fdTypeToString : FdType → Bytes
  | .udpSocket => bytesOf "udp_socket"
  | .unixSocket => bytesOf "unix_socket"
  | _ => bytesOf "unknown"

def handleFdStatus : Option ControlResponse :=
  requirePart p ctx.fd_registry "fd registry unavailable" fun records =>
    checkArgument p arg <| report p arg
      (jsonObject [("fds", .array (records.map fun record => jsonObject [
        ("fd", .integer record.fd),
        ("state", .string (fdStateToString record.state)),
        ("type", .string (fdTypeToString record.fd_type))]))])
      (line "fd_count" (to_string records.length) ++
      (records.map fun record =>
        bytesOf "fd=" ++ to_string_int record.fd ++ bytesOf " state=" ++ fdStateToString record.state ++
          bytesOf " type=" ++ fdTypeToString record.fd_type ++ newline).flatten)

def handleTransportStats : Option ControlResponse :=
  requirePart p ctx.transport_manager "transport manager unavailable" fun counters =>
    checkArgument p arg <| report p arg
      (jsonObject [
        ("tx_packets", .unsigned counters.tx_packets.toNat),
        ("tx_bytes", .unsigned counters.tx_bytes.toNat),
        ("tx_failed", .unsigned counters.tx_failed.toNat),
        ("backend_unavailable", .unsigned counters.backend_unavailable.toNat),
        ("port_down", .unsigned counters.port_down.toNat),
        ("invalid_packet", .unsigned counters.invalid_packet.toNat)])
      (count "tx_packets" counters.tx_packets ++
      count "tx_bytes" counters.tx_bytes ++
      count "tx_failed" counters.tx_failed ++
      count "backend_unavailable" counters.backend_unavailable ++
      count "port_down" counters.port_down ++
      entry "invalid_packet" (to_string counters.invalid_packet.toNat))

/-- The handler of a command. -/
def handler : Command → Option ControlResponse
  | .status => handleStatus p ctx arg
  | .health => handleHealth p ctx arg
  | .metrics => handleMetrics p ctx arg
  | .version => handleVersion p arg
  | .help => handleHelp p arg
  | .packetStats => handlePacketStats p ctx arg
  | .showConfig => handleConfig p ctx arg
  | .sendPacket => sendPacketResponse p ctx arg
  | .showTable => handleShow p ctx arg
  | .fdStatus => handleFdStatus p ctx arg
  | .transportStats => handleTransportStats p ctx arg

end

/-- What a request leads to: the packets published for it, and the response. -/
structure Reply where
  published : List SyntheticPacket := []
  response : Option ControlResponse

/-- The command before the first `':'`, and the argument after it. -/
def splitCommand (command : Bytes) : Bytes × Bytes :=
  match Bytes.find (bytesOf ":") command with
  | some sep => (command.take sep, command.drop (sep + 1))
  | none => (command, [])

def dispatchV12 (p : Platform) (ctx : ControlContext) (req : ControlRequest) : Reply :=
  let (command, arg) := splitCommand req.command
  match Command.find command with
  | none =>
    { response := makeJsonError p.dump error.unknownCommand (bytesOf "unknown command: " ++ command) }
  | some command =>
    { published := if command = .sendPacket ∧ ctx.bus then handleSendPacket arg else []
      response := handler p ctx arg command }

def dispatchControlRequest (p : Platform) (ctx : ControlContext) (req : ControlRequest) : Reply :=
  if req.version = [] ∨ req.command = [] then
    { response := makeJsonError p.dump error.invalidRequest (bytesOf "missing version or command") }
  else if !isWellFormedVersion req.version then
    { response := makeJsonError p.dump error.invalidVersionFormat
        (bytesOf "invalid protocol version format: " ++ req.version) }
  else if !isValidProtocolVersion req.version then
    { response := makeJsonError p.dump error.unsupportedVersion
        (bytesOf "unsupported protocol version: " ++ req.version) }
  else if req.version = bytesOf "1.2" then dispatchV12 p ctx req
  else
    { response := makeJsonError p.dump error.unsupportedVersion
        (bytesOf "unsupported protocol version: " ++ req.version) }

end EdgeNetSwitch.Control
