import EdgeNetSwitch.Control.ControlContext
import EdgeNetSwitch.Json.Numbers

/-!
# Loading the configuration

`ConfigLoader::loadFromFile` of `src/core/Config.cpp`, and the port `UdpReceiver` binds to. The file system
and the parser are parameters; nothing is read from an environment but what `Files` holds.
-/

namespace EdgeNetSwitch.Core

/-- What `loadFromFile` throws: a `std::runtime_error`, or what the JSON library has thrown. -/
inductive LoadError where
  | runtimeError (message : Bytes)
  | jsonError
  deriving DecidableEq

structure Files where
  /-- `fs::current_path(ec)`: the names below the root, innermost first, or the message of `ec`. -/
  current_path : Except Bytes (List Bytes)
  /-- What an `std::ifstream` reads, if it is open. -/
  contents : Bytes → Option Bytes
  /-- `file >> j`; what a `parse_error` says, and `none` for another exception. -/
  parse : Bytes → Except (Option Bytes) Json

namespace ConfigLoader

/-- `dir / requested`. -/
def candidate (requested : Bytes) (dir : List Bytes) : Bytes :=
  (dir.reverse.map fun name => bytesOf "/" ++ name).flatten ++ bytesOf "/" ++ requested

/-- A directory and those above it, up to the root. -/
def searchUpward (requested : Bytes) : List Bytes → List Bytes
  | [] => [candidate requested []]
  | name :: dir => candidate requested (name :: dir) :: searchUpward requested dir

def candidates (files : Files) (path : Bytes) : Except LoadError (List Bytes) :=
  if path.head? = some 0x2F then .ok [path]
  else
    match files.current_path with
    | .ok dir => .ok (searchUpward path dir)
    | .error message =>
      .error (.runtimeError (bytesOf "Failed to determine current working directory: " ++ message))

/-- The first candidate that can be opened, and what is in it. -/
def openFirst (files : Files) (paths : List Bytes) : Option (Bytes × Bytes) :=
  paths.findSome? fun path => (files.contents path).map fun contents => (path, contents)

/-- The document that `loadFromFile` works on. -/
def readDocument (files : Files) (path : Bytes) : Except LoadError Json := do
  let paths ← candidates files path
  match openFirst files paths with
  | none =>
    let searched := bytesOf " (searched:" ++ (paths.map fun p => bytesOf " " ++ p).flatten ++ bytesOf ")"
    throw (.runtimeError (bytesOf "Failed to open config file: " ++ path ++ searched))
  | some (resolvedPath, contents) =>
    match files.parse contents with
    | .ok j => return j
    | .error none => throw .jsonError
    | .error (some what) =>
      throw (.runtimeError (bytesOf "Failed to parse config file: " ++ resolvedPath ++ bytesOf " (" ++ what ++
        bytesOf ")"))

def objectOrEmpty (parent : Json) (key : String) : Json :=
  match parent.field? (bytesOf key) with
  | some (.object fields) => .object fields
  | _ => .object []

/-- `value(key, default)` of an object, with the conversion `get`. -/
def value {α : Type} (get : Json → Option α) (key : String) (default : α) (j : Json) : Except LoadError α :=
  match j.field? (bytesOf key) with
  | none => .ok default
  | some v =>
    match get v with
    | some x => .ok x
    | none => .error .jsonError

/-- The checks after the conversions, the last of which no document reaches with an `alpha` that fails it. -/
def check (rateJson : Json) (cfg : Config) : Except LoadError Config :=
  if cfg.rate.alpha ≤ 0 ∨ 1 < cfg.rate.alpha then
    .error (.runtimeError (bytesOf "rate.alpha must be in (0,1]"))
  else if cfg.rate.window_ms = 0 then .error (.runtimeError (bytesOf "rate.window_ms must be > 0"))
  else if (rateJson.field? (bytesOf "alpha")).any fun alpha => !alpha.isNumber then
    .error (.runtimeError (bytesOf "rate.alpha must be a number"))
  else .ok cfg

/-- The configuration in a document. -/
def fromJson (c : Json.Casts) (j : Json) : Except LoadError Config := do
  let logJson := objectOrEmpty j "log"
  let daemonJson := objectOrEmpty j "daemon"
  let udpJson := objectOrEmpty j "udp"
  let rateJson := objectOrEmpty j "rate"
  let level ← value Json.getString "level" (bytesOf "info") logJson
  let file ← value Json.getString "file" (bytesOf "edgenetswitch.log") logJson
  let tick_ms ← value c.getInt "tick_ms" 100 daemonJson
  let enabled ← value Json.getBool "enabled" false udpJson
  let port ← value c.getInt "port" 9000 udpJson
  let alpha ← value c.getDouble "alpha" (3602879701896397 / 2 ^ 54) rateJson
  let window_ms ← value c.getUint64 "window_ms" 1000 rateJson
  check rateJson {
    log := { level, file }
    -- an `int` assigned to a `std::uint32_t`
    daemon := { tick_ms := UInt32.ofInt tick_ms }
    udp := { enabled, port }
    rate := { alpha, window_ms } }

def loadFromFile (c : Json.Casts) (files : Files) (path : Bytes) : Except LoadError Config :=
  readDocument files path >>= fromJson c

end ConfigLoader

/-- `addr.sin_port = htons(port_)` in `UdpReceiver::initializeSocket`: the port that is bound. -/
def boundPort (port_ : ℤ) : UInt16 := UInt16.ofInt port_

/-! ## What a configuration has to do with its document -/

/-- What is under a key of one of the four objects, if there is any. -/
def item? (j : Json) (part key : String) : Option Json :=
  (j.field? (bytesOf part)).bind (Json.field? (bytesOf key))

/-- The integer written, or the default if nothing is. -/
def AsWritten (default : ℤ) (written : Option Json) (value : ℤ) : Prop :=
  match written with
  | none => value = default
  | some v => v.whole? = some value

/-- The numbers are those of the document, and such that the daemon can use them. -/
structure TakenAsWritten (j : Json) (cfg : Config) : Prop where
  tick_ms : AsWritten 100 (item? j "daemon" "tick_ms") cfg.daemon.tick_ms.toNat
  port : AsWritten 9000 (item? j "udp" "port") cfg.udp.port
  window_ms : AsWritten 1000 (item? j "rate" "window_ms") cfg.rate.window_ms.toNat
  port_range : 0 ≤ cfg.udp.port ∧ cfg.udp.port ≤ 65535
  bound : ((boundPort cfg.udp.port).toNat : ℤ) = cfg.udp.port
  window_pos : 0 < cfg.rate.window_ms
  alpha_range : 0 < cfg.rate.alpha ∧ cfg.rate.alpha ≤ 1

/-- There is something under the key, and it is such. -/
def Has (j : Json) (part key : String) (p : Json → Bool) : Prop :=
  ∃ v, item? j part key = some v ∧ p v = true

/-- What is under the key is such, if there is anything. -/
def Only (j : Json) (part key : String) (P : Json → Prop) : Prop :=
  ∀ v, item? j part key = some v → P v

/-- Something in the document is of the wrong kind, `alpha` is out of its range, or the window is zero. -/
def Refused (j : Json) : Prop :=
  Has j "log" "level" (fun v => !v.isString) ∨ Has j "log" "file" (fun v => !v.isString) ∨
  Has j "daemon" "tick_ms" (fun v => !v.isNumber && !v.isBoolean) ∨
  Has j "udp" "enabled" (fun v => !v.isBoolean) ∨
  Has j "udp" "port" (fun v => !v.isNumber && !v.isBoolean) ∨
  Has j "rate" "alpha" (fun v => !v.inUnit) ∨ Has j "rate" "window_ms" Json.vanishes

/-- The integers are whole numbers that fit where they go. A `tick_ms` goes through an `int` on its way to 32
unsigned bits, which only a `double` does not survive. -/
structure InRange (j : Json) : Prop where
  tick_ms : Only j "daemon" "tick_ms" fun v => v.Within 0 (if v.isFloat then 2 ^ 31 - 1 else 2 ^ 32 - 1)
  port : Only j "udp" "port" (Json.Within 0 65535)
  window_ms : Only j "rate" "window_ms" (Json.Within 1 (2 ^ 64 - 1))

end EdgeNetSwitch.Core
