import EdgeNetSwitch.Control.ControlClient
import EdgeNetSwitch.Control.PacketStatsReport
import EdgeNetSwitch.Core.ConfigLoader
import EdgeNetSwitch.Json.Leaves

/-!
# Reading reports back

What a client can learn from the responses that have one value a line, from the listing of the MAC table, and
from `show-config:json`, of which it can make a configuration file.
-/

namespace EdgeNetSwitch.Control

open Bytes

/-! ## Values -/

/-- A value as a line of a report shows it. -/
def scalarText : Json → Bytes
  | .boolean b => boolText b
  | .unsigned n => to_string n
  | .integer n => to_string_int n
  | .float x => to_string_double x
  | .string s => s
  | .null | .array _ | .object _ => []

/-- The commands whose report has a line for each value. -/
def Command.valueReports : List Command := [.status, .health, .metrics, .version, .showConfig, .transportStats]

/-- The request for a report, and the one for its JSON form. -/
def Command.plain (command : Command) : ControlRequest := ⟨bytesOf "1.2", command.name⟩

def Command.inJson (command : Command) : ControlRequest := ⟨bytesOf "1.2", command.name ++ bytesOf ":json"⟩

/-- The strings of the configuration fit on a line. -/
def SingleLine (cfg : Core.Config) : Prop := 0x0A ∉ cfg.log.level ∧ 0x0A ∉ cfg.log.file

/-- Every line of the text is an entry, no key has two, and the entries are the values of the document. -/
structure TellsSame (text : Bytes) (data : Json) : Prop where
  lines_ok : ∀ line ∈ Lines.lines 0x0A text, (Lines.keyValue? 0x3D line).isSome = true
  nodup : ((Lines.entries 0x0A 0x3D text).map Prod.fst).Nodup
  same : (Lines.entries 0x0A 0x3D text).Perm ((data.leaves []).map fun leaf => (leaf.1, scalarText leaf.2))

/-! ## The MAC table -/

/-- A number under this key. -/
def readNumber (key : String) (text : Bytes) : Option ℕ :=
  (readCount text).bind fun e => if e.1 = bytesOf key then some e.2 else none

/-- An address, a port and a tick with blanks between them. -/
def readMacEntry (line : Bytes) : Option MacTableEntry :=
  match line.splitOn 0x20 with
  | [mac, port, last_seen] => do
    let mac ← MacAddress.fromString mac
    let port_id ← readNumber "port" port
    let last_seen_tick ← readNumber "last_seen" last_seen
    return { mac, port_id := port_id.toUInt32, last_seen_tick := last_seen_tick.toUInt64 }
  | _ => none

/-- The listing has as many entries as its first line says. -/
def readMacTable (text : Bytes) : Option (List MacTableEntry) :=
  match Lines.lines 0x0A text with
  | [] => none
  | size :: rows => do
    let size ← readNumber "mac_table_size" size
    let entries ← rows.mapM readMacEntry
    if entries.length = size then return entries else none

/-- The port of an address, in a listing. -/
def portOf (entries : List MacTableEntry) (mac : MacAddress) : Option UInt32 :=
  (entries.find? fun e => e.mac = mac).map MacTableEntry.port_id

/-- The listing is that of the table, with the addresses in ascending order. -/
structure ListsTable (text : Bytes) (t : MacTable) : Prop where
  read : readMacTable text = some t.snapshot
  ascending : t.snapshot.Pairwise fun e e' => compare e.mac e'.mac = .lt
  lookup : ∀ mac, portOf t.snapshot mac = t.lookup mac

/-! ## The configuration -/

/-- The data of `show-config:json`. -/
def configJson (cfg : Core.Config) : Json :=
  jsonObject [
    ("log", jsonObject [("level", .string cfg.log.level), ("file", .string cfg.log.file)]),
    ("daemon", jsonObject [("tick_ms", .unsigned cfg.daemon.tick_ms.toNat)]),
    ("udp", jsonObject [("enabled", .boolean cfg.udp.enabled), ("port", .integer cfg.udp.port)]),
    ("rate", jsonObject [
      ("alpha", .float cfg.rate.alpha),
      ("window_ms", .unsigned cfg.rate.window_ms.toNat)])]

/-- `show-config:json` is answered, and what a parser reads in the data of the answer is loaded as the same
configuration. -/
structure ShownAsLoaded (p : Platform) (parse : Parse) (c : Json.Casts) (response : Option ControlResponse)
    (cfg : Core.Config) : Prop where
  answered : p.dump.Strict → response.isSome = true
  loaded : ∀ resp, response = some resp → resp.success = true ∧
    ∃ j data, parse resp.payload = some j ∧ j.field? (bytesOf "data") = some data ∧
      Core.ConfigLoader.fromJson c data = .ok cfg

end EdgeNetSwitch.Control
