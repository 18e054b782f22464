import Signpost.Settings.Check
import Signpost.Source.Basic
import Signpost.Toml.Reader

/-!
Settings from a file. What a file leaves out has its default, and what it says beyond the known
settings does not count, but each known setting has to be of its kind. Relative paths of sources
start at the directory of the file.
-/

namespace Signpost

inductive SettingsError where
  | io (cause : File.ReadError)
  /-- The text is not TOML, or a setting is not of its kind. -/
  | unreadable
  | invalid (faults : List SettingsFault)
  deriving DecidableEq

/-- The message of the error. Why a text cannot be read is left open. -/
def SettingsError.message : SettingsError → Text
  | io cause => "IO error: ".toList ++ cause.message.toList
  | unreadable => "Parse error".toList
  | invalid faults =>
    "Validation failed: ".toList ++ Text.join [',', ' '] (faults.map SettingsFault.text)

namespace Settings

open Toml (Value)

/-- A section of settings: the values of its known keys. A table has them under their names, an
array in their order, and a date has none of them. -/
def section? (keys : List String) : Value → Option (List (Option Value))
  | .table entries => some (keys.map fun k => entries.lookup k.toList)
  | .array items => some (keys.zipIdx.map fun (_, i) => items[i]?)
  | .date _ => some (keys.map fun _ => none)
  | _ => none

/-- A setting that may be left out: its value, or else its default. -/
def orDefault {α : Type} (default : α) (read : Value → Option α) : Option Value → Option α
  | none => some default
  | some v => read v

def orNone {α : Type} (read : Value → Option α) : Option Value → Option (Option α) :=
  orDefault none fun v => (read v).map some

def text? : Value → Option Text
  | .string t => some t
  | _ => none

def flag? : Value → Option Bool
  | .boolean b => some b
  | _ => none

def natural? : Value → Option Nat
  | .integer (.ofNat n) => some n
  | _ => none

def port? (v : Value) : Option UInt16 :=
  (natural? v).bind fun n => if n < 65536 then some n.toUInt16 else none

def texts? : Value → Option (List Text)
  | .array items => items.mapM text?
  | _ => none

def readSources (v : Value) : Option (List Text) := do
  match ← section? ["sources"] v with
  | [sources] => orDefault [] texts? sources
  | _ => none

def readWatch (v : Value) : Option WatchSettings := do
  let default : WatchSettings := {}
  match ← section? ["enabled", "poll_interval_secs"] v with
  | [enabled, interval] =>
    return ⟨← orDefault default.enabled flag? enabled,
      ← orDefault default.interval natural? interval⟩
  | _ => none

def readRequest (v : Value) : Option RequestSettings := do
  let default : RequestSettings := {}
  match ← section? ["context_path", "servlet_path", "host", "port", "secure", "format"] v with
  | [contextPath, servletPath, host, port, secure, format] =>
    return ⟨← orDefault default.contextPath text? contextPath,
      ← orDefault default.servletPath text? servletPath, ← orDefault default.host text? host,
      ← orNone port? port, ← orDefault default.secure flag? secure,
      ← orNone text? format⟩
  | _ => none

def readLogLevel (v : Value) : Option Text := do
  let default : Settings := {}
  match ← section? ["log_level"] v with
  | [level] => orDefault default.logLevel text? level
  | _ => none

def ofToml? (v : Value) : Option Settings := do
  let default : Settings := {}
  match ← section? ["routes", "watch", "request", "observability"] v with
  | [sources, watch, request, logging] =>
    return ⟨← orDefault default.sources readSources sources,
      ← orDefault default.watch readWatch watch, ← orDefault default.request readRequest request,
      ← orDefault default.logLevel readLogLevel logging⟩
  | _ => none

/-- The settings that a text stands for, if they are sound. -/
def parse (content : Text) : Except SettingsError Settings :=
  match (Toml.read? content).bind ofToml? with
  | none => .error .unreadable
  | some s => if s.faults = [] then .ok s else .error (.invalid s.faults)

/-- The settings with the paths of sources seen from the directory of a file. -/
def resolved (file : Text) (s : Settings) : Settings :=
  match File.parent? file with
  | some directory => { s with sources := s.sources.map (File.join directory) }
  | none => s

def load (file : Source) : Except SettingsError Settings :=
  match file.content with
  | .error cause => .error (.io cause)
  | .ok content => (parse content).map (resolved file.name)

end Settings

end Signpost
