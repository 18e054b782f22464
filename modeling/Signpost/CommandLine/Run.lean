import Signpost.CommandLine.Invocation
import Signpost.CommandLine.Pairs
import Signpost.Json.Writer
import Signpost.Router
import Signpost.Settings.Load

/-!
Running a command. It loads the settings and the routes, and then prints what it is asked for, as
lines or as JSON. Whatever fails is reported by its cause and the values that led to it.
-/

namespace Signpost

open CommandLine

/-! ## How errors are reported -/

def reportField (name : String) (value : Text) : Text :=
  name.toList ++ [':', ' '] ++ value

def report (cause : String) (fields : List Text) : Text :=
  cause.toList ++ " \x7b ".toList ++ Text.join [',', ' '] fields ++ " \x7d".toList

def RoutingError.report : RoutingError → Text
  | noRouteFound method path =>
    Signpost.report "NoRouteFound" [reportField "method" (Text.quoted method),
      reportField "path" (Text.quoted path)]
  | noHandlerFound action args =>
    Signpost.report "NoHandlerFound" [reportField "action" (Text.quoted action),
      reportField "args" args.described]
  | badTemplate fault => "RouteFileParsing(".toList ++ Text.quoted fault.message.toList ++ [')']
  | invalidPattern pattern =>
    Signpost.report "InvalidPattern" [reportField "pattern" (Text.quoted pattern)]

/-- How an error of loading is reported. Why a document is refused is left open. -/
def LoadError.report : LoadError → Text
  | io name cause =>
    Signpost.report "Io" [reportField "name" (Text.quoted name),
      reportField "source" cause.described.toList]
  | syntaxError name line fault =>
    Signpost.report "Syntax" [reportField "name" (Text.quoted name),
      reportField "line" (Text.decimal line),
      reportField "message" (Text.quoted fault.message.toList)]
  | route name location cause =>
    Signpost.report "Route" [reportField "name" (Text.quoted name),
      reportField "location" (Text.quoted location.text), reportField "source" cause.report]
  | openApi name _ => Signpost.report "OpenApi" [reportField "name" (Text.quoted name)]

def SettingsFault.report (f : SettingsFault) : Text :=
  Signpost.report "ValidationError" [reportField "field" (Text.quoted f.field),
    reportField "message" (Text.quoted f.message)]

/-- How an error of the settings is reported. Why a text is refused is left open. -/
def SettingsError.report : SettingsError → Text
  | io cause => "Io(".toList ++ cause.described.toList ++ [')']
  | unreadable => "Parse".toList
  | invalid faults =>
    "Validation([".toList ++ Text.join [',', ' '] (faults.map SettingsFault.report) ++ "])".toList

namespace CommandLine

inductive CommandError where
  | settings (e : SettingsError)
  | loading (e : LoadError)
  | routing (e : RoutingError)
  | invalidFormat (format : Text)
  | notKeyValue (pair : Text)
  deriving DecidableEq

def CommandError.report : CommandError → Text
  | settings e => e.report
  | loading e => e.report
  | routing e => e.report
  | invalidFormat format => Text.quoted ("invalid format `".toList ++ format ++ ['`'])
  | notKeyValue pair => Text.quoted ("argument `".toList ++ pair ++ "` is not key=value".toList)

/-! ## What is printed -/

def optionalText (t : Option Text) : Document :=
  t.elim .null .string

def record (entries : List (String × Document)) : Document :=
  .mapping (entries.map fun (k, v) => (.string k.toList, v))

def argDocument : ArgValue → Document
  | .single t => .string t
  | .list ts => .sequence (ts.map .string)

/-- What is printed of a request that was dispatched. -/
def dispatched (route : Route) (r : Request) : Document :=
  record [
    ("action", optionalText r.action),
    ("args", .mapping (r.routeArgs.entries.map fun (k, v) => (.string k, .string v))),
    ("format", optionalText (r.format.map MediaType.text)),
    ("method", .string r.method),
    ("route", .string route.text)]

/-- What is printed of an action that was resolved. -/
def resolved (d : Resolution) : Document :=
  record [
    ("host", .string d.host),
    ("method", .string d.method),
    ("url", .string d.url),
    ("star", .bool d.anyMethod),
    ("action", .string d.action),
    ("args", .mapping (d.args.entries.map fun (k, v) => (.string k, argDocument v)))]

def printed (d : Document) : Text :=
  Json.write d ++ ['\n']

/-! ## Running -/

def readFormat (format : Text) : Except CommandError MediaType :=
  match MediaType.ofFormat? format with
  | some m => .ok m
  | none => .error (.invalidFormat format)

def withFormat (r : Request) (format : Option Text) : Except CommandError Request :=
  match format with
  | none => .ok r
  | some f => (readFormat f).map fun m => { r with format := some m }

def printDispatch (t : RouteTable) (r : Request) : Except CommandError Text :=
  match (t.route r).answer with
  | (.ok route, r) => .ok (printed (dispatched route r))
  | (.error e, _) => .error (.routing e)

def printResolution (t : RouteTable) (action : Text) (args : Args) (current : Request)
    (absolute : Bool) :
    Except CommandError Text :=
  match (t.reverse action args (some current)).answer with
  | .ok d => .ok (printed (resolved (if absolute then d.absolute current else d)))
  | .error e => .error (.routing e)

/-- Runs a command with a table that has been loaded, up to where it would watch. -/
def Command.run (settings : Settings) (t : RouteTable) : Command → Except CommandError Text
  | routes => .ok (t.routes.flatMap fun r => r.columns ++ ['\n'])
  | dispatch method path host format query => do
    let r := settings.request.request method path
    let r ← withFormat { r with host := host <|> r.host } format
    printDispatch t { r with query := query.getD r.query }
  | reverse action pairs format absolute => do
    let current ← withFormat (settings.request.request "GET".toList ['/']) format
    match Args.ofPairs pairs with
    | .ok args => printResolution t action args current absolute
    | .error pair => .error (.notKeyValue pair)
  | watch => .ok []

def loadTable (sources : List Source) (now : File.Time) : Except CommandError RouteTable :=
  let o := RouteTable.empty.load sources now
  match o.answer with
  | .ok _ => .ok o.table
  | .error e => .error (.loading e)

/-- Does what the program is asked to do, up to where it would watch. `files` gives what is found at
a path. -/
def Invocation.run (i : Invocation) (files : Text → Source) (now : File.Time) :
    Except CommandError Text := do
  let settings ← (Settings.load (files i.settingsFile)).mapError .settings
  let t ← loadTable (settings.sources.map files) now
  i.command.run settings t

structure Ending where
  output : Text := []
  errors : Text := []
  code : UInt32 := 0
  deriving DecidableEq

def Ending.ofError (e : CommandError) : Ending :=
  { errors := "Error: ".toList ++ e.report ++ ['\n'], code := 1 }

def Ending.ofRefusal : Refusal → Ending
  | .help text => { output := text }
  | .badUsage => { errors := programShape.usage [] ++ ['\n'], code := 2 }

/-- How the program ends, up to where it would watch. -/
def ending (arguments : List Text) (files : Text → Source) (now : File.Time) : Ending :=
  match Invocation.ofArguments arguments with
  | .error refusal => .ofRefusal refusal
  | .ok i =>
    match i.run files now with
    | .ok output => { output }
    | .error e => .ofError e

end CommandLine

end Signpost
