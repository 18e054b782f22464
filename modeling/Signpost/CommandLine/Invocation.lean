import Signpost.CommandLine.Scan

/-!
The commands of the program, and how they are read from its arguments. The settings file is named in
front of the command.
-/

namespace Signpost.CommandLine

inductive Command where
  | routes
  | dispatch (method path : Text) (host format query : Option Text)
  | reverse (action : Text) (pairs : List Text) (format : Option Text) (absolute : Bool)
  | watch
  deriving Repr, DecidableEq

structure Invocation where
  settingsFile : Text := "router.toml".toList
  command : Command
  deriving Repr, DecidableEq

def valueOption (name : String) : OptionShape :=
  { name := name.toList, value := some (Text.upperAscii name.toList) }

def settingsOption : OptionShape :=
  { name := "config".toList, letter := some 'c', value := some "CONFIG".toList, mayBeEmpty := false
    about := "[default: router.toml]".toList }

def routesShape : CommandShape :=
  { name := "routes".toList, about := "Print the route table".toList,
    options := [OptionShape.help] }

def dispatchShape : CommandShape :=
  { name := "match".toList
    about := "Dispatch a request and print the matched action and arguments".toList
    words := [{ name := "METHOD".toList }, { name := "PATH".toList }]
    options := [valueOption "host", valueOption "format", valueOption "query", OptionShape.help] }

def reverseShape : CommandShape :=
  { name := "reverse".toList
    about := "Resolve an action and key=value arguments to a URL".toList
    words :=
      [{ name := "ACTION".toList }, { name := "ARGS".toList, required := false, repeated := true }]
    options := [valueOption "format",
      { name := "absolute".toList, about := "Prefix the URL with scheme and host".toList },
      OptionShape.help] }

def watchShape : CommandShape :=
  { name := "watch".toList, about := "Load routes and reload them on change until Ctrl+C".toList
    options := [OptionShape.help] }

def helpShape : CommandShape :=
  { name := "help".toList
    about := "Print this message or the help of the given subcommand(s)".toList
    words := [{ name := "COMMAND".toList, required := false, repeated := true
                about := "Print help for the subcommand(s)".toList }] }

def shapes : List CommandShape :=
  [routesShape, dispatchShape, reverseShape, watchShape, helpShape]

def programShape : CommandShape :=
  { name := "action-router".toList
    about := "Inspect and query action route tables".toList
    options := [settingsOption, OptionShape.help]
    commands := shapes.map fun s => (s.name, s.about) }

/-- What stands in front of the name of a command. -/
def commandPath : Text :=
  programShape.name ++ [' ']

def commandHelp (c : CommandShape) : Text :=
  c.help commandPath

def programHelp : Text :=
  programShape.help []

/-- The help that is asked for by the names of commands; no command has others below it. -/
def askedHelp (names : List Text) : Refusal :=
  match names with
  | [] => .help programHelp
  | [name] =>
    match shapes.find? (·.name == name) with
    | some c => .help (commandHelp c)
    | none => .badUsage
  | _ => .badUsage

def readGiven (c : CommandShape) (arguments : List Text) : Except Refusal Given := do
  let (g, _) ← c.scan (commandHelp c) false {} arguments
  let g ← g.settle
  if c.isComplete g then return g else .error .badUsage

def readCommand (name : Text) (arguments : List Text) : Except Refusal Command := do
  match String.ofList name with
  | "routes" =>
    let _ ← readGiven routesShape arguments
    return .routes
  | "match" =>
    let g ← readGiven dispatchShape arguments
    match g.words with
    | [method, path] =>
      return .dispatch method path (g.get? "host") (g.get? "format") (g.get? "query")
    | _ => .error .badUsage
  | "reverse" =>
    let g ← readGiven reverseShape arguments
    match g.words with
    | action :: pairs => return .reverse action pairs (g.get? "format") (g.get? "absolute").isSome
    | [] => .error .badUsage
  | "watch" =>
    let _ ← readGiven watchShape arguments
    return .watch
  | "help" => .error (askedHelp arguments)
  | _ => .error .badUsage

/-- Reads the arguments of the program. The options in front of a command are settled after it has
been read. -/
def Invocation.ofArguments (arguments : List Text) : Except Refusal Invocation := do
  let (g, rest) ← programShape.scan programHelp false {} arguments
  match rest with
  | [] => .error .badUsage
  | name :: rest =>
    let command ← readCommand name rest
    let g ← g.settle
    let default : Invocation := { command }
    return { default with settingsFile := (g.get? "config").getD default.settingsFile }

end Signpost.CommandLine
