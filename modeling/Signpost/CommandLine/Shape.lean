import Signpost.Text.Basic

/-!
The shape of a command: which words and options it takes, and the help that says so.
-/

namespace Signpost.CommandLine

structure OptionShape where
  name : Text
  letter : Option Char := none
  /-- How its value is called, if it takes one. -/
  value : Option Text := none
  mayBeEmpty : Bool := true
  about : Text := []
  deriving Repr, DecidableEq

/-- A word that a command takes, or as many as there are. -/
structure WordShape where
  name : Text
  required : Bool := true
  repeated : Bool := false
  about : Text := []
  deriving Repr, DecidableEq

structure CommandShape where
  name : Text
  about : Text
  words : List WordShape := []
  options : List OptionShape := []
  /-- The commands below it; then it has to be followed by one of them. -/
  commands : List (Text × Text) := []
  deriving Repr, DecidableEq

namespace OptionShape

def help : OptionShape :=
  { name := "help".toList, letter := some 'h', about := "Print help".toList }

def text (o : OptionShape) : Text :=
  let letter := match o.letter with
    | some c => ['-', c, ',', ' ']
    | none => "    ".toList
  let value := match o.value with
    | some v => [' ', '<'] ++ v ++ ['>']
    | none => []
  letter ++ ['-', '-'] ++ o.name ++ value

end OptionShape

def WordShape.text (w : WordShape) : Text :=
  let bare := if w.required then ['<'] ++ w.name ++ ['>'] else ['['] ++ w.name ++ [']']
  if w.repeated then bare ++ "...".toList else bare

/-- Rows of two columns under a title. -/
def section_ (title : String) (rows : List (Text × Text)) : Text :=
  if rows = [] then []
  else
    let width := rows.foldl (fun w r => max w r.1.length) 0
    ['\n'] ++ title.toList ++ [':', '\n'] ++
      rows.flatMap fun (left, right) =>
        [' ', ' '] ++ Text.padRight width left ++ [' ', ' '] ++ right ++ ['\n']

namespace CommandShape

/-- The line that says how a command is used; `path` is what stands in front of it. -/
def usage (c : CommandShape) (path : Text) : Text :=
  "Usage: ".toList ++ path ++ c.name ++
    (if c.options.any (· ≠ OptionShape.help) then " [OPTIONS]".toList else []) ++
    (c.words.flatMap fun w => ' ' :: w.text) ++
    (if c.commands = [] then [] else " <COMMAND>".toList)

def help (c : CommandShape) (path : Text) : Text :=
  c.about ++ ['\n', '\n'] ++ c.usage path ++ ['\n'] ++
    section_ "Arguments" (c.words.map fun w => (w.text, w.about)) ++
    section_ "Commands" c.commands ++
    section_ "Options" (c.options.map fun o => (o.text, o.about))

end CommandShape

end Signpost.CommandLine
