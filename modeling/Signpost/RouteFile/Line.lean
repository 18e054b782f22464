import Signpost.Route.Basic
import Signpost.Source.Basic

/-!
The lines of route files. A line has a method, a path and an action, then static arguments between
braces and formats between parentheses if there are any, and may end in a comment.
`RouteFile.readLine` gives the definition that a line stands for.
-/

namespace Signpost.RouteFile

def word? (t : Text) : Option (Text × Text) :=
  match Text.trimStart t with
  | [] => none
  | t => some (t.takeWhile fun c => !Text.isBlank c, t.dropWhile fun c => !Text.isBlank c)

/-- The method is a star or a word of ASCII letters. -/
def isMethod (t : Text) : Bool :=
  t == ['*'] || t.all Char.isAlpha

/-- What stands between two quotes of one kind around the whole text. -/
def between? (quote : Char) (t : Text) : Option Text := do
  Text.stripEnd? [quote] (← Text.stripStart? [quote] t)

def unquote (t : Text) : Text :=
  ((between? '\'' t) <|> (between? '"' t)).getD t

/-- The items of a list with commas, trimmed; blank ones do not count. -/
def items (t : Text) : List Text :=
  ((Text.splitOn ',' t).map Text.trim).filter (· ≠ [])

/-- Reads one static argument: a key, a colon and a value, which may be quoted. -/
def readStaticArg (pair : Text) : Except LineFault (Text × Text) :=
  match Text.cutFirst ':' pair with
  | none => .error (.notKeyValue pair)
  | some (key, value) =>
    let key := Text.trim key
    if key = [] then .error (.missingKey pair) else .ok (key, unquote (Text.trim value))

def readStaticArgs (d : RouteDefinition) : List Text → Except LineFault RouteDefinition
  | [] => .ok d
  | pair :: pairs => do
    let (key, value) ← readStaticArg pair
    readStaticArgs (d.withStaticArg key value) pairs

def readFormats (d : RouteDefinition) : List Text → Except LineFault RouteDefinition
  | [] => .ok d
  | item :: rest =>
    match MediaType.ofFormat? item with
    | some m => readFormats (d.withFormat m) rest
    | none => .error (.invalidFormat item)

def readStaticBlock (d : RouteDefinition) (t : Text) : Except LineFault (RouteDefinition × Text) :=
  match t with
  | '{' :: body =>
    match Text.cutFirst '}' body with
    | none => .error .unterminatedStaticArgs
    | some (inside, rest) => do return (← readStaticArgs d (items inside), Text.trimStart rest)
  | _ => .ok (d, t)

def readFormatBlock (d : RouteDefinition) (t : Text) : Except LineFault (RouteDefinition × Text) :=
  match t with
  | '(' :: body =>
    match Text.cutFirst ')' body with
    | none => .error .unterminatedFormats
    | some (inside, rest) => do return (← readFormats d (items inside), Text.trimStart rest)
  | _ => .ok (d, t)

def isComment (t : Text) : Bool :=
  t.head? == some '#'

def readWords (t : Text) : Except LineFault (RouteDefinition × Text) :=
  match word? t with
  | none => .error .missingMethod
  | some (method, rest) =>
    if !isMethod method then .error (.invalidMethod method)
    else match word? rest with
      | none => .error .missingPath
      | some (path, rest) =>
        match word? rest with
        | none => .error .missingAction
        | some (action, rest) => .ok ({ method, path, action }, Text.trimStart rest)

/-- Reads a line that is neither blank nor a comment. -/
def readLine (t : Text) : Except LineFault RouteDefinition := do
  let (d, rest) ← readWords t
  let (d, rest) ← readStaticBlock d rest
  let (d, rest) ← readFormatBlock d rest
  if rest = [] ∨ isComment rest then .ok d else .error (.trailingInput rest)

end Signpost.RouteFile
