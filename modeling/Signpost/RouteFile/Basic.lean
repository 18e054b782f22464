import Signpost.RouteFile.Line

/-!
Route files: one route a line, blank lines and comments left out. Reading stops at the first line
that is faulty or whose route does not compile.
-/

namespace Signpost.RouteFile

/-- The line holds no route. -/
def isIdle (line : Text) : Bool :=
  line.isEmpty || isComment line

def readRoute (name : Text) (number : Nat) (line : Text) : Except LoadError Route :=
  match readLine line with
  | .error fault => .error (.syntaxError name number fault)
  | .ok d =>
    match Route.compile { d with origin := some ⟨name, some number⟩ } with
    | .error cause => .error (.route name (.line number) cause)
    | .ok route => .ok route

/-- Reads lines, the first of which has the given number. -/
def readLines (name : Text) (number : Nat) : List Text → Except LoadError (List Route)
  | [] => .ok []
  | raw :: rest =>
    let line := Text.trim raw
    if isIdle line then readLines name (number + 1) rest
    else do
      let route ← readRoute name number line
      return route :: (← readLines name (number + 1) rest)

def read (name content : Text) : Except LoadError (List Route) :=
  readLines name 1 (Text.lines content)

end Signpost.RouteFile
