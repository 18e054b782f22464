import Signpost.Text.Basic
import Signpost.Unicode.ScriptTable

/-!
The scripts of the world's writing, found by name.
-/

namespace Signpost.Unicode

def hexValue (cs : Text) : Nat :=
  cs.foldl (fun n c =>
    n * 16 + (if c.isDigit then c.toNat - '0'.toNat else c.toNat - 'a'.toNat + 10)) 0

/-- Reads the runs of one script; `last` is the last code point read so far. -/
def readScriptRuns (last : Nat) : List Text → List (Nat × Nat)
  | [] => []
  | run :: more =>
    match Text.splitOn '-' run with
    | [start, reach] =>
      let first := last + hexValue start
      (first, first + hexValue reach) :: readScriptRuns (first + hexValue reach) more
    | _ =>
      let first := last + hexValue run
      (first, first) :: readScriptRuns first more

/-- The runs of the script that has this name, written in small letters without separators. -/
def scriptRuns? (name : Text) : Option (List (Nat × Nat)) :=
  (Text.splitOn ';' scriptRuns.toList).findSome? fun entry =>
    match Text.splitOn '=' entry with
    | [names, runs] =>
      if name ∈ Text.splitOn '|' names then some (readScriptRuns 0 (Text.splitOn ',' runs))
      else none
    | _ => none

end Signpost.Unicode
