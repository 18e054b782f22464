import Signpost.Text.Basic

/-!
Paths of files. A path is a row of names between slashes; empty names and single dots count only at
its start, where they tell whether it begins at the root or at the current directory.
-/

namespace Signpost.File

inductive Component where
  | root
  | current
  | parent
  | name (t : Text)
  deriving Repr, DecidableEq

/-- The steps of the names between slashes, without those that lead nowhere. -/
def steps (names : List Text) : List Component :=
  names.filterMap fun n =>
    if n = [] ∨ n = ['.'] then none
    else if n = ['.', '.'] then some .parent
    else some (.name n)

def components (path : Text) : List Component :=
  let names := Text.splitOn '/' path
  match path with
  | '/' :: _ => .root :: steps names
  | _ => if names.head? = some ['.'] then .current :: steps names else steps names

/-- The name of the file that a path leads to, if its last step is a name. -/
def fileName? (path : Text) : Option Text :=
  match (components path).getLast? with
  | some (.name n) => some n
  | _ => none

/-- The extension of a file: what follows the last dot of its name, unless the name starts with
it. -/
def extension? (path : Text) : Option Text := do
  let (stem, extension) ← Text.cutLast '.' (← fileName? path)
  if stem = [] then none else some extension

def isAbsolute (path : Text) : Bool :=
  path.head? == some '/'

/-- Steps that a path ends with and that lead nowhere: slashes, and dots between them. -/
def dropIdleEnd (reversed : Text) : (fuel : Nat) → Text
  | 0 => reversed
  | fuel + 1 =>
    match reversed with
    | '/' :: rest => dropIdleEnd rest fuel
    | '.' :: '/' :: rest => dropIdleEnd ('/' :: rest) fuel
    | _ => reversed

/-- The path without its last step; the root and the empty path have none to lose. -/
def parent? (path : Text) : Option Text :=
  match (components path).getLast? with
  | none => none
  | some .root => none
  | some _ =>
    let path := (dropIdleEnd path.reverse path.length).reverse
    let before := (path.reverse.dropWhile (· ≠ '/')).reverse
    let trimmed := (dropIdleEnd before.reverse before.length).reverse
    some (if trimmed = [] ∧ before.head? = some '/' then ['/'] else trimmed)

def join (directory path : Text) : Text :=
  if isAbsolute path then path
  else if directory = [] ∨ directory.getLast? = some '/' then directory ++ path
  else directory ++ '/' :: path

end Signpost.File
