import Signpost.File.Path
import Signpost.Text.Utf8

/-!
Files under a working directory, as values. Reading tells what is there, or why there is no text to
be had.
-/

namespace Signpost.File

/-- A moment, for comparing the age of files. -/
abbrev Time := Nat

inductive ReadError where
  | notFound
  | notDirectory
  | isDirectory
  | notText
  | badName
  deriving Repr, DecidableEq

/-- How the error is reported, with its system code. -/
def ReadError.described : ReadError → String
  | notFound => "Os \x7b code: 2, kind: NotFound, message: \"No such file or directory\" \x7d"
  | notDirectory => "Os \x7b code: 20, kind: NotADirectory, message: \"Not a directory\" \x7d"
  | isDirectory => "Os \x7b code: 21, kind: IsADirectory, message: \"Is a directory\" \x7d"
  | notText => "Error \x7b kind: InvalidData, message: \"stream did not contain valid UTF-8\" \x7d"
  | badName =>
    "Error \x7b kind: InvalidInput, message: \"file name contained an unexpected NUL byte\" \x7d"

def ReadError.message : ReadError → String
  | notFound => "No such file or directory (os error 2)"
  | notDirectory => "Not a directory (os error 20)"
  | isDirectory => "Is a directory (os error 21)"
  | notText => "stream did not contain valid UTF-8"
  | badName => "file name contained an unexpected NUL byte"

/-- A file: where it is, below the working directory, what it holds, and when that was written. -/
structure Entry where
  names : List Text
  bytes : List Nat
  modified : Time

/-- The files there are, latest first. Their directories exist with them. -/
abbrev Tree := List Entry

namespace Tree

inductive Node where
  | file (e : Entry)
  | directory
  | nothing

def node (tree : Tree) (names : List Text) : Node :=
  match tree.find? (·.names = names) with
  | some e => .file e
  | none =>
    if names = [] ∨ tree.any (fun e => names.isPrefixOf e.names) then .directory else .nothing

/-- Follows steps from the place `here`, whose names are listed last first. -/
def follow (tree : Tree) (here : List Text) : List Component → Except ReadError (List Text)
  | [] => .ok here.reverse
  | step :: rest =>
    match tree.node here.reverse with
    | .nothing => .error .notFound
    | .file _ => .error .notDirectory
    | .directory =>
      match step with
      | .name n => follow tree (n :: here) rest
      | .parent => if here = [] then .error .notFound else follow tree here.tail rest
      | .current => follow tree here rest
      | .root => .error .notFound

/-- What a path leads to. A path that ends in a slash or a dot asks for a directory. -/
def find (tree : Tree) (path : Text) : Except ReadError Node :=
  if '\x00' ∈ path then .error .badName
  else if path = [] then .error .notFound
  else do
    let names ← tree.follow [] (components path)
    match tree.node names with
    | .nothing => .error .notFound
    | .file e =>
      let last := (Text.splitOn '/' path).getLast?
      if last = some [] ∨ last = some ['.'] then .error .notDirectory else .ok (.file e)
    | .directory => .ok .directory

def read (tree : Tree) (path : Text) : Except ReadError Text := do
  match ← tree.find path with
  | .file e =>
    match Text.ofBytes? e.bytes with
    | some t => .ok t
    | none => .error .notText
  | _ => .error .isDirectory

/-- When the file at a path was written; directories are older than all that is loaded. -/
def modified (tree : Tree) (path : Text) : Except ReadError Time := do
  match ← tree.find path with
  | .file e => .ok e.modified
  | _ => .ok 0

def write (tree : Tree) (path : Text) (bytes : List Nat) (modified : Time) : Tree :=
  let names := (components path).filterMap fun c =>
    match c with
    | .name n => some n
    | _ => none
  ⟨names, bytes, modified⟩ :: tree.filter (·.names ≠ names)

end Tree

end Signpost.File
