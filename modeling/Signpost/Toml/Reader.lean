import Signpost.Toml.Quoted
import Signpost.Toml.Scalar

/-!
Reading a TOML text. Headers and dotted keys lead to tables; a key is set once, and a table is set
up once. Arrays and inline tables nest at most 79 deep, and a key has at most 79 parts.
-/

namespace Signpost.Toml

/-- The most parts of a key, and the deepest nesting of values. -/
def maxDepth : Nat := 79

def skipComment (t : Text) : Text :=
  match t with
  | '#' :: rest => rest.dropWhile isPlain
  | _ => t

/-- The text behind the rest of a line, which holds no more than blanks and a comment. -/
def endLine? (t : Text) : Option Text :=
  match skipComment (skipSpace t) with
  | [] => some []
  | rest => newline? rest

def skipBlank : (fuel : Nat) → Text → Option Text
  | 0, t => some t
  | fuel + 1, t =>
    match skipSpace t with
    | '#' :: rest => (newline? (rest.dropWhile isPlain)).bind (skipBlank fuel)
    | '\n' :: rest => skipBlank fuel rest
    | '\r' :: rest => (newline? ('\r' :: rest)).bind (skipBlank fuel)
    | rest => some rest

def isBareChar (c : Char) : Bool :=
  c.isAlphanum || c == '_' || c == '-'

def readKeyPart (t : Text) : Option (Text × Text) :=
  match t with
  | '"' :: rest => readLineString '"' (rest.length + 1) [] rest
  | '\'' :: rest => readLineString '\'' (rest.length + 1) [] rest
  | _ =>
    match t.takeWhile isBareChar with
    | [] => none
    | part => some (part, t.dropWhile isBareChar)

/-- Reads the parts of a key; `path` are those before them, latest first. Gives the path in front of
the last part and that part. -/
def readKeyParts : (fuel : Nat) → (path : List Text) → Text → Option ((List Text × Text) × Text)
  | 0, _, _ => none
  | fuel + 1, path, t => do
    let (part, rest) ← readKeyPart (skipSpace t)
    match skipSpace rest with
    | '.' :: rest => readKeyParts fuel (part :: path) rest
    | rest => return ((path.reverse, part), rest)

def readKey (t : Text) : Option ((List Text × Text) × Text) :=
  readKeyParts maxDepth [] t

mutual

/-- Reads a value in which others may nest `depth` deep. -/
def readValue (fuel depth : Nat) (t : Text) : Option (Value × Text) :=
  match fuel with
  | 0 => none
  | fuel + 1 =>
    match t with
    | '"' :: _ => (readString '"' t).map fun (s, rest) => (.string s, rest)
    | '\'' :: _ => (readString '\'' t).map fun (s, rest) => (.string s, rest)
    | '[' :: rest =>
      match depth with
      | 0 => none
      | depth + 1 => readItems fuel depth [] rest
    | '{' :: rest =>
      match depth with
      | 0 => none
      | depth + 1 =>
        match skipSpace rest with
        | '}' :: rest => some (.table [], rest)
        | rest => readPairs fuel depth {} rest
    | _ => readWord t

/-- Reads the items of an array up to its end; `taken` are those before them, latest first. A comma
may follow the last. -/
def readItems (fuel depth : Nat) (taken : List Value) (t : Text) : Option (Value × Text) :=
  match fuel with
  | 0 => none
  | fuel + 1 => do
    match ← skipBlank (t.length + 1) t with
    | ']' :: rest => return (.array taken.reverse, rest)
    | rest =>
      let (item, rest) ← readValue fuel depth rest
      match ← skipBlank (rest.length + 1) rest with
      | ',' :: rest => readItems fuel depth (item :: taken) rest
      | ']' :: rest => return (.array (item :: taken).reverse, rest)
      | _ => none

def readPairs (fuel depth : Nat) (table : Table) (t : Text) : Option (Value × Text) :=
  match fuel with
  | 0 => none
  | fuel + 1 => do
    let ((path, key), rest) ← readKey t
    let (value, rest) ← readAssigned fuel depth rest
    let table ← table.add path key value
    match skipSpace rest with
    | ',' :: rest => readPairs fuel depth table rest
    | '}' :: rest => return (table.toValue, rest)
    | _ => none

def readAssigned (fuel depth : Nat) (t : Text) : Option (Value × Text) :=
  match fuel with
  | 0 => none
  | fuel + 1 =>
    match t with
    | '=' :: rest => readValue fuel depth (skipSpace rest)
    | _ => none

end

structure Progress where
  root : Table := {}
  /-- Where the table of the last header is. -/
  current : List Text := []

def readHeader (closing : Text) (set : List Text → Text → Table → Option Table) (p : Progress)
    (t : Text) :
    Option (Progress × Text) := do
  let ((path, key), rest) ← readKey t
  let rest ← endLine? (← Text.stripStart? closing rest)
  return (⟨← set path key p.root, path ++ [key]⟩, rest)

def readEntry (p : Progress) (t : Text) : Option (Progress × Text) := do
  let ((path, key), rest) ← readKey t
  let (value, rest) ← readAssigned (2 * t.length + 2) maxDepth rest
  let root ← p.root.update false (Table.add path key value) p.current
  return ({ p with root }, ← endLine? rest)

def readLines : (fuel : Nat) → Progress → Text → Option Table
  | 0, _, _ => none
  | fuel + 1, p, t =>
    match skipSpace t with
    | [] => some p.root
    | '#' :: rest => (endLine? ('#' :: rest)).bind (readLines fuel p)
    | '[' :: '[' :: rest => do
      let (p, rest) ← readHeader [']', ']'] Table.append? p rest
      readLines fuel p rest
    | '[' :: rest => do
      let (p, rest) ← readHeader [']'] Table.open? p rest
      readLines fuel p rest
    | c :: rest =>
      match newline? (c :: rest) with
      | some rest => readLines fuel p rest
      | none => do
        let (p, rest) ← readEntry p (c :: rest)
        readLines fuel p rest

def dropMark (t : Text) : Text :=
  match t with
  | '\ufeff' :: rest => rest
  | _ => t

def read? (t : Text) : Option Value :=
  (readLines (t.length + 1) {} (dropMark t)).map Table.toValue

end Signpost.Toml
