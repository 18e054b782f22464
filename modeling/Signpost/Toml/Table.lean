import Signpost.Text.Basic

/-!
Values of a TOML text, and tables that are still being filled. A table may be set up by a header, by
a dotted key, or only because something was put below it; which of these it was decides what may be
added later.
-/

namespace Signpost.Toml

/-- A value. Floats and dates are kept as they are written. -/
inductive Value where
  | string (t : Text)
  | integer (i : Int)
  | float (t : Text)
  | boolean (b : Bool)
  | date (t : Text)
  | array (items : List Value)
  | table (entries : List (Text × Value))
  deriving Repr, Inhabited

/-- What stands under a key of a table that is being filled. -/
inductive Item where
  | value (v : Value)
  | table (implied dotted : Bool) (entries : List (Text × Item))
  /-- The tables of an array of them, latest first. -/
  | tables (items : List (List (Text × Item)))
  deriving Inhabited

structure Table where
  /-- No header or value has set it up. -/
  implied : Bool := false
  /-- It was set up by a dotted key. -/
  dotted : Bool := false
  entries : List (Text × Item) := []

namespace Table

def get? (t : Table) (k : Text) : Option Item :=
  t.entries.lookup k

def setEntry (k : Text) (i : Item) : List (Text × Item) → List (Text × Item)
  | [] => [(k, i)]
  | (l, j) :: rest => if k = l then (k, i) :: rest else (l, j) :: setEntry k i rest

def set (t : Table) (k : Text) (i : Item) : Table :=
  { t with entries := setEntry k i t.entries }

def item (t : Table) : Item :=
  .table t.implied t.dotted t.entries

/-- Changes the table that a path leads to, setting up those that are missing. Of an array of tables
it is the last. A dotted path may not lead through a table that has been set up otherwise. -/
def update (dotted : Bool) (change : Table → Option Table) :
    (path : List Text) → Table → Option Table
  | [], t => change t
  | k :: path, t =>
    match t.get? k with
    | none => do
      let child ← update dotted change path ⟨true, dotted, []⟩
      return t.set k child.item
    | some (.value _) => none
    | some (.table implied wasDotted entries) =>
      if dotted && !implied then none
      else do
        let child ← update dotted change path ⟨implied, wasDotted, entries⟩
        return t.set k child.item
    | some (.tables (last :: earlier)) => do
      let child ← update dotted change path { entries := last }
      return t.set k (.tables (child.entries :: earlier))
    | some (.tables []) => none

/-- Puts a value under a key that is free. The path in front of the key, if there is any, has to be
dotted. -/
def add (path : List Text) (k : Text) (v : Value) (t : Table) : Option Table :=
  update true (fun t =>
    if t.dotted == path.isEmpty || (t.get? k).isSome then none
    else some (t.set k (.value v))) path t

/-- Sets up the table of a header. One that is only implied becomes it. -/
def open? (path : List Text) (k : Text) (t : Table) : Option Table :=
  update false (fun t =>
    match t.get? k with
    | none => some (t.set k (item {}))
    | some (.table true false entries) => some (t.set k (item { entries }))
    | some _ => none) path t

def append? (path : List Text) (k : Text) (t : Table) : Option Table :=
  update false (fun t =>
    match t.get? k with
    | none => some (t.set k (.tables [[]]))
    | some (.tables items) => some (t.set k (.tables ([] :: items)))
    | some _ => none) path t

end Table

mutual

def Item.toValue : Item → Value
  | .value v => v
  | .table _ _ entries => .table (entryValues entries)
  | .tables items => .array (tableValues items).reverse

def entryValues : List (Text × Item) → List (Text × Value)
  | [] => []
  | (k, i) :: rest => (k, i.toValue) :: entryValues rest

def tableValues : List (List (Text × Item)) → List Value
  | [] => []
  | entries :: rest => .table (entryValues entries) :: tableValues rest

end

def Table.toValue (t : Table) : Value :=
  .table (entryValues t.entries)

end Signpost.Toml
