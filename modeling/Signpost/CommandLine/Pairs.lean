import Signpost.Args

/-!
Arguments of an action from texts with a key and a value. A key that comes again makes a list of its
values.
-/

namespace Signpost.Args

/-- The arguments with one more value under a key: a single one if it is the first, else the last of
a list. -/
def collect (args : Args) (key value : Text) : Args :=
  args.insert key <|
    match args.get? key with
    | none => .single value
    | some (.single first) => .list [first, value]
    | some (.list values) => .list (values ++ [value])

/-- Adds texts of the form `key=value`, or gives the first that has no equals sign. -/
def collectPairs (args : Args) : List Text → Except Text Args
  | [] => .ok args
  | pair :: rest =>
    match Text.cutFirst '=' pair with
    | none => .error pair
    | some (key, value) => collectPairs (args.collect key value) rest

def ofPairs (pairs : List Text) : Except Text Args :=
  collectPairs ∅ pairs

end Signpost.Args
