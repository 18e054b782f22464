import Signpost.Yaml.Node
import Signpost.Yaml.Scalar

/-!
Reading a YAML text that is one document. Aliases are replaced by the nodes they mean, a key stands
once in a mapping, and collections nest at most 128 deep. So that aliases of aliases do not grow
without bound, there is a limit to how many are replaced.
-/

namespace Signpost.Yaml

def maxDepth : Nat := 128

/-- The name of a local tag, without its mark. -/
def localName? : Option Text → Option Text
  | some ['!'] => some ['!']
  | some ('!' :: name) => some name
  | _ => none

mutual

/-- The number of nodes, with both ends of a collection counted. -/
def Node.weight : Node → Nat
  | .alias _ => 1
  | .scalar _ _ _ => 1
  | .sequence _ items => 2 + weightOfItems items
  | .mapping _ entries => 2 + weightOfEntries entries

def weightOfItems : List Node → Nat
  | [] => 0
  | n :: rest => n.weight + weightOfItems rest

def weightOfEntries : List (Node × Node) → Nat
  | [] => 0
  | (k, v) :: rest => k.weight + v.weight + weightOfEntries rest

end

/-- Reading values, with the number of aliases that may still be replaced. -/
abbrev Replace := StateT Nat Option

mutual

/-- The value of a node. `depth` more collections may be nested. The keys of a mapping under a local
tag are read as if they had no tag themselves. -/
def Node.value (find : Nat → Option Node) (fuel depth : Nat) (untagged : Bool) (n : Node) :
    Replace Document :=
  match fuel with
  | 0 => failure
  | fuel + 1 =>
    match n with
    | .alias number => do
      match ← get with
      | 0 => failure
      | left + 1 =>
        set left
        match find number with
        | some target => target.value find fuel depth false
        | none => failure
    | .scalar tag plain t =>
      if untagged then StateT.lift (untaggedValue? plain t)
      else
        match tag, localName? tag with
        | _, some name => return .tagged name (← StateT.lift (untaggedValue? plain t))
        | some tag, none => StateT.lift (globalValue? tag t)
        | none, none => StateT.lift (untaggedValue? plain t)
    | .sequence tag items =>
      match depth with
      | 0 => failure
      | depth + 1 => do
        let value := Document.sequence (← itemValues find fuel depth items)
        return if untagged then value else (localName? tag).elim value (.tagged · value)
    | .mapping tag entries =>
      match depth with
      | 0 => failure
      | depth + 1 => do
        let keysUntagged := untagged || (localName? tag).isSome
        let value := Document.mapping (← entryValues find fuel depth keysUntagged [] entries)
        return if untagged then value else (localName? tag).elim value (.tagged · value)

def itemValues (find : Nat → Option Node) (fuel depth : Nat) : List Node → Replace (List Document)
  | [] => return []
  | n :: rest =>
    match fuel with
    | 0 => failure
    | fuel + 1 => do
      let value ← n.value find fuel depth false
      return value :: (← itemValues find fuel depth rest)

def entryValues (find : Nat → Option Node) (fuel depth : Nat) (untagged : Bool)
    (taken : List (Document × Document)) :
    List (Node × Node) → Replace (List (Document × Document))
  | [] => return taken.reverse
  | (k, v) :: rest =>
    match fuel with
    | 0 => failure
    | fuel + 1 => do
      let key ← k.value find fuel depth untagged
      if taken.any fun e => e.1 == key then failure
      else
        let value ← v.value find fuel depth false
        entryValues find fuel depth untagged ((key, value) :: taken) rest

end

def Tree.value? (t : Tree) : Option Document :=
  let weight := t.root.weight
  let value := t.root.value t.find? ((maxDepth + 2) * (weight + 2)) maxDepth false
  (value.run (100 * weight)).map (·.1)

def read? (t : Text) : Option Document := do
  (← Tree.ofTokens? (← Token.ofText? t)).value?

end Signpost.Yaml
