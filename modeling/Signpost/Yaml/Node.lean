import Signpost.Yaml.Token

/-!
The tree of nodes that tokens describe. A node may have a tag, and an anchor under which it can
stand again. An anchor has the number of anchors known when it is set, and an alias means the node
whose anchor had its number last.
-/

namespace Signpost.Yaml

inductive Node where
  /-- The node under the anchor of this number. -/
  | alias (number : Nat)
  | scalar (tag : Option Text) (plain : Bool) (text : Text)
  | sequence (tag : Option Text) (items : List Node)
  | mapping (tag : Option Text) (entries : List (Node × Node))
  deriving Repr, Inhabited

/-- A scalar that is left out. -/
def Node.empty : Node :=
  .scalar none true []

structure Tokens where
  ahead : List Token
  handles : List (Text × Text) := []
  anchors : List (Text × Nat) := []
  /-- The anchored nodes that have been begun, latest first, by the numbers of their anchors. -/
  begun : List Nat := []
  /-- The anchored nodes that are complete, by how many were begun before them. -/
  complete : List (Nat × Node) := []

abbrev Read := StateT Tokens Option

namespace Read

def peek : Read (Option Token) := do
  return (← get).ahead.head?

def advance : Read Unit :=
  modify fun s => { s with ahead := s.ahead.tail }

def expect (t : Token) : Read Unit := do
  if (← peek) = some t then advance else failure

def nextIn (ts : List Token) : Read Bool := do
  return (← peek).any ts.contains

def tagName (t : WrittenTag) : Read Text := do
  if t.handle = [] then return t.rest
  else
    match (← get).handles.lookup t.handle with
    | some stands => return stands ++ t.rest
    | none => failure

def tag? : Read (Option Text) := do
  match ← peek with
  | some (.tag t) => advance; return some (← tagName t)
  | _ => return none

def anchor? : Read (Option Text) := do
  match ← peek with
  | some (.anchor name) => advance; return some name
  | _ => return none

/-- Reads the anchor and the tag of a node, in either order. -/
def properties : Read (Option Text × Option Text) := do
  match ← anchor? with
  | some name => return (some name, ← tag?)
  | none =>
    match ← tag? with
    | some t => return (← anchor?, some t)
    | none => return (none, none)

def begin (name : Text) : Read Nat := do
  let s ← get
  let number := s.anchors.length
  let known := s.anchors.filter fun a => a.1 != name
  set { s with anchors := (name, number) :: known, begun := number :: s.begun }
  return s.begun.length

/-- Completes the node that was begun after so many others. -/
def complete (position : Nat) (n : Node) : Read Unit :=
  modify fun s => { s with complete := (position, n) :: s.complete }

def aliased (name : Text) : Read Node := do
  match (← get).anchors.lookup name with
  | some number => return .alias number
  | none => failure

mutual

/-- Reads a node. Blocks may be ruled out, and a sequence may stand in the column of the mapping
that it is a value of. -/
def node (fuel : Nat) (block unindented : Bool) : Read Node :=
  match fuel with
  | 0 => failure
  | fuel + 1 => do
    match ← peek with
    | some (.alias name) => advance; aliased name
    | _ =>
      match ← properties with
      | (some name, tag) =>
        let position ← begin name
        let n ← content fuel block unindented tag true
        complete position n
        return n
      | (none, tag) => content fuel block unindented tag tag.isSome

/-- Reads a node behind its properties. If it has any, it may be left out. -/
def content (fuel : Nat) (block unindented : Bool) (tag : Option Text) (optional : Bool) :
    Read Node :=
  match fuel with
  | 0 => failure
  | fuel + 1 => do
    match ← peek with
    | some (.scalar plain t) => advance; return .scalar (tag.filter (· ≠ ['!'])) plain t
    | some .flowSequenceStart => advance; return .sequence tag (← flowItems fuel true [])
    | some .flowMappingStart => advance; return .mapping tag (← flowEntries fuel true [])
    | some .blockEntry =>
      if unindented then return .sequence tag (← unindentedItems fuel [])
      else if optional then return .scalar tag true []
      else failure
    | some .blockSequenceStart =>
      if block then advance; return .sequence tag (← blockItems fuel [])
      else if optional then return .scalar tag true []
      else failure
    | some .blockMappingStart =>
      if block then advance; return .mapping tag (← blockEntries fuel [])
      else if optional then return .scalar tag true []
      else failure
    | _ => if optional then return .scalar tag true [] else failure

/-- Reads a node unless one of these tokens shows that it is left out. -/
def nodeUnless (fuel : Nat) (block unindented : Bool) (ends : List Token) : Read Node :=
  match fuel with
  | 0 => failure
  | fuel + 1 => do
    if ← nextIn ends then return .empty else node fuel block unindented

def blockItems (fuel : Nat) (taken : List Node) : Read (List Node) :=
  match fuel with
  | 0 => failure
  | fuel + 1 => do
    match ← peek with
    | some .blockEntry =>
      advance
      let item ← nodeUnless fuel true false [.blockEntry, .blockEnd]
      blockItems fuel (item :: taken)
    | some .blockEnd => advance; return taken.reverse
    | _ => failure

/-- Reads the items of a block sequence in the column of its mapping, which ends with another
token. -/
def unindentedItems (fuel : Nat) (taken : List Node) : Read (List Node) :=
  match fuel with
  | 0 => failure
  | fuel + 1 => do
    match ← peek with
    | some .blockEntry =>
      advance
      let item ← nodeUnless fuel true false [.blockEntry, .key, .value, .blockEnd]
      unindentedItems fuel (item :: taken)
    | _ => return taken.reverse

def blockEntries (fuel : Nat) (taken : List (Node × Node)) : Read (List (Node × Node)) :=
  match fuel with
  | 0 => failure
  | fuel + 1 => do
    match ← peek with
    | some .key =>
      advance
      let key ← nodeUnless fuel true true [.key, .value, .blockEnd]
      let value ← blockValue fuel
      blockEntries fuel ((key, value) :: taken)
    | some .blockEnd => advance; return taken.reverse
    | _ => failure

def blockValue (fuel : Nat) : Read Node :=
  match fuel with
  | 0 => failure
  | fuel + 1 => do
    match ← peek with
    | some .value => advance; nodeUnless fuel true true [.key, .value, .blockEnd]
    | _ => return .empty

/-- Reads the items of a flow sequence. Behind the first, a comma precedes each. An item with the
mark of a key is a mapping of one entry. -/
def flowItems (fuel : Nat) (first : Bool) (taken : List Node) : Read (List Node) :=
  match fuel with
  | 0 => failure
  | fuel + 1 => do
    if ← nextIn [.flowSequenceEnd] then advance; return taken.reverse
    else
      if !first then expect .flowEntry
      match ← peek with
      | some .flowSequenceEnd => advance; return taken.reverse
      | some .key =>
        advance
        let entry ← flowPair fuel
        flowItems fuel false (.mapping none [entry] :: taken)
      | _ =>
        let item ← node fuel false false
        flowItems fuel false (item :: taken)

/-- Reads the entry of an item that is a mapping of one entry. Where its key is left out, the token
behind it is passed over. -/
def flowPair (fuel : Nat) : Read (Node × Node) :=
  match fuel with
  | 0 => failure
  | fuel + 1 => do
    if ← nextIn [.value, .flowEntry, .flowSequenceEnd] then
      advance
      return (.empty, ← flowValue fuel .flowSequenceEnd)
    else
      let key ← node fuel false false
      return (key, ← flowValue fuel .flowSequenceEnd)

def flowValue (fuel : Nat) (closing : Token) : Read Node :=
  match fuel with
  | 0 => failure
  | fuel + 1 => do
    match ← peek with
    | some .value => advance; nodeUnless fuel false false [.flowEntry, closing]
    | _ => return .empty

/-- Reads the entries of a flow mapping. A node without the mark of a key is a key without a
value. -/
def flowEntries (fuel : Nat) (first : Bool) (taken : List (Node × Node)) :
    Read (List (Node × Node)) :=
  match fuel with
  | 0 => failure
  | fuel + 1 => do
    if ← nextIn [.flowMappingEnd] then advance; return taken.reverse
    else
      if !first then expect .flowEntry
      match ← peek with
      | some .flowMappingEnd => advance; return taken.reverse
      | some .key =>
        advance
        let key ← nodeUnless fuel false false [.value, .flowEntry, .flowMappingEnd]
        let value ← flowValue fuel .flowMappingEnd
        flowEntries fuel false ((key, value) :: taken)
      | _ =>
        let key ← node fuel false false
        flowEntries fuel false ((key, .empty) :: taken)

end

/-- The handles that stand for something without a directive. -/
def standardHandles : List (Text × Text) :=
  [("!".toList, "!".toList), ("!!".toList, "tag:yaml.org,2002:".toList)]

/-- Reads directives. There may be one version, 1.1 or 1.2, and one meaning of each handle. -/
def directives : (fuel : Nat) → (versioned : Bool) → Read Unit
  | 0, _ => failure
  | fuel + 1, versioned => do
    match ← peek with
    | some (.directive (.version major minor)) =>
      if versioned ∨ major ≠ 1 ∨ (minor ≠ 1 ∧ minor ≠ 2) then failure
      else advance; directives fuel true
    | some (.directive (.tagHandle handle stands)) =>
      let s ← get
      if (s.handles.lookup handle).isSome then failure
      else
        set { s with handles := s.handles ++ [(handle, stands)] }
        advance; directives fuel versioned
    | _ => modify fun s => { s with handles := s.handles ++ standardHandles }

/-- Passes over the marks behind a document, after which nothing may follow. -/
def ending : (fuel : Nat) → Read Unit
  | 0 => failure
  | fuel + 1 => do
    match ← peek with
    | none => return
    | some .documentEnd => advance; ending fuel
    | some _ => failure

def document (fuel : Nat) : Read Node := do
  match ← peek with
  | none => return .empty
  | some (.directive _) | some .documentStart =>
    directives fuel false
    expect .documentStart
    let root ← match ← peek with
      | none | some (.directive _) | some .documentStart | some .documentEnd => pure Node.empty
      | _ => node fuel true false
    ending fuel
    return root
  | _ =>
    directives fuel false
    let root ← node fuel true false
    ending fuel
    return root

end Read

structure Tree where
  root : Node
  /-- The anchored nodes in the order in which they begin, by the numbers of their anchors. -/
  anchored : List (Nat × Node)

/-- The node under the anchor of a number: the last that began. -/
def Tree.find? (t : Tree) (number : Nat) : Option Node :=
  t.anchored.reverse.lookup number

def Tokens.anchored (s : Tokens) : List (Nat × Node) :=
  s.begun.reverse.zipIdx.filterMap fun (number, i) => (s.complete.lookup i).map fun n => (number, n)

def Tree.ofTokens? (ts : List Token) : Option Tree := do
  let (root, s) ← (Read.document (4 * ts.length + 8)).run { ahead := ts }
  return ⟨root, s.anchored⟩

end Signpost.Yaml
