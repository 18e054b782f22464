import Signpost.CommandLine.Shape

/-!
Reading the arguments of a command by its shape. An option is given once; its value is joined to it
or is the next argument. After two hyphens every argument is a word.
-/

namespace Signpost.CommandLine

inductive Argument where
  /-- Two hyphens alone. -/
  | escape
  | long (name : Text) (value : Option Text)
  /-- A hyphen and letters. -/
  | letters (t : Text)
  | word (t : Text)
  deriving Repr, DecidableEq

def Argument.ofText : Text → Argument
  | ['-', '-'] => .escape
  | '-' :: '-' :: t =>
    match Text.cutFirst '=' t with
    | some (name, value) => .long name (some value)
    | none => .long t none
  | ['-'] => .word ['-']
  | '-' :: t => .letters t
  | t => .word t

inductive Refusal where
  | help (text : Text)
  | badUsage
  deriving Repr, DecidableEq

structure Given where
  /-- The last option, whose value may still be missing. -/
  pending : Option (OptionShape × Option Text) := none
  /-- The options before it; one without a value has an empty one. -/
  options : List (Text × Text) := []
  words : List Text := []
  deriving Repr

namespace Given

def get? (g : Given) (name : String) : Option Text :=
  g.options.lookup name.toList

/-- Takes in the last option, which has to be complete and given for the first time. -/
def settle (g : Given) : Except Refusal Given :=
  match g.pending with
  | none => .ok g
  | some (_, none) => .error .badUsage
  | some (o, some v) =>
    if (v = [] ∧ !o.mayBeEmpty) ∨ (g.options.lookup o.name).isSome then .error .badUsage
    else .ok ⟨none, g.options ++ [(o.name, v)], g.words⟩

/-- Gives an option, with a value that is joined to it if there is one. -/
def give (g : Given) (help : Text) (o : OptionShape) (joined : Option Text) :
    Except Refusal Given := do
  let g ← g.settle
  match o.value, joined with
  | some _, some v => ({ g with pending := some (o, some v) } : Given).settle
  | some _, none => return { g with pending := some (o, none) }
  | none, some _ => .error .badUsage
  | none, none =>
    if o = OptionShape.help then .error (.help help)
    else ({ g with pending := some (o, some []) } : Given).settle

end Given

def CommandShape.option? (c : CommandShape) (name : Text) : Option OptionShape :=
  c.options.find? (·.name == name)

def CommandShape.letter? (c : CommandShape) (letter : Char) : Option OptionShape :=
  c.options.find? (·.letter == some letter)

/-- Gives the options of letters behind one hyphen. What follows the letter of one with a value is
that value, behind an equals sign if there is one. -/
def CommandShape.giveLetters (c : CommandShape) (help : Text) (g : Given) :
    Text → Except Refusal Given
  | [] => .ok g
  | letter :: rest =>
    match c.letter? letter with
    | none => .error .badUsage
    | some o =>
      if o.value.isSome then
        match rest with
        | [] => g.give help o none
        | '=' :: v => g.give help o (some v)
        | v => g.give help o (some v)
      else do
        let g ← g.give help o none
        c.giveLetters help g rest

/-- The command takes one more word than these. -/
def CommandShape.takesWord (c : CommandShape) (words : List Text) : Bool :=
  words.length < c.words.length || c.words.any (·.repeated)

/-- Reads arguments up to the name of a command below, if there are such, and gives the arguments
behind it with that name in front. -/
def CommandShape.scan (c : CommandShape) (help : Text) : (escaped : Bool) → Given → List Text →
    Except Refusal (Given × List Text)
  | _, g, [] => .ok (g, [])
  | escaped, g, a :: rest =>
    let word (g : Given) : Except Refusal Given := do
      let g ← g.settle
      if c.takesWord g.words then return { g with words := g.words ++ [a] } else .error .badUsage
    if escaped then do c.scan help true (← word g) rest
    else
      match g.pending, Argument.ofText a with
      | _, .escape => c.scan help true g rest
      | _, .long name joined =>
        match c.option? name with
        | some o => do c.scan help false (← g.give help o joined) rest
        | none => .error .badUsage
      | _, .letters t => do c.scan help false (← c.giveLetters help g t) rest
      | some (o, none), .word v => c.scan help false { g with pending := some (o, some v) } rest
      | _, .word t =>
        if c.commands.any (·.1 == t) then .ok (g, a :: rest)
        else do c.scan help false (← word g) rest

def CommandShape.isComplete (c : CommandShape) (g : Given) : Bool :=
  (c.words.filter (·.required)).length ≤ g.words.length

end Signpost.CommandLine
