/-!
Text as a list of characters, and the operations on it that routing needs: cutting at separators,
replacing every occurrence of a piece, and the case of ASCII letters. Nothing here looks at bytes,
so no cut can fall inside a character.
-/

namespace Signpost

/-- Text is a list of characters, so that what is said of it follows from the laws of lists. -/
abbrev Text := List Char

namespace Text

def lowerAscii (t : Text) : Text :=
  t.map Char.toLower

def upperAscii (t : Text) : Text :=
  t.map Char.toUpper

/-- Equal up to the case of ASCII letters. -/
def eqIgnoreCase (a b : Text) : Bool :=
  lowerAscii a == lowerAscii b

/-- Cuts at the first occurrence of a character, which is left out. -/
def cutFirst (separator : Char) : Text → Option (Text × Text)
  | [] => none
  | c :: rest =>
    if c = separator then some ([], rest)
    else (cutFirst separator rest).map fun (before, after) => (c :: before, after)

theorem length_cutFirst {separator : Char} {t before after : Text}
    (h : cutFirst separator t = some (before, after)) : after.length < t.length := by
  induction t generalizing before with
  | nil => simp [cutFirst] at h
  | cons c rest ih =>
    by_cases hc : c = separator
    · simp only [cutFirst, hc, ↓reduceIte, Option.some.injEq, Prod.mk.injEq] at h
      simp [h.2]
    · simp only [cutFirst, hc, ↓reduceIte, Option.map_eq_some_iff] at h
      obtain ⟨⟨b, a⟩, hcut, heq⟩ := h
      simp only [Prod.mk.injEq] at heq
      have := ih (heq.2 ▸ hcut)
      simp only [List.length_cons]
      omega

def cutLast (separator : Char) : Text → Option (Text × Text)
  | [] => none
  | c :: rest =>
    match cutLast separator rest with
    | some (before, after) => some (c :: before, after)
    | none => if c = separator then some ([], rest) else none

/-- The pieces between the occurrences of a character; always at least one piece. -/
def splitOn (separator : Char) : Text → List Text
  | [] => [[]]
  | c :: rest =>
    if c = separator then [] :: splitOn separator rest
    else match splitOn separator rest with
      | piece :: more => (c :: piece) :: more
      | [] => [[c]]

/-- The lines of a text: the pieces between its line feeds. -/
def lines (t : Text) : List Text :=
  splitOn '\n' t

def join (separator : Text) : List Text → Text
  | [] => []
  | [piece] => piece
  | piece :: more => piece ++ separator ++ join separator more

@[simp]
theorem splitOn_ne_nil (separator : Char) (t : Text) : splitOn separator t ≠ [] := by
  cases t with
  | nil => simp [splitOn]
  | cons c rest =>
    by_cases hc : c = separator
    · simp [splitOn, hc]
    · cases h : splitOn separator rest <;> simp [splitOn, hc, h]

/-- Replaces occurrences of `piece` after passing over the first `skip` characters, which an
occurrence has used. -/
def replaceFrom (piece replacement : Text) : (skip : Nat) → Text → Text
  | _, [] => []
  | skip + 1, _ :: rest => replaceFrom piece replacement skip rest
  | 0, c :: rest =>
    if piece ≠ [] ∧ piece.isPrefixOf (c :: rest) then
      replacement ++ replaceFrom piece replacement (piece.length - 1) rest
    else c :: replaceFrom piece replacement 0 rest

/-- Replaces every occurrence of `piece`, from left to right and without overlap. An empty piece
occurs nowhere. -/
def replaceAll (piece replacement t : Text) : Text :=
  replaceFrom piece replacement 0 t

def stripStart? : (piece : Text) → Text → Option Text
  | [], t => some t
  | _ :: _, [] => none
  | p :: piece, c :: rest => if p = c then stripStart? piece rest else none

def stripEnd? (piece t : Text) : Option Text :=
  (stripStart? piece.reverse t.reverse).map List.reverse

def holds (piece : Text) : Text → Bool
  | [] => piece.isEmpty
  | c :: rest => piece.isPrefixOf (c :: rest) || holds piece rest

/-- Pads with spaces on the right up to a width in characters; longer text stays whole. -/
def padRight (width : Nat) (t : Text) : Text :=
  t ++ List.replicate (width - t.length) ' '

end Text

end Signpost
