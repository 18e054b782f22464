import Signpost.Text.Basic

/-!
Templates as tokens: literal text and placeholders, which are written between braces as a name with
an optional constraint between angles in front of it. `tokenize` takes every template apart, and the
printed tokens of a template in a row are the template.
-/

namespace Signpost

inductive Token where
  | literal (t : Text)
  | placeholder (name : Text) (constraint : Option Text)
  deriving Repr, DecidableEq

namespace Token

def text : Token → Text
  | literal t => t
  | placeholder name (some constraint) => ['{', '<'] ++ constraint ++ ['>'] ++ name ++ ['}']
  | placeholder name none => ['{'] ++ name ++ ['}']

def isNameChar (c : Char) : Bool :=
  c.isAlphanum || c == '_'

def readName? (constraint : Option Text) (t : Text) : Option (Token × Text) :=
  match t.takeWhile isNameChar, t.dropWhile isNameChar with
  | c :: name, '}' :: rest => some (placeholder (c :: name) constraint, rest)
  | _, _ => none

def readPlaceholder? (t : Text) : Option (Token × Text) :=
  match t with
  | '<' :: rest =>
    match Text.cutFirst '>' rest with
    | some (c :: constraint, rest) => readName? (some (c :: constraint)) rest
    | _ => none
  | _ => readName? none t

/-- Puts a character in front of tokens, into their first literal if they start with one. -/
def addChar (c : Char) : List Token → List Token
  | literal t :: rest => literal (c :: t) :: rest
  | tokens => literal [c] :: tokens

theorem length_readName? {constraint : Option Text} {t rest : Text} {token : Token}
    (h : readName? constraint t = some (token, rest)) : rest.length < t.length := by
  unfold readName? at h
  split at h
  · next heq =>
    simp only [Option.some.injEq, Prod.mk.injEq] at h
    have hle := (List.dropWhile_suffix isNameChar (l := t)).length_le
    rw [heq, List.length_cons] at hle
    rw [← h.2]
    omega
  · simp at h

theorem length_readPlaceholder? {t rest : Text} {token : Token}
    (h : readPlaceholder? t = some (token, rest)) : rest.length < t.length := by
  unfold readPlaceholder? at h
  split at h
  · split at h
    · next hcut =>
      have h₁ := Text.length_cutFirst hcut
      have h₂ := length_readName? h
      simp only [List.length_cons]
      omega
    · simp at h
  · exact length_readName? h

end Token

/-- Takes a template apart. A brace that does not open a well-formed placeholder is literal text. -/
def tokenize : Text → List Token
  | [] => []
  | c :: rest =>
    if c = '{' then
      match h : Token.readPlaceholder? rest with
      | some (token, after) =>
        have : after.length < rest.length := Token.length_readPlaceholder? h
        token :: tokenize after
      | none => Token.addChar c (tokenize rest)
    else Token.addChar c (tokenize rest)
termination_by t => t.length

end Signpost
