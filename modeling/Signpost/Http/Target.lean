import Signpost.Text.Utf8

/-!
The target of an HTTP request. It is a star, a path, an authority alone, or an absolute address with
scheme and authority; a fragment is dropped. `Target.read?` refuses text that is none of these.
-/

namespace Signpost.Http

/-- A request target taken apart. Parts that are missing are `none`, except that an absolute address
without a path has the path `/`, and an authority alone has the empty path. -/
structure Target where
  scheme : Option Text
  authority : Option Text
  path : Text
  query : Option Text
  deriving Repr, DecidableEq

namespace Target

def isSchemeChar (c : Char) : Bool :=
  c.isAlphanum || "+-.:~".toList.contains c

def isAddressChar (c : Char) : Bool :=
  c.isAlphanum || "!#$&'()*+,-./:;=?@[]_~".toList.contains c

def isPathChar (c : Char) : Bool :=
  let n := c.toNat
  n == 0x21 || n == 0x22 || (0x24 ≤ n && n ≤ 0x3B) || n == 0x3D ||
    (0x40 ≤ n && n ≤ 0x5F) || 0x61 ≤ n

def isQueryChar (c : Char) : Bool :=
  let n := c.toNat
  n == 0x21 || (0x24 ≤ n && n ≤ 0x3B) || n == 0x3D || 0x3F ≤ n

/-- Splits a scheme off a target: characters of schemes up to `://`, at most 64 of them. The outer
`none` refuses the target, the inner one says that there is no scheme. -/
def readScheme (t : Text) : Option (Option (Text × Text)) :=
  match Text.cutFirst ':' t with
  | some (scheme, '/' :: '/' :: rest) =>
    if !scheme.all isSchemeChar then some none
    else if scheme.length ≤ 64 then some (some (scheme, rest)) else none
  | _ => some none

/-- What has been seen of an authority: colons since the user information or a bracket, brackets, a
percent sign, and whether the last character was an at sign. -/
structure AuthorityScan where
  colons : Nat := 0
  opened : Bool := false
  closed : Bool := false
  percent : Bool := false
  endsInAt : Bool := false

/-- One more character of an authority. A percent sign counts only behind the user information and
the brackets. -/
def AuthorityScan.step (s : AuthorityScan) (c : Char) : Option AuthorityScan :=
  let s := { s with endsInAt := c == '@' }
  match c with
  | ':' => if s.colons < 8 then some { s with colons := s.colons + 1 } else none
  | '[' => if s.percent || s.opened then none else some { s with opened := true }
  | ']' =>
    if !s.opened || s.closed then none else some
      { s with closed := true, colons := 0, percent := false }
  | '@' => some { s with colons := 0, percent := false }
  | '%' => some { s with percent := true }
  | c => if isAddressChar c then some s else none

def endsAuthority (c : Char) : Bool :=
  c == '/' || c == '?' || c == '#'

def readAuthority (t : Text) : Option (Text × Text) := do
  let authority := t.takeWhile fun c => !endsAuthority c
  let s ← authority.foldlM AuthorityScan.step {}
  if s.opened != s.closed || 1 < s.colons || s.endsInAt || s.percent then none
  else return (authority, t.dropWhile fun c => !endsAuthority c)

/-- Reads a path and a query, and drops the fragment. -/
def readPath (t : Text) : Option (Text × Option Text) :=
  let t := t.takeWhile (· ≠ '#')
  match Text.cutFirst '?' t with
  | some (path, query) =>
    if path.all isPathChar && query.all isQueryChar then some (path, some query) else none
  | none => if t.all isPathChar then some (t, none) else none

def maxBytes : Nat := 65534

def read? (t : Text) : Option Target :=
  if maxBytes < (Text.bytes t).length then none
  else match t with
  | ['*'] => some ⟨none, none, ['*'], none⟩
  | '/' :: _ => do
    let (path, query) ← readPath t
    return ⟨none, none, path, query⟩
  | _ => do
    match ← readScheme t with
    | none =>
      match ← readAuthority t with
      | (c :: authority, []) => return ⟨none, some (c :: authority), [], none⟩
      | _ => none
    | some (scheme, rest) =>
      match ← readAuthority rest with
      | ([], _) => none
      | (authority, rest) =>
        let (path, query) ← readPath rest
        return ⟨some (Text.lowerAscii scheme), some authority,
          if path = [] then ['/'] else path, query⟩

end Target

end Signpost.Http
