import Signpost.Text.Decimal

/-!
Hosts and ports in one text, as the host field of a request has them.
-/

namespace Signpost.Http

/-- Reads a port: decimal digits, with a plus sign allowed in front, for at most 65535. -/
def port? (t : Text) : Option UInt16 := do
  let digits := match t with
    | '+' :: rest => rest
    | _ => t
  let n ← Text.decimalValue? digits
  if n < 65536 then return n.toUInt16 else none

/-- The text behind the user information, which ends in the last at sign. -/
def withoutUserInfo (t : Text) : Text :=
  match Text.cutLast '@' t with
  | some (_, rest) => rest
  | none => t

/-- Splits an authority into host, in small letters, and port. The port follows the last colon,
unless that lies in a bracket; a port that cannot be read is dropped. -/
def splitAuthority (t : Text) : Text × Option UInt16 :=
  let t := withoutUserInfo t
  match Text.cutLast ':' t with
  | some (host, port) =>
    if ']' ∈ port then (Text.lowerAscii t, none) else (Text.lowerAscii host, port? port)
  | none => (Text.lowerAscii t, none)

end Signpost.Http
