import Signpost.Proofs.Text.Cut
import Signpost.Proofs.Text.Decimal
import Signpost.Request

/-!
Authorities put together and taken apart. User information, host and port come apart again at the
last at sign and the last colon, also when the host is an address in brackets with colons of its
own, and the base address of a request has the host of the request and its port, save the one that
the scheme implies. Main statement: `Http.splitAuthority_written`.
-/

namespace Signpost.Http

/-- A host as an authority has it: a name without the signs at which authorities come apart, or an
address in brackets. -/
def IsHost (h : Text) : Prop :=
  (':' ∉ h ∧ '@' ∉ h ∧ ']' ∉ h) ∨ ∃ inside,
    h = '[' :: (inside ++ [']']) ∧ '@' ∉ inside ∧ ']' ∉ inside

/-- User information as an authority has it in front of the host. -/
def writtenUser : Option Text → Text
  | none => []
  | some user => user ++ ['@']

/-- A port as an authority has it behind the host, in decimal with any number of zeros in front. -/
def writtenPort (zeros : Nat) : Option UInt16 → Text
  | none => []
  | some port => ':' :: Text.numeral zeros port.toNat

theorem IsHost.at_not_mem {h : Text} (hh : IsHost h) : '@' ∉ h := by
  rcases hh with ⟨-, hat, -⟩ | ⟨inside, rfl, hat, -⟩
  · exact hat
  · simpa using hat

/-- A host with a colon is in brackets, so the closing one is behind the last colon. -/
theorem IsHost.bracket_mem {h before after : Text} (hh : IsHost h)
    (hcut : Text.cutLast ':' h = some (before, after)) :
    ']' ∈ after := by
  obtain ⟨hsplit, -⟩ := Text.cutLast_eq_some_iff.mp hcut
  rcases hh with ⟨hcolon, -, -⟩ | ⟨inside, hbrackets, -, -⟩
  · rw [hsplit] at hcolon
    simp at hcolon
  · have hlast : h.getLast? = some ']' := by simp [hbrackets, List.getLast?_cons]
    rw [hsplit, List.getLast?_append, List.getLast?_cons] at hlast
    cases hafter : after.getLast? with
    | none => simp [hafter] at hlast
    | some c =>
      obtain rfl : c = ']' := by simpa [hafter] using hlast
      exact List.mem_of_getLast? hafter

theorem not_mem_numeral {zeros n : Nat} {c : Char} (hc : c.isDigit = false) :
    c ∉ Text.numeral zeros n := by
  intro hmem
  rw [Text.isDigit_of_mem_numeral hmem] at hc
  cases hc

theorem at_not_mem_writtenPort (zeros : Nat) (port : Option UInt16) :
    '@' ∉ writtenPort zeros port := by
  cases port with
  | none => simp [writtenPort]
  | some port => simpa [writtenPort] using not_mem_numeral (by rfl)

@[simp]
theorem port?_numeral (zeros : Nat) (port : UInt16) :
    port? (Text.numeral zeros port.toNat) = some port := by
  have hsmall : port.toNat < 65536 := port.toNat_lt
  unfold port?
  split
  · next rest hplus =>
    have hmem : '+' ∈ Text.numeral zeros port.toNat := by simp [hplus]
    exact absurd hmem (not_mem_numeral (by rfl))
  · simp [hsmall]

/-- User information is what stands in front of the last at sign, whatever signs are in it. -/
theorem withoutUserInfo_written (user : Option Text) {t : Text} (ht : '@' ∉ t) :
    withoutUserInfo (writtenUser user ++ t) = t := by
  unfold withoutUserInfo
  cases user with
  | none =>
    have hcut : Text.cutLast '@' t = none := by simpa using ht
    simp [writtenUser, hcut]
  | some user =>
    have hcut : Text.cutLast '@' (writtenUser (some user) ++ t) = some (user, t) :=
      Text.cutLast_eq_some_iff.mpr ⟨by simp [writtenUser], ht⟩
    rw [hcut]

theorem splitAuthority_append {h : Text} (hh : IsHost h) (user : Option Text) (zeros : Nat)
    (port : Option UInt16) :
    splitAuthority (writtenUser user ++ (h ++ writtenPort zeros port)) =
      (Text.lowerAscii h, port) := by
  have hat : '@' ∉ h ++ writtenPort zeros port := by
    rw [List.mem_append, not_or]
    exact ⟨hh.at_not_mem, at_not_mem_writtenPort zeros port⟩
  simp only [splitAuthority, withoutUserInfo_written user hat]
  cases port with
  | none =>
    rw [writtenPort, List.append_nil]
    cases hcut : Text.cutLast ':' h with
    | none => simp only
    | some cut => simp only [if_pos (hh.bracket_mem hcut)]
  | some port =>
    have hcut : Text.cutLast ':' (h ++ writtenPort zeros (some port)) =
        some (h, Text.numeral zeros port.toNat) :=
      Text.cutLast_eq_some_iff.mpr ⟨rfl, not_mem_numeral (by rfl)⟩
    have hbracket : ']' ∉ Text.numeral zeros port.toNat := not_mem_numeral (by rfl)
    simp only [hcut, if_neg hbracket, port?_numeral]

/-- The base address has the port of the request behind the host, unless the scheme implies it. -/
theorem baseUrl_eq (r : Request) {h : Text} (hhost : r.host = some h) :
    r.baseUrl = Request.schemeText r.secure ++
      (h ++ writtenPort 0 (r.port.filter (· ≠ Request.defaultPort r.secure))) := by
  unfold Request.baseUrl
  rw [hhost, Option.getD_some]
  cases r.port with
  | none => simp [writtenPort]
  | some port =>
    by_cases hport : port = Request.defaultPort r.secure <;>
      simp [hport, Option.filter, writtenPort, Text.numeral]

/-- An authority that is written with a host comes apart into the host in small letters and the
port, whatever user information stands in front. The base address of a request with this host is the
scheme and such an authority, which gives the port of the request back unless it is the one that the
scheme implies. -/
theorem splitAuthority_written {h : Text} (hh : IsHost h) :
    (∀ (user : Option Text) (zeros : Nat) (port : Option UInt16),
      splitAuthority (writtenUser user ++ (h ++ writtenPort zeros port)) =
        (Text.lowerAscii h, port)) ∧
    ∀ r : Request, r.host = some h →
      ∃ authority,
        r.baseUrl = (if r.secure then "https://".toList else "http://".toList) ++ authority ∧
        splitAuthority authority = (Text.lowerAscii h,
          r.port.filter (· ≠ if r.secure then 443 else 80)) := by
  constructor
  · exact splitAuthority_append hh
  · intro r hhost
    refine ⟨_, baseUrl_eq r hhost, ?_⟩
    exact splitAuthority_append hh none 0 (r.port.filter (· ≠ Request.defaultPort r.secure))

/-- An address in brackets behind user information with colons and at signs of its own, and the
ports that a secure request writes and leaves out. -/
theorem splitAuthority_written_brackets :
    IsHost "[2001:DB8::1]".toList ∧
      splitAuthority "ann:a@b:8@[2001:DB8::1]:08443".toList = ("[2001:db8::1]".toList, some 8443) ∧
      splitAuthority "ann@[2001:DB8::1]".toList = ("[2001:db8::1]".toList, none) ∧
      (∃ authority,
        ({ host := some "[2001:DB8::1]".toList, port := some 80,
           secure := true } : Request).baseUrl =
        "https://".toList ++ authority ∧
          splitAuthority authority = ("[2001:db8::1]".toList, some 80)) ∧
      ∃ authority,
        ({ host := some "[2001:DB8::1]".toList, port := some 443,
           secure := true } : Request).baseUrl =
        "https://".toList ++ authority ∧
          splitAuthority authority = ("[2001:db8::1]".toList, none) := by
  have hhost : IsHost "[2001:DB8::1]".toList :=
    .inr ⟨"2001:DB8::1".toList, by decide, by decide, by decide⟩
  have hnumeral : Text.numeral 1 8443 = "08443".toList := by
    simp [Text.numeral, Text.decimal, Text.digit]
  obtain ⟨hwritten, hbase⟩ := splitAuthority_written hhost
  have hport := hwritten (some "ann:a@b:8".toList) 1 (some 8443)
  rw [writtenPort, show (8443 : UInt16).toNat = 8443 from rfl, hnumeral] at hport
  exact ⟨hhost, hport, hwritten (some "ann".toList) 0 none, hbase _ rfl, hbase _ rfl⟩

end Signpost.Http
