import Signpost.Proofs.Text.Cut
import Signpost.Proofs.Url.FormEncoding
import Signpost.Text.Decimal

/-!
Reading what the encoding of forms has written. Every text comes back from its encoding, and a form
of names and values, which joins each name and value by an equals sign and these by ampersands,
comes back pair by pair. Main statements: `Url.decode?_encode` and `Url.readForm?_join`.
-/

namespace Signpost.Url

/-- The bytes that an encoded text stands for: a percent sign and two hexadecimal digits are a byte,
a plus sign is a space, and any other character stands for itself. -/
def formBytes? : Text → Option (List Nat)
  | [] => some []
  | c :: rest =>
    if c = '%' then
      match rest with
      | high :: low :: rest => do
        let high ← Text.digitValue? 16 high
        let low ← Text.digitValue? 16 low
        return (high * 16 + low) :: (← formBytes? rest)
      | _ => none
    else (formBytes? rest).map ((if c = '+' then Text.charBytes ' ' else Text.charBytes c) ++ ·)

def decode? (t : Text) : Option Text :=
  (formBytes? t).bind Text.ofBytes?

/-- A name and a value, with an equals sign between them; without one, the value is empty. -/
def readPair? (piece : Text) : Option (Text × Text) := do
  let (name, value) := (Text.cutFirst '=' piece).getD (piece, [])
  return (← decode? name, ← decode? value)

/-- The pairs of a form, which stand between its ampersands. -/
def readForm? (form : Text) : Option (List (Text × Text)) :=
  ((Text.splitOn '&' form).filter (· ≠ [])).mapM readPair?

theorem formBytes?_cons {c : Char} (h : c ≠ '%') (rest : Text) :
    formBytes? (c :: rest) =
      (formBytes? rest).map ((if c = '+' then Text.charBytes ' ' else Text.charBytes c) ++ ·) := by
  rw [formBytes?.eq_def]
  exact if_neg h

theorem digitValue?_hexDigit {n : Nat} (h : n < 16) :
    Text.digitValue? 16 (hexDigit n) = some n := by
  have hdigits : ∀ n < 16, Text.digitValue? 16 (hexDigit n) = some n := by decide
  exact hdigits n h

theorem formBytes?_percentByte {b : Nat} (h : b < 0x100) (rest : Text) :
    formBytes? (percentByte b ++ rest) = (formBytes? rest).map (b :: ·) := by
  have hhigh : Text.digitValue? 16 (hexDigit (b / 16)) = some (b / 16) :=
    digitValue?_hexDigit (by omega)
  have hlow : Text.digitValue? 16 (hexDigit (b % 16)) = some (b % 16) :=
    digitValue?_hexDigit (by omega)
  have hbyte : b / 16 * 16 + b % 16 = b := by omega
  rw [percentByte, List.cons_append, List.cons_append, List.cons_append, List.nil_append,
    formBytes?, if_pos rfl]
  simp only [hhigh, hlow, Option.bind_eq_bind, Option.bind_some, hbyte]
  cases formBytes? rest <;> rfl

theorem formBytes?_percentBytes {bs : List Nat} (h : ∀ b ∈ bs, b < 0x100) (rest : Text) :
    formBytes? (bs.flatMap percentByte ++ rest) = (formBytes? rest).map (bs ++ ·) := by
  induction bs with
  | nil => exact Option.map_id.symm ▸ rfl
  | cons b bs ih =>
    obtain ⟨hb, hbs⟩ := List.forall_mem_cons.mp h
    rw [List.flatMap_cons, List.append_assoc, formBytes?_percentByte hb, ih hbs, Option.map_map]
    rfl

theorem ne_of_isFormSafe {c : Char} (h : isFormSafe c = true) : c ≠ '%' ∧ c ≠ '+' := by
  constructor <;> rintro rfl <;> cases h

/-- The encoding of a character is read as its bytes, whatever follows it. -/
theorem formBytes?_encodeChar (c : Char) (rest : Text) :
    formBytes? (encodeChar c ++ rest) = (formBytes? rest).map (Text.charBytes c ++ ·) := by
  unfold encodeChar
  split_ifs with hsafe hspace
  · obtain ⟨hpercent, hplus⟩ := ne_of_isFormSafe hsafe
    rw [List.singleton_append, formBytes?_cons hpercent, if_neg hplus]
  · subst hspace
    rw [List.singleton_append, formBytes?_cons (by decide), if_pos rfl]
  · exact formBytes?_percentBytes (fun b hb => Text.lt_of_mem_charBytes hb) rest

@[simp]
theorem formBytes?_encode (t : Text) : formBytes? (encode t) = some (Text.bytes t) := by
  induction t with
  | nil => rfl
  | cons c t ih =>
    have hstep :
        formBytes? (encode (c :: t)) = (formBytes? (encode t)).map (Text.charBytes c ++ ·) :=
      formBytes?_encodeChar c (encode t)
    rw [hstep, ih, Option.map_some]
    rfl

/-- Every text is read back from its encoding. -/
@[simp]
theorem decode?_encode (t : Text) : decode? (encode t) = some t := by
  simp [decode?]

/-- A name and a value as a form has them. -/
def formPair (pair : Text × Text) : Text :=
  encode pair.1 ++ '=' :: encode pair.2

theorem not_mem_encode {c : Char} (h : isFormChar c = false) (t : Text) : c ∉ encode t := by
  intro hmem
  rw [isFormChar_of_mem_encode hmem] at h
  cases h

@[simp]
theorem readPair?_formPair (pair : Text × Text) : readPair? (formPair pair) = some pair := by
  rw [readPair?, formPair, Text.cutFirst_eq (not_mem_encode rfl pair.1), Option.getD_some]
  simp only [decode?_encode]
  rfl

theorem ampersand_not_mem_formPair (pair : Text × Text) : '&' ∉ formPair pair := by
  rw [formPair, List.mem_append, List.mem_cons]
  rintro (hname | hsign | hvalue)
  · exact not_mem_encode rfl pair.1 hname
  · cases hsign
  · exact not_mem_encode rfl pair.2 hvalue

theorem mapM_readPair?_formPair (pairs : List (Text × Text)) :
    (pairs.map formPair).mapM readPair? = some pairs := by
  induction pairs with
  | nil => rfl
  | cons pair pairs ih =>
    rw [List.map_cons, List.mapM_cons, readPair?_formPair, ih]
    rfl

/-- Pairs are read back from the form that they make, in their order. -/
@[simp]
theorem readForm?_join (pairs : List (Text × Text)) :
    readForm? (Text.join ['&'] (pairs.map formPair)) = some pairs := by
  cases pairs with
  | nil => rfl
  | cons pair pairs =>
    have hsplit : Text.splitOn '&' (Text.join ['&'] ((pair :: pairs).map formPair)) =
        (pair :: pairs).map formPair := by
      refine Text.splitOn_join (List.cons_ne_nil _ _) fun piece hpiece => ?_
      obtain ⟨p, -, rfl⟩ := List.mem_map.mp hpiece
      exact ampersand_not_mem_formPair p
    have hfull : ((pair :: pairs).map formPair).filter (· ≠ []) = (pair :: pairs).map formPair := by
      refine List.filter_eq_self.mpr fun piece hpiece => ?_
      obtain ⟨p, -, rfl⟩ := List.mem_map.mp hpiece
      simp [formPair]
    rw [readForm?, hsplit, hfull, mapM_readPair?_formPair]

end Signpost.Url
