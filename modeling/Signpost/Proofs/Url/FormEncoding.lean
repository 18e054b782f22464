import Signpost.Proofs.Text.Utf8
import Signpost.Url.FormEncoding

/-!
What the encoding of forms keeps and what it never writes. A text of safe characters stands for
itself, and an encoded text has no other characters than safe ones, plus signs and percent signs, so
no question mark.
-/

namespace Signpost.Url

theorem encode_of_safe {t : Text} (h : ∀ c ∈ t, isFormSafe c = true) : encode t = t := by
  induction t with
  | nil => rfl
  | cons c t ih =>
    have hc : encodeChar c = [c] := if_pos (h c List.mem_cons_self)
    have ht : t.flatMap encodeChar = t := ih fun d hd => h d (List.mem_cons_of_mem _ hd)
    rw [encode, List.flatMap_cons, hc, ht, List.singleton_append]

/-- A text of safe characters stands for itself in a URL: a colon is not safe, so it is not
deferred. -/
theorem encodeValue_of_safe {t : Text} (h : ∀ c ∈ t, isFormSafe c = true) : encodeValue t = t := by
  unfold encodeValue
  split_ifs
  · rfl
  · exact encode_of_safe h

/-- The characters that encoded texts are made of: those that stand for themselves, and the signs of
spaces and bytes. -/
def isFormChar (c : Char) : Bool :=
  isFormSafe c || c == '+' || c == '%'

theorem isFormChar_of_safe {c : Char} (h : isFormSafe c = true) : isFormChar c = true := by
  rw [isFormChar, h, Bool.true_or, Bool.true_or]

theorem isFormSafe_hexDigit {n : Nat} (h : n < 16) : isFormSafe (hexDigit n) = true := by
  have hdigits : ∀ n < 16, isFormSafe (hexDigit n) = true := by decide
  exact hdigits n h

theorem isFormChar_of_mem_encode {c : Char} {t : Text} (h : c ∈ encode t) :
    isFormChar c = true := by
  obtain ⟨d, -, hd⟩ := List.mem_flatMap.mp h
  unfold encodeChar at hd
  split_ifs at hd with hsafe hspace
  · rw [List.mem_singleton.mp hd]
    exact isFormChar_of_safe hsafe
  · rw [List.mem_singleton.mp hd]
    rfl
  · obtain ⟨b, hb, hd⟩ := List.mem_flatMap.mp hd
    have hlt := Text.lt_of_mem_charBytes hb
    simp only [percentByte, List.mem_cons, List.not_mem_nil, or_false] at hd
    rcases hd with rfl | rfl | rfl
    · rfl
    · exact isFormChar_of_safe (isFormSafe_hexDigit (by omega))
    · exact isFormChar_of_safe (isFormSafe_hexDigit (by omega))

theorem mark_not_mem_encode (t : Text) : '?' ∉ encode t := by
  intro hmem
  exact absurd (isFormChar_of_mem_encode hmem) (by decide)

/-- A value in a URL holds a question mark only when it is left as it is. -/
theorem mark_not_mem_encodeValue {t : Text} (h : '?' ∉ t) : '?' ∉ encodeValue t := by
  unfold encodeValue
  split_ifs
  · exact h
  · exact mark_not_mem_encode t

end Signpost.Url
