import Signpost.Proofs.Text.Utf8

/-!
Offsets in bytes. A text is cut at such an offset only where a character ends, and a search through
the bytes stops at the end of a character when all bytes of a character are judged as the character
is. Main statements: `Text.cutAt?_eq_some_iff` and `Text.takeWhile_bytes`.
-/

namespace Signpost.Text

/-- Cuts a text at an offset in bytes. There is no cut within a character, and none behind the end
of the text. -/
def cutAt? : Nat → Text → Option (Text × Text)
  | 0, t => some ([], t)
  | _ + 1, [] => none
  | n + 1, c :: rest =>
    if (charBytes c).length ≤ n + 1 then
      (cutAt? (n + 1 - (charBytes c).length) rest).map fun (before, after) => (c :: before, after)
    else none

theorem length_charBytes_pos (c : Char) : 0 < (charBytes c).length :=
  List.length_pos_iff.mpr (charBytes_ne_nil c)

theorem bytes_cons (c : Char) (t : Text) : bytes (c :: t) = charBytes c ++ bytes t :=
  rfl

@[simp]
theorem bytes_append (t u : Text) : bytes (t ++ u) = bytes t ++ bytes u :=
  List.flatMap_append

theorem length_bytes_pos {t : Text} (h : t ≠ []) : 0 < (bytes t).length := by
  obtain ⟨c, rest, rfl⟩ := List.exists_cons_of_ne_nil h
  have hpos := length_charBytes_pos c
  rw [bytes_cons, List.length_append]
  omega

@[simp]
theorem cutAt?_append (before after : Text) :
    cutAt? (bytes before).length (before ++ after) = some (before, after) := by
  induction before with
  | nil => rw [bytes, List.flatMap_nil, List.length_nil, cutAt?, List.nil_append]
  | cons c before ih =>
    have hpos := length_charBytes_pos c
    obtain ⟨n, hn⟩ : ∃ n, (charBytes c).length + (bytes before).length = n + 1 :=
      Nat.exists_eq_add_one_of_ne_zero (by omega)
    have hwidth : (charBytes c).length ≤ n + 1 := by omega
    have hrest : n + 1 - (charBytes c).length = (bytes before).length := by omega
    rw [bytes_cons, List.length_append, hn, List.cons_append]
    simp only [cutAt?, if_pos hwidth, hrest, ih, Option.map_some]

/-- The offsets of cuts are the numbers of bytes of the texts in front of them. -/
theorem cutAt?_eq_some_iff {n : Nat} {t before after : Text} :
    cutAt? n t = some (before, after) ↔ t = before ++ after ∧ n = (bytes before).length := by
  constructor
  · intro h
    induction n, t using cutAt?.induct generalizing before with
    | case1 t =>
      obtain ⟨rfl, rfl⟩ := Prod.mk.inj (Option.some.inj (cutAt?.eq_1 t ▸ h))
      exact ⟨rfl, rfl⟩
    | case2 n => simp [cutAt?] at h
    | case3 n c rest hwidth ih =>
      simp only [cutAt?] at h
      rw [if_pos hwidth] at h
      obtain ⟨⟨b, a⟩, hcut, heq⟩ := Option.map_eq_some_iff.mp h
      obtain ⟨rfl, rfl⟩ := Prod.mk.inj heq
      obtain ⟨hrest, hlength⟩ := ih hcut
      refine ⟨congrArg (List.cons c) hrest, ?_⟩
      rw [bytes_cons, List.length_append, ← hlength]
      omega
    | case4 n c rest hwidth =>
      simp only [cutAt?] at h
      rw [if_neg hwidth] at h
      cases h
  · rintro ⟨rfl, rfl⟩
    exact cutAt?_append before after

/-- An ASCII character has one byte. -/
theorem length_bytes_ascii {c : Char} (hc : c.toNat < 0x80) (t : Text) :
    (bytes (c :: t)).length = 1 + (bytes t).length := by
  have hchar : charBytes c = [c.toNat] := by
    unfold charBytes
    exact if_pos hc
  rw [bytes_cons, hchar, List.length_append, List.length_singleton]

theorem cutAt?_ascii {c : Char} (hc : c.toNat < 0x80) (t : Text) :
    cutAt? 1 (c :: t) = some ([c], t) :=
  cutAt?_eq_some_iff.mpr ⟨rfl, (length_bytes_ascii hc []).symm⟩

/-- A character below the first form of more bytes is its own byte; all bytes of another one are
above. -/
theorem byte_cases {c : Char} {b : Nat} (h : b ∈ charBytes c) :
    b = c.toNat ∧ b < 0x80 ∨ (0x80 ≤ b ∧ b < 0x100) ∧ 0x80 ≤ c.toNat := by
  have hlt := lt_of_mem_charBytes h
  unfold charBytes at h
  dsimp only at h
  split_ifs at h <;> simp only [List.mem_cons, List.not_mem_nil, or_false] at h <;> omega

/-- A search through the bytes stops where the search through the characters does. -/
theorem takeWhile_bytes {p : Nat → Bool} {q : Char → Bool} (h : ∀ c, ∀ b ∈ charBytes c, p b = q c)
    (t : Text) :
    (bytes t).takeWhile p = bytes (t.takeWhile q) := by
  induction t with
  | nil => rfl
  | cons c t ih =>
    rw [bytes_cons]
    cases hc : q c with
    | true =>
      have hall : ∀ b ∈ charBytes c, p b = true := by
        intro b hb
        rw [h c b hb, hc]
      rw [List.takeWhile_append_of_pos hall, ih, List.takeWhile_cons_of_pos hc, bytes_cons]
    | false =>
      obtain ⟨b, more, hbytes⟩ := List.exists_cons_of_ne_nil (charBytes_ne_nil c)
      have hb : ¬p b = true := by
        rw [h c b (by simp [hbytes]), hc]
        exact Bool.false_ne_true
      rw [hbytes, List.cons_append, List.takeWhile_cons_of_neg hb,
        List.takeWhile_cons_of_neg (by simp [hc])]
      rfl

end Signpost.Text
