import Signpost.MediaType
import Signpost.Proofs.Text.Case
import Signpost.Proofs.Text.Cut

/-!
Media types and their texts. The types that reading gives are those whose parts are proper, and each
of them is read back from its own text, as a media type and as a format.
-/

namespace Signpost.MediaType

/-- A kind or a subtype as it is read: small letters, no blanks at the ends, and neither of the
marks that end it. -/
structure ProperPart (part : Text) : Prop where
  ne_nil : part ≠ []
  trimmed : Text.trim part = part
  small : Text.lowerAscii part = part
  no_slash : '/' ∉ part
  no_semicolon : ';' ∉ part

structure Proper (m : MediaType) : Prop where
  kind : ProperPart m.kind
  subtype : ProperPart m.subtype
  star : m.kind = wildcard → m.subtype = wildcard

theorem properPart_wildcard : ProperPart wildcard := by
  refine ⟨by decide, by decide, by decide, by decide, by decide⟩

theorem ProperPart.lowerAscii {part : Text} (hne : part ≠ []) (htrimmed : Text.trim part = part)
    (hslash : '/' ∉ part) (hsemicolon : ';' ∉ part) : ProperPart (Text.lowerAscii part) where
  ne_nil := mt Text.lowerAscii_eq_nil_iff.mp hne
  trimmed := by rw [Text.trim_lowerAscii, htrimmed]
  small := Text.lowerAscii_lowerAscii part
  no_slash h := hslash (Text.mem_of_mem_lowerAscii h (by decide))
  no_semicolon h := hsemicolon (Text.mem_of_mem_lowerAscii h (by decide))

theorem lowerAscii_eq_wildcard {part : Text} (h : Text.lowerAscii part = wildcard) :
    part = wildcard := by
  obtain ⟨c, rfl, hc⟩ := List.map_eq_singleton_iff.mp h
  exact congrArg (fun c => [c]) (Text.eq_of_toLower_eq hc (by decide))

theorem proper_of_parse? {t : Text} {m : MediaType} (h : parse? t = some m) : m.Proper := by
  have hsemicolon : ';' ∉ essence t := fun hmem =>
    absurd (List.mem_takeWhile_imp (Text.mem_of_mem_trim hmem)) (by decide)
  unfold parse? at h
  simp only at h
  split_ifs at h with hall
  · obtain rfl := Option.some.inj h
    exact ⟨properPart_wildcard, properPart_wildcard, fun _ => rfl⟩
  · split at h
    · cases h
    · next kind subtype hcut =>
      split_ifs at h with hbad hstar
      obtain rfl := Option.some.inj h
      simp only [not_or] at hbad
      obtain ⟨hkind, hsubtype, hslash⟩ := hbad
      have htext := Text.cutFirst_sound hcut
      rw [htext, List.mem_append, List.mem_cons, not_or, not_or] at hsemicolon
      refine ⟨.lowerAscii hkind (Text.trim_trim _)
        (mt Text.mem_of_mem_trim (Text.not_mem_of_cutFirst hcut))
        (mt Text.mem_of_mem_trim hsemicolon.1), .lowerAscii hsubtype (Text.trim_trim _) hslash
        (mt Text.mem_of_mem_trim hsemicolon.2.2), fun hwild => ?_⟩
      have hkindStar := lowerAscii_eq_wildcard hwild
      have hsubtypeStar := not_not.mp fun hne => hstar ⟨hkindStar, hne⟩
      change Text.lowerAscii (Text.trim subtype) = wildcard
      rw [hsubtypeStar]
      decide

variable {m : MediaType}

theorem Proper.trim_text (h : m.Proper) : Text.trim m.text = m.text := by
  have henclosed :=
    Text.trim_enclosed h.kind.trimmed h.kind.ne_nil h.subtype.trimmed h.subtype.ne_nil ['/']
  rw [List.append_assoc] at henclosed
  exact henclosed

theorem slash_mem_text (m : MediaType) : '/' ∈ m.text :=
  List.mem_append_right _ List.mem_cons_self

theorem Proper.parse?_text (h : m.Proper) : parse? m.text = some m := by
  have hessence : essence m.text = m.text := by
    have hclean : ';' ∉ m.text := by
      simp [text, h.kind.no_semicolon, h.subtype.no_semicolon]
    rw [essence, Text.takeWhile_ne_of_not_mem hclean, h.trim_text]
  have hne : m.text ≠ wildcard := fun heq => absurd (heq ▸ m.slash_mem_text) (by decide)
  have hcut : Text.cutFirst '/' m.text = some (m.kind, m.subtype) :=
    Text.cutFirst_eq h.kind.no_slash _
  have hbad : ¬(m.kind = [] ∨ m.subtype = [] ∨ '/' ∈ m.subtype) := by
    simp [h.kind.ne_nil, h.subtype.ne_nil, h.subtype.no_slash]
  have hstar : ¬(m.kind = wildcard ∧ m.subtype ≠ wildcard) := fun hwild => hwild.2 (h.star hwild.1)
  have hnew : new m.kind m.subtype = m := by
    rw [new, h.kind.small, h.subtype.small]
  unfold parse?
  simp only [hessence, hcut, h.kind.trimmed, h.subtype.trimmed]
  rw [if_neg hne, if_neg hbad, if_neg hstar, hnew]

/-- Reading gives proper types and all of them. -/
theorem proper_iff : m.Proper ↔ ∃ t, parse? t = some m :=
  ⟨fun h => ⟨m.text, h.parse?_text⟩, fun ⟨_, h⟩ => proper_of_parse? h⟩

instance (m : MediaType) : Decidable m.Proper :=
  decidable_of_iff (parse? m.text = some m) ⟨proper_of_parse?, Proper.parse?_text⟩

theorem Proper.ofFormat?_text (h : m.Proper) : ofFormat? m.text = some m := by
  have hne : m.text ≠ [] := List.ne_nil_of_mem m.slash_mem_text
  unfold ofFormat?
  simp only [h.trim_text]
  rw [if_neg hne, if_pos m.slash_mem_text, h.parse?_text]

end Signpost.MediaType
