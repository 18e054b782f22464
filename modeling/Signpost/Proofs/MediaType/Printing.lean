import Signpost.Proofs.MediaType.Reading

/-!
Media types printed and read back. What is read as a media type comes back from its text; what is
read as a format does too, unless it is a bare name with a semicolon, which is not cut off there as
it is from a type in full. Main statement: `MediaType.readsBack_iff`.
-/

namespace Signpost.MediaType

/-- The type is read from its own text, both as a media type and as a format. -/
structure ReadsBack (m : MediaType) : Prop where
  read : read m.text = .ok m
  ofFormat : ofFormat? m.text = some m

theorem read_eq_ok_iff {t : Text} {m : MediaType} :
    MediaType.read t = .ok m ↔ parse? t = some m := by
  unfold MediaType.read
  cases parse? t <;> simp

theorem readsBack_iff_proper {m : MediaType} : m.ReadsBack ↔ m.Proper :=
  ⟨fun h => proper_of_parse? (read_eq_ok_iff.mp h.read),
    fun h => ⟨read_eq_ok_iff.mpr h.parse?_text, h.ofFormat?_text⟩⟩

theorem semicolon_mem_text_iff {m : MediaType} : ';' ∈ m.text ↔ ';' ∈ m.kind ∨ ';' ∈ m.subtype := by
  simp [text]

theorem Proper.semicolon_not_mem_text {m : MediaType} (h : m.Proper) : ';' ∉ m.text :=
  fun hmem => (semicolon_mem_text_iff.mp hmem).elim h.kind.no_semicolon h.subtype.no_semicolon

/-- Names with a type of their own have no semicolon, and every other name is itself the subtype. -/
theorem named_cases (name : Text) :
    named name = new "application".toList (Text.lowerAscii name) ∨
      (named name).Proper ∧ ';' ∉ name := by
  have hknown : ∀ known : String,
      ';' ∉ known.toList → String.ofList (Text.lowerAscii name) = known → ';' ∉ name := by
    intro known hclean hname hmem
    rw [← hname, String.toList_ofList] at hclean
    exact hclean ((Text.mem_lowerAscii_iff (by decide)).mpr hmem)
  unfold named
  simp only
  split
  case h_12 => exact .inl rfl
  all_goals
    next hname => exact .inr ⟨by decide, hknown _ (by decide) hname⟩

theorem semicolon_mem_text_named {name : Text} : ';' ∈ (named name).text ↔ ';' ∈ name := by
  rcases named_cases name with happlication | ⟨hproper, hclean⟩
  · have hkind : ';' ∉ Text.lowerAscii "application".toList := by decide
    rw [happlication, semicolon_mem_text_iff, new, or_iff_right hkind, Text.lowerAscii_lowerAscii,
      Text.mem_lowerAscii_iff (by decide)]
  · exact iff_of_false hproper.semicolon_not_mem_text hclean

theorem proper_named_iff {name : Text} (hne : name ≠ []) (htrimmed : Text.trim name = name)
    (hslash : '/' ∉ name) :
    (named name).Proper ↔ ';' ∉ name := by
  refine ⟨fun h hmem => h.semicolon_not_mem_text (semicolon_mem_text_named.mpr hmem),
    fun hclean => ?_⟩
  rcases named_cases name with happlication | ⟨hproper, -⟩
  · have happlicationProper : ProperPart (Text.lowerAscii "application".toList) :=
      .lowerAscii (by decide) (by decide) (by decide) (by decide)
    have hstar : Text.lowerAscii "application".toList ≠ wildcard := by decide
    have hsubtype : ProperPart (Text.lowerAscii name) := .lowerAscii hne htrimmed hslash hclean
    rw [happlication, new, Text.lowerAscii_lowerAscii]
    exact ⟨happlicationProper, hsubtype, fun hwild => absurd hwild hstar⟩
  · exact hproper

/-- A type that is read comes back from its text and has no semicolon in it. So does a type that a
format gives, unless the format is a bare name with a semicolon: then the semicolon is part of the
type, and its text does not give it back. -/
theorem readsBack_iff (t : Text) :
    (∀ m, parse? t = some m → m.ReadsBack ∧ ';' ∉ m.text) ∧
      ∀ m, ofFormat? t = some m →
        (m.ReadsBack ↔ '/' ∈ t ∨ ';' ∉ t) ∧ (';' ∈ m.text ↔ '/' ∉ t ∧ ';' ∈ t) := by
  have hparsed : ∀ {u : Text} {m : MediaType},
      parse? u = some m → m.ReadsBack ∧ ';' ∉ m.text := fun h =>
    ⟨readsBack_iff_proper.mpr (proper_of_parse? h), (proper_of_parse? h).semicolon_not_mem_text⟩
  refine ⟨fun m h => hparsed h, fun m h => ?_⟩
  unfold ofFormat? at h
  simp only at h
  rw [← Text.mem_trim_iff (c := '/') (by decide), ← Text.mem_trim_iff (c := ';') (by decide)]
  split_ifs at h with hne hslash
  · obtain ⟨hback, hclean⟩ := hparsed h
    exact ⟨iff_of_true hback (.inl hslash), iff_of_false hclean fun hbare => hbare.1 hslash⟩
  · obtain rfl := Option.some.inj h
    rw [readsBack_iff_proper, proper_named_iff hne (Text.trim_trim t) hslash,
      semicolon_mem_text_named, or_iff_right hslash, and_iff_right hslash]
    exact ⟨Iff.rfl, Iff.rfl⟩

/-- A format in capitals with blanks around it, its own type, and a type with parameters. -/
theorem readsBack_iff_feed :
    (new "application".toList "atom+xml".toList).ReadsBack ∧
      (new "text".toList "html".toList).ReadsBack ∧ ';' ∉ (new "text".toList "html".toList).text :=
  ⟨((readsBack_iff " ATOM ".toList).2 _ (by decide)).1.mpr (.inr (by decide)),
    (readsBack_iff "text/HTML ; q=1".toList).1 _ (by decide)⟩

/-- A bare name with a parameter keeps it in its type, whose text is read as the type without it. -/
theorem ofFormat?_keeps_parameter :
    ofFormat? "json;q=1".toList = some (new "application".toList "json;q=1".toList) ∧
      parse? (new "application".toList "json;q=1".toList).text =
        some (new "application".toList "json".toList) ∧
      ¬ ∀ t m, ofFormat? t = some m → m.ReadsBack ∧ ';' ∉ m.text := by
  have hformat :
      ofFormat? "json;q=1".toList = some (new "application".toList "json;q=1".toList) := by decide
  refine ⟨hformat, by decide, fun h => ?_⟩
  exact absurd (h _ _ hformat).2 (by decide)

end Signpost.MediaType
