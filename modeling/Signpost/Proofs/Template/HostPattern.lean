import Signpost.Proofs.Template.DefaultConstraint
import Signpost.Proofs.Text.Case

/-!
The host pattern of a template with a placeholder. Among ASCII hosts it matches those that are the
literal text with any line in the place of the placeholder, whatever the case of either. Main
statements: `HostTemplate.read_braces` and `CompiledTemplate.ReadFrom.isMatch_hostPattern_iff`.
-/

namespace Signpost

/-- Among ASCII characters, case variants are those that are one small letter. -/
theorem Unicode.mem_caseVariants_iff {c d : Char} (hc : c.toNat < 128) (hd : d.toNat < 128) :
    c ∈ caseVariants d ↔ c.toLower = d.toLower := by
  have hsmall : ∀ n < 128, (Char.ofNat n).toLower ∈ caseVariants (Char.ofNat n) := by decide +kernel
  have hcapital : ∀ n < 128, (Char.ofNat n).toUpper ∈ caseVariants (Char.ofNat n) := by
    decide +kernel
  have honly : ∀ n < 128, (caseVariants (Char.ofNat n)).all
      (fun e => decide (128 ≤ e.toNat) || e.toLower == (Char.ofNat n).toLower) = true := by
        decide +kernel
  obtain ⟨n, hn, rfl⟩ : ∃ n < 128, d = Char.ofNat n := ⟨d.toNat, hd, (Char.ofNat_toNat d).symm⟩
  refine ⟨fun h => by simpa [Nat.not_le.mpr hc] using List.all_eq_true.mp (honly n hn) c h,
    fun h => ?_⟩
  rcases Regex.eq_toLower_or_toUpper c with heq | heq
  · rw [heq, h]
    exact hsmall n hn
  · have hsame : c.toUpper = (Char.ofNat n).toUpper := by
      rw [← Char.toUpper_toLower_eq_toUpper c, h, Char.toUpper_toLower_eq_toUpper]
    rw [heq, hsame]
    exact hcapital n hn

theorem Text.forall₂_caseVariants_iff {t v : Text} (ht : t.IsAscii) (hv : v.IsAscii) :
    List.Forall₂ (fun c d => c ∈ Unicode.caseVariants d) t v ↔ lowerAscii t = lowerAscii v := by
  induction t generalizing v with
  | nil => cases v <;> simp [lowerAscii]
  | cons c t ih =>
    cases v with
    | nil => simp [lowerAscii]
    | cons d v =>
      obtain ⟨hc, ht⟩ := List.forall_mem_cons.mp ht
      obtain ⟨hd, hv⟩ := List.forall_mem_cons.mp hv
      rw [List.forall₂_cons, Unicode.mem_caseVariants_iff hc hd, ih ht hv]
      simp [lowerAscii]

namespace HostTemplate

/-- The host, in small letters, is the literal text of the template with this value in the place of
the placeholder. -/
def Spells (h : HostTemplate) (value host : Text) : Prop :=
  Text.lowerAscii host = Text.lowerAscii h.before ++ value ++ Text.lowerAscii h.after

/-- Some opening brace has a closing one behind it. -/
def HasRegion (t : Text) : Prop :=
  ∃ before inside after, t = before ++ '{' :: (inside ++ '}' :: after)

theorem read_braces {before inside after : Text} (hbefore : '{' ∉ before) (hafter : '}' ∉ after) :
    read (before ++ '{' :: (inside ++ '}' :: after)) =
      ⟨before ++ '{' :: (inside ++ '}' :: after), before, some (withoutBraces inside), after⟩ := by
  have hlast : Text.cutLast '}' (inside ++ '}' :: after) = some (inside, after) :=
    Text.cutLast_eq_some_iff.mpr ⟨rfl, hafter⟩
  unfold read
  rw [Text.cutFirst_eq hbefore]
  simp only [hlast]

/-- The placeholder goes from the first opening brace to the last closing one. -/
theorem HasRegion.exists_read {t : Text} (h : HasRegion t) :
    ∃ before inside after,
      t = before ++ '{' :: (inside ++ '}' :: after) ∧ '{' ∉ before ∧ '}' ∉ after ∧
      read t = ⟨t, before, some (withoutBraces inside), after⟩ := by
  obtain ⟨start, middle, rest, rfl⟩ := h
  have hopen : '{' ∈ start ++ ['{'] := List.mem_append_right start List.mem_cons_self
  obtain ⟨before, more, hstart, hbefore⟩ := List.eq_append_cons_of_mem hopen
  obtain ⟨⟨last, after⟩, hlast⟩ : ∃ cut, Text.cutLast '}' ('}' :: rest) = some cut := by
    rw [← Option.isSome_iff_exists, Option.isSome_iff_ne_none]
    exact fun hnone => Text.cutLast_eq_none_iff.mp hnone List.mem_cons_self
  obtain ⟨hrest, hafter⟩ := Text.cutLast_eq_some_iff.mp hlast
  have htext : start ++ '{' :: (middle ++ '}' :: rest) =
      before ++ '{' :: ((more ++ middle ++ last) ++ '}' :: after) := by
    have hsplit : start ++ '{' :: (middle ++ '}' :: rest) =
        (start ++ ['{']) ++ (middle ++ '}' :: rest) := by simp
    rw [hsplit, hstart, hrest]
    simp
  exact ⟨before, _, after, htext, hbefore, hafter, htext ▸ read_braces hbefore hafter⟩

theorem read_of_not_hasRegion {t : Text} (h : ¬HasRegion t) : read t = ⟨t, t, none, []⟩ := by
  unfold read
  split
  · next before rest hcut =>
    split
    · next inside after hlast =>
      obtain ⟨hrest, -⟩ := Text.cutLast_eq_some_iff.mp hlast
      exact absurd ⟨before, inside, after, hrest ▸ Text.cutFirst_sound hcut⟩ h
    · rfl
  · rfl

theorem placeholder_read_isSome_iff {t : Text} :
    (read t).placeholder.isSome = true ↔ HasRegion t := by
  by_cases h : HasRegion t
  · obtain ⟨before, inside, after, -, -, -, hread⟩ := h.exists_read
    simp [hread, h]
  · simp [read_of_not_hasRegion h, h]

instance : DecidablePred HasRegion :=
  fun _ => decidable_of_iff _ placeholder_read_isSome_iff

end HostTemplate

namespace Regex

open CompiledTemplate

/-- A group without a name around any text on one line. -/
theorem Reads.wildcard {rs : List Regex} {opened : List OpenGroup} {names : List Text}
    {s final : Reader} {t : Text} (hs : s.InRow true rs opened names)
    (h : Reads s ("(.*)".toList ++ t) final) :
    ∃ s' names', s'.InRow true (rs ++ [anyLine]) opened names' ∧ Reads s' t final := by
  obtain ⟨inner, hinner, hregex, -⟩ := nests_of_whole read?_host.1 read?_host.2
  have hpart : readPart { ignoreCase := true } '(' (hostConstraint ++ ')' :: t) =
      some (.opening none { ignoreCase := true }, hostConstraint ++ ')' :: t) := rfl
  obtain ⟨s₁, happly, h₁⟩ := Reads.part hs.modes h hpart
  obtain rfl := Option.some.inj happly
  obtain ⟨-, p, hp, h₂⟩ := Reads.close_nested hinner h₁
  have hpush := (hs.renamed (inner.names ++ s.names)).push p
  rw [hp, hregex] at hpush
  exact ⟨_, _, hpush, h₂⟩

theorem way_anyLine {p : Place} {h : Hit} :
    anyLine.Way p h ↔ ∃ v, '\n' ∉ v ∧ p.Passes v h.place ∧ h.captures = [] := by
  have hline : ∀ v : Text, (∀ c ∈ v, (CharSet.compl (.single '\n')).mem c = true) ↔ '\n' ∉ v := by
    intro v
    simp only [mem_anyLine]
    exact ⟨fun h hmem => h '\n' hmem rfl, fun h c hc heq => h (heq ▸ hc)⟩
  constructor
  · rintro ⟨n, -, -, hturns⟩
    obtain ⟨v, -, hv, hpasses, hnone⟩ := turns_set_iff.mp hturns
    exact ⟨v, (hline v).mp hv, hpasses, hnone⟩
  · rintro ⟨v, hv, hpasses, hnone⟩
    exact ⟨v.length,
      Nat.zero_le _, by simp, turns_set_iff.mpr ⟨v, rfl, (hline v).mpr hv, hpasses, hnone⟩⟩

end Regex

namespace CompiledTemplate

open Regex

/-- What a host pattern is: the literal text, letter by letter whatever its case, around any
line. -/
def hostRow (before after : Text) : List Regex :=
  before.map (literal true) ++ [anyLine] ++ after.map (literal true)

theorem hostPattern_row {before after : Text} {r : Regex}
    (h : Regex.read? true (Pattern.whole (escape before ++ "(.*)".toList ++ escape after)) =
      some r) :
    r = (row (hostRow before after)).anchored := by
  obtain ⟨g, s, final, hs, hbody, -, hend⟩ := reads_whole h
  rw [List.append_assoc, List.append_assoc] at hbody
  obtain ⟨s₁, hs₁, h₁⟩ := Reads.escaped hs hbody
  obtain ⟨s₂, names₂, hs₂, h₂⟩ := Reads.wildcard hs₁ h₁
  obtain ⟨s₃, hs₃, h₃⟩ := Reads.escaped hs₂ h₂
  rw [hend s₃ hs₃.opened h₃, hs₃.close_regex, List.nil_append, hostRow]

theorem isMatch_hostRow_iff {before after t : Text} :
    (row (hostRow before after)).anchored.isMatch t = true ↔
      ∃ u v w, List.Forall₂ (fun c d => c ∈ Unicode.caseVariants d) before u ∧ '\n' ∉ v ∧
        List.Forall₂ (fun c d => c ∈ Unicode.caseVariants d) after w ∧ t = u ++ v ++ w := by
  rw [isMatch_anchored_iff]
  constructor
  · rintro ⟨k, hway, hend⟩
    obtain ⟨m, l, hm, hl, rfl⟩ := ways_append.mp (way_row.mp hway)
    obtain ⟨a, b, ha, hb, rfl⟩ := ways_append.mp hm
    obtain ⟨u, hu, hupasses, -⟩ := ways_variants.mp ha
    obtain ⟨v, hv, hvpasses, -⟩ := way_anyLine.mp (ways_singleton.mp hb)
    obtain ⟨w, hw, hwpasses, -⟩ := ways_variants.mp hl
    exact ⟨u, v, w, hu, hv, hw, (((hupasses.trans hvpasses).trans hwpasses).eq_of_end hend).symm⟩
  · rintro ⟨u, v, w, hu, hv, hw, rfl⟩
    obtain ⟨q, hq, hwpasses⟩ := (Place.passes_finish (u ++ v ++ w)).split
    obtain ⟨p, hupasses, hvpasses⟩ := hq.split
    have hbefore : Ways (before.map (literal true)) (.start _) ⟨p, []⟩ :=
      ways_variants.mpr ⟨u, hu, hupasses, rfl⟩
    have hline : Ways [anyLine] p ⟨q, []⟩ :=
      ways_singleton.mpr (way_anyLine.mpr ⟨v, hv, hvpasses, rfl⟩)
    have hafter : Ways (after.map (literal true)) q ⟨.finish _, []⟩ :=
      ways_variants.mpr ⟨w, hw, hwpasses, rfl⟩
    refine ⟨⟨.finish _, []⟩, way_row.mpr (ways_append.mpr ⟨⟨q, []⟩, _, ?_, hafter, rfl⟩), rfl⟩
    exact ways_append.mpr ⟨⟨p, []⟩, _, hbefore, hline, rfl⟩

variable {template action : Text} {c : CompiledTemplate}

/-- An ASCII host matches the pattern of a template with a placeholder just when it is the literal
text with some line in the place of the placeholder. -/
theorem ReadFrom.isMatch_hostPattern_iff (h : c.ReadFrom template action) {name : Text}
    (hname : c.host.placeholder = some name) (hraw : c.host.raw ≠ [])
    (hbefore : c.host.before.IsAscii) (hafter : c.host.after.IsAscii) {host : Text}
    (hhost : host.IsAscii) :
    ∃ p, c.hostPattern = some p ∧
      (p.isMatch (Text.lowerAscii host) = true ↔ ∃ v, '\n' ∉ v ∧ c.host.Spells v host) := by
  have hread := h.hostPattern
  rw [readHostPattern, HostTemplate.patternSource?, if_neg hraw, hname] at hread
  obtain ⟨p, hp, hread⟩ := Except.bind_eq_ok hread
  have hpattern := Except.ok.inj hread
  refine ⟨p, hpattern.symm, ?_⟩
  rw [Pattern.isMatch, hostPattern_row (Pattern.read_eq_ok hp).1, isMatch_hostRow_iff]
  -- a piece of a host in small letters is a variant of a text just when it is that text in small
  -- letters
  have hpiece : ∀ {t x u y : Text}, t.IsAscii → Text.lowerAscii host = x ++ u ++ y →
      (List.Forall₂ (fun c d => c ∈ Unicode.caseVariants d) t u ↔ u = Text.lowerAscii t) := by
    intro t x u y ht heq
    have hmem : ∀ c ∈ u, c ∈ Text.lowerAscii host := fun c hc => by simp [heq, hc]
    have hsmall : Text.lowerAscii u = u := by
      refine (List.map_congr_left fun c hc => ?_).trans (List.map_id u)
      obtain ⟨d, -, rfl⟩ := List.mem_map.mp (hmem c hc)
      exact Char.toLower_toLower_eq_toLower d
    rw [Text.forall₂_caseVariants_iff ht fun c hc =>
      hhost.lowerAscii c (hmem c hc), hsmall, eq_comm]
  constructor
  · rintro ⟨u, v, w, hu, hv, hw, heq⟩
    obtain rfl := (hpiece (x := []) hbefore (by rw [heq, List.nil_append, List.append_assoc])).mp hu
    obtain rfl := (hpiece (y := []) hafter (by rw [heq, List.append_nil])).mp hw
    exact ⟨v, hv, heq⟩
  · rintro ⟨v, hv, hspells⟩
    have hu :=
      (hpiece (x := []) hbefore (by rw [hspells, List.nil_append, List.append_assoc])).mpr rfl
    have hw := (hpiece (y := []) hafter (by rw [hspells, List.append_nil])).mpr rfl
    exact ⟨_, v, _, hu, hv, hw, hspells⟩

end CompiledTemplate

end Signpost
