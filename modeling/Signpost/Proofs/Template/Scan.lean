import Mathlib
import Signpost.Proofs.Template.CanonicalTokens
import Signpost.Proofs.Text.Offset

/-!
The scan of a template by offsets in bytes. It looks for the parts of a placeholder among the bytes
of what is left, cuts at the offsets it finds, and collects literal text until a placeholder ends
it. No cut falls within a character, every step takes something, and the tokens that have been
emitted with those still to come stay the same, so the scan ends with the tokens of `tokenize`. Main
statements: `TemplateScan.step_spec` and `tokenize_canonical`.
-/

namespace Signpost

namespace Token

def isNameByte (b : Nat) : Bool :=
  (0x30 ≤ b && b ≤ 0x39) || (0x41 ≤ b && b ≤ 0x5A) || (0x61 ≤ b && b ≤ 0x7A) || b == 0x5F

def isAngleByte (b : Nat) : Bool :=
  b == 0x3E

/-- Reads a name and its closing brace at the start of `after`, which is the end of `whole`: the
placeholder of that name, and how many bytes of `whole` it ends behind. The outer `none` is a cut
within a character. -/
def readNameAt? (constraint : Option Text) (whole after : Text) :
    Option (Option (Token × Nat)) := do
  let length := ((Text.bytes after).takeWhile isNameByte).length
  let (name, behind) ← Text.cutAt? length after
  match behind with
  | '}' :: _ =>
    if length = 0 then return none
    else return some (placeholder name constraint,
      (Text.bytes whole).length - (Text.bytes after).length + length + 1)
  | _ => return none

/-- Reads a constraint and the angle that ends it, with the text behind. -/
def readConstraintAt? (inner : Text) : Option (Option (Text × Text)) := do
  let stop := ((Text.bytes inner).takeWhile fun b => !isAngleByte b).length
  if stop = (Text.bytes inner).length ∨ stop = 0 then return none
  else
    let (constraint, _) ← Text.cutAt? stop inner
    let (_, after) ← Text.cutAt? (stop + 1) inner
    return some (constraint, after)

/-- Reads a placeholder at the start of a text that starts with a brace, with the number of its
bytes. -/
def readPlaceholderAt? (whole : Text) : Option (Option (Token × Nat)) := do
  let (_, body) ← Text.cutAt? 1 whole
  match body with
  | '<' :: _ =>
    let (_, inner) ← Text.cutAt? 1 body
    match ← readConstraintAt? inner with
    | some (constraint, after) => readNameAt? (some constraint) whole after
    | none => return none
  | _ => readNameAt? none whole body

theorem isNameChar_eq (c : Char) : isNameChar c = isNameByte c.toNat := by
  rw [Bool.eq_iff_iff]
  simp only [isNameChar, isNameByte, Char.isAlphanum, Char.isAlpha, Char.isUpper, Char.isLower,
    Char.isDigit, UInt32.le_iff_toNat_le, Bool.or_eq_true, Bool.and_eq_true, decide_eq_true_eq,
    beq_iff_eq, ge_iff_le, ← Char.toNat_inj]
  change (((65 ≤ c.toNat ∧ c.toNat ≤ 90) ∨ 97 ≤ c.toNat ∧ c.toNat ≤ 122) ∨
    48 ≤ c.toNat ∧ c.toNat ≤ 57) ∨ c.toNat = 95 ↔ _
  omega

theorem isNameByte_of_le {n : Nat} (h : 0x80 ≤ n) : isNameByte n = false := by
  simp only [isNameByte, Bool.or_eq_false_iff, Bool.and_eq_false_iff, decide_eq_false_iff_not,
    beq_eq_false_iff_ne]
  omega

/-- All bytes of a character are bytes of names if the character is one of names, and none is if it
is not. -/
theorem isNameByte_eq (c : Char) : ∀ b ∈ Text.charBytes c, isNameByte b = isNameChar c := by
  intro b hb
  rw [isNameChar_eq]
  rcases Text.byte_cases hb with ⟨rfl, -⟩ | ⟨⟨hlow, -⟩, hc⟩
  · rfl
  · rw [isNameByte_of_le hlow, isNameByte_of_le hc]

theorem not_isAngleByte_eq (c : Char) :
    ∀ b ∈ Text.charBytes c, (!isAngleByte b) = decide (c ≠ '>') := by
  intro b hb
  have hc : c = '>' ↔ c.toNat = 0x3E := Char.toNat_inj.symm
  rw [Bool.eq_iff_iff]
  simp only [isAngleByte, Bool.not_eq_true', beq_eq_false_iff_ne, decide_eq_true_eq, ne_eq, hc]
  rcases Text.byte_cases hb with ⟨rfl, -⟩ | ⟨⟨hlow, -⟩, hhigh⟩
  · rfl
  · omega

theorem readNameAt?_eq (constraint : Option Text) {whole after : Text}
    (h : (Text.bytes after).length ≤ (Text.bytes whole).length) :
    readNameAt? constraint whole after = some ((readName? constraint after).map fun found =>
      (found.1, (Text.bytes whole).length - (Text.bytes found.2).length)) := by
  have hparts : after.takeWhile isNameChar ++ after.dropWhile isNameChar = after :=
    List.takeWhile_append_dropWhile
  have hcut := Text.cutAt?_append (after.takeWhile isNameChar) (after.dropWhile isNameChar)
  rw [hparts] at hcut
  have hbytes := congrArg (fun t => (Text.bytes t).length) hparts
  simp only [Text.bytes_append, List.length_append] at hbytes
  simp only [readNameAt?, readName?, Text.takeWhile_bytes isNameByte_eq, hcut, Option.bind_eq_bind,
    Option.bind_some]
  generalize after.takeWhile isNameChar = name at hbytes
  generalize after.dropWhile isNameChar = behind at hbytes
  split
  · next rest =>
    have hclose := Text.length_bytes_ascii (c := '}') (by decide) rest
    cases name with
    | nil => rfl
    | cons c name =>
      have hpos : 0 < (Text.bytes (c :: name)).length :=
        Text.length_bytes_pos (List.cons_ne_nil c name)
      rw [if_neg (by omega)]
      simp only [Option.map_some, Option.pure_def, Option.some.injEq, Prod.mk.injEq, true_and]
      omega
  · next hnone =>
    split
    · next rest => exact absurd rfl (hnone rest)
    · rfl

theorem readConstraintAt?_eq (inner : Text) :
    readConstraintAt? inner = some ((Text.cutFirst '>' inner).filter fun cut => cut.1 ≠ []) := by
  unfold readConstraintAt?
  simp only [Text.takeWhile_bytes not_isAngleByte_eq]
  by_cases hmem : '>' ∈ inner
  · obtain ⟨constraint, after, rfl, hconstraint⟩ := List.eq_append_cons_of_mem hmem
    obtain ⟨hstop, -⟩ := Text.span_ne_separator hconstraint after
    rw [hstop, Text.cutFirst_eq hconstraint]
    cases constraint with
    | nil => rfl
    | cons c constraint =>
      have hpos : 0 < (Text.bytes (c :: constraint)).length :=
        Text.length_bytes_pos (List.cons_ne_nil c constraint)
      have hlength : (Text.bytes (c :: constraint ++ '>' :: after)).length =
          (Text.bytes (c :: constraint)).length + (1 + (Text.bytes after).length) := by
        rw [Text.bytes_append, List.length_append, Text.length_bytes_ascii (c := '>') (by decide)]
      have hbefore := Text.cutAt?_append (c :: constraint) ('>' :: after)
      have hbehind : Text.cutAt? ((Text.bytes (c :: constraint)).length + 1)
          (c :: constraint ++ '>' :: after) =
          some (c :: constraint ++ ['>'], after) :=
        Text.cutAt?_eq_some_iff.mpr ⟨by simp, by rw [Text.bytes_append, List.length_append]; rfl⟩
      rw [if_neg (by omega), hbefore, hbehind]
      rfl
  · rw [if_pos (.inl (by rw [Text.takeWhile_ne_of_not_mem hmem])),
      Text.cutFirst_eq_none_iff.mpr hmem]
    rfl

/-- The reader by offsets finds what the reader of texts finds, and no cut falls within a
character. -/
theorem readPlaceholderAt?_eq (t : Text) :
    readPlaceholderAt? ('{' :: t) = some ((readPlaceholder? t).map fun found =>
      (found.1, (Text.bytes ('{' :: t)).length - (Text.bytes found.2).length)) := by
  have hbrace := Text.cutAt?_ascii (c := '{') (by decide) t
  have hwhole := Text.length_bytes_ascii (c := '{') (by decide) t
  unfold readPlaceholderAt?
  simp only [hbrace, Option.bind_eq_bind, Option.bind_some]
  split
  · next inner =>
    have hangle := Text.cutAt?_ascii (c := '<') (by decide) inner
    have hbody := Text.length_bytes_ascii (c := '<') (by decide) inner
    simp only [hangle, readConstraintAt?_eq, Option.bind_some, readPlaceholder?]
    cases hcut : Text.cutFirst '>' inner with
    | none => rfl
    | some cut =>
      obtain ⟨constraint, after⟩ := cut
      cases constraint with
      | nil => rfl
      | cons c constraint =>
        have hinner := congrArg (fun t => (Text.bytes t).length) (Text.cutFirst_sound hcut)
        simp only [Text.bytes_append, List.length_append,
          Text.length_bytes_ascii (c := '>') (by decide)] at hinner
        exact readNameAt?_eq _ (by omega)
  · next hnone => rw [readNameAt?_eq none (by omega), readPlaceholder?.eq_2 t hnone]

end Token

/-- A scan under way: the tokens that it has emitted, the literal text that it is collecting, and
what is left. -/
structure TemplateScan where
  tokens : List Token := []
  literal : Text := []
  rest : Text

namespace TemplateScan

/-- The tokens with the collected text, if there is any. -/
def emitted (s : TemplateScan) : List Token :=
  if s.literal = [] then s.tokens else s.tokens ++ [.literal s.literal]

/-- Collects the character that comes next. -/
def collect (s : TemplateScan) (c : Char) : Option TemplateScan := do
  let (_, rest) ← Text.cutAt? (Text.charBytes c).length s.rest
  return { s with literal := s.literal ++ [c], rest }

/-- One step of the scan; `none` is a cut within a character. -/
def step (s : TemplateScan) : Option TemplateScan :=
  match s.rest with
  | [] => some s
  | c :: _ =>
    if c = '{' then do
      match ← Token.readPlaceholderAt? s.rest with
      | some (token, length) =>
        let (_, rest) ← Text.cutAt? length s.rest
        return { tokens := s.emitted ++ [token], rest }
      | none => s.collect c
    else s.collect c

/-- The scan goes on as long as something is left. -/
def Next (s s' : TemplateScan) : Prop :=
  s.rest ≠ [] ∧ s.step = some s'

/-- The tokens that the scan will have emitted in the end. -/
def outcome (s : TemplateScan) : List Token :=
  s.tokens ++ s.literal.foldr Token.addChar (tokenize s.rest)

theorem outcome_eq (s : TemplateScan) (h : ∀ t rest, tokenize s.rest ≠ .literal t :: rest) :
    s.outcome = s.emitted ++ tokenize s.rest := by
  unfold outcome emitted
  split
  · next hnil => rw [hnil, List.foldr_nil]
  · next hne => rw [Token.foldr_addChar hne h, List.append_assoc, List.singleton_append]

theorem collect_spec {s : TemplateScan} {c : Char} {rest : Text} (hrest : s.rest = c :: rest)
    (hread : c = '{' → Token.readPlaceholder? rest = none) :
    ∃ s', s.collect c = some s' ∧ s.rest = [c] ++ s'.rest ∧ s'.outcome = s.outcome := by
  have hcut : Text.cutAt? (Text.charBytes c).length (c :: rest) = some ([c], rest) :=
    Text.cutAt?_eq_some_iff.mpr ⟨rfl, by simp [Text.bytes]⟩
  refine ⟨{ s with literal := s.literal ++ [c], rest }, ?_, hrest, ?_⟩
  · rw [collect, hrest, hcut]
    rfl
  · rw [outcome, outcome, hrest, tokenize_cons hread, List.foldr_append]
    rfl

/-- A step falls on no cut within a character, takes something, and leaves the outcome as it is. -/
theorem step_spec (s : TemplateScan) (h : s.rest ≠ []) :
    ∃ taken s',
      taken ≠ [] ∧ s.step = some s' ∧ s.rest = taken ++ s'.rest ∧ s'.outcome = s.outcome := by
  obtain ⟨c, rest, hrest⟩ := List.exists_cons_of_ne_nil h
  have hcollect : s.step = s.collect c → (c = '{' → Token.readPlaceholder? rest = none) →
      ∃ taken s',
        taken ≠ [] ∧ s.step = some s' ∧ s.rest = taken ++ s'.rest ∧ s'.outcome = s.outcome := by
    intro hstep hread
    obtain ⟨s', hs', htaken, houtcome⟩ := collect_spec hrest hread
    exact ⟨[c], s', List.cons_ne_nil c [], hstep.trans hs', htaken, houtcome⟩
  by_cases hc : c = '{'
  · subst hc
    have hat := Token.readPlaceholderAt?_eq rest
    cases hread : Token.readPlaceholder? rest with
    | none =>
      refine hcollect ?_ fun _ => hread
      simp [step, hrest, hat, hread]
    | some found =>
      obtain ⟨token, after⟩ := found
      obtain ⟨name, constraint, rfl, -, htext⟩ := Token.readPlaceholder?_eq_some_iff.mp hread
      have hlength : (Text.bytes ('{' :: rest)).length - (Text.bytes after).length =
          (Text.bytes (Token.placeholder name constraint).text).length := by
        rw [htext, Text.bytes_append, List.length_append, Nat.add_sub_cancel]
      have hcut := Text.cutAt?_eq_some_iff.mpr ⟨htext, hlength⟩
      have htokens : tokenize s.rest = .placeholder name constraint :: tokenize after := by
        rw [hrest, tokenize_placeholder hread]
      refine ⟨(Token.placeholder name constraint).text,
        { tokens := s.emitted ++ [.placeholder name constraint], rest := after },
        ?_, ?_, hrest.trans htext, ?_⟩
      · cases constraint <;> simp [Token.text]
      · simp [step, hrest, hat, hread, hcut]
      · rw [s.outcome_eq (by simp [htokens]), htokens]
        simp [outcome]
  · refine hcollect ?_ fun hbrace => absurd hbrace hc
    simp [step, hrest, hc]

/-- From any state the scan comes to an end, with the outcome of that state. -/
theorem reaches_end (s : TemplateScan) :
    ∃ last, Relation.ReflTransGen Next s last ∧ last.rest = [] ∧ last.emitted = s.outcome := by
  -- By the length of what is left, since a step takes something of it.
  induction hn : s.rest.length using Nat.strong_induction_on generalizing s with
  | _ n ih =>
    subst hn
    by_cases h : s.rest = []
    · refine ⟨s, .refl, h, ?_⟩
      have htokens : tokenize s.rest = [] := by rw [h, tokenize]
      rw [s.outcome_eq (by simp [htokens]), htokens, List.append_nil]
    · obtain ⟨taken, s', htaken, hstep, hrest, houtcome⟩ := s.step_spec h
      have hshorter : s'.rest.length < s.rest.length := by
        have hpos := List.length_pos_iff.mpr htaken
        rw [hrest, List.length_append]
        omega
      obtain ⟨last, hreaches, hend, hemitted⟩ := ih _ hshorter s' rfl
      exact ⟨last, .head ⟨h, hstep⟩ hreaches, hend, hemitted.trans houtcome⟩

end TemplateScan

/-- Taking a template apart loses nothing, and its tokens are the only canonical ones for it. A scan
by offsets in bytes gives them: each of its steps makes its cuts between characters and takes at
least one of them, from whatever state. -/
theorem tokenize_canonical (t : Text) :
    (tokenize t).flatMap Token.text = t ∧ Token.Canonical (tokenize t) ∧
      (∀ tokens, tokens.flatMap Token.text = t → Token.Canonical tokens → tokens = tokenize t) ∧
      (∀ s : TemplateScan, s.rest ≠ [] →
        ∃ taken s', taken ≠ [] ∧ s.step = some s' ∧ s.rest = taken ++ s'.rest) ∧
      ∃ last, Relation.ReflTransGen TemplateScan.Next
          { rest := t } last ∧ last.rest = [] ∧ last.emitted = tokenize t := by
  refine ⟨flatMap_text_tokenize t, canonical_tokenize t, ?_, ?_, ?_⟩
  · rintro tokens rfl hcanonical
    exact (tokenize_flatMap_text hcanonical).symm
  · intro s h
    obtain ⟨taken, s', htaken, hstep, hrest, -⟩ := s.step_spec h
    exact ⟨taken, s', htaken, hstep, hrest⟩
  · exact TemplateScan.reaches_end { rest := t }

/-- A brace with another one behind its name and a constraint that is empty open nothing, a
constraint may have braces, and the scan goes over characters of two bytes. -/
theorem tokenize_canonical_year :
    tokenize "/ü{a{<[0-9]{4}>year}}ö{<>x}".toList =
        [.literal "/ü\x7ba".toList, .placeholder "year".toList (some "[0-9]{4}".toList),
          .literal "\x7dö{<>x}".toList] ∧
      ∃ taken s', taken ≠ [] ∧
        TemplateScan.step { literal := ['a'], rest := "ö{<>x}".toList } = some s' ∧
        "ö{<>x}".toList = taken ++ s'.rest := by
  have htokens : tokenize "/ü{a{<[0-9]{4}>year}}ö{<>x}".toList =
      [.literal "/ü\x7ba".toList, .placeholder "year".toList (some "[0-9]{4}".toList),
        .literal "\x7dö{<>x}".toList] := by
    decide +kernel
  obtain ⟨htext, hcanonical⟩ := tokenize_eq_iff.mp htokens
  obtain ⟨-, -, hunique, hstep, -⟩ := tokenize_canonical "/ü{a{<[0-9]{4}>year}}ö{<>x}".toList
  exact ⟨(hunique _ htext hcanonical).symm, hstep _ (by decide)⟩

end Signpost
