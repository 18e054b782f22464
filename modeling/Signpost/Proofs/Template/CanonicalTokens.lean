import Mathlib.Data.List.Chain
import Signpost.Proofs.Template.Tokens
import Signpost.Proofs.Text.Cut

/-!
The one way to take a template apart. Its tokens are canonical: literals are not empty and do not
stand side by side, what a placeholder holds does not end it early, and no brace of a literal opens
a placeholder. A text has only one list of canonical tokens, so these laws tell what `tokenize`
gives. Main statement: `tokenize_eq_iff`.
-/

namespace Signpost

namespace Token

def IsLiteral : Token → Prop
  | literal _ => True
  | placeholder _ _ => False

/-- The text starts with a placeholder. -/
def Opens (t : Text) : Prop :=
  ∃ name constraint rest,
    (placeholder name constraint).IsProper ∧ t = (placeholder name constraint).text ++ rest

/-- The tokens are what a scan from the left makes of their texts. -/
structure Canonical (tokens : List Token) : Prop where
  proper : ∀ token ∈ tokens, token.IsProper
  /-- No two literals stand side by side. -/
  apart : tokens.IsChain fun a b => ¬(a.IsLiteral ∧ b.IsLiteral)
  /-- No brace of a literal opens a placeholder in what is left of the template there. -/
  complete : ∀ before x y after, tokens = before ++ literal (x ++ '{' :: y) :: after →
    ¬Opens ('{' :: y ++ after.flatMap text)

theorem readName?_append {name : Text} (hname : IsName name) (constraint : Option Text)
    (rest : Text) :
    readName? constraint (name ++ '}' :: rest) = some (placeholder name constraint, rest) := by
  obtain ⟨hne, hchars⟩ := hname
  have htake : (name ++ '}' :: rest).takeWhile isNameChar = name := by
    rw [List.takeWhile_append_of_pos hchars]
    simp [isNameChar]
  have hdrop : (name ++ '}' :: rest).dropWhile isNameChar = '}' :: rest := by
    rw [List.dropWhile_append_of_pos hchars]
    simp [isNameChar]
  obtain ⟨c, more, rfl⟩ := List.exists_cons_of_ne_nil hne
  simp only [readName?, htake, hdrop]

/-- What stands behind a brace is read as a placeholder just when the placeholder is there. -/
theorem readPlaceholder?_eq_some_iff {t rest : Text} {token : Token} :
    readPlaceholder? t = some (token, rest) ↔
      ∃ name constraint,
        token = placeholder name constraint ∧ token.IsProper ∧ '{' :: t = token.text ++ rest := by
  constructor
  · exact readPlaceholder?_eq_some
  · rintro ⟨name, constraint, rfl, ⟨hname, hconstraint⟩, htext⟩
    cases constraint with
    | none =>
      obtain ⟨c, more, rfl⟩ := List.exists_cons_of_ne_nil hname.1
      have hc : c ≠ '<' := by
        rintro rfl
        exact absurd (hname.2 '<' List.mem_cons_self) (by decide)
      obtain rfl : t = (c :: more) ++ '}' :: rest := by simpa [text] using htext
      rw [readPlaceholder?.eq_2 ((c :: more) ++ '}' :: rest) fun inner heq =>
        hc (List.cons.inj heq).1]
      exact readName?_append hname none rest
    | some constraint =>
      obtain ⟨hne, hangle⟩ := hconstraint constraint rfl
      obtain ⟨c, more, rfl⟩ := List.exists_cons_of_ne_nil hne
      obtain rfl : t = '<' :: ((c :: more) ++ '>' :: (name ++ '}' :: rest)) := by
        simpa [text] using htext
      simp only [readPlaceholder?, Text.cutFirst_eq hangle]
      exact readName?_append hname _ rest

theorem opens_iff {t : Text} :
    Opens ('{' :: t) ↔ ∃ token rest, readPlaceholder? t = some (token, rest) := by
  simp only [Opens, readPlaceholder?_eq_some_iff]
  constructor
  · rintro ⟨name, constraint, rest, hproper, htext⟩
    exact ⟨_, rest, name, constraint, rfl, hproper, htext⟩
  · rintro ⟨_, rest, name, constraint, rfl, hproper, htext⟩
    exact ⟨name, constraint, rest, hproper, htext⟩

theorem not_opens_iff {t : Text} : ¬Opens ('{' :: t) ↔ readPlaceholder? t = none := by
  rw [opens_iff, Option.eq_none_iff_forall_ne_some]
  simp

namespace Canonical

theorem nil : Canonical [] where
  proper := by simp
  apart := .nil
  complete := by simp

theorem tail {token : Token} {tokens : List Token} (h : Canonical (token :: tokens)) :
    Canonical tokens where
  proper := fun other hother => h.proper other (List.mem_cons_of_mem token hother)
  apart := h.apart.tail
  complete := fun before x y after htokens =>
    h.complete (token :: before) x y after (congrArg (List.cons token) htokens)

/-- A placeholder goes in front of any canonical tokens. -/
theorem placeholder {name : Text} {constraint : Option Text} {tokens : List Token}
    (h : Canonical tokens) (hproper : (Token.placeholder name constraint).IsProper) :
    Canonical (Token.placeholder name constraint :: tokens) where
  proper := List.forall_mem_cons.mpr ⟨hproper, h.proper⟩
  apart := List.isChain_cons.mpr ⟨fun other _ hboth => hboth.1, h.apart⟩
  complete := by
    intro before x y after htokens
    cases before with
    | nil => simp at htokens
    | cons first before => exact h.complete before x y after (List.cons.inj htokens).2

/-- So does a character of literal text, unless it is a brace that opens a placeholder there. -/
theorem addChar {c : Char} {tokens : List Token} (h : Canonical tokens)
    (hopens : c = '{' → ¬Opens ('{' :: tokens.flatMap text)) : Canonical (addChar c tokens) := by
  have hfirst : ∀ {t x y rest}, c :: t = x ++ '{' :: y → tokens.flatMap text = t ++ rest →
      (∀ x', t = x' ++ '{' :: y → ¬Opens ('{' :: y ++ rest)) → ¬Opens ('{' :: y ++ rest) := by
    intro t x y rest heq htext hlater
    cases x with
    | nil =>
      obtain ⟨rfl, rfl⟩ := List.cons.inj heq
      rw [htext] at hopens
      exact hopens rfl
    | cons d x => exact hlater x (List.cons.inj heq).2
  unfold Token.addChar
  split
  · next t rest =>
    refine ⟨?_, ?_, ?_⟩
    · obtain ⟨-, hrest⟩ := List.forall_mem_cons.mp h.proper
      exact List.forall_mem_cons.mpr ⟨List.cons_ne_nil c t, hrest⟩
    · obtain ⟨hhead, hrest⟩ := List.isChain_cons.mp h.apart
      exact List.isChain_cons.mpr ⟨hhead, hrest⟩
    · intro before x y after htokens
      cases before with
      | nil =>
        obtain ⟨heq, rfl⟩ := List.cons.inj htokens
        refine hfirst (literal.inj heq) rfl fun x' ht => h.complete [] x' y rest ?_
        rw [ht, List.nil_append]
      | cons first before =>
        exact h.complete (literal t :: before) x y after (congrArg _ (List.cons.inj htokens).2)
  · next hne =>
    refine ⟨List.forall_mem_cons.mpr ⟨List.cons_ne_nil c [], h.proper⟩, ?_, ?_⟩
    · refine List.isChain_cons.mpr ⟨?_, h.apart⟩
      rintro other hother ⟨-, hliteral⟩
      cases other with
      | placeholder name constraint => exact hliteral
      | literal t =>
        obtain ⟨rest, rfl⟩ := List.head?_eq_some_iff.mp hother
        exact hne t rest rfl
    · intro before x y after htokens
      cases before with
      | nil =>
        obtain ⟨heq, rfl⟩ := List.cons.inj htokens
        exact hfirst (literal.inj heq) (List.nil_append _).symm fun x' hnil => by simp at hnil
      | cons first before => exact h.complete before x y after (List.cons.inj htokens).2

end Canonical

/-- Literal text in front of tokens that start with none is a literal of its own. -/
theorem foldr_addChar {t : Text} (ht : t ≠ []) {tokens : List Token}
    (h : ∀ u rest, tokens ≠ literal u :: rest) :
    t.foldr addChar tokens = literal t :: tokens := by
  induction t with
  | nil => exact absurd rfl ht
  | cons c t ih =>
    rw [List.foldr_cons]
    cases t with
    | nil =>
      rw [List.foldr_nil, addChar.eq_def]
      split
      · next u rest => exact absurd rfl (h u rest)
      · rfl
    | cons d t =>
      rw [ih (List.cons_ne_nil d t)]
      rfl

end Token

open Token

theorem tokenize_cons {c : Char} {rest : Text} (h : c = '{' → readPlaceholder? rest = none) :
    tokenize (c :: rest) = addChar c (tokenize rest) := by
  by_cases hc : c = '{'
  · rw [hc, tokenize_brace (h hc)]
  · rw [tokenize, if_neg hc]

/-- Text without a brace that opens a placeholder is collected in front of the tokens behind it. -/
theorem tokenize_append {t rest : Text}
    (h : ∀ x y, t = x ++ '{' :: y → readPlaceholder? (y ++ rest) = none) :
    tokenize (t ++ rest) = t.foldr addChar (tokenize rest) := by
  induction t with
  | nil => rfl
  | cons c t ih =>
    have hhead : c = '{' → readPlaceholder? (t ++ rest) = none := by
      rintro rfl
      exact h [] t rfl
    have htail : ∀ x y, t = x ++ '{' :: y → readPlaceholder? (y ++ rest) = none := by
      intro x y ht
      exact h (c :: x) y (by rw [ht, List.cons_append])
    rw [List.cons_append, tokenize_cons hhead, ih htail, List.foldr_cons]

theorem canonical_tokenize (t : Text) : Canonical (tokenize t) := by
  induction t using tokenize.induct with
  | case1 =>
    rw [tokenize]
    exact .nil
  | case2 rest token after hread hlt ih =>
    obtain ⟨name, constraint, rfl, hproper, -⟩ := readPlaceholder?_eq_some_iff.mp hread
    rw [tokenize_placeholder hread]
    exact ih.placeholder hproper
  | case3 rest hread ih =>
    rw [tokenize_brace hread]
    refine ih.addChar fun _ => ?_
    rwa [flatMap_text_tokenize, not_opens_iff]
  | case4 c rest hc ih =>
    rw [tokenize, if_neg hc]
    exact ih.addChar fun hbrace => absurd hbrace hc

/-- Canonical tokens are found again in their texts. -/
theorem tokenize_flatMap_text {tokens : List Token} (h : Canonical tokens) :
    tokenize (tokens.flatMap text) = tokens := by
  induction tokens with
  | nil => rw [List.flatMap_nil, tokenize]
  | cons token tokens ih =>
    have hrest := ih h.tail
    rw [List.flatMap_cons]
    cases token with
    | placeholder name constraint =>
      have hproper := h.proper _ List.mem_cons_self
      obtain ⟨t, ht⟩ : ∃ t, (Token.placeholder name constraint).text = '{' :: t := by
        cases constraint <;> exact ⟨_, rfl⟩
      have hread : readPlaceholder? (t ++ tokens.flatMap text) = some (.placeholder name constraint,
          tokens.flatMap text) :=
        readPlaceholder?_eq_some_iff.mpr ⟨name, constraint, rfl,
          hproper, by rw [ht, List.cons_append]⟩
      rw [ht, List.cons_append, tokenize_placeholder hread, hrest]
    | literal t =>
      have hnone : ∀ x y, t = x ++ '{' :: y →
          readPlaceholder? (y ++ tokens.flatMap text) = none := by
        rintro x y rfl
        exact not_opens_iff.mp (h.complete [] x y tokens rfl)
      have hapart : ∀ u rest, tokens ≠ literal u :: rest := by
        rintro u rest rfl
        exact (List.isChain_cons.mp h.apart).1 (literal u) rfl ⟨trivial, trivial⟩
      have ht : t ≠ [] := h.proper _ List.mem_cons_self
      rw [text, tokenize_append hnone, hrest, foldr_addChar ht hapart]

/-- The tokens of a template are the canonical ones whose texts are the template. -/
theorem tokenize_eq_iff {t : Text} {tokens : List Token} :
    tokenize t = tokens ↔ tokens.flatMap text = t ∧ Canonical tokens := by
  constructor
  · rintro rfl
    exact ⟨flatMap_text_tokenize t, canonical_tokenize t⟩
  · rintro ⟨rfl, h⟩
    exact tokenize_flatMap_text h

end Signpost
