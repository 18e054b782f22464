import Signpost.Proofs.Template.Tokens
import Signpost.Proofs.Text.Map
import Signpost.Proofs.Text.Replace
import Signpost.Table.Dispatch

/-!
Filling an action with arguments. The names give way to their values one after the other, so a value
could bring about a placeholder that a later name replaces. Where no text does, the action is its
template with all values put in at once, whatever the order of the names. Main statement:
`fillIn_perm`.
-/

namespace Signpost

/-- A name as it stands in a template. -/
def Text.braced (name : Text) : Text :=
  '{' :: name ++ ['}']

/-- The name stands nowhere in the text between braces, and the text does not end in the beginning
of that. -/
def Text.Lacks (t name : Text) : Prop :=
  ¬braced name <:+: t ∧ Encloses t (braced name)

instance (t name : Text) : Decidable (t.Lacks name) :=
  inferInstanceAs (Decidable (¬Text.braced name <:+: t ∧ Text.Encloses t (Text.braced name)))

/-- The text with each name of a list between braces replaced by its value, one after the other. -/
def fillIn (order : List (Text × Text)) (t : Text) : Text :=
  order.foldl (fun t e => Text.replaceAll (Text.braced e.1) e.2 t) t

theorem fillIn_of_not_mem {t : Text} (h : '{' ∉ t) (order : List (Text × Text)) :
    fillIn order t = t := by
  induction order with
  | nil => rfl
  | cons e order ih =>
    have hnowhere : ¬Text.braced e.1 <:+: t := fun hoccurs => h (hoccurs.subset List.mem_cons_self)
    rw [fillIn, List.foldl_cons, Text.replaceAll_of_not_infix hnowhere]
    exact ih

theorem fillAction_eq_fillIn (action : Text) (args : TextMap Text) :
    fillAction action args = fillIn args.entries action := by
  unfold fillAction
  split_ifs with h
  · rfl
  · exact (fillIn_of_not_mem h _).symm

namespace Token

/-- The name of a placeholder without a constraint of its own. -/
def bareName? : Token → Option Text
  | placeholder name none => some name
  | _ => none

/-- The text of a token with the value of its name put in. A placeholder with a constraint of its
own takes none. -/
def filled (value : Text → Option Text) (token : Token) : Text :=
  (token.bareName?.bind value).getD token.text

/-- Nothing in the text of the token, or in the value put in for it, is taken for a placeholder of
one of the names, except for the token itself. -/
structure Fills (es : List (Text × Text)) (token : Token) : Prop where
  encloses : ∀ e ∈ es, Text.Encloses token.text (Text.braced e.1)
  text : ∀ e ∈ es, token.bareName? = some e.1 ∨ ¬Text.braced e.1 <:+: token.text
  value : ∀ f ∈ es, token.bareName? = some f.1 → ∀ e ∈ es, f.2.Lacks e.1

instance (es : List (Text × Text)) (token : Token) : Decidable (token.Fills es) :=
  decidable_of_iff
    ((∀ e ∈ es, Text.Encloses token.text (Text.braced e.1)) ∧
      (∀ e ∈ es, token.bareName? = some e.1 ∨ ¬Text.braced e.1 <:+: token.text) ∧
      ∀ f ∈ es, token.bareName? = some f.1 → ∀ e ∈ es, f.2.Lacks e.1)
    ⟨fun h => ⟨h.1, h.2.1, h.2.2⟩, fun h => ⟨h.encloses, h.text, h.value⟩⟩

theorem text_of_bareName? {token : Token} {name : Text} (h : token.bareName? = some name) :
    token.text = Text.braced name := by
  match token with
  | placeholder _ none =>
    obtain rfl := Option.some.inj h
    rfl

variable {es fs : List (Text × Text)} {e : Text × Text} {token : Token}

theorem Fills.filled_cases (h : token.Fills es) (hsub : fs ⊆ es) :
    (token.bareName?.bind fun n => TextMap.lookup n fs) = none ∨
      ∃ v, (token.bareName?.bind fun n =>
        TextMap.lookup n fs) = some v ∧ ∀ e ∈ es, v.Lacks e.1 := by
  cases hv : token.bareName?.bind fun n => TextMap.lookup n fs with
  | none => exact .inl rfl
  | some v =>
    obtain ⟨name, hname, hlookup⟩ := Option.bind_eq_some_iff.mp hv
    exact .inr ⟨v, rfl, h.value (name, v) (hsub (TextMap.mem_of_lookup hlookup)) hname⟩

theorem Fills.encloses_filled (h : token.Fills es) (hsub : fs ⊆ es) (he : e ∈ es) :
    Text.Encloses (token.filled fun n => TextMap.lookup n fs) (Text.braced e.1) := by
  unfold filled
  rcases h.filled_cases hsub with hnone | ⟨v, hv, hlacks⟩
  · rw [hnone]
    exact h.encloses e he
  · rw [hv]
    exact (hlacks e he).2

/-- Replacing one more name in a filled token puts in one more value. -/
theorem Fills.replaceAll_filled (h : token.Fills es) (hsub : fs ++ [e] ⊆ es) :
    Text.replaceAll (Text.braced e.1) e.2 (token.filled fun n => TextMap.lookup n fs) =
      token.filled fun n => TextMap.lookup n (fs ++ [e]) := by
  have he : e ∈ es := hsub (List.mem_append_right _ List.mem_cons_self)
  have hbefore : fs ⊆ es := fun f hf => hsub (List.mem_append_left _ hf)
  have hafter : (token.bareName?.bind fun n => TextMap.lookup n (fs ++ [e])) =
      (token.bareName?.bind fun n => TextMap.lookup n fs).or
        (token.bareName?.bind fun n => if n = e.1 then some e.2 else none) := by
    cases token.bareName? with
    | none => rfl
    | some n => exact TextMap.lookup_append
  unfold filled
  rw [hafter]
  rcases h.filled_cases hbefore with hnone | ⟨v, hv, hlacks⟩
  · rw [hnone, Option.none_or, Option.getD_none]
    by_cases hname : token.bareName? = some e.1
    · rw [hname, Option.bind_some, if_pos rfl, Option.getD_some, text_of_bareName? hname]
      exact Text.replaceAll_self (List.cons_ne_nil _ _)
    · have hother : (token.bareName?.bind fun n => if n = e.1 then some e.2 else none) = none := by
        rw [Option.bind_eq_none_iff]
        intro n hn
        exact if_neg fun heq : n = e.1 => hname (heq ▸ hn)
      rw [hother, Option.getD_none, Text.replaceAll_of_not_infix ((h.text e he).resolve_left hname)]
  · rw [hv, Option.some_or, Option.getD_some]
    exact Text.replaceAll_of_not_infix (hlacks e he).1

end Token

theorem fillIn_filled {tokens : List Token} {es : List (Text × Text)}
    (h : ∀ token ∈ tokens, token.Fills es) {known order : List (Text × Text)}
    (hsub : known ++ order ⊆ es) :
    fillIn order (tokens.flatMap (Token.filled fun n => TextMap.lookup n known)) =
      tokens.flatMap (Token.filled fun n => TextMap.lookup n (known ++ order)) := by
  induction order generalizing known with
  | nil => rw [List.append_nil, fillIn, List.foldl_nil]
  | cons e order ih =>
    have hassoc : known ++ e :: order = known ++ [e] ++ order := by simp
    rw [hassoc] at hsub ⊢
    have hstep : known ++ [e] ⊆ es := fun f hf => hsub (List.mem_append_left _ hf)
    have hknown : known ⊆ es := fun f hf => hstep (List.mem_append_left _ hf)
    have he : e ∈ es := hstep (List.mem_append_right _ List.mem_cons_self)
    rw [← ih hsub, fillIn, List.foldl_cons,
      Text.replaceAll_flatMap fun token htoken => (h token htoken).encloses_filled hknown he,
      List.flatMap_congr fun token htoken => (h token htoken).replaceAll_filled hstep]
    rfl

/-- Filling tokens name after name, in whatever order, puts in all values at once. -/
theorem fillIn_tokens {tokens : List Token} {args : TextMap Text}
    (h : ∀ token ∈ tokens, token.Fills args.entries) {order : List (Text × Text)}
    (horder : order.Perm args.entries) :
    fillIn order (tokens.flatMap Token.text) = tokens.flatMap (Token.filled args.get?) := by
  have hlookup : ∀ n, TextMap.lookup n order = args.get? n := by
    intro n
    have hnodup : (order.map (·.1)).Nodup := (horder.map _).nodup_iff.mpr args.nodup_keys
    refine Option.ext fun v => ?_
    rw [TextMap.lookup_eq_some_iff hnodup, horder.mem_iff, TextMap.mem_entries]
  have hnone : ∀ token : Token, token.filled (fun n => TextMap.lookup n []) = token.text := by
    intro token
    unfold Token.filled
    cases token.bareName? <;> rfl
  have hfilled := fillIn_filled h (List.nil_append order ▸ horder.subset)
  rw [List.flatMap_congr fun token _ => hnone token, List.nil_append] at hfilled
  rw [hfilled]
  simp only [hlookup]

/-- Filling a template so puts in all values at once. -/
theorem fillIn_perm {action : Text} {args : TextMap Text}
    (h : ∀ token ∈ tokenize action, token.Fills args.entries) {order : List (Text × Text)}
    (horder : order.Perm args.entries) :
    fillIn order action = (tokenize action).flatMap (Token.filled args.get?) := by
  have hfilled := fillIn_tokens h horder
  rwa [flatMap_text_tokenize] at hfilled

/-- A text without the opening sign, or that ends in the closing one, ends in no beginning of a name
between braces. -/
theorem Text.encloses_braced {t name : Text} (hname : '}' ∉ name)
    (h : '{' ∉ t ∨ t.getLast? = some '}') :
    Encloses t (braced name) := by
  intro beginning hinits hne hsuffix
  obtain ⟨b, rfl⟩ : ∃ b, beginning = '{' :: b := by
    cases beginning with
    | nil => exact absurd rfl hne
    | cons c b =>
      obtain ⟨rfl, -⟩ := List.cons_prefix_cons.mp ((List.mem_inits _ _).mp hinits)
      exact ⟨b, rfl⟩
  rcases h with hopen | hlast
  · exact absurd (hsuffix.subset List.mem_cons_self) hopen
  · have hprefix : b <+: name ++ ['}'] :=
      (List.cons_prefix_cons.mp ((List.mem_inits _ _).mp hinits)).2
    rcases List.prefix_concat_iff.mp hprefix with rfl | hwithin
    · rfl
    · -- the beginning would end in the closing sign too, which is not in the name
      obtain ⟨before, rfl⟩ := hsuffix
      rw [List.getLast?_append_of_ne_nil _ hne] at hlast
      rcases List.mem_cons.mp (List.mem_of_getLast? hlast) with heq | hmem
      · cases heq
      · exact absurd (hwithin.subset hmem) hname

/-- A name between braces stands in another only as the same name. -/
theorem Text.eq_of_braced_infix {m n : Text} (hopen : '{' ∉ n) (hm : '}' ∉ m) (hn : '}' ∉ n)
    (h : braced m <:+: braced n) : m = n := by
  obtain ⟨x, y, heq⟩ := h
  cases x with
  | cons c x =>
    have hrest : x ++ braced m ++ y = n ++ ['}'] := (List.cons.inj heq).2
    have hmem : '{' ∈ n ++ ['}'] := by simp [← hrest, braced]
    simp [hopen] at hmem
  | nil =>
    have hrest : m ++ '}' :: y = n ++ '}' :: [] := by simpa [braced] using heq
    exact (Text.append_separator_inj hm hn hrest).1

/-- The token is literal text without an opening sign, or a name between braces that has neither
sign in it. -/
def Token.IsSimple : Token → Prop
  | literal t => '{' ∉ t
  | placeholder name none => '{' ∉ name ∧ '}' ∉ name
  | placeholder _ (some _) => False

instance : DecidablePred Token.IsSimple
  | .literal t => inferInstanceAs (Decidable ('{' ∉ t))
  | .placeholder name none => inferInstanceAs (Decidable ('{' ∉ name ∧ '}' ∉ name))
  | .placeholder _ (some _) => .isFalse id

/-- Such tokens are filled with any values that have no opening sign, under names that have neither
sign. -/
theorem Token.fills_of_isSimple {es : List (Text × Text)} {token : Token} (htoken : token.IsSimple)
    (hes : ∀ e ∈ es, '{' ∉ e.1 ∧ '}' ∉ e.1 ∧ '{' ∉ e.2) : token.Fills es := by
  have hvalue : ∀ f ∈ es, ∀ e ∈ es, f.2.Lacks e.1 := by
    intro f hf e he
    obtain ⟨-, -, hopen⟩ := hes f hf
    exact ⟨fun h => hopen (h.subset List.mem_cons_self),
      Text.encloses_braced (hes e he).2.1 (.inl hopen)⟩
  match token with
  | literal t =>
    have hopen : '{' ∉ t := htoken
    exact ⟨fun e he => Text.encloses_braced (hes e he).2.1 (.inl hopen),
      fun e he => .inr fun h => hopen (h.subset List.mem_cons_self), fun f hf _ => hvalue f hf⟩
  | placeholder name none =>
    obtain ⟨hopen, hclose⟩ := htoken
    refine ⟨fun e he => Text.encloses_braced (hes e he).2.1 (.inr ?_), fun e he => ?_,
      fun f hf _ => hvalue f hf⟩
    · exact List.getLast?_concat
    · rw [or_iff_not_imp_right, not_not]
      exact fun h => congrArg some (Text.eq_of_braced_infix hopen (hes e he).2.1 hclose h).symm

end Signpost
