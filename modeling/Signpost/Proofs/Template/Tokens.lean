import Mathlib.Data.List.Forall2
import Mathlib.Data.List.Nodup
import Mathlib.Data.List.TakeWhile
import Signpost.Proofs.Regex.Steady
import Signpost.Proofs.Route.Compiled

/-!
Templates and their tokens. The printed tokens of a template in a row are the template, a slash that
may be left out is dropped from the end and nowhere else, and the arguments of a template are those
of its placeholders in order, no two of one name. Main statements: `flatMap_text_tokenize`,
`CompiledTemplate.exists_flatMap_dropOptionalSlash` and `CompiledTemplate.readArguments_spec`.
-/

namespace Signpost

namespace Token

def IsName (name : Text) : Prop :=
  name ≠ [] ∧ ∀ c ∈ name, isNameChar c = true

theorem IsName.angle_not_mem {name : Text} (h : IsName name) : '>' ∉ name :=
  fun hangle => absurd (h.2 '>' hangle) (by decide)

theorem readName?_eq_some {constraint : Option Text} {t rest : Text} {token : Token}
    (h : readName? constraint t = some (token, rest)) :
    ∃ name, token = placeholder name constraint ∧ IsName name ∧ t = name ++ '}' :: rest := by
  unfold readName? at h
  split at h
  · next c name rest' htake hdrop =>
    obtain ⟨rfl, rfl⟩ := Prod.mk.inj (Option.some.inj h)
    refine ⟨c :: name, rfl, ⟨List.cons_ne_nil c name, fun d hd => ?_⟩, ?_⟩
    · rw [← htake] at hd
      exact List.mem_takeWhile_imp hd
    · rw [← htake, ← hdrop, List.takeWhile_append_dropWhile]
  · simp at h

/-- Literal text is there, and a placeholder has a name and, if it has a constraint, one that is
there and does not end at an angle of its own. -/
def IsProper : Token → Prop
  | literal t => t ≠ []
  | placeholder name constraint => IsName name ∧ ∀ c ∈ constraint, c ≠ [] ∧ '>' ∉ c

theorem readPlaceholder?_eq_some {t rest : Text} {token : Token}
    (h : readPlaceholder? t = some (token, rest)) :
    ∃ name constraint,
      token = placeholder name constraint ∧ token.IsProper ∧ '{' :: t = token.text ++ rest := by
  unfold readPlaceholder? at h
  split at h
  · split at h
    · next c more after hcut =>
      obtain ⟨name, rfl, hname, rfl⟩ := readName?_eq_some h
      refine ⟨name, _, rfl, ⟨hname, ?_⟩, ?_⟩
      · intro constraint hconstraint
        obtain rfl := Option.some.inj hconstraint
        exact ⟨List.cons_ne_nil c more, Text.not_mem_of_cutFirst hcut⟩
      · rw [Text.cutFirst_sound hcut]
        simp [text]
    · simp at h
  · obtain ⟨name, rfl, hname, rfl⟩ := readName?_eq_some h
    exact ⟨name, none, rfl, ⟨hname, by simp⟩, by simp [text]⟩

theorem flatMap_text_addChar (c : Char) (tokens : List Token) :
    (addChar c tokens).flatMap text = c :: tokens.flatMap text := by
  unfold addChar
  split <;> simp [text]

theorem mem_addChar {c : Char} {tokens : List Token} {name : Text} {constraint : Option Text}
    (h : placeholder name constraint ∈ addChar c tokens) :
    placeholder name constraint ∈ tokens := by
  unfold addChar at h
  split at h
  · next t rest =>
    rcases List.mem_cons.mp h with heq | hrest
    · exact absurd heq (by simp)
    · exact List.mem_cons_of_mem _ hrest
  · rcases List.mem_cons.mp h with heq | hrest
    · exact absurd heq (by simp)
    · exact hrest

end Token

theorem tokenize_placeholder {rest after : Text} {token : Token}
    (h : Token.readPlaceholder? rest = some (token, after)) :
    tokenize ('{' :: rest) = token :: tokenize after := by
  rw [tokenize, if_pos rfl]
  split
  · next h' =>
    obtain ⟨rfl, rfl⟩ := Prod.mk.inj (Option.some.inj (h.symm.trans h'))
    rfl
  · next h' =>
    rw [h] at h'
    simp at h'

theorem tokenize_brace {rest : Text} (h : Token.readPlaceholder? rest = none) :
    tokenize ('{' :: rest) = Token.addChar '{' (tokenize rest) := by
  rw [tokenize, if_pos rfl]
  split
  · next h' =>
    rw [h] at h'
    simp at h'
  · rfl

/-- Taking a template apart loses nothing. -/
@[simp]
theorem flatMap_text_tokenize (t : Text) : (tokenize t).flatMap Token.text = t := by
  induction t using tokenize.induct with
  | case1 => simp [tokenize]
  | case2 rest token after hread hlt ih =>
    obtain ⟨name, constraint, -, -, htext⟩ := Token.readPlaceholder?_eq_some hread
    rw [tokenize_placeholder hread, List.flatMap_cons, ih, htext]
  | case3 rest hread ih => rw [tokenize_brace hread, Token.flatMap_text_addChar, ih]
  | case4 c rest hc ih => rw [tokenize, if_neg hc, Token.flatMap_text_addChar, ih]

theorem isName_of_mem_tokenize {t name : Text} {constraint : Option Text}
    (h : Token.placeholder name constraint ∈ tokenize t) : Token.IsName name := by
  induction t using tokenize.induct with
  | case1 => simp [tokenize] at h
  | case2 rest token after hread hlt ih =>
    obtain ⟨name', constraint', rfl, hproper, -⟩ := Token.readPlaceholder?_eq_some hread
    rw [tokenize_placeholder hread] at h
    rcases List.mem_cons.mp h with heq | hrest
    · obtain ⟨rfl, -⟩ := Token.placeholder.inj heq
      exact hproper.1
    · exact ih hrest
  | case3 rest hread ih =>
    rw [tokenize_brace hread] at h
    exact ih (Token.mem_addChar h)
  | case4 c rest hc ih =>
    rw [tokenize, if_neg hc] at h
    exact ih (Token.mem_addChar h)

/-- The name of each placeholder with the text of its constraint, in order. -/
def placeholders : List Token → List (Text × Text)
  | [] => []
  | .literal _ :: tokens => placeholders tokens
  | .placeholder name constraint :: tokens =>
    (name, constraint.getD pathConstraint) :: placeholders tokens

theorem mem_placeholders {name : Text} {constraint : Option Text} {tokens : List Token}
    (h : Token.placeholder name constraint ∈ tokens) :
    (name, constraint.getD pathConstraint) ∈ placeholders tokens := by
  induction tokens with
  | nil => simp at h
  | cons token tokens ih =>
    cases token with
    | literal t =>
      have hrest : Token.placeholder name constraint ∈ tokens := by simpa using h
      exact ih hrest
    | placeholder name' constraint' =>
      rcases List.mem_cons.mp h with heq | hrest
      · obtain ⟨rfl, rfl⟩ := Token.placeholder.inj heq
        exact List.mem_cons_self
      · exact List.mem_cons_of_mem _ (ih hrest)

theorem exists_mem_of_mem_placeholders {tokens : List Token} {p : Text × Text}
    (h : p ∈ placeholders tokens) :
    ∃ constraint,
      Token.placeholder p.1 constraint ∈ tokens ∧ p.2 = constraint.getD pathConstraint := by
  induction tokens with
  | nil => simp [placeholders] at h
  | cons token tokens ih =>
    cases token with
    | literal t =>
      obtain ⟨constraint, hmem, heq⟩ := ih h
      exact ⟨constraint, List.mem_cons_of_mem _ hmem, heq⟩
    | placeholder name constraint =>
      rcases List.mem_cons.mp h with rfl | hrest
      · exact ⟨constraint, List.mem_cons_self, rfl⟩
      · obtain ⟨constraint, hmem, heq⟩ := ih hrest
        exact ⟨constraint, List.mem_cons_of_mem _ hmem, heq⟩

namespace CompiledTemplate

@[simp]
theorem placeholders_dropOptionalSlash (tokens : List Token) :
    placeholders (dropOptionalSlash tokens) = placeholders tokens := by
  induction tokens using dropOptionalSlash.induct with
  | case1 => rfl
  | case2 t hstrip =>
    rw [dropOptionalSlash, hstrip]
    rfl
  | case3 t kept hkept hstrip =>
    rw [dropOptionalSlash, hstrip]
    cases kept <;> rfl
  | case4 t hstrip => rw [dropOptionalSlash, hstrip]
  | case5 token tokens hne ih =>
    rw [dropOptionalSlash]
    · cases token with
      | literal t => exact ih
      | placeholder name constraint => exact congrArg (List.cons _) ih
    · exact hne

/-- Only a slash that may be left out is dropped, from the end of the last literal, whatever stands
for the placeholders. -/
theorem exists_flatMap_dropOptionalSlash (tokens : List Token) :
    ∃ ending, (ending = [] ∨ ending = optionalSlash) ∧
      ∀ f : Token → Text, (∀ t, f (.literal t) = t) →
        tokens.flatMap f = (dropOptionalSlash tokens).flatMap f ++ ending := by
  induction tokens using dropOptionalSlash.induct with
  | case1 => exact ⟨[], .inl rfl, fun _ _ => rfl⟩
  | case2 t hstrip =>
    refine ⟨optionalSlash, .inr rfl, fun f hf => ?_⟩
    rw [dropOptionalSlash, hstrip, List.flatMap_singleton, hf, Text.stripEnd?_eq_some hstrip]
    rfl
  | case3 t kept hkept hstrip =>
    refine ⟨optionalSlash, .inr rfl, fun f hf => ?_⟩
    rw [dropOptionalSlash, hstrip, List.flatMap_singleton, hf, Text.stripEnd?_eq_some hstrip]
    simp only [List.flatMap_singleton, hf]
  | case4 t hstrip =>
    refine ⟨[], .inl rfl, fun f hf => ?_⟩
    rw [dropOptionalSlash, hstrip, List.append_nil]
  | case5 token tokens hne ih =>
    obtain ⟨ending, hending, hrest⟩ := ih
    refine ⟨ending, hending, fun f hf => ?_⟩
    rw [dropOptionalSlash]
    · rw [List.flatMap_cons, List.flatMap_cons, hrest f hf, List.append_assoc]
    · exact hne

theorem hostArguments_names {host : HostTemplate} {known : List Argument}
    (h : hostArguments host = .ok known) :
    known.map (·.name) = host.placeholder.toList := by
  unfold hostArguments at h
  split at h
  · next name hname =>
    obtain ⟨a, ha, h⟩ := Except.bind_eq_ok h
    obtain rfl := Except.ok.inj h
    rw [hname, Option.toList_some, List.map_singleton, (Argument.read_eq_ok ha).1]
  · next hname =>
    obtain rfl := Except.ok.inj h
    rw [hname, Option.toList_none, List.map_nil]

/-- The arguments read from placeholders: one for each, in order, under a name that none before it
has. -/
theorem readArguments_spec {template : Text} {known found : List Argument} {tokens : List Token}
    (h : readArguments template known tokens = .ok found) :
    ∃ more, found = known ++ more ∧
      List.Forall₂ (fun p a => Argument.read p.1 p.2 = .ok a) (placeholders tokens) more ∧
      ((known.map (·.name)).Nodup → (found.map (·.name)).Nodup) := by
  induction tokens generalizing known with
  | nil =>
    obtain rfl := Except.ok.inj h
    exact ⟨[], by simp, .nil, id⟩
  | cons token tokens ih =>
    cases token with
    | literal t => exact ih h
    | placeholder name constraint =>
      simp only [readArguments] at h
      split_ifs at h with hname hknown
      obtain ⟨a, ha, h⟩ := Except.bind_eq_ok h
      obtain ⟨more, rfl, hmore, hnodup⟩ := ih h
      refine ⟨a :: more, by simp, .cons ha hmore, fun hnames => ?_⟩
      have haname : a.name = name := (Argument.read_eq_ok ha).1
      have hfresh : name ∉ known.map (·.name) := by simpa using hknown
      refine hnodup ?_
      rw [List.map_append, List.nodup_append]
      refine ⟨hnames, List.nodup_singleton _, fun n hn n' hn' heq => hfresh ?_⟩
      obtain rfl : n' = a.name := List.mem_singleton.mp hn'
      rwa [← haname, ← heq]

/-- No two arguments of a compiled template have one name. -/
theorem ReadFrom.nodup_names {template action : Text} {c : CompiledTemplate}
    (h : c.ReadFrom template action) :
    (c.arguments.map (·.name)).Nodup := by
  obtain ⟨known, found, hknown, hfound, harguments⟩ := h.arguments
  have hnames : (known.map (·.name)).Nodup := by
    rw [hostArguments_names hknown]
    cases c.host.placeholder with
    | none => exact .nil
    | some name => exact List.nodup_singleton name
  obtain ⟨more, -, -, hnodup⟩ := readArguments_spec hfound
  rw [harguments, List.map_map]
  exact hnodup hnames

end CompiledTemplate

theorem Route.IsCompiled.nodup_names {r : Route} (hr : r.IsCompiled) :
    (r.template.arguments.map (·.name)).Nodup := by
  obtain ⟨text, hread⟩ := hr.readFrom
  exact hread.nodup_names

end Signpost
