import Signpost.Proofs.Route.Serving
import Signpost.Proofs.Template.DefaultConstraint
import Signpost.Proofs.Template.Filling
import Signpost.Proofs.Text.Case

/-!
The actions that a route makes of requests against its action pattern. The pattern knows the
arguments of the route and their constraints, the filled action has whatever the request and the
static arguments gave. They agree token by token as long as each text that was put in is one that
the constraint accepts. Main statement: `Route.IsCompiled.suits_filled`.
-/

namespace Signpost

theorem HostTemplate.newline_not_mem_valueIn (host : HostTemplate) {t : Text} (h : '\n' ∉ t) :
    '\n' ∉ host.valueIn (Text.lowerAscii t) := by
  intro hmem
  rcases Text.mem_replaceFrom hmem with hnil | hrest
  · exact absurd hnil List.not_mem_nil
  · exact h (Text.mem_of_mem_lowerAscii hrest (by decide))

namespace CompiledTemplate

variable {template action : Text} {c : CompiledTemplate} {a : Argument}

/-- An argument of the host stands for any text, one of the path has the constraint of its
placeholder. -/
theorem ReadFrom.argument_cases (h : c.ReadFrom template action) (ha : a ∈ c.arguments) :
    (a.isHost = true ∧ a.constraint = hostConstraint) ∨
      a.isHost = false ∧ ∃ p ∈ placeholders c.pathTokens, a.name = p.1 ∧ a.constraint = p.2 := by
  obtain ⟨known, more, hknown, hmore, harguments⟩ := h.arguments_eq
  rw [harguments] at ha
  obtain ⟨b, hb, rfl⟩ := List.mem_map.mp ha
  rcases List.mem_append.mp hb with hb | hb
  · unfold hostArguments at hknown
    split at hknown
    · obtain ⟨b', hb', hknown⟩ := Except.bind_eq_ok hknown
      obtain rfl := Except.ok.inj hknown
      obtain rfl := List.mem_singleton.mp hb
      exact .inl ⟨rfl, (Argument.read_eq_ok hb').2.1⟩
    · obtain rfl := Except.ok.inj hknown
      cases hb
  · obtain ⟨p, hp, hread⟩ := exists_right_of_mem hmore.flip hb
    obtain ⟨hbname, hconstraint, -, hpath⟩ := Argument.read_eq_ok hread
    exact .inr ⟨hpath, p, hp, hbname, hconstraint⟩

end CompiledTemplate

namespace Route

open CompiledTemplate

/-- Path or host give the argument its value, and any value they can give is one that its constraint
accepts when case does not matter: the host has no line feed, or the literal text of the path is
plain and the constraint accepts no less when case does not matter. -/
def BindsAnyCase (r : Route) (host : Option Text) (a : Argument) : Prop :=
  r.staticArgs.get? a.name = none ∧
    if a.isHost then ∀ h ∈ host, '\n' ∉ h else r.template.FreePath ∧ CaseFree a.constraint

/-- An argument without a constraint of its own is bound so. -/
theorem BindsAnyCase.of_default {r : Route} {host : Option Text} {a : Argument}
    (hstatic : r.staticArgs.get? a.name = none)
    (h : if a.isHost then ∀ h ∈ host,
      '\n' ∉ h else r.template.FreePath ∧ a.constraint = pathConstraint) :
    r.BindsAnyCase host a := by
  refine ⟨hstatic, ?_⟩
  split_ifs at h ⊢
  · exact h
  · exact ⟨h.1, h.2 ▸ caseFree_path⟩

/-- The action pattern can tell what is put in for a token of the action: nothing in it is taken for
another placeholder, for an argument it is a text that the constraint accepts when case does not
matter, and a placeholder that names no argument names no static argument either. -/
structure Restates (r : Route) (host : Option Text) (args : TextMap Text)
    (token : Token) : Prop where
  fills : token.Fills args.entries
  named : ∀ a ∈ namedArgument? r.template.arguments token,
    r.BindsAnyCase host a ∨ AcceptsAnyCase a.constraint (token.filled args.get?)
  other : namedArgument? r.template.arguments token = none →
    ∀ name ∈ token.bareName?, r.staticArgs.get? name = none

variable {r : Route} {q : Query} {args : TextMap Text} {taken : Captures} {token : Token}

theorem get?_takenArgs_of_mem (hnodup : (r.template.arguments.map (·.name)).Nodup) {a : Argument}
    (ha : a ∈ r.template.arguments) :
    (r.takenArgs q taken).get? a.name = r.boundValue q taken a := by
  refine Option.ext fun v => ?_
  rw [get?_takenArgs hnodup]
  constructor
  · rintro ⟨b, hb, hname, hv⟩
    obtain rfl := List.inj_on_of_nodup_map hnodup hb ha hname
    exact hv
  · exact fun hv => ⟨a, ha, rfl, hv⟩

/-- The value of an argument that is bound so is one that the constraint accepts; without a host its
name stays. -/
theorem IsCompiled.acceptsAnyCase_bound (hr : r.IsCompiled) (h : r.argsFor? q = some args)
    {a : Argument} (ha : a ∈ r.template.arguments) (hname : Token.IsName a.name)
    (hbinds : r.BindsAnyCase q.host a) :
    AcceptsAnyCase a.constraint (Token.filled args.get? (.placeholder a.name none)) := by
  obtain ⟨text, hread⟩ := hr.readFrom
  obtain ⟨-, taken, htaken, rfl⟩ := argsFor?_eq_some_iff.mp h
  obtain ⟨hstatic, hbinds⟩ := hbinds
  show AcceptsAnyCase a.constraint
    ((((r.takenArgs q taken).overlay r.staticArgs).get? a.name).getD (Text.braced a.name))
  rw [TextMap.get?_overlay, hstatic, Option.none_or, get?_takenArgs_of_mem hr.nodup_names ha,
    boundValue]
  rcases hread.argument_cases ha with ⟨hhost, hconstraint⟩ | ⟨hpath, p, hp, hpname, hconstraint⟩
  · rw [if_pos hhost] at hbinds ⊢
    rw [hconstraint]
    cases hq : q.host with
    | none =>
      refine acceptsAnyCase_host fun hmem => ?_
      have hnewline : '\n' ∈ a.name := by simpa [Text.braced] using hmem
      exact absurd (hname.2 _ hnewline) (by decide)
    | some host =>
      exact acceptsAnyCase_host (HostTemplate.newline_not_mem_valueIn _ (hbinds host hq))
  · have hpath' : ¬a.isHost = true := by simp [hpath]
    rw [if_neg hpath'] at hbinds ⊢
    obtain ⟨hfree, hcase⟩ := hbinds
    obtain ⟨v, hv, hmatch⟩ := (hfree.captures hread htaken).2 p hp
    rw [hpname, hv, Option.getD_some]
    exact hcase v (hconstraint ▸ hmatch)

/-- What is put in for a token suits it. -/
theorem IsCompiled.suits_filled (hr : r.IsCompiled) (h : r.argsFor? q = some args)
    (htoken : token ∈ tokenize r.action) (hrestates : r.Restates q.host args token) :
    Suits r.template.arguments token (token.filled args.get?) := by
  unfold Suits
  cases hnamed : namedArgument? r.template.arguments token with
  | some a =>
    rcases hrestates.named a hnamed with hbinds | haccepts
    · obtain ⟨ha, rfl⟩ := namedArgument?_eq_some hnamed
      exact hr.acceptsAnyCase_bound h ha (isName_of_mem_tokenize htoken) hbinds
    · exact haccepts
  | none =>
    match token with
    | .literal t => rfl
    | .placeholder name (some constraint) => rfl
    | .placeholder name none =>
      obtain ⟨-, taken, -, rfl⟩ := argsFor?_eq_some_iff.mp h
      have hnone : (r.takenArgs q taken).get? name = none := by
        refine Option.eq_none_iff_forall_ne_some.mpr fun v hv => ?_
        obtain ⟨a, ha, hname, -⟩ := (get?_takenArgs hr.nodup_names).mp hv
        simpa [hname] using List.find?_eq_none.mp hnamed a ha
      show (((r.takenArgs q taken).overlay r.staticArgs).get? name).getD (Text.braced name) = _
      rw [TextMap.get?_overlay, hrestates.other hnamed name rfl, Option.none_or, hnone]
      rfl

end Route

end Signpost
