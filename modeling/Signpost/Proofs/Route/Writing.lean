import Signpost.Proofs.Route.Binding
import Signpost.Proofs.Template.ActionPattern

/-!
What a route writes for an action. The URL is the mount point, the path with the values of its
arguments and then, behind a question mark, the arguments of the caller that the route has no use
for. Whatever the values are, it is a reference that goes below an address: it is empty or starts
with a path, a query or a fragment. Main statements: `Route.IsCompiled.urlFor?_eq_writes` and
`Route.IsCompiled.isRelative_withPairs`.
-/

namespace Signpost

/-- A reference that goes below an address: nothing, or a path, a query or a fragment with its
sign. -/
def Url.IsRelative (t : Text) : Prop :=
  ∀ c ∈ t.head?, c = '/' ∨ c = '?' ∨ c = '#'

instance (t : Text) : Decidable (Url.IsRelative t) :=
  inferInstanceAs (Decidable (∀ c ∈ t.head?, c = '/' ∨ c = '?' ∨ c = '#'))

namespace Url

theorem isRelative_nil : IsRelative [] := by
  intro c hc
  cases hc

theorem isRelative_cons {c : Char} (h : c = '/' ∨ c = '?' ∨ c = '#') (t : Text) :
    IsRelative (c :: t) := by
  intro d hd
  obtain rfl := Option.some.inj hd
  exact h

theorem IsRelative.append {t u : Text} (ht : IsRelative t) (hu : IsRelative u) :
    IsRelative (t ++ u) := by
  cases t with
  | nil => exact hu
  | cons c t => exact isRelative_cons (ht c rfl) (t ++ u)

end Url

theorem Token.exists_addChar (c : Char) (tokens : List Token) :
    ∃ t rest, addChar c tokens = literal (c :: t) :: rest := by
  unfold addChar
  split
  · exact ⟨_, _, rfl⟩
  · exact ⟨_, _, rfl⟩

namespace CompiledTemplate

variable {template action : Text} {c : CompiledTemplate}

/-- Dropping the slash that may be left out keeps a slash in front, unless it is that one. -/
theorem head_dropOptionalSlash (t : Text) (rest : List Token) :
    ∀ token ∈ (dropOptionalSlash (.literal ('/' :: t) :: rest)).head?, ∃ u,
      token = .literal ('/' :: u) := by
  intro token htoken
  cases rest with
  | cons next rest =>
    obtain rfl := Option.some.inj htoken
    exact ⟨t, rfl⟩
  | nil =>
    simp only [dropOptionalSlash] at htoken
    split at htoken
    · cases htoken
    · next kept hkept hstrip =>
      obtain rfl := Option.some.inj htoken
      have htext := Text.stripEnd?_eq_some hstrip
      cases kept with
      | nil => exact absurd rfl hkept
      | cons d kept =>
        obtain ⟨rfl, -⟩ := List.cons.inj htext
        exact ⟨kept, rfl⟩
    · obtain rfl := Option.some.inj htoken
      exact ⟨t, rfl⟩

/-- The tokens of a path start with literal text that starts with a slash. There is none when that
may be left out and is all there is. -/
theorem ReadFrom.pathTokens_cases (h : c.ReadFrom template action) :
    c.pathTokens = [] ∨ ∃ t tokens, c.pathTokens = .literal ('/' :: t) :: tokens := by
  obtain ⟨rest, hpath⟩ : ∃ rest, c.path = '/' :: rest := by
    rw [h.path]
    cases hdrop : template.dropWhile (· ≠ '/') with
    | nil =>
      have hnone := List.dropWhile_eq_nil_iff.mp hdrop '/' h.slash
      simp at hnone
    | cons d rest =>
      have hd := List.head_dropWhile_not (fun d =>
        decide (d ≠ '/')) (by rw [hdrop]; exact List.cons_ne_nil d rest)
      simp only [hdrop, List.head_cons, decide_eq_false_iff_not, ne_eq, not_not] at hd
      exact ⟨rest, by rw [hd]⟩
  -- The slash that ends the host opens no placeholder, so the path starts with a literal that
  -- starts with it.
  have htokens : tokenize c.path = Token.addChar '/' (tokenize rest) := by
    rw [hpath, tokenize, if_neg (by decide)]
  obtain ⟨t, more, hadd⟩ := Token.exists_addChar '/' (tokenize rest)
  have hhead := head_dropOptionalSlash t more
  rw [← hadd, ← htokens, ← h.pathTokens] at hhead
  cases htoken : c.pathTokens with
  | nil => exact .inl rfl
  | cons token tokens =>
    rw [htoken] at hhead
    obtain ⟨u, rfl⟩ := hhead token rfl
    exact .inr ⟨u, tokens, rfl⟩

theorem ReadFrom.isRelative_renderPath (h : c.ReadFrom template action) (values : TextMap Text) :
    Url.IsRelative (c.renderPath values) := by
  unfold renderPath
  rcases h.pathTokens_cases with hnone | ⟨t, tokens, htokens⟩
  · rw [hnone]
    exact Url.isRelative_nil
  · rw [htokens]
    exact Url.isRelative_cons (.inl rfl) _

end CompiledTemplate

namespace Route

/-- Where the current request says that the application and dispatching are mounted. -/
def mountPrefix (current : Option Request) : Text :=
  match current with
  | some c => mountPoint c.contextPath ++ mountPoint c.servletPath
  | none => []

/-- The name is that of an argument of the template or of a static one. -/
def uses (r : Route) (name : Text) : Bool :=
  r.template.arguments.any (·.name == name) || r.staticArgs.contains name

/-- The pairs of a name and a value that the route has no use for: the arguments of the caller that
are neither arguments of the template nor static ones, a list giving one pair for each of its
values. -/
def leftOver (r : Route) (args : Args) : List (Text × Text) :=
  (args.entries.filter fun e => !r.uses e.1).flatMap fun e => e.2.values.map fun v => (e.1, v)

theorem mountedPath_eq_append (r : Route) (bound : TextMap Text) (current : Option Request) :
    r.mountedPath bound current = mountPrefix current ++ r.template.renderPath bound := by
  cases current with
  | none => rfl
  | some c => exact (List.append_assoc _ _ _).symm

theorem isRelative_mountPoint (path : Text) : Url.IsRelative (mountPoint path) := by
  unfold mountPoint
  split
  · exact Url.isRelative_nil
  · exact Url.isRelative_nil
  · exact Url.isRelative_cons (.inl rfl) _
  · exact Url.isRelative_cons (.inl rfl) _

theorem isRelative_mountPrefix (current : Option Request) :
    Url.IsRelative (mountPrefix current) := by
  cases current with
  | none => exact Url.isRelative_nil
  | some c =>
    exact (isRelative_mountPoint c.contextPath).append (isRelative_mountPoint c.servletPath)

theorem withPairs_eq_append (path : Text) (pairs : List (Text × Text)) :
    withPairs path pairs = path ++ withPairs [] pairs := by
  cases pairs with
  | nil => exact (List.append_nil path).symm
  | cons pair pairs => rfl

theorem isRelative_withPairs_nil (pairs : List (Text × Text)) :
    Url.IsRelative (withPairs [] pairs) := by
  cases pairs with
  | nil => exact Url.isRelative_nil
  | cons pair pairs => exact Url.isRelative_cons (.inr (.inl rfl)) _

variable {r : Route} {groups : Captures} {args : Args}

/-- The URL that a route writes goes below an address, whatever the values in it and wherever the
application is mounted. -/
theorem IsCompiled.isRelative_withPairs (hr : r.IsCompiled) (bound : TextMap Text)
    (current : Option Request) (pairs : List (Text × Text)) :
    Url.IsRelative (withPairs (r.mountedPath bound current) pairs) := by
  obtain ⟨text, hread⟩ := hr.readFrom
  rw [withPairs_eq_append, mountedPath_eq_append]
  have hpath := hread.isRelative_renderPath bound
  exact ((isRelative_mountPrefix current).append hpath).append (isRelative_withPairs_nil pairs)

theorem IsCompiled.fromAction_eq_none (hr : r.IsCompiled) {name : Text}
    (hname : name ∉ r.template.arguments.map (·.name)) : r.fromAction groups name = none := by
  obtain ⟨text, hread⟩ := hr.readFrom
  have hother : r.template.actionArguments.contains name = false := by
    rw [hread.actionArguments, Bool.eq_false_iff, ne_eq, List.contains_iff_mem]
    exact fun hmem => hname (CompiledTemplate.mem_names_of_actionPieces hmem)
  rw [fromAction, hother, if_neg Bool.false_ne_true]

theorem not_mem_of_not_uses {name : Text} (h : (!r.uses name) = true) :
    name ∉ r.template.arguments.map (·.name) := by
  rw [← any_name_iff]
  intro hargument
  rw [uses, hargument] at h
  cases h

/-- The action gives nothing under a name that the route does not use. -/
theorem IsCompiled.given_of_not_uses (hr : r.IsCompiled) {name : Text} (h : (!r.uses name) = true) :
    r.given groups args name = args.get? name := by
  rw [given, hr.fromAction_eq_none (not_mem_of_not_uses h), Option.none_or]

/-- The query has what the caller gave and the route has no use for. What the action itself gives
and what falls back on the empty value are arguments of the route and do not come into it. -/
theorem IsCompiled.queryPairs_eq_leftOver (hr : r.IsCompiled) {working : Args}
    (hworking : ∀ name, working.get? name = r.entered groups args name) :
    r.queryPairs working (r.boundArgs groups args) = r.leftOver args := by
  have hbound : ∀ name,
      (r.boundArgs groups args).contains name = r.template.arguments.any (·.name == name) := by
    intro name
    rw [Bool.eq_iff_iff, any_name_iff, TextMap.contains, Option.isSome_iff_exists]
    simp only [get?_boundArgs hr.nodup_names]
    exact ⟨fun ⟨_, hname, _⟩ => hname, fun hname => ⟨_, hname, rfl⟩⟩
  have hsame : ∀ name, (!r.uses name) = true → working.get? name = args.get? name :=
    fun name hname => by
    rw [hworking, entered_of_not_mem (not_mem_of_not_uses hname), hr.given_of_not_uses hname]
  unfold queryPairs leftOver
  simp only [hbound]
  exact congrArg (List.flatMap _) (TextMap.filter_entries_congr hsame)

/-- Host and URL that a route writes with what its action pattern took and the arguments. -/
def writes (r : Route) (groups : Captures) (args : Args) (current : Option Request) : Text × Text :=
  (r.template.renderHost (r.boundArgs groups args),
    withPairs (r.mountedPath (r.boundArgs groups args) current) (r.leftOver args))

theorem IsCompiled.urlFor?_eq_writes (hr : r.IsCompiled) {action : Text} {current : Option Request}
    (hgroups : r.template.actionPattern.captures? action = some groups)
    (h : r.SatisfiedBy groups args (current.bind (·.format))) :
    r.urlFor? action args current = some (r.writes groups args current) := by
  obtain ⟨working, hworking, hurl⟩ := urlFor?_of_satisfied hr.nodup_names hgroups h
  rw [hurl, hr.queryPairs_eq_leftOver hworking, writes]

end Route

end Signpost
