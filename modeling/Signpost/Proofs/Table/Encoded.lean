import Signpost.Proofs.Table.WrittenUrl
import Signpost.Proofs.Template.Decomposition
import Signpost.Proofs.Url.FormReading

/-!
URLs in which every value is encoded. When nothing that is given for an action is left to the
client, each value in the path and each pair in the query is read back from what is written, and
values add no sign to a URL that could be taken for one of its own. Main statement:
`RouteTable.resolve_reads_back`.
-/

namespace Signpost

namespace Url

/-- The signs in a text that no encoded text has, in their order. -/
def signs (t : Text) : Text :=
  t.filter fun c => !isFormChar c

@[simp]
theorem signs_append (t u : Text) : signs (t ++ u) = signs t ++ signs u :=
  List.filter_append t u

@[simp]
theorem signs_encode (t : Text) : signs (encode t) = [] := by
  refine List.filter_eq_nil_iff.mpr fun c hc => ?_
  rw [isFormChar_of_mem_encode hc]
  exact Bool.false_ne_true

theorem count_signs {c : Char} (h : isFormChar c = false) (t : Text) :
    (signs t).count c = t.count c :=
  List.count_filter (by rw [h]; rfl)

@[simp]
theorem signs_formPair (pair : Text × Text) : signs (formPair pair) = ['='] := by
  have hvalue : signs ('=' :: encode pair.2) = '=' :: signs (encode pair.2) := rfl
  simp [formPair, hvalue]

/-- The signs of a form tell how many pairs it has and nothing else. -/
theorem signs_join (pairs : List (Text × Text)) :
    signs (Text.join ['&'] (pairs.map formPair)) =
      Text.join ['&'] (List.replicate pairs.length ['=']) := by
  induction pairs with
  | nil => rfl
  | cons pair pairs ih =>
    cases pairs with
    | nil => exact signs_formPair pair
    | cons next pairs =>
      have hmore : signs (Text.join ['&'] ((pair :: next :: pairs).map formPair)) =
          ['='] ++ ['&'] ++ signs (Text.join ['&'] ((next :: pairs).map formPair)) := by
        rw [List.map_cons, List.map_cons, Text.join_cons_cons, signs_append, signs_append,
          signs_formPair]
        rfl
      rw [hmore, ih]
      rfl

end Url

theorem ArgValue.mem_values_of_first? {value : ArgValue} {v : Text} (h : value.first? = some v) :
    v ∈ value.values := by
  cases value with
  | single t => exact List.mem_singleton.mpr (Option.some.inj h).symm
  | list ts => exact List.mem_of_head? h

namespace Route

open CompiledTemplate

variable {r : Route} {groups : Captures} {args args' : Args}

/-- No value that the action or the caller gives is left for the client to fill in. -/
def GivesNoDeferred (r : Route) (groups : Captures) (args : Args) : Prop :=
  ∀ name value, r.given groups args name = some value → ∀ v ∈ value.values, isDeferred v = false

theorem GivesNoDeferred.taken (h : r.GivesNoDeferred groups args) (name : Text) :
    isDeferred (Argument.taken (r.given groups args name)) = false := by
  unfold Argument.taken
  cases hfirst : (r.given groups args name).bind ArgValue.first? with
  | none => rfl
  | some v =>
    obtain ⟨value, hgiven, hv⟩ := Option.bind_eq_some_iff.mp hfirst
    exact h name value hgiven v (ArgValue.mem_values_of_first? hv)

theorem GivesNoDeferred.leftOver (hr : r.IsCompiled) (h : r.GivesNoDeferred groups args) :
    ∀ pair ∈ r.leftOver args, isDeferred pair.2 = false := by
  intro pair hpair
  obtain ⟨⟨name, value⟩, hentry, hpair⟩ := List.mem_flatMap.mp hpair
  obtain ⟨hentry, hunused⟩ := List.mem_filter.mp hentry
  obtain ⟨v, hv, rfl⟩ := List.mem_map.mp hpair
  refine h name value ?_ v hv
  rw [hr.given_of_not_uses hunused]
  exact TextMap.mem_entries.mp hentry

/-- Every placeholder of the path has a value bound. -/
theorem IsCompiled.exists_bound (hr : r.IsCompiled) {p : Text × Text}
    (hp : p ∈ placeholders r.template.pathTokens) :
    (r.boundArgs groups args).get? p.1 = some (Argument.taken (r.given groups args p.1)) := by
  obtain ⟨text, hread⟩ := hr.readFrom
  obtain ⟨a, ha, hname, -⟩ := hread.exists_pathArgument hp
  exact (get?_boundArgs hr.nodup_names).mpr ⟨hname ▸ List.mem_map_of_mem ha, rfl⟩

/-- The path has the encoded values at its placeholders. -/
theorem IsCompiled.renderPath_encoded (hr : r.IsCompiled) (h : r.GivesNoDeferred groups args) :
    r.template.renderPath (r.boundArgs groups args) =
      written (fun name =>
        ((r.boundArgs groups args).get? name).map Url.encode) r.template.pathTokens := by
  refine List.flatMap_congr fun token htoken => ?_
  cases token with
  | literal t => rfl
  | placeholder name constraint =>
    have hvalue :
        (r.boundArgs groups args).get? name = some (Argument.taken (r.given groups args name)) :=
      hr.exists_bound (mem_placeholders htoken)
    dsimp only
    rw [hvalue, Option.map_some, Option.getD_some]
    exact if_neg (by rw [h.taken name]; exact Bool.false_ne_true)

theorem pairText_eq {pair : Text × Text} (h : isDeferred pair.2 = false) :
    pairText pair = Url.formPair pair := by
  rw [pairText, Url.encodeValue, h, if_neg Bool.false_ne_true, Url.formPair]

/-- The query of pairs without deferred values: none, or a form behind its question mark. -/
theorem withPairs_nil {pairs : List (Text × Text)} (h : ∀ pair ∈ pairs, isDeferred pair.2 = false) :
    withPairs [] pairs = if pairs = [] then []
      else '?' :: Text.join ['&'] (pairs.map Url.formPair) := by
  have hpairs : pairs.map pairText = pairs.map Url.formPair :=
    List.map_congr_left fun pair hpair => pairText_eq (h pair hpair)
  cases pairs with
  | nil => rfl
  | cons pair pairs =>
    rw [if_neg (List.cons_ne_nil pair pairs), ← hpairs]
    rfl

/-- Pairs come in the order of the bytes of their names. -/
theorem pairwise_leftOver (r : Route) (args : Args) :
    (r.leftOver args).Pairwise fun a b => ¬Text.bytes b.1 < Text.bytes a.1 := by
  unfold leftOver
  rw [List.pairwise_flatMap]
  constructor
  · intro e _
    exact List.pairwise_map.mpr (List.pairwise_of_forall fun _ _ => List.lt_irrefl (Text.bytes e.1))
  · refine (args.pairwise_bytes.filter _).imp fun hlt a ha b hb => ?_
    obtain ⟨v, -, rfl⟩ := List.mem_map.mp ha
    obtain ⟨w, -, rfl⟩ := List.mem_map.mp hb
    exact List.lt_asymm hlt

/-- The names of the pairs are told by the names of the arguments and by how many values each
has. -/
theorem names_leftOver (r : Route) (args : Args) :
    (r.leftOver args).map (·.1) =
      ((args.map fun value => value.values.length).entries.filter fun e =>
        !r.uses e.1).flatMap fun e =>
        List.replicate e.2 e.1 := by
  rw [leftOver, List.map_flatMap, TextMap.map, List.filter_map, List.flatMap_map]
  simp [Function.comp_def]

theorem length_leftOver_congr
    (h : ∀ name, (args.get? name).map (·.values.length) = (args'.get? name).map (·.values.length)) :
    (r.leftOver args).length = (r.leftOver args').length := by
  have hlengths : (args.map fun value => value.values.length) = args'.map fun value =>
      value.values.length :=
    TextMap.eq_of_get? fun name => by simp [h]
  have hnames : (r.leftOver args).map (·.1) = (r.leftOver args').map (·.1) := by
    rw [names_leftOver, names_leftOver, hlengths]
  simpa only [List.length_map] using congrArg List.length hnames

/-- The signs of a path with encoded values are those of its literal text. -/
theorem signs_written (bound : TextMap Text) (tokens : List Token) :
    Url.signs (written (fun name => (bound.get? name).map Url.encode) tokens) =
      Url.signs (written (fun _ => none) tokens) := by
  induction tokens with
  | nil => rfl
  | cons token tokens ih =>
    rw [written, written, List.flatMap_cons, List.flatMap_cons, Url.signs_append, Url.signs_append]
    refine congrArg₂ _ ?_ ih
    cases token with
    | literal t => rfl
    | placeholder name constraint =>
      dsimp only
      cases bound.get? name with
      | none => rfl
      | some v => exact Url.signs_encode v

theorem signs_withPairs {pairs : List (Text × Text)}
    (h : ∀ pair ∈ pairs, isDeferred pair.2 = false) :
    Url.signs (withPairs [] pairs) =
      if pairs.length = 0 then []
        else '?' :: Text.join ['&'] (List.replicate pairs.length ['=']) := by
  rw [withPairs_nil h]
  cases pairs with
  | nil => rfl
  | cons pair pairs =>
    have hlength : (pair :: pairs).length ≠ 0 := Nat.succ_ne_zero pairs.length
    rw [if_neg (List.cons_ne_nil pair pairs), if_neg hlength, ← Url.signs_join]
    rfl

end Route

namespace Resolution.WrittenBy

open CompiledTemplate

variable {d d' : Resolution} {r : Route} {groups : Captures} {args args' : Args}
  {current : Option Request}

theorem url_encoded (h : d.WrittenBy r groups args current) (hr : r.IsCompiled)
    (hgiven : r.GivesNoDeferred groups args) :
    d.url = Route.mountPrefix current ++
      written (fun name =>
        ((r.boundArgs groups args).get? name).map Url.encode) r.template.pathTokens ++
        Route.withPairs [] (r.leftOver args) := by
  rw [h.url, Route.withPairs_eq_append, Route.mountedPath_eq_append, hr.renderPath_encoded hgiven]

/-- Which signs the URL has is decided by the route, by where it is mounted and by how many pairs
are left over. -/
theorem signs_url (h : d.WrittenBy r groups args current) (hr : r.IsCompiled)
    (hgiven : r.GivesNoDeferred groups args) :
    Url.signs d.url = Url.signs (Route.mountPrefix current) ++
      Url.signs (written (fun _ => none) r.template.pathTokens) ++
      if (r.leftOver args).length = 0 then []
      else '?' :: Text.join ['&'] (List.replicate (r.leftOver args).length ['=']) := by
  rw [h.url_encoded hr hgiven, Url.signs_append, Url.signs_append, Route.signs_written,
    Route.signs_withPairs (hgiven.leftOver hr)]

end Resolution.WrittenBy

namespace RouteTable

open CompiledTemplate

variable {t : RouteTable} {action : Text} {args : Args} {current : Option Request} {d : Resolution}
  {i : Nat} {r : Route}
  {groups : Captures}

/-- Encoding loses nothing, and no value gets out of its place. An action resolves to the first
route that can stand for it, and nothing that is given is left for the client to fill in. The URL is
the mount point, the path with encoded values at its placeholders and, if the route has no use for
some arguments of the caller, a question mark and a form. The form is read back as the pairs of
these arguments, in the order of the bytes of their names, and each value in the path is read back
from what stands for it, which has no sign in it that parts a URL. Another call with as many values
under each name that takes the same route gives a URL with the same signs. -/
theorem resolve_reads_back (ht : t.IsCompiled)
    (hfirst : FirstSatisfiable action args current t.routes i r)
    (hgroups : r.template.actionPattern.captures? action = some groups)
    (hd : t.resolve action args current = .ok d) (hgiven : r.GivesNoDeferred groups args) :
    (∃ query, d.url = Route.mountPrefix current ++
        written (fun name =>
          ((r.boundArgs groups args).get? name).map Url.encode) r.template.pathTokens ++ query ∧
      (r.leftOver args = [] ∧ query = [] ∨ r.leftOver args ≠ [] ∧
        ∃ form, query = '?' :: form ∧ Url.readForm? form = some (r.leftOver args))) ∧
    (r.leftOver args).Pairwise (fun a b => ¬Text.bytes b.1 < Text.bytes a.1) ∧
    (∀ p ∈ placeholders r.template.pathTokens, ∃ v, (r.boundArgs groups args).get? p.1 = some v ∧
      (∀ c ∈ Url.encode v, Url.isFormChar c = true) ∧ Url.decode? (Url.encode v) = some v) ∧
    ∀ args' d' j, t.resolve action args' current = .ok d' →
      FirstSatisfiable action args' current t.routes j r →
      r.GivesNoDeferred groups args' →
      (∀ name, (args.get? name).map (·.values.length) = (args'.get? name).map (·.values.length)) →
      ∀ c ∈ ['/', '?', '&', '=', '#'], d.url.count c = d'.url.count c := by
  have hr : r.IsCompiled := ht r (List.mem_of_getElem? hfirst.route)
  have hwritten : d.WrittenBy r groups args current := ht.writtenBy hfirst hgroups hd
  refine ⟨⟨_, hwritten.url_encoded hr hgiven, ?_⟩, r.pairwise_leftOver args, fun p hp => ?_, ?_⟩
  · rw [Route.withPairs_nil (hgiven.leftOver hr)]
    by_cases hnone : r.leftOver args = []
    · exact .inl ⟨hnone, if_pos hnone⟩
    · exact .inr ⟨hnone, _, if_neg hnone, Url.readForm?_join _⟩
  · exact ⟨_, hr.exists_bound hp, fun c hc => Url.isFormChar_of_mem_encode hc, Url.decode?_encode _⟩
  · intro args' d' j hd' hfirst' hgiven' hlengths c hc
    have hwritten' : d'.WrittenBy r groups args' current := ht.writtenBy hfirst' hgroups hd'
    have hsigns : Url.signs d.url = Url.signs d'.url := by
      rw [hwritten.signs_url hr hgiven, hwritten'.signs_url hr hgiven',
        Route.length_leftOver_congr hlengths]
    have hparting : (['/', '?', '&', '=', '#'].all fun c => !Url.isFormChar c) = true := by decide
    have hsign : Url.isFormChar c = false := by simpa using List.all_eq_true.mp hparting c hc
    rw [← Url.count_signs hsign, hsigns, Url.count_signs hsign]

/-- A value in the path and three in the query, among them texts of signs only and one under the
empty name. -/
theorem resolve_reads_back_signs :
    ∃ r d form, Route.compile
        { method := "GET".toList, path := "/files/{name}".toList,
          action := "file".toList } = .ok r ∧
      resolve { routes := [r] } "file".toList (.ofList [("name".toList, .single "é &?".toList),
        ("tag".toList, .list ["a+b".toList, "=".toList]), ([], .single "%".toList)]) none = .ok d ∧
      d.url = "/files/%C3%A9+%26%3F?".toList ++ form ∧
      Url.readForm? form =
        some [([], "%".toList), ("tag".toList, "a+b".toList), ("tag".toList, "=".toList)] := by
  let args : Args := .ofList [("name".toList, .single "é &?".toList),
    ("tag".toList, .list ["a+b".toList, "=".toList]), ([], .single "%".toList)]
  have hresolves : Route.compilesTo
      { method := "GET".toList, path := "/files/{name}".toList, action := "file".toList } (fun r =>
        decide (r.template.actionArguments = [] ∧
          r.leftOver args = [([], "%".toList), ("tag".toList, "a+b".toList),
            ("tag".toList, "=".toList)]) &&
        (r.template.actionPattern.captures? "file".toList).any fun groups =>
          decide (written (fun name =>
            ((r.boundArgs groups args).get? name).map Url.encode) r.template.pathTokens =
            "/files/%C3%A9+%26%3F".toList) &&
          (resolve { routes := [r] } "file".toList args none).toOption.any fun _ =>
            true) = true := by
    decide +kernel
  obtain ⟨r, hr, hrest⟩ := Route.exists_of_compilesTo hresolves
  obtain ⟨hfacts, hrest⟩ := Bool.and_eq_true _ _ ▸ hrest
  obtain ⟨haction, hleft⟩ := of_decide_eq_true hfacts
  obtain ⟨groups, hgroups, hrest⟩ := (Option.any_eq_true _ _).mp hrest
  obtain ⟨hpath, hresolved⟩ := Bool.and_eq_true _ _ ▸ hrest
  obtain ⟨d, hd, -⟩ := Except.exists_of_any hresolved
  have ht : IsCompiled { routes := [r] } := .singleton hr
  obtain ⟨i, s, hfirst⟩ := ht.exists_first hd
  obtain rfl := List.mem_singleton.mp (List.mem_of_getElem? hfirst.route)
  have hgiven : s.GivesNoDeferred groups args := by
    intro name value hvalue
    have hentries : ∀ e ∈ args.entries, ∀ v ∈ e.2.values, isDeferred v = false := by decide
    rw [Route.given, Route.fromAction, haction, List.contains_nil, if_neg Bool.false_ne_true,
      Option.none_or] at hvalue
    exact hentries (name, value) (TextMap.mem_entries.mpr hvalue)
  obtain ⟨⟨query, hurl, hquery⟩, -⟩ := resolve_reads_back ht hfirst hgroups hd hgiven
  rw [of_decide_eq_true hpath] at hurl
  rcases hquery with ⟨hnone, -⟩ | ⟨-, form, rfl, hform⟩
  · rw [hleft] at hnone
    cases hnone
  · refine ⟨s, d, form, hr, hd, ?_, hleft ▸ hform⟩
    rw [hurl]
    rfl

end RouteTable

end Signpost
