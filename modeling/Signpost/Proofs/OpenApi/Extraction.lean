import Signpost.Proofs.OpenApi.Pruning
import Signpost.Proofs.Source.InOrder

/-!
The routes of an OpenAPI document are an ordered filter of it. There is one for each operation with
an identifier, in the order of the document, or the error of the first that does not compile;
nothing else of the document counts. The formats of an operation are those found in its responses
and then those it produces, each once. Main statement: `OpenApi.read_extracts`.
-/

namespace Signpost.OpenApi

/-- Each element that was found is kept once, in the order of the places where they first occur. -/
structure FirstOccurrences (found kept : List MediaType) : Prop where
  nodup : kept.Nodup
  mem_iff : ∀ m, m ∈ kept ↔ m ∈ found
  ordered : kept.Pairwise fun m m' => found.idxOf m < found.idxOf m'

section Distinct

variable {seen ms : List MediaType} {m : MediaType}

@[simp]
theorem mem_distinctFormats : m ∈ distinctFormats seen ms ↔ m ∈ ms ∧ m ∉ seen := by
  induction ms generalizing seen with
  | nil => simp [distinctFormats]
  | cons n ms ih =>
    rw [distinctFormats]
    split
    · next hn =>
      rw [ih]
      constructor
      · rintro ⟨hm, hseen⟩
        exact ⟨List.mem_cons_of_mem n hm, hseen⟩
      · rintro ⟨hm, hseen⟩
        exact ⟨(List.mem_cons.mp hm).resolve_left fun heq => hseen (heq ▸ hn), hseen⟩
    · next hn =>
      rw [List.mem_cons, ih, List.mem_cons, List.mem_cons]
      constructor
      · rintro (rfl | ⟨hm, hseen⟩)
        · exact ⟨.inl rfl, hn⟩
        · exact ⟨.inr hm, fun h => hseen (.inr h)⟩
      · rintro ⟨rfl | hm, hseen⟩
        · exact .inl rfl
        · by_cases heq : m = n
          · exact .inl heq
          · exact .inr ⟨hm, fun h => h.elim heq hseen⟩

theorem nodup_distinctFormats : (distinctFormats seen ms).Nodup := by
  induction ms generalizing seen with
  | nil => exact .nil
  | cons n ms ih =>
    rw [distinctFormats]
    split
    · exact ih
    · refine List.nodup_cons.mpr ⟨fun hmem => ?_, ih⟩
      exact (mem_distinctFormats.mp hmem).2 List.mem_cons_self

/-- An element behind the first has its first place there too, unless it is the same. -/
theorem idxOf_cons_of_ne {n : MediaType} (h : m ≠ n) : (n :: ms).idxOf m = ms.idxOf m + 1 :=
  List.idxOf_cons_ne ms h.symm

theorem pairwise_distinctFormats :
    (distinctFormats seen ms).Pairwise fun m m' => ms.idxOf m < ms.idxOf m' := by
  induction ms generalizing seen with
  | nil => exact .nil
  | cons n ms ih =>
    have hbehind {seen' : List MediaType} (hn : n ∈ seen') :
        (distinctFormats seen' ms).Pairwise fun m m' => (n :: ms).idxOf m < (n :: ms).idxOf m' := by
      have hne : ∀ m ∈ distinctFormats seen' ms, m ≠ n :=
        fun m hm heq => (mem_distinctFormats.mp hm).2 (heq ▸ hn)
      refine ih.imp_of_mem fun {m m'} hm hm' hlt => ?_
      rw [idxOf_cons_of_ne (hne m hm), idxOf_cons_of_ne (hne m' hm')]
      exact Nat.add_lt_add_right hlt 1
    rw [distinctFormats]
    split
    · next hn => exact hbehind hn
    · refine List.pairwise_cons.mpr ⟨fun m hm => ?_, hbehind List.mem_cons_self⟩
      have hne : m ≠ n := fun heq => (mem_distinctFormats.mp hm).2 (heq ▸ List.mem_cons_self)
      rw [List.idxOf_cons_self, idxOf_cons_of_ne hne]
      exact Nat.succ_pos _

end Distinct

theorem firstOccurrences_formats (body : Document) :
    FirstOccurrences (responseTypes body ++ producedTypes body) (formats body) := by
  rw [formats, filterMap_declaredTypes]
  exact ⟨nodup_distinctFormats, fun m => by simp, pairwise_distinctFormats⟩

section Outcome

variable {name : Text} {o : Operation}

theorem compileOperation_eq_ok_iff {r : Route} :
    compileOperation name o = .ok r ↔ Route.compile (definition name o) = .ok r := by
  unfold compileOperation
  cases Route.compile (definition name o) <;> simp

theorem compileOperation_eq_error_iff {e : LoadError} :
    compileOperation name o = .error e ↔
      ∃ cause, Route.compile (definition name o) = .error cause ∧
        e = .route name (.operation o.method o.path) cause := by
  unfold compileOperation
  cases Route.compile (definition name o) <;> simp [eq_comm]

end Outcome

/-- A document with paths is read as an ordered filter of them. Its operations are those of the
places with one, in order. The outcome is a route for each of them, in order, or the error of the
first that does not compile. It is the same for every form of the document with entries left out
that do not count. The formats that a route declares, before the pinned one is added, are those
found in the responses of its operation and then those it produces, each once and in the order of
their first occurrences. -/
theorem read_extracts (name : Text) {document : Document} {paths : List Entry}
    (hpaths : (document.get? "paths".toList).bind Document.entries? = some paths) :
    List.Forall₂ Place.Declares ((places paths).filter Place.isOperation) (operations paths) ∧
      (∀ routes, read name document = .ok routes ↔
        List.Forall₂ (fun o r =>
          Route.compile (definition name o) = .ok r) (operations paths) routes) ∧
      (∀ e, read name document = .error e ↔
        ∃ before o after cause, operations paths = before ++ o :: after ∧
        (∀ earlier ∈ before, ∃ r, Route.compile (definition name earlier) = .ok r) ∧
        Route.compile (definition name o) = .error cause ∧
        e = .route name (.operation o.method o.path) cause) ∧
      (∀ document', PrunedDocument document document' → read name document' = read name document) ∧
      ∀ o r, Route.compile (definition name o) = .ok r →
        FirstOccurrences (responseTypes o.body ++ producedTypes o.body)
          (definition name o).formats ∧
          r.formats = Route.allFormats (definition name o).formats
            (Route.pinnedFormat? r.staticArgs) := by
  have hread : read name document = (operations paths).mapM (compileOperation name) := by
    rw [read, hpaths]
  refine ⟨operations_declared paths, fun routes => ?_, fun e => ?_, fun _ h =>
    read_of_pruned h name, fun o r hr => ?_⟩
  · rw [hread, Except.mapM_eq_ok_iff]
    simp only [compileOperation_eq_ok_iff]
  · rw [hread, Except.mapM_eq_error_iff, FailsFirst]
    simp only [compileOperation_eq_ok_iff, compileOperation_eq_error_iff]
    constructor
    · rintro ⟨before, o, after, hsplit, hbefore, cause, hcause, he⟩
      exact ⟨before, o, after, cause, hsplit, hbefore, hcause, he⟩
    · rintro ⟨before, o, after, cause, hsplit, hbefore, hcause, he⟩
      exact ⟨before, o, after, hsplit, hbefore, cause, hcause, he⟩
  · have hfrom := Route.compile_compiledFrom hr
    refine ⟨firstOccurrences_formats o.body, ?_⟩
    rw [hfrom.formats, hfrom.staticArgs]

/-- An operation with formats in both places, with other parts and static arguments. -/
def usersOperation (parts args : List Entry) : Document :=
  .mapping ([
    (.string "operationId".toList, .string "Users.list".toList),
    (.string "responses".toList,
      .mapping [(.string "200".toList, .mapping [(.string "content".toList,
      .mapping [(.string "text/html".toList, .null), (.string "text/csv".toList, .null)])])]),
    (.string "produces".toList, .sequence [.string "text/css".toList, .string "text/html".toList]),
    (.string staticArgsKey,
      .mapping ((.string "lang".toList, .string "en".toList) :: args))] ++ parts)

/-- The operation as the only one of a path, with other keys of the path and other paths. -/
def usersPaths (items keys parts args : List Entry) : List Entry :=
  (.string "/users".toList,
    .mapping ((.string "Get".toList, usersOperation parts args) :: keys)) :: items

/-- The paths with an entry of each kind that does not count. -/
def notedUsers : List Entry :=
  usersPaths [(.string "x-note".toList, .null)]
    [(.string "parameters".toList, .sequence []), (.string "post".toList, .mapping [])]
    [(.string "summary".toList, .string "All users".toList)] [(.string "tags".toList, .sequence [])]

def documentOf (paths : List Entry) : Document :=
  .mapping [(.string "paths".toList, .mapping paths)]

theorem prunedDocument_notedUsers :
    PrunedDocument (documentOf notedUsers) (documentOf (usersPaths [] [] [] [])) := by
  have hargs : PrunedStaticArgs
      (.mapping [(.string "lang".toList, .string "en".toList),
        (.string "tags".toList, .sequence [])])
      (.mapping [(.string "lang".toList, .string "en".toList)]) :=
        .some (.keep rfl (.drop rfl .done))
  have hpart (key v : Document) : Under PrunedPart (key, v) (key, v) := ⟨rfl, prunedPart_refl key v⟩
  have hoperation :
      PrunedOperation (usersOperation [(.string "summary".toList, .string "All users".toList)]
      [(.string "tags".toList, .sequence [])]) (usersOperation [] []) :=
    .some (.keep (hpart ..) (.keep (hpart ..)
      (.keep (hpart ..) (.keep ⟨rfl, hargs⟩ (.drop rfl .done)))))
  exact .some (.keep ⟨rfl,
    .some (.keep ⟨rfl, .some (.keep ⟨rfl, hoperation⟩ (.drop rfl (.drop rfl .done)))⟩
    (.drop rfl .done))⟩ .done)

def usersFormats : List MediaType :=
  [.new "text".toList "html".toList, .new "text".toList "csv".toList,
    .new "text".toList "css".toList]

/-- One route, with a format that is found in both places, and the same without the entries that do
not count. -/
theorem read_extracts_users :
    ∃ r, read "api.yaml".toList (documentOf notedUsers) = .ok [r] ∧
      read "api.yaml".toList (documentOf (usersPaths [] [] [] [])) = .ok [r] ∧
      r.method = "GET".toList ∧ r.action = "Users.list".toList ∧ r.formats = usersFormats := by
  have hpaths :
      ((documentOf notedUsers).get? "paths".toList).bind Document.entries? = some notedUsers := rfl
  obtain ⟨-, hroutes, -, hpruned, -⟩ := read_extracts "api.yaml".toList hpaths
  have hcompiles : (operations notedUsers).all (fun o =>
      Route.compilesTo (definition "api.yaml".toList o) fun r =>
      decide (r.method = "GET".toList ∧ r.action = "Users.list".toList ∧
        r.formats = usersFormats)) = true := by
    decide +kernel
  obtain ⟨r, hr, hcheck⟩ :=
    Route.exists_of_compilesTo (List.all_eq_true.mp hcompiles _ List.mem_cons_self)
  have hread := (hroutes [r]).mpr (.cons hr .nil)
  exact ⟨r, hread, (hpruned _ prunedDocument_notedUsers).trans hread, of_decide_eq_true hcheck⟩

end Signpost.OpenApi
