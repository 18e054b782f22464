import Mathlib.Tactic.ByContra
import Signpost.Proofs.OpenApi.Places

/-!
Documents with entries left out that nothing is read of. At each level of a document some entries
count: the paths of the document, the paths with an operation, the operations with an identifier,
the parts of an operation that tell of its formats and static arguments, and what is read of these.
The others can be left out without changing what is read. Main statement: `OpenApi.read_of_pruned`.
-/

namespace Signpost.OpenApi

open Document (isKey)

/-- Some elements that do not count are left out, and those that are left may be changed within. -/
inductive Pruned {α : Type} (counts : α → Bool) (within : α → α → Prop) : List α → List α → Prop
  | done : Pruned counts within [] []
  | drop {x : α} {xs ys : List α} :
    counts x = false → Pruned counts within xs ys → Pruned counts within (x :: xs) ys
  | keep {x y : α} {xs ys : List α} :
      within x y → Pruned counts within xs ys → Pruned counts within (x :: xs) (y :: ys)

/-- The key stays, and the value is changed in a way that the key allows. -/
def Under (change : Document → Document → Document → Prop) (e e' : Entry) : Prop :=
  e.1 = e'.1 ∧ change e.1 e.2 e'.2

/-- The documents are mappings, the second a pruned form of the first, or neither is a mapping. -/
def PrunedMapping (counts : Entry → Bool) (within : Entry → Entry → Prop)
    (d d' : Document) : Prop :=
  Option.Rel (Pruned counts within) d.entries? d'.entries?

/-- The format under the name that an operation declares it by. -/
def format? (name : Document) : Option MediaType :=
  name.text?.bind MediaType.parse?

/-- A static argument counts if its value is a scalar. -/
def PrunedStaticArgs : Document → Document → Prop :=
  PrunedMapping (fun e => e.1.text?.isSome && e.2.scalar?.isSome) Eq

/-- A content type counts if it can be read; what stands under it never does. -/
def PrunedContent : Document → Document → Prop :=
  PrunedMapping (fun e => (format? e.1).isSome) fun e e' => e.1 = e'.1

def PrunedResponse : Document → Document → Prop :=
  PrunedMapping (fun e => isKey "content".toList e.1) (Under fun _ => PrunedContent)

/-- A response counts if it has content. -/
def PrunedResponses : Document → Document → Prop :=
  PrunedMapping (fun e =>
    ((e.2.get? "content".toList).bind Document.entries?).isSome) (Under fun _ => PrunedResponse)

def PrunedProduced (d d' : Document) : Prop :=
  Option.Rel (Pruned (fun x => (format? x).isSome) Eq) d.items? d'.items?

def operationKeys : List Text :=
  ["operationId".toList, "responses".toList, "produces".toList, staticArgsKey]

/-- How the part of an operation under a key may be changed. -/
def PrunedPart (key : Document) : Document → Document → Prop :=
  if isKey "responses".toList key then PrunedResponses
  else if isKey "produces".toList key then PrunedProduced
  else if isKey staticArgsKey key then PrunedStaticArgs
  else Eq

def PrunedOperation : Document → Document → Prop :=
  PrunedMapping (fun e => operationKeys.any fun key => isKey key e.1) (Under PrunedPart)

def PrunedItem : Document → Document → Prop :=
  PrunedMapping isOperation (Under fun _ => PrunedOperation)

/-- A path counts if it has an operation. -/
def PrunedPaths : Document → Document → Prop :=
  PrunedMapping (fun e =>
    e.1.text?.isSome && (e.2.entries?.getD []).any isOperation) (Under fun _ => PrunedItem)

def PrunedDocument : Document → Document → Prop :=
  PrunedMapping (fun e => isKey "paths".toList e.1) (Under fun _ => PrunedPaths)

section Lists

variable {α β : Type} {counts : α → Bool} {within : α → α → Prop} {xs ys : List α}

/-- What is gathered of a list does not change, if nothing is gathered of what is left out. -/
theorem Pruned.flatMap_eq {f : α → List β} (h : Pruned counts within xs ys)
    (hdrop : ∀ x, counts x = false → f x = [])
    (hkeep : ∀ x y, within x y → f x = f y) : xs.flatMap f = ys.flatMap f := by
  induction h with
  | done => rfl
  | drop hx _ ih => rw [List.flatMap_cons, hdrop _ hx, List.nil_append, ih]
  | keep hxy _ ih => rw [List.flatMap_cons, List.flatMap_cons, hkeep _ _ hxy, ih]

theorem Pruned.filterMap_eq {f : α → Option β} (h : Pruned counts within xs ys)
    (hdrop : ∀ x, counts x = false → f x = none) (hkeep : ∀ x y, within x y → f x = f y) :
    xs.filterMap f = ys.filterMap f := by
  rw [List.filterMap_eq_flatMap_toList, List.filterMap_eq_flatMap_toList]
  exact h.flatMap_eq (fun x hx => by rw [hdrop x hx]; rfl) fun x y hxy => by rw [hkeep x y hxy]

theorem Pruned.find? {p : α → Bool} (h : Pruned counts within xs ys)
    (hdrop : ∀ x, counts x = false → p x = false) (hkeep : ∀ x y, within x y → p x = p y) :
    Option.Rel (fun x y => p x = true ∧ within x y) (xs.find? p) (ys.find? p) := by
  induction h with
  | done => exact .none
  | drop hx _ ih =>
    rw [List.find?_cons, hdrop _ hx]
    exact ih
  | @keep x y _ _ hxy _ ih =>
    rw [List.find?_cons, List.find?_cons, ← hkeep _ _ hxy]
    cases hx : p x with
    | true => exact .some ⟨hx, hxy⟩
    | false => exact ih

theorem Pruned.refl (h : ∀ x, within x x) : ∀ xs : List α, Pruned counts within xs xs
  | [] => .done
  | x :: xs => .keep (h x) (Pruned.refl h xs)

/-- A list that is not there counts as an empty one. -/
theorem Pruned.of_rel {o o' : Option (List α)} (h : Option.Rel (Pruned counts within) o o') :
    Pruned counts within (o.getD []) (o'.getD []) := by
  cases h with
  | none => exact .done
  | some h => exact h

end Lists

theorem rel_bind {α β γ δ : Type} {r : α → β → Prop} {s : γ → δ → Prop} {o : Option α}
    {o' : Option β} {f : α → Option γ} {g : β → Option δ} (h : Option.Rel r o o')
    (hfg : ∀ a b, r a b → Option.Rel s (f a) (g b)) :
    Option.Rel s (o.bind f) (o'.bind g) := by
  cases h with
  | none => exact .none
  | some h => exact hfg _ _ h

theorem eq_of_rel {α : Type} {o o' : Option α} (h : Option.Rel Eq o o') : o = o' := by
  cases h with
  | none => rfl
  | some h => rw [h]

@[simp]
theorem isKey_iff {key : Text} {d : Document} : isKey key d = true ↔ d = .string key := by
  cases d <;> simp [isKey]

theorem PrunedMapping.refl {counts : Entry → Bool} {within : Entry → Entry → Prop}
    (h : ∀ e, within e e) (d : Document) :
    PrunedMapping counts within d d := by
  unfold PrunedMapping
  cases d.entries? with
  | none => exact .none
  | some es => exact .some (Pruned.refl h es)

/-- Nothing has to be left out of a part of an operation. -/
theorem prunedPart_refl (key d : Document) : PrunedPart key d d := by
  have hcontent (v : Document) : PrunedContent v v := PrunedMapping.refl (fun e => Eq.refl e.1) v
  have hresponse (v : Document) : PrunedResponse v v :=
    PrunedMapping.refl (fun e => ⟨rfl, hcontent e.2⟩) v
  unfold PrunedPart
  split_ifs
  · exact PrunedMapping.refl (fun e => ⟨rfl, hresponse e.2⟩) d
  · unfold PrunedProduced
    cases d.items? with
    | none => exact .none
    | some items => exact .some (Pruned.refl (fun _ => rfl) items)
  · exact PrunedMapping.refl (fun _ => rfl) d
  · rfl

section Mappings

variable {counts : Entry → Bool} {change : Document → Document → Document → Prop} {d d' : Document}

/-- What stands under a key that counts is found in the pruned form too, changed as the key
allows. -/
theorem PrunedMapping.get? (h : PrunedMapping counts (Under change) d d') (key : Text)
    (hcounts : ∀ v, counts (.string key, v) = true) :
    Option.Rel (change (.string key)) (d.get? key) (d'.get? key) := by
  have hdrop : ∀ e : Entry, counts e = false → isKey key e.1 = false := by
    rintro ⟨k, v⟩ he
    by_contra hkey
    obtain rfl : k = .string key := isKey_iff.mp (by simpa using hkey)
    rw [hcounts v] at he
    cases he
  have hfound := rel_bind h fun es es' hes =>
    hes.find? (p := fun e => isKey key e.1) hdrop fun e e' he => by rw [he.1]
  rw [Document.get?, Document.get?, Option.map_eq_bind, Option.map_eq_bind]
  refine rel_bind hfound fun e e' he => ?_
  obtain ⟨hkey, -, hchange⟩ := he
  rw [isKey_iff.mp hkey] at hchange
  exact .some hchange

/-- The entries found under a key that counts are a pruned form of those found under it before. -/
theorem PrunedMapping.entriesUnder (h : PrunedMapping counts (Under change) d d') (key : Text)
    (hcounts : ∀ v, counts (.string key, v) = true) {counts' : Entry → Bool}
    {within' : Entry → Entry → Prop}
    (hchange : change (.string key) = PrunedMapping counts' within') :
    Option.Rel (Pruned counts' within') ((d.get? key).bind Document.entries?)
      ((d'.get? key).bind Document.entries?) :=
  rel_bind (h.get? key hcounts) fun v v' hv => by rwa [hchange] at hv

end Mappings

/-- The formats that the responses of an operation have content in. -/
def responseTypes (body : Document) : List MediaType :=
  (((body.get? "responses".toList).bind Document.entries?).getD []).flatMap fun response =>
    (((response.2.get? "content".toList).bind Document.entries?).getD []).filterMap fun content =>
      format? content.1

def producedTypes (body : Document) : List MediaType :=
  (((body.get? "produces".toList).bind Document.items?).getD []).filterMap format?

theorem filterMap_declaredTypes (body : Document) :
    (declaredTypes body).filterMap MediaType.parse? = responseTypes body ++ producedTypes body := by
  rw [declaredTypes, List.filterMap_append, List.filterMap_flatMap]
  simp only [List.filterMap_filterMap]
  rfl

section Operations

variable {body body' : Document}

theorem PrunedOperation.responseTypes_eq (h : PrunedOperation body body') :
    responseTypes body = responseTypes body' := by
  have hresponses := h.entriesUnder "responses".toList (fun _ => rfl) rfl
  refine (Pruned.of_rel hresponses).flatMap_eq
    (fun response hnone => ?_) fun response response' hresponse => ?_
  · rw [Option.isSome_eq_false_iff, Option.isNone_iff_eq_none] at hnone
    rw [hnone]
    rfl
  · have hcontent := PrunedMapping.entriesUnder hresponse.2 "content".toList (fun _ => rfl) rfl
    refine (Pruned.of_rel hcontent).filterMap_eq
      (fun content hnone => ?_) fun content content' hsame => by rw [hsame]
    rwa [Option.isSome_eq_false_iff, Option.isNone_iff_eq_none] at hnone

theorem PrunedOperation.producedTypes_eq (h : PrunedOperation body body') :
    producedTypes body = producedTypes body' := by
  have hproduced := PrunedMapping.get? h "produces".toList fun _ => rfl
  have hitems := rel_bind hproduced fun v v' (hv : PrunedProduced v v') => hv
  refine (Pruned.of_rel hitems).filterMap_eq
    (fun item hnone => ?_) fun item item' hsame => by rw [hsame]
  rwa [Option.isSome_eq_false_iff, Option.isNone_iff_eq_none] at hnone

theorem PrunedOperation.staticArgs_eq (h : PrunedOperation body body') :
    staticArgs body = staticArgs body' := by
  have hargs := h.entriesUnder staticArgsKey (fun _ => rfl) rfl
  refine (Pruned.of_rel hargs).filterMap_eq
    (fun arg hnone => ?_) fun arg arg' hsame => by rw [hsame]
  cases hkey : arg.1.text? <;> cases hvalue : arg.2.scalar? <;> simp_all

theorem PrunedOperation.definition_eq (h : PrunedOperation body body')
    (name path method action : Text) :
    definition name ⟨path, method, action, body⟩ =
      definition name ⟨path, method, action, body'⟩ := by
  rw [definition, definition, formats, formats, filterMap_declaredTypes, filterMap_declaredTypes,
    h.responseTypes_eq, h.producedTypes_eq, h.staticArgs_eq]

theorem PrunedOperation.operationId_eq (h : PrunedOperation body body') :
    body.get? "operationId".toList = body'.get? "operationId".toList :=
  eq_of_rel (PrunedMapping.get? h "operationId".toList fun _ => rfl)

end Operations

/-- An operation and its pruned form stand for one definition, and what is no operation does not
become one. -/
theorem PrunedOperation.map_definition_eq {e e' : Entry} (h : Under (fun _ => PrunedOperation) e e')
    (name path : Text) :
    (operation? path e).map (definition name) = (operation? path e').map (definition name) := by
  obtain ⟨hkey, hbody⟩ := h
  unfold operation?
  rw [hkey, hbody.operationId_eq]
  cases e'.1.text? with
  | none => rfl
  | some method =>
    simp only [Option.bind_eq_bind, Option.bind_some]
    split
    · cases (e'.2.get? "operationId".toList).bind Document.text? with
      | none => rfl
      | some action => exact congrArg some (hbody.definition_eq name path method action)
    · rfl

/-- The definition that a place stands for, if there is an operation. -/
def Place.definition? (name : Text) (p : Place) : Option RouteDefinition :=
  p.operation?.map (definition name)

theorem Place.definition?_eq_none {p : Place} (h : OpenApi.isOperation p.entry = false)
    (name : Text) :
    p.definition? name = none := by
  have hnone : p.operation?.isSome = false := by
    rw [p.isSome_operation?, Place.isOperation, h, Bool.and_false]
  rw [Place.definition?, Option.map_eq_none_iff, ← Option.isNone_iff_eq_none,
    ← Option.isSome_eq_false_iff, hnone]

/-- The definitions that a path of a document stands for. -/
def definitionsOf (name : Text) (e : Entry) : List RouteDefinition :=
  (e.2.entries?.getD []).filterMap fun f => Place.definition? name ⟨e.1, f⟩

theorem PrunedItem.definitionsOf_eq {e e' : Entry} (h : Under (fun _ => PrunedItem) e e')
    (name : Text) :
    definitionsOf name e = definitionsOf name e' := by
  unfold definitionsOf
  rw [h.1]
  refine (Pruned.of_rel h.2).filterMap_eq (fun f hf =>
    Place.definition?_eq_none hf name) fun f f' hf => ?_
  unfold Place.definition? Place.operation?
  cases e'.1.text? with
  | none => rfl
  | some path => exact PrunedOperation.map_definition_eq hf name path

/-- A path without operations stands for no definitions. -/
theorem definitionsOf_eq_nil {e : Entry}
    (h : (e.1.text?.isSome && (e.2.entries?.getD []).any isOperation) = false)
    (name : Text) : definitionsOf name e = [] := by
  refine List.filterMap_eq_nil_iff.mpr fun f hf => ?_
  rcases Bool.and_eq_false_iff.mp h with hpath | hitem
  · rw [Option.isSome_eq_false_iff, Option.isNone_iff_eq_none] at hpath
    rw [Place.definition?, Place.operation?, hpath]
    rfl
  · exact Place.definition?_eq_none (by simpa using List.any_eq_false.mp hitem f hf) name

/-- Compiles a definition that stands for an operation. -/
def compileDefinition (name : Text) (d : RouteDefinition) : Except LoadError Route :=
  match Route.compile d with
  | .ok route => .ok route
  | .error cause => .error (.route name (.operation d.method d.path) cause)

/-- What is read of the paths of a document is told by the definitions that they stand for. -/
theorem mapM_operations (name : Text) (paths : List Entry) :
    (operations paths).mapM (compileOperation name) =
      (paths.flatMap (definitionsOf name)).mapM (compileDefinition name) := by
  have hdefinitions :
      paths.flatMap (definitionsOf name) = (operations paths).map (definition name) := by
    rw [operations_eq, List.map_filterMap, places, List.filterMap_flatMap]
    simp only [List.filterMap_map]
    rfl
  rw [hdefinitions, List.mapM_map]
  rfl

/-- Leaving out what does not count changes nothing: the same routes are read, in the same order, or
the same error. -/
theorem read_of_pruned {document document' : Document} (h : PrunedDocument document document')
    (name : Text) :
    read name document' = read name document := by
  have hpaths := h.entriesUnder "paths".toList (fun _ => rfl) rfl
  unfold read
  generalize (document.get? "paths".toList).bind Document.entries? = paths at hpaths
  generalize (document'.get? "paths".toList).bind Document.entries? = paths' at hpaths
  cases hpaths with
  | none => rfl
  | some hpruned =>
    simp only [mapM_operations]
    rw [hpruned.flatMap_eq (fun e he => definitionsOf_eq_nil he name) fun e e' he =>
      PrunedItem.definitionsOf_eq he name]

end Signpost.OpenApi
