import Signpost.OpenApi
import Signpost.Proofs.MediaType.Reading
import Signpost.Proofs.Text.Map

/-!
Definitions as a document, and what is read of it. Each definition is a path with one operation; its
formats are what the operation produces. Main statements: `OpenApi.operations_write` and
`OpenApi.definition_write`.
-/

namespace Signpost.OpenApi

def writeOperation (d : RouteDefinition) : Document :=
  .mapping [
    (.string "operationId".toList, .string d.action),
    (.string "produces".toList, .sequence (d.formats.map fun m => .string m.text)),
    (.string staticArgsKey, .mapping (d.staticArgs.entries.map fun arg =>
      (.string arg.1, .string arg.2)))]

def writePath (d : RouteDefinition) : Document × Document :=
  (.string d.path, .mapping [(.string d.method, writeOperation d)])

def write (ds : List RouteDefinition) : Document :=
  .mapping [(.string "paths".toList, .mapping (ds.map writePath))]

/-- The operation that a definition is written as. -/
def operationOf (d : RouteDefinition) : Operation :=
  ⟨d.path, d.method, d.action, writeOperation d⟩

theorem paths_write (ds : List RouteDefinition) :
    ((write ds).get? "paths".toList).bind Document.entries? = some (ds.map writePath) :=
  rfl

theorem operations_write {ds : List RouteDefinition}
    (h : ∀ d ∈ ds, Text.lowerAscii d.method ∈ operationMethods) :
    operations (ds.map writePath) = ds.map operationOf := by
  have hpath : ∀ d ∈ ds, operationsOf (writePath d) = [operationOf d] := by
    intro d hd
    have hverb : operationMethods.contains (Text.lowerAscii d.method) = true :=
      List.contains_iff_mem.mpr (h d hd)
    have hoperation :
        operation? d.path (.string d.method, writeOperation d) = some (operationOf d) := by
      change (if operationMethods.contains (Text.lowerAscii d.method) then _ else _) = _
      rw [if_pos hverb]
      rfl
    change List.filterMap (operation? d.path) [(.string d.method, writeOperation d)] = _
    simp [hoperation]
  induction ds with
  | nil => rfl
  | cons d ds ih =>
    obtain ⟨-, hverbs⟩ := List.forall_mem_cons.mp h
    obtain ⟨hd, hds⟩ := List.forall_mem_cons.mp hpath
    rw [List.map_cons, operations, List.flatMap_cons, hd, ← operations, ih hverbs hds]
    rfl

theorem declaredTypes_write (d : RouteDefinition) :
    declaredTypes (writeOperation d) = d.formats.map MediaType.text := by
  change (d.formats.map fun m => Document.string m.text).filterMap Document.text? = _
  rw [List.filterMap_map]
  exact congrFun List.filterMap_eq_map _

theorem staticArgs_write (d : RouteDefinition) :
    staticArgs (writeOperation d) = d.staticArgs.entries := by
  change (d.staticArgs.entries.map fun arg =>
    (Document.string arg.1, Document.string arg.2)).filterMap _ = _
  rw [List.filterMap_map]
  exact List.filterMap_some

theorem distinctFormats_of_nodup {seen ms : List MediaType} (hms : ms.Nodup)
    (hseen : ∀ m ∈ ms, m ∉ seen) :
    distinctFormats seen ms = ms := by
  induction ms generalizing seen with
  | nil => rfl
  | cons m ms ih =>
    obtain ⟨hm, hms⟩ := List.nodup_cons.mp hms
    obtain ⟨hm', hms'⟩ := List.forall_mem_cons.mp hseen
    have hrest : ∀ n ∈ ms, n ∉ m :: seen := fun n hn =>
      List.not_mem_cons_of_ne_of_not_mem (fun heq => hm (heq ▸ hn)) (hms' n hn)
    rw [distinctFormats, if_neg hm', ih hms hrest]

theorem formats_write {d : RouteDefinition} (hproper : ∀ m ∈ d.formats, m.Proper)
    (hnodup : d.formats.Nodup) :
    formats (writeOperation d) = d.formats := by
  have hparsed : (d.formats.map MediaType.text).filterMap MediaType.parse? = d.formats := by
    rw [List.filterMap_map]
    calc d.formats.filterMap (MediaType.parse? ∘ MediaType.text)
        = d.formats.filterMap some := List.filterMap_congr fun m hm => (hproper m hm).parse?_text
      _ = d.formats := List.filterMap_some
  rw [formats, declaredTypes_write, hparsed, distinctFormats_of_nodup hnodup fun m _ =>
    List.not_mem_nil]

/-- An operation is read as the definition that it was written from; where it stands is told by the
name alone. -/
theorem definition_write {d : RouteDefinition} (hproper : ∀ m ∈ d.formats, m.Proper)
    (hnodup : d.formats.Nodup)
    (name : Text) : definition name (operationOf d) = { d with origin := some ⟨name, none⟩ } := by
  have hstatics : TextMap.ofList (staticArgs (writeOperation d)) = d.staticArgs := by
    rw [staticArgs_write, TextMap.ofList_of_perm (.refl _)]
  rw [definition, operationOf, hstatics, formats_write hproper hnodup]

end Signpost.OpenApi
