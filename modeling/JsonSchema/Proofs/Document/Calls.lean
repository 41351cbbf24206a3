import JsonSchema.Document.Loader
import JsonSchema.Proofs.Outcome

/-!
# Calls of a loader

What one call may come to, and what the loader keeps after it.
-/

namespace JsonSchema

/-- A text of the file at a path comes to this document and this map. -/
structure LocatedDocument.IsOf (located : LocatedDocument) (path : FilePath) (text : String) :
    Prop where
  document : Json.parseDocument path.isYaml text = .ok located.document
  map : SourceMap.ofText text = .ok located.map

/-! ## Single calls -/

namespace DocumentLoader

variable {loader : DocumentLoader} {tree : FileTree} {path other : FilePath} {document : Json}
  {located : LocatedDocument} {map : SourceMap}

theorem readLocated_eq_ok : readLocated tree path = .ok located ↔
    ∃ text, tree.readText path = .ok text ∧ located.IsOf path text := by
  simp only [readLocated, Except.bind_eq_ok, Except.mapError_eq_ok, Except.pure_eq_ok]
  constructor
  · rintro ⟨text, htext, document, hdocument, map, hmap, rfl⟩
    exact ⟨text, htext, hdocument, hmap⟩
  · rintro ⟨text, htext, hdocument, hmap⟩
    exact ⟨text, htext, _, hdocument, _, hmap, rfl⟩

inductive LoadOutcome (loader : DocumentLoader) (path : FilePath) : Loaded Json → Prop where
  | found {document : Json} (log : Log) (h : loader.documents.lookup path = some document) :
    LoadOutcome loader path ⟨.ok document, loader, log⟩
  | read (document : Json) (log : Log) (hnew : loader.documents.lookup path = none) :
    LoadOutcome loader path ⟨.ok document, loader.keepDocument path document, log⟩
  | failed (fault : LoadFault) (log : Log) : LoadOutcome loader path ⟨.error fault, loader, log⟩

/-- What `loadLocated` may come to; a document that is kept without a map is read again. -/
inductive LocatedOutcome (loader : DocumentLoader) (tree : FileTree) (path : FilePath) :
    Loaded LocatedDocument → Prop where
  | found {document : Json} {map : SourceMap} (log : Log)
      (h : loader.documents.lookup path = some document)
      (hmap : loader.maps.lookup path = some map) :
    LocatedOutcome loader tree path ⟨.ok ⟨document, map⟩, loader, log⟩
  | read {located : LocatedDocument} {text : String} (log : Log)
      (hnew : loader.documents.lookup path = none ∨ loader.maps.lookup path = none)
      (htext : tree.readText path = .ok text) (hlocated : located.IsOf path text) :
    LocatedOutcome loader tree path
      ⟨.ok located, (loader.keepDocument path located.document).keepMap path located.map, log⟩
  | failed (fault : LoadFault) (log : Log) :
    LocatedOutcome loader tree path ⟨.error fault, loader, log⟩

theorem load_outcome (loader : DocumentLoader) (tree : FileTree) (path : FilePath) :
    LoadOutcome loader path (loader.load tree path) := by
  unfold load
  split
  case h_1 document h => exact .found _ h
  case h_2 hnew =>
    split
    case h_1 document hread => exact .read document _ hnew
    case h_2 fault hread => exact .failed fault _

theorem loadLocated_outcome (loader : DocumentLoader) (tree : FileTree) (path : FilePath) :
    LocatedOutcome loader tree path (loader.loadLocated tree path) := by
  unfold loadLocated
  split
  case h_1 document map h hmap => exact .found _ h hmap
  case h_2 hnot =>
    split
    case h_1 located hread =>
      obtain ⟨text, htext, hlocated⟩ := readLocated_eq_ok.mp hread
      refine .read _ ?_ htext hlocated
      cases h : loader.documents.lookup path with
      | none => exact .inl rfl
      | some document =>
        cases hmap : loader.maps.lookup path with
        | none => exact .inr rfl
        | some map => exact (hnot document map h hmap).elim
    case h_2 fault hread => exact .failed fault _

theorem load_of_kept (h : loader.documents.lookup path = some document) :
    (loader.load tree path).result = .ok document := by
  rw [load, h]

theorem loadLocated_of_kept (h : loader.documents.lookup path = some document)
    (hmap : loader.maps.lookup path = some map) :
    (loader.loadLocated tree path).result = .ok ⟨document, map⟩ := by
  rw [loadLocated, h, hmap]

/-! ## What is kept -/

theorem lookup_keepDocument (h : loader.cacheEnabled = true) :
    (loader.keepDocument path document).documents.lookup path = some document := by
  simp [keepDocument, h]

theorem lookup_keepMap (h : loader.cacheEnabled = true) :
    (loader.keepMap path map).maps.lookup path = some map := by
  simp [keepMap, h]

theorem lookup_keepDocument_ne (h : other ≠ path) :
    (loader.keepDocument path document).documents.lookup other = loader.documents.lookup other := by
  unfold keepDocument
  split
  · rw [List.lookup_cons, beq_false_of_ne h]
  · rfl

theorem lookup_keepMap_ne (h : other ≠ path) :
    (loader.keepMap path map).maps.lookup other = loader.maps.lookup other := by
  unfold keepMap
  split
  · rw [List.lookup_cons, beq_false_of_ne h]
  · rfl

@[simp] theorem keepDocument_maps : (loader.keepDocument path document).maps = loader.maps := by
  unfold keepDocument
  split <;> rfl

@[simp] theorem keepMap_documents : (loader.keepMap path map).documents = loader.documents := by
  unfold keepMap
  split <;> rfl

@[simp] theorem keepDocument_cacheEnabled :
    (loader.keepDocument path document).cacheEnabled = loader.cacheEnabled := by
  unfold keepDocument
  split <;> rfl

@[simp] theorem keepMap_cacheEnabled :
    (loader.keepMap path map).cacheEnabled = loader.cacheEnabled := by
  unfold keepMap
  split <;> rfl

/-! What a call leaves, by what it came to. -/

section

variable {loaded : Loaded Json}

theorem LoadOutcome.cacheEnabled (h : LoadOutcome loader path loaded) :
    loaded.loader.cacheEnabled = loader.cacheEnabled := by
  cases h <;> simp

theorem LoadOutcome.idle (h : LoadOutcome loader path loaded) (hdisabled : loader.cacheEnabled = false) :
    loaded.loader = loader := by
  cases h <;> simp [keepDocument, hdisabled]

theorem LoadOutcome.maps (h : LoadOutcome loader path loaded) : loaded.loader.maps = loader.maps := by
  cases h <;> simp

theorem LoadOutcome.kept (h : LoadOutcome loader path loaded) (henabled : loader.cacheEnabled = true)
    (hok : loaded.result = .ok document) : loaded.loader.documents.lookup path = some document := by
  cases h with
  | found log hkept =>
    cases hok
    exact hkept
  | read read log hnew =>
    cases hok
    exact lookup_keepDocument henabled
  | failed => cases hok

theorem LoadOutcome.stays (h : LoadOutcome loader path loaded)
    (hkept : loader.documents.lookup other = some document) :
    loaded.loader.documents.lookup other = some document := by
  cases h with
  | found => exact hkept
  | read read log hnew =>
    have hne : other ≠ path := by
      rintro rfl
      rw [hkept] at hnew
      cases hnew
    rwa [lookup_keepDocument_ne hne]
  | failed => exact hkept

theorem LoadOutcome.unchanged {fault : LoadFault} (h : LoadOutcome loader path loaded)
    (herror : loaded.result = .error fault) : loaded.loader = loader := by
  cases h with
  | found | read => cases herror
  | failed => rfl

end

section

variable {loaded : Loaded LocatedDocument}

theorem LocatedOutcome.cacheEnabled (h : LocatedOutcome loader tree path loaded) :
    loaded.loader.cacheEnabled = loader.cacheEnabled := by
  cases h <;> simp

theorem LocatedOutcome.idle (h : LocatedOutcome loader tree path loaded)
    (hdisabled : loader.cacheEnabled = false) : loaded.loader = loader := by
  cases h <;> simp [keepMap, keepDocument, hdisabled]

theorem LocatedOutcome.kept (h : LocatedOutcome loader tree path loaded)
    (henabled : loader.cacheEnabled = true) (hok : loaded.result = .ok located) :
    loaded.loader.documents.lookup path = some located.document ∧
      loaded.loader.maps.lookup path = some located.map := by
  cases h with
  | found log hkept hmap =>
    cases hok
    exact ⟨hkept, hmap⟩
  | read log hnew htext hlocated =>
    cases hok
    exact ⟨(congrArg _ keepMap_documents).trans (lookup_keepDocument henabled),
      lookup_keepMap (keepDocument_cacheEnabled.trans henabled)⟩
  | failed => cases hok

theorem LocatedOutcome.elsewhere (h : LocatedOutcome loader tree path loaded) (hne : other ≠ path) :
    loaded.loader.documents.lookup other = loader.documents.lookup other ∧
      loaded.loader.maps.lookup other = loader.maps.lookup other := by
  cases h with
  | found | failed => exact ⟨rfl, rfl⟩
  | read log hnew htext hlocated =>
    rw [keepMap_documents, lookup_keepDocument_ne hne, lookup_keepMap_ne hne, keepDocument_maps]
    exact ⟨rfl, rfl⟩

theorem LocatedOutcome.stays (h : LocatedOutcome loader tree path loaded)
    (hkept : loader.documents.lookup path = some document)
    (hmap : loader.maps.lookup path = some map) : loaded.loader = loader := by
  cases h with
  | found | failed => rfl
  | read log hnew htext hlocated =>
    rw [hkept, hmap] at hnew
    rcases hnew with hnew | hnew <;> cases hnew

theorem LocatedOutcome.source (h : LocatedOutcome loader tree path loaded) :
    loaded.loader = loader ∨ ∃ located : LocatedDocument, ∃ text, tree.readText path = .ok text ∧
      located.IsOf path text ∧ loaded.loader.documents.lookup path = some located.document ∧
      loaded.loader.maps.lookup path = some located.map := by
  cases h with
  | found | failed => exact .inl rfl
  | @read located text log hnew htext hlocated =>
    cases henabled : loader.cacheEnabled with
    | false => exact .inl (by simp [keepMap, keepDocument, henabled])
    | true =>
      exact .inr ⟨located, text, htext, hlocated,
        (congrArg _ keepMap_documents).trans (lookup_keepDocument henabled),
        lookup_keepMap (keepDocument_cacheEnabled.trans henabled)⟩

theorem LocatedOutcome.unchanged {fault : LoadFault} (h : LocatedOutcome loader tree path loaded)
    (herror : loaded.result = .error fault) : loaded.loader = loader := by
  cases h with
  | found | read => cases herror
  | failed => rfl

end

end DocumentLoader

end JsonSchema
