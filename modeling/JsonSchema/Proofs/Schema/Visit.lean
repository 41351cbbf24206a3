import JsonSchema.Proofs.Schema.Keywords

/-!
# What a visit of a place does

A visit walks over the place and all places under it that have no node yet, and answers with the
node of the place.
-/

namespace JsonSchema.CompileM

open Compilation (Walk Under)

variable {options : CompileOptions} {compile : CompileChild} {site : Site}
  {schema : Members Json} {c c' : Compilation} {id : NodeId} {key pointer : String} {value : Json}

/-! ## Schema objects -/

theorem readIdentity_ok {ref : Option String}
    (h : Runs (readIdentity site id schema) c (.ok ref) c') :
    readRef schema = .ok ref ∧ (∃ names, readAnchors schema = .ok names) ∧
      ∃ anchors, (∀ entry ∈ anchors, entry.1.1 = site.key ∧
        entry.1.2 ∈ (Json.obj schema).anchorNames ∧ entry.2 = id) ∧
      (∀ name ∈ (Json.obj schema).anchorNames, ((site.key, name), id) ∈ anchors) ∧
      c' = { c with
        pending := c.pending ++ ref.toList.map fun ref => ⟨id, ref, site.key⟩
        anchors := anchors ++ c.anchors } := by
  obtain ⟨ref', c₁, href, h⟩ := runs_bind_ok.mp h
  obtain ⟨hread, rfl⟩ := runs_lift_ok.mp href
  replace h := runs_modify_bind.mp h
  obtain ⟨names, c₃, hlift, h⟩ := runs_bind_ok.mp h
  obtain ⟨hnames, rfl⟩ := runs_lift_ok.mp hlift
  replace h := runs_modify_bind.mp h
  obtain ⟨hok, rfl⟩ := runs_pure.mp h
  cases hok
  have hdeclared : (Json.obj schema).anchorNames = names := by
    rw [Json.anchorNames, hnames]
    rfl
  refine ⟨hread, ⟨names, hnames⟩, _, fun entry hentry => ?_, fun name hname => ?_, rfl⟩
  · obtain ⟨name, hname, rfl⟩ := List.mem_map.mp (List.mem_reverse.mp hentry)
    exact ⟨rfl, hdeclared ▸ hname, rfl⟩
  · exact List.mem_reverse.mpr (List.mem_map.mpr ⟨name, hdeclared ▸ hname, rfl⟩)

theorem readIdentity_error {e : CompileFault}
    (h : Runs (readIdentity site id schema) c (.error e) c') : (Json.obj schema).StopsWalk e := by
  rcases runs_bind_error.mp h with h | ⟨ref, c₁, -, h⟩
  · obtain ⟨⟨fault, -, rfl⟩, -⟩ := runs_lift_error.mp h
    exact .keyword
  replace h := runs_modify_bind.mp h
  rcases runs_bind_error.mp h with h | ⟨names, c₃, -, h⟩
  · obtain ⟨⟨fault, -, rfl⟩, -⟩ := runs_lift_error.mp h
    exact .keyword
  replace h := runs_modify_bind.mp h
  exact nomatch (runs_pure.mp h).1

theorem exists_of_itemsHaveText {items : List Json} (h : Json.itemsHaveText items = false) :
    ∃ item ∈ items, item.hasText = false := by
  simpa [← Bool.not_eq_true, Json.itemsHaveText_iff] using h

theorem names_of_readTypes {value : Json} {fault : KeywordFault}
    (h : readTypes value = .error fault) (hlong : fault.2.hasText = false) :
    ∃ names, value = .arr names ∧ ∃ name ∈ names, name.hasText = false := by
  cases value with
  | arr names =>
    simp only [readTypes] at h
    split at h <;> cases h
    obtain ⟨name, hname, hlong⟩ := exists_of_itemsHaveText hlong
    exact ⟨names, rfl, name, List.mem_of_mem_filter hname, hlong⟩
  | str name =>
    simp only [readTypes] at h
    split at h
    case h_1 => cases h
    case h_2 unknown hunknown =>
      cases h
      obtain ⟨other, hother, hlong⟩ := exists_of_itemsHaveText hlong
      rw [List.mem_singleton.mp (List.mem_of_mem_filter hother)] at hlong
      cases hlong
  | _ =>
    cases h
    cases hlong

namespace Yields

theorem warnUnknown (options : CompileOptions) :
    Yields site schema (warnUnknown options site schema) fun _ _ => True := by
  unfold CompileM.warnUnknown
  induction schema.names.filter isUnknownKeyword with
  | nil => exact (pure _).mono fun _ _ _ => trivial
  | cons keyword rest ih =>
    have hfirst : Yields site schema (if options.strict = true then CompileM.warn
        ("Unknown keyword '" ++ keyword ++ "' at " ++ site.location ++ " is ignored")
        else Pure.pure ()) fun _ _ => True := by
      split
      · exact warn _
      · exact (pure _).mono fun _ _ _ => trivial
    exact (hfirst.bind fun _ _ _ => ih).mono fun _ _ _ => trivial

theorem values (schema : Members Json) :
    Yields site schema (CompileM.lift (·.shownAt site.location) (readValueKeywords schema))
      fun _ keywords => readValueKeywords schema = .ok keywords := by
  refine lift _ fun fault h => ?_
  unfold KeywordFault.shownAt
  split
  case isTrue => exact .keyword
  case isFalse hlong =>
    simp only [readValueKeywords, Except.bind_eq_error, Except.mapM_eq_error] at h
    rcases h with ⟨value, hget, h⟩ | ⟨types, -, ⟨value, -, h⟩ | ⟨options, -, h⟩⟩
    · obtain ⟨names, rfl, name, hname, hlong⟩ := names_of_readTypes h (Bool.not_eq_true _ ▸ hlong)
      exact .escape (.types .root hget hname hlong)
    · split at h <;> cases h
      exact absurd rfl hlong
    · cases h

theorem string (schema : Members Json) :
    Yields site schema (CompileM.lift (fun fault => fault) (readStringKeywords site.location schema))
      fun _ keywords => readStringKeywords site.location schema = .ok keywords := by
  refine lift _ fun e h => ?_
  simp only [readStringKeywords, Except.bind_eq_error, Except.mapError_eq_error,
    Except.mapM_eq_error] at h
  rcases h with ⟨fault, -, rfl⟩ | ⟨minLength, -, h⟩
  · exact .keyword
  rcases h with ⟨fault, -, rfl⟩ | ⟨maxLength, -, h⟩
  · exact .keyword
  rcases h with ⟨value, hget, h⟩ | ⟨pattern, -, h⟩
  · exact stopsWalk_of_readPattern (fun source heq => .inl (heq ▸ hget)) h
  rcases h with ⟨value, -, h⟩ | ⟨format, -, h⟩
  · split at h <;> cases h
    exact .keyword
  · cases h

theorem compileKeywords (hcompile : Visits compile) {ref : Option String}
    (href : readRef schema = .ok ref) (hanchors : ∃ names, readAnchors schema = .ok names) :
    Yields site schema (compileKeywords options compile site id ref schema) fun d node =>
      node.id = id ∧ node.ref = ref ∧ SchemaReading d site schema node := by
  refine ((values schema).bind fun _ value _ => (reading _).bind fun _ number _ =>
    (string schema).bind fun _ string _ => (compileArray hcompile).bind fun _ array _ =>
    (compileObject hcompile).bind fun _ object _ => (compileComposition hcompile).bind
    fun _ composition _ => (childMembers hcompile "$defs").bind fun _ _ _ =>
    (childMembers hcompile "definitions").bind fun _ _ _ => (warnUnknown options).bind
    fun _ _ _ => pure _).mono ?_
  rintro d _ ⟨value, hvalue, number, hnumber, string, hstring, array, harray, object, hobject,
    composition, hcomposition, defs, hdefs, definitions, hdefinitions, -, -, rfl⟩
  exact ⟨rfl, rfl, {
    location := rfl
    anchors := hanchors
    boolean := rfl
    ref := href
    refTarget := rfl
    value := hvalue
    number := hnumber
    string := hstring
    array := harray
    object := hobject
    composition := hcomposition
    defs := ⟨hdefs.1, defs, hdefs.2⟩
    definitions := ⟨hdefinitions.1, definitions, hdefinitions.2⟩
    annotations := rfl }⟩

end Yields

/-! ## New nodes -/

theorem runs_reserve {location : String} {o : Except CompileFault NodeId} :
    Runs (reserve location) c o c' ↔ .ok c.nodes.size = o ∧ c.reserved location = c' :=
  Prod.mk.injEq _ _ _ _ ▸ Iff.rfl

section

variable {document : SourceDocument}

theorem visitBoolean_ok {b : Bool} (hc : c.Aligned) (hnew : c.nodeAt? site.location = none)
    (hdocument : Members.get? c.documents site.key = some document)
    (hdeclaration : document.declaration = site.declaration)
    (hstands : c.Stands site.key site.pointer (.bool b))
    (h : Runs (do
      let id ← reserve site.location
      place { id, location := site.location, boolean := some b }
      return id) c (.ok id) c') :
    Walk (Under site.key site.pointer (.bool b)) c c' ∧
      c'.Located site.key site.pointer id ∧ id ≤ c.nodes.size := by
  obtain ⟨id', c₁, hreserve, h⟩ := runs_bind_ok.mp h
  obtain ⟨hid, rfl⟩ := runs_reserve.mp hreserve
  cases hid
  replace h := runs_modify_bind.mp h
  obtain ⟨hok, rfl⟩ := runs_pure.mp h
  cases hok
  have hmem := Compilation.notMem_of_nodeAt? hnew
  have hstart : c.started site.location [] [] = c.reserved site.location := by
    simp [Compilation.started, Compilation.reserved]
  have haligned : (c.started site.location [] []).Aligned := Compilation.started_aligned hc hmem
  rw [← hstart]
  have hwalk : Walk (Under site.key site.pointer (.bool b)) _ _ := Walk.refl haligned
  have hself : Compilation.Built _ c.nodes.size site (.bool b)
      { id := c.nodes.size, location := site.location, boolean := some b } :=
    hwalk.started_built hc hmem hdocument hdeclaration hstands rfl fun d hd => rfl
  have hlocated := hwalk.started_located hc
  exact ⟨hwalk.enclose (Under.self site) rfl (by simp) (by simp [Json.anchorNames]) hself, hlocated,
    Nat.le_refl _⟩

theorem visitObject_ok (hcompile : Visits compile) (hc : c.Aligned)
    (hnew : c.nodeAt? site.location = none)
    (hdocument : Members.get? c.documents site.key = some document)
    (hdeclaration : document.declaration = site.declaration)
    (hstands : c.Stands site.key site.pointer (.obj schema))
    (h : Runs (do
      let id ← reserve site.location
      place (← compileObjectSchema options compile site id schema)
      return id) c (.ok id) c') :
    Walk (Under site.key site.pointer (.obj schema)) c c' ∧
      c'.Located site.key site.pointer id ∧ id ≤ c.nodes.size := by
  obtain ⟨id', c₁, hreserve, h⟩ := runs_bind_ok.mp h
  obtain ⟨hid, rfl⟩ := runs_reserve.mp hreserve
  cases hid
  obtain ⟨node, c₂, hobject, h⟩ := runs_bind_ok.mp h
  obtain ⟨ref, c₃, hidentity, hkeywords⟩ := runs_bind_ok.mp hobject
  obtain ⟨href, hnames, anchors, hanchors, hdeclared, rfl⟩ := readIdentity_ok hidentity
  replace h := runs_modify_bind.mp h
  obtain ⟨hok, rfl⟩ := runs_pure.mp h
  cases hok
  have hmem := Compilation.notMem_of_nodeAt? hnew
  obtain ⟨hwalk, hpost⟩ := (Yields.compileKeywords hcompile href hnames).ok hkeywords
    (Compilation.started_aligned hc hmem) hstands
  obtain ⟨hid, rfl, -⟩ := hpost c₂ (Compilation.Extends.refl c₂)
  have hself := hwalk.started_built hc hmem hdocument hdeclaration hstands hid
    fun d hd => (hpost d hd).2.2
  have hlocated : c₂.Located site.key site.pointer c.nodes.size := hwalk.started_located hc
  exact ⟨hwalk.enclose (Under.self site) hid hanchors hdeclared hself, hlocated, Nat.le_refl _⟩

theorem visitObject_error {e : CompileFault} (hcompile : Visits compile) (hc : c.Aligned)
    (hnew : c.nodeAt? site.location = none)
    (hstands : c.Stands site.key site.pointer (.obj schema))
    (h : Runs (do
      let id ← reserve site.location
      place (← compileObjectSchema options compile site id schema)
      return id) c (.error e) c') : (Json.obj schema).StopsWalk e := by
  rcases runs_bind_error.mp h with h | ⟨id, c₁, hreserve, h⟩
  · exact nomatch (runs_reserve.mp h).1
  obtain ⟨hid, rfl⟩ := runs_reserve.mp hreserve
  cases hid
  rcases runs_bind_error.mp h with h | ⟨node, c₂, -, h⟩
  · rcases runs_bind_error.mp h with h | ⟨ref, c₃, hidentity, hkeywords⟩
    · exact readIdentity_error h
    · obtain ⟨href, hnames, anchors, -, -, rfl⟩ := readIdentity_ok hidentity
      exact (Yields.compileKeywords hcompile href hnames).error hkeywords
        (Compilation.started_aligned hc (Compilation.notMem_of_nodeAt? hnew)) hstands
  · replace h := runs_modify_bind.mp h
    exact nomatch (runs_pure.mp h).1

end

/-! ## Visits -/

theorem declarationOf_of_stands (hstands : c.Stands key pointer value) :
    ∃ document, Members.get? c.documents key = some document ∧
      document.declaration = c.declarationOf key := by
  obtain ⟨document, tokens, hdocument, -, -⟩ := hstands
  exact ⟨document, hdocument, by simp [Compilation.declarationOf, hdocument]⟩

section

variable {children : Option CompileChild} {owner : Owner}

theorem compileNew_ok (hchildren : ∀ compile ∈ children, Visits compile) (hc : c.Aligned)
    (hnew : c.nodeAt? site.location = none)
    (hdeclaration : site.declaration = c.declarationOf site.key)
    (hstands : c.Stands site.key site.pointer value)
    (h : Runs (compileNew options children owner site value) c (.ok id) c') :
    Walk (Under site.key site.pointer value) c c' ∧ c'.Located site.key site.pointer id ∧
      id ≤ c.nodes.size := by
  obtain ⟨document, hdocument, hsame⟩ := declarationOf_of_stands hstands
  rw [← hdeclaration] at hsame
  unfold compileNew at h
  split at h
  · exact visitBoolean_ok hc hnew hdocument hsame hstands h
  · exact visitObject_ok (hchildren _ rfl) hc hnew hdocument hsame hstands h
  all_goals exact nomatch (runs_throw.mp h).1

theorem compileNew_error {e : CompileFault} (hchildren : ∀ compile ∈ children, Visits compile)
    (hc : c.Aligned) (hnew : c.nodeAt? site.location = none)
    (hstands : c.Stands site.key site.pointer value)
    (h : Runs (compileNew options children owner site value) c (.error e) c') :
    value.StopsWalk e := by
  unfold compileNew at h
  split at h
  · rcases runs_bind_error.mp h with h | ⟨id, c₁, -, h⟩
    · exact nomatch (runs_reserve.mp h).1
    replace h := runs_modify_bind.mp h
    exact nomatch (runs_pure.mp h).1
  · exact visitObject_error (hchildren _ rfl) hc hnew hstands h
  case h_3 | h_4 =>
    cases (runs_throw.mp h).1
    exact .depth
  case h_5 =>
    cases (runs_throw.mp h).1
    exact .keyword

theorem visit_visits (hchildren : ∀ compile ∈ children, Visits compile) (owner : Owner) :
    VisitsPlace (visit options children owner key pointer value) key pointer value where
  ok {c id c'} h hc hstands := by
    replace h := runs_get_bind.mp h
    split at h
    case h_1 found hfound =>
      obtain ⟨hok, rfl⟩ := runs_pure.mp h
      cases hok
      have hlocated := Compilation.located_of_nodeAt? hfound
      exact ⟨Walk.refl hc, hlocated, Nat.le_of_lt (hc.size ▸ hlocated.lt)⟩
    case h_2 hnew =>
      refine compileNew_ok hchildren hc ?_ rfl hstands h
      exact hnew
  error {c e c'} h hc hstands := by
    replace h := runs_get_bind.mp h
    split at h
    case h_1 => exact nomatch (runs_pure.mp h).1
    case h_2 hnew =>
      refine compileNew_error hchildren hc ?_ hstands h
      exact hnew

end

theorem compileNode_visits (options : CompileOptions) (budget : Nat) (owner : Owner)
    (key pointer : String) (value : Json) :
    VisitsPlace (compileNode options budget owner key pointer value) key pointer value := by
  -- On the levels that are left for children, which are visited with one level less.
  induction budget generalizing owner key pointer value with
  | zero => exact visit_visits (by simp) owner
  | succ budget ih =>
    refine visit_visits ?_ owner
    rintro compile ⟨⟩
    exact fun site child => ih ..

end JsonSchema.CompileM
