import JsonSchema.Proofs.Schema.Raise

/-!
# What a compilation comes to

A compilation ends with a schema, or with a fault of the schema. A third end is that of a text which
the compilation hands on to another reader: a URI, a pointer, an expression, or a number that is
to be written out. What this reader refuses stops the compilation with a fault of its own.
-/

namespace JsonSchema

open CompileM

/-! ## Texts that are handed on -/

/-- What stops a compilation without being a fault of the schema. -/
inductive CompileOptions.Escapes (options : CompileOptions) (root : Json) :
    CompileFault → Prop where
  /-- A document declares a URI for itself that has a fault. -/
  | identifier {key id : String} {content : Json} {fault : Uri.Fault}
      (hsource : options.source? root key = some content)
      (hid : content.member? "$id" = some (.str id))
      (hlocate : Uri.locate key id = .error fault) : Escapes options root (.uri fault)
  /-- A reference has a URI with a fault. -/
  | reference {key base ref : String} {fault : Uri.Fault} (href : options.HasRef root key ref)
      (hbase : options.base? root key = some base) (hlocate : Uri.locate base ref = .error fault) :
      Escapes options root (.uri fault)
  /-- The pointer of a reference meets an array with digits that are no index. -/
  | index {key base ref uri fragment target : String} {content : Json} {tokens : List String}
      {fault : PointerFault} (hrefers : options.Refers root key base ref uri fragment)
      (hmeans : options.Means root key base uri target)
      (hsource : options.source? root target = some content)
      (hsplit : Pointer.split ("#" ++ fragment) = .ok tokens)
      (hresolve : Pointer.resolve content tokens = .error fault)
      (hfault : fault.isLookup = false) : Escapes options root (.pointer fault)
  /-- A document declares a draft by a value that no message can show. -/
  | draft {key : String} {content declared : Json}
      (hsource : options.source? root key = some content)
      (hdeclared : content.member? "$schema" = some declared)
      (hlong : declared.hasText = false) : Escapes options root .noText
  /-- A schema object has an expression or types that stop the walk over it. -/
  | inside {key : String} {content : Json} {fault : CompileFault}
      (hsource : options.source? root key = some content) (h : content.Escapes fault) :
      Escapes options root fault

variable {options : CompileOptions} {root : Json} {fault : CompileFault}

theorem DraftDeclaration.exists_of_hasText {raw : Option Json} (h : (ofJson? raw).hasText = false) :
    ∃ declared, raw = some declared ∧ declared.hasText = false := by
  cases raw with
  | none => cases h
  | some declared =>
    cases declared with
    | null => cases h
    | str identifier =>
      simp only [ofJson?] at h
      split at h <;> cases h
    | _ => exact ⟨_, rfl, h⟩

theorem exists_id_of_declaredBase {key : String} {content : Json} {fault : Uri.Fault}
    (h : declaredBase key content = .error fault) :
    ∃ id, content.member? "$id" = some (.str id) ∧ Uri.locate key id = .error fault := by
  unfold declaredBase at h
  split at h
  case h_1 => cases h
  case h_2 id hid =>
    obtain ⟨value, hvalue, hstring⟩ := Option.bind_eq_some_iff.mp hid
    cases value <;> cases hstring
    exact ⟨id, hvalue, Except.map_eq_error.mp h⟩

/-- Of the faults that a compilation may stop with, those that are none of the schema. -/
theorem CompileOptions.Raises.escapes (h : options.Raises root fault)
    (hother : fault.isOfSchema = false) : options.Escapes root fault := by
  cases h with
  | identifier hsource hdeclared =>
    obtain ⟨id, hid, hlocate⟩ := exists_id_of_declaredBase hdeclared
    exact .identifier hsource hid hlocate
  | declaration hsource hlong =>
    obtain ⟨declared, hdeclared, hlong⟩ := DraftDeclaration.exists_of_hasText hlong
    exact .draft hsource hdeclared hlong
  | walk hsource hwalk =>
    cases hwalk with
    | escape h => exact .inside hsource h
    | _ => cases hother
  | uri href hbase hlocate => exact .reference href hbase hlocate
  | index hrefers hmeans hsource hsplit hresolve hfault =>
    exact .index hrefers hmeans hsource hsplit hresolve hfault
  | _ => cases hother

/-! ## Outcomes -/

/--
A compilation has a schema, or it has a fault of the schema. There is no third outcome, unless a
document that is compiled or registered holds one of these: an identifier or a reference that is no
URI, a reference whose pointer meets an array with digits that are no index, an expression that is
refused beyond its syntax, or an integer without a text among the types or in place of a draft.
-/
theorem compilation_outcomes (options : CompileOptions) (root : Json) :
    (∃ schema, (runCompile options root).result = .ok schema) ∨
      (∃ fault, (runCompile options root).result = .error fault ∧ fault.isOfSchema = true) ∨
      ∃ fault, (runCompile options root).result = .error fault ∧ fault.isOfSchema = false ∧
        options.Escapes root fault := by
  cases h : (runCompile options root).result with
  | ok schema => exact .inl ⟨schema, rfl⟩
  | error fault =>
    obtain ⟨c, hrun⟩ := runs_of_result h
    cases hschema : fault.isOfSchema with
    | true => exact .inr (.inl ⟨fault, rfl, hschema⟩)
    | false =>
      exact .inr (.inr ⟨fault, rfl, hschema, (compileDocument_raises hrun).escapes hschema⟩)

example : (match (runCompile ⟨10, false, []⟩ (.obj [("$ref", .str "http://[bad#")])).result with
    | .error (.uri fault) => some fault
    | _ => none) = some .unbalancedBrackets := by
  decide +kernel

example : (match (runCompile ⟨10, false, []⟩
      (.obj [("allOf", .arr [.bool true]), ("$ref", .str "#/allOf/²")])).result with
    | .error (.pointer fault) => some fault
    | _ => none) = some (.notANumeral "²") := by
  decide +kernel

end JsonSchema
