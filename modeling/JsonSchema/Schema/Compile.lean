import JsonSchema.Schema.Compilation

/-!
# Compiling a schema

The walk goes depth first over all places where a schema may stand. References wait until the walk
is done, so they may point forwards, backwards or at themselves. The target of a reference that
the walk has not met is compiled then.
-/

namespace JsonSchema

namespace CompileM

structure Site where
  key : String
  pointer : String
  declaration : DraftDeclaration

def Site.location (site : Site) : String := locationOf site.key site.pointer

/-- A schema inside a schema object: its value, and the keyword and tokens that lead to it. -/
structure Child where
  value : Json
  keyword : String
  tokens : List String := []

abbrev CompileChild := Site → Child → CompileM NodeId

def refuse {α : Type} (site : Site) (keyword : String) (problem : KeywordProblem) : CompileM α :=
  throw (.badKeyword site.location keyword problem)

def reading {α : Type} (site : Site) (outcome : Except KeywordFault α) : CompileM α :=
  lift (·.at site.location) outcome

/-! ## Keywords that hold schemas -/

def childOf (compile : CompileChild) (site : Site) (schema : Members Json) (keyword : String) :
    CompileM (Option NodeId) :=
  (schema.get? keyword).mapM fun value => compile site { value, keyword }

def compileItems (compile : CompileChild) (site : Site) (keyword : String) :
    (index : Nat) → List Json → CompileM (List NodeId)
  | _, [] => return []
  | index, value :: rest => do
    let id ← compile site { value, keyword, tokens := [natText index] }
    return id :: (← compileItems compile site keyword (index + 1) rest)

def childList (compile : CompileChild) (site : Site) (schema : Members Json) (keyword : String) :
    CompileM (List NodeId) :=
  match schema.get? keyword with
  | none => return []
  | some (.arr (item :: items)) => compileItems compile site keyword 0 (item :: items)
  | some _ => refuse site keyword .notSchemas

def compileMembers (compile : CompileChild) (site : Site) (keyword : String) :
    Members Json → CompileM (Members NodeId)
  | [] => return []
  | (name, value) :: rest => do
    let id ← compile site { value, keyword, tokens := [name] }
    return (name, id) :: (← compileMembers compile site keyword rest)

def childMembers (compile : CompileChild) (site : Site) (schema : Members Json)
    (keyword : String) : CompileM (Members NodeId) := do
  compileMembers compile site keyword (← reading site (schema.object keyword))

def compilePatternMembers (compile : CompileChild) (site : Site) :
    Members Json → CompileM (List PatternProperty)
  | [] => return []
  | (source, value) :: rest => do
    let pattern ← lift id (readPattern site.location "patternProperties" (.str source))
    let node ← compile site { value, keyword := "patternProperties", tokens := [source] }
    return { pattern, node } :: (← compilePatternMembers compile site rest)

/-! ## Arrays -/

structure ItemSchemas where
  first : List NodeId := []
  firstKeyword : String := "prefixItems"
  rest : Option NodeId := none
  restKeyword : String := "items"

/-- Whether the latest rules for items hold; they hold too where no draft is declared. -/
def allowsLatestItems (declaration : DraftDeclaration) : Bool :=
  !declaration.isDeclared || declaration.draft == .draft2020

/-- Whether the older rules for items hold; they hold too where no draft is declared. -/
def allowsOlderItems (declaration : DraftDeclaration) : Bool :=
  !declaration.isDeclared || declaration.draft != .draft2020

/-- Items by the older rules: an array for the first ones and another keyword for the rest. -/
def compileOlderItems (compile : CompileChild) (site : Site) (schema : Members Json)
    (items : List Json) : CompileM ItemSchemas := do
  if !allowsOlderItems site.declaration then refuse site "items" .arrayItems
  if schema.has "prefixItems" then refuse site "items" .arrayItemsTwice
  let first ← compileItems compile site "items" 0 items
  match schema.get? "additionalItems" with
  | none => return { first, firstKeyword := "items" }
  | some value =>
    let rest ← compile site { value, keyword := "additionalItems" }
    return { first, firstKeyword := "items", rest := some rest, restKeyword := "additionalItems" }

def compileLatestItems (compile : CompileChild) (site : Site) (schema : Members Json) :
    CompileM ItemSchemas := do
  let first ←
    if allowsLatestItems site.declaration then childList compile site schema "prefixItems"
    else pure []
  return { first, rest := ← childOf compile site schema "items" }

def compileItemSchemas (compile : CompileChild) (site : Site) (schema : Members Json) :
    CompileM ItemSchemas :=
  match schema.get? "items" with
  | some (.arr items) => compileOlderItems compile site schema items
  | _ => compileLatestItems compile site schema

def compileArray (compile : CompileChild) (site : Site) (schema : Members Json) :
    CompileM ArrayKeywords := do
  let minItems ← reading site (schema.count? "minItems")
  let maxItems ← reading site (schema.count? "maxItems")
  let uniqueItems ← reading site (schema.bool "uniqueItems")
  let items ← compileItemSchemas compile site schema
  let contains ← childOf compile site schema "contains"
  let minContains ← reading site (schema.count? "minContains")
  let maxContains ← reading site (schema.count? "maxContains")
  return {
    minItems, maxItems, uniqueItems
    firstItems := items.first
    firstItemsKeyword := items.firstKeyword
    items := items.rest
    itemsKeyword := items.restKeyword
    contains, minContains, maxContains }

/-! ## Objects -/

structure Dependencies where
  names : Members (List String)
  schemas : Members NodeId

/-- The older keyword for dependencies holds lists of names and schemas side by side. -/
def compileOlderDependencies (compile : CompileChild) (site : Site) (done : Dependencies) :
    Members Json → CompileM Dependencies
  | [] => return done
  | (name, .arr names) :: rest => do
    let required ← reading site (stringList "dependencies" (.arr names))
    compileOlderDependencies compile site { done with names := done.names.put name required } rest
  | (name, value) :: rest => do
    let id ← compile site { value, keyword := "dependencies", tokens := [name] }
    compileOlderDependencies compile site { done with schemas := done.schemas.put name id } rest

def readNameLists (keyword : String) :
    Members Json → Except KeywordFault (Members (List String))
  | [] => return []
  | (name, value) :: rest => do
    let names ← stringList keyword value
    return (name, names) :: (← readNameLists keyword rest)

def compileDependencies (compile : CompileChild) (site : Site) (schema : Members Json) :
    CompileM Dependencies := do
  let listed ← reading site (schema.object "dependentRequired")
  let names ← reading site (readNameLists "dependentRequired" listed)
  let schemas ← childMembers compile site schema "dependentSchemas"
  let older ← reading site (schema.object "dependencies")
  compileOlderDependencies compile site { names, schemas } older

def compileObject (compile : CompileChild) (site : Site) (schema : Members Json) :
    CompileM ObjectKeywords := do
  let required ← reading site ((schema.get? "required").mapM (stringList "required"))
  let properties ← childMembers compile site schema "properties"
  let patterns ← reading site (schema.object "patternProperties")
  let patternProperties ← compilePatternMembers compile site patterns
  let additionalProperties ← childOf compile site schema "additionalProperties"
  let minProperties ← reading site (schema.count? "minProperties")
  let maxProperties ← reading site (schema.count? "maxProperties")
  let propertyNames ← childOf compile site schema "propertyNames"
  let dependencies ← compileDependencies compile site schema
  return {
    required := required.getD []
    properties, patternProperties, additionalProperties, minProperties, maxProperties,
    propertyNames
    dependentRequired := dependencies.names
    dependentSchemas := dependencies.schemas }

/-! ## Compositions -/

def compileComposition (compile : CompileChild) (site : Site) (schema : Members Json) :
    CompileM Composition := do
  let allOf ← childList compile site schema "allOf"
  let anyOf ← childList compile site schema "anyOf"
  let oneOf ← childList compile site schema "oneOf"
  let negated ← childOf compile site schema "not"
  let condition ← childOf compile site schema "if"
  let consequent ← childOf compile site schema "then"
  let alternative ← childOf compile site schema "else"
  return { allOf, anyOf, oneOf, negated, condition, consequent, alternative }

/-! ## Whole objects -/

def readIdentity (site : Site) (id : NodeId) (schema : Members Json) :
    CompileM (Option String) := do
  let ref ← reading site (readRef schema)
  postpone id ref site.key
  declareAnchors site.key (← reading site (readAnchors schema)) id
  return ref

def warnUnknown (options : CompileOptions) (site : Site) (schema : Members Json) : CompileM Unit :=
  (schema.names.filter isUnknownKeyword).forM fun keyword => do
    if options.strict then
      warn ("Unknown keyword '" ++ keyword ++ "' at " ++ site.location ++ " is ignored")

def compileKeywords (options : CompileOptions) (compile : CompileChild) (site : Site) (id : NodeId)
    (ref : Option String) (schema : Members Json) : CompileM SchemaNode := do
  let value ← lift (·.shownAt site.location) (readValueKeywords schema)
  let number ← reading site (readNumberKeywords site.declaration schema)
  let string ← lift (fun fault => fault) (readStringKeywords site.location schema)
  let array ← compileArray compile site schema
  let object ← compileObject compile site schema
  let composition ← compileComposition compile site schema
  let _ ← childMembers compile site schema "$defs"
  let _ ← childMembers compile site schema "definitions"
  warnUnknown options site schema
  return {
    id, ref, value, number, string, array, object, composition
    location := site.location
    annotations := annotationsOf schema }

def compileObjectSchema (options : CompileOptions) (compile : CompileChild) (site : Site)
    (id : NodeId) (schema : Members Json) : CompileM SchemaNode := do
  let ref ← readIdentity site id schema
  compileKeywords options compile site id ref schema

/-- Which keyword a schema belongs to, and in which schema object. -/
structure Owner where
  location : String
  keyword : String

/--
The node of the value at a pointer, which has none yet. Without a way to compile children the
schema is nested too deep.
-/
def compileNew (options : CompileOptions) (children : Option CompileChild) (owner : Owner)
    (site : Site) (value : Json) : CompileM NodeId :=
  match value, children with
  | .bool b, some _ => do
    let id ← reserve site.location
    place { id, location := site.location, boolean := some b }
    return id
  | .obj schema, some compile => do
    let id ← reserve site.location
    place (← compileObjectSchema options compile site id schema)
    return id
  | .bool _, none | .obj _, none => throw (.tooDeep options.maxDepth site.location)
  | _, _ => throw (.badKeyword owner.location owner.keyword .notASchema)

/-- The node of the value at a pointer, which is made on the first visit. -/
def visit (options : CompileOptions) (children : Option CompileChild) (owner : Owner)
    (key pointer : String) (value : Json) : CompileM NodeId := do
  let c ← get
  match c.nodeAt? (locationOf key pointer) with
  | some id => return id
  | none => compileNew options children owner ⟨key, pointer, c.declarationOf key⟩ value

/-- A visit of the value at a pointer, where schemas may nest `budget` levels further. -/
def compileNode (options : CompileOptions) :
    (budget : Nat) → Owner → (key pointer : String) → Json → CompileM NodeId
  | 0 => visit options none
  | budget + 1 => visit options <| some fun site child =>
    compileNode options budget ⟨site.location, child.keyword⟩ site.key
      (Pointer.join site.pointer (child.keyword :: child.tokens)) child.value

/-- The levels that a limit leaves; a negative limit leaves none. -/
def budgetOf (maxDepth : Int) : Nat := (maxDepth + 1).toNat

/-- The node of the value at a pointer, which no schema around it leads to. -/
def compileEntry (options : CompileOptions) (key pointer : String) (value : Json) :
    CompileM NodeId :=
  compileNode options (budgetOf options.maxDepth) ⟨locationOf key pointer, "$ref"⟩ key pointer value

def compileRoot (options : CompileOptions) (key : String) : CompileM NodeId := do
  let c ← get
  match c.nodeAt? (locationOf key "") with
  | some id => return id
  | none =>
    let content := c.contentOf key
    if content.isSchema then compileEntry options key "" content
    else throw (.rootNotASchema content.sortName (locationOf key ""))

/-! ## References -/

/-- A fragment that is no pointer is the name of an anchor. -/
def isAnchorFragment (fragment : String) : Bool :=
  fragment != "" && fragment.toList.head? != some '/'

/-- Whether a URI means the document with this base itself. -/
def isOwnUri (base uri : String) : Bool := uri == "" || uri == base

/-- The key of the document with a URI, which is taken in when it is needed. -/
def takeDocument (options : CompileOptions) (ref key uri : String) : CompileM String := do
  let c ← get
  match Members.get? c.aliases uri, options.registry.get? uri with
  | some target, _ => return target
  | none, some document =>
    addDocument options uri document
    return uri
  | none, none => throw (.unresolved ref (locationOf key ""))

/-- The key of the document that a reference means by a URI. -/
def targetDocument (options : CompileOptions) (ref key base uri : String) : CompileM String := do
  if isOwnUri base uri then return key
  let target ← takeDocument options ref key uri
  let _ ← compileRoot options target
  return target

def anchorTarget (ref key name : String) : CompileM NodeId := do
  let c ← get
  match c.anchors.lookup (key, name) with
  | some id => return id
  | none => throw (.unresolved ref "")

/-- A fault of a pointer that finds nothing makes the reference unresolved. -/
def pointerFault (ref : String) (fault : PointerFault) : CompileFault :=
  if fault.isLookup then .unresolved ref "" else .pointer fault

/-- The node of a value that a pointer leads to and that the walk has not met. -/
def compileTarget (options : CompileOptions) (ref key pointer : String) (target : Json) :
    CompileM NodeId := do
  if target.isSchema then
    record LogLevel.debug ("Compiling $ref target on demand: " ++ locationOf key pointer)
    compileEntry options key pointer target
  else throw (.unresolved ref "")

def pointerTarget (options : CompileOptions) (ref key fragment : String) : CompileM NodeId := do
  let tokens ← lift (pointerFault ref) (Pointer.split ("#" ++ fragment))
  let c ← get
  match c.nodeAt? (locationOf key (Pointer.ofTokens tokens)) with
  | some id => return id
  | none =>
    let target ← lift (pointerFault ref) (Pointer.resolve (c.contentOf key) tokens)
    compileTarget options ref key (Pointer.ofTokens tokens) target

/-- The node that a reference in a document means. -/
def resolveRef (options : CompileOptions) (ref key : String) : CompileM NodeId := do
  let c ← get
  let (uri, fragment) ← lift .uri (Uri.locate (c.baseOf key) ref)
  let target ← targetDocument options ref key (c.baseOf key) uri
  if isAnchorFragment fragment then anchorTarget ref target fragment
  else pointerTarget options ref target fragment

def resolveFirst (options : CompileOptions) (first : PendingRef) (rest : List PendingRef) :
    CompileM Unit := do
  modify fun c => { c with pending := rest }
  let target ← resolveRef options first.ref first.key
  let location := (← get).locationAt first.node
  record LogLevel.debug
    ("Resolved $ref '" ++ first.ref ++ "' at " ++ location ++ " -> node " ++ natText target)
  modify fun c => { c with targets := (first.node, target) :: c.targets }

/-- Resolves references until none waits, `fuel` of them at most. -/
def resolvePending (options : CompileOptions) : (fuel : Nat) → CompileM Unit
  | 0 => return ()
  | fuel + 1 => do
    match (← get).pending with
    | [] => return ()
    | first :: rest =>
      resolveFirst options first rest
      resolvePending options fuel

end CompileM

/-! ## Compilations -/

mutual

/-- The number of values in a document. -/
def Json.size : Json → Nat
  | .arr items => sizeOfItems items + 1
  | .obj members => sizeOfMembers members + 1
  | _ => 1

def sizeOfItems : List Json → Nat
  | [] => 0
  | item :: items => item.size + sizeOfItems items

def sizeOfMembers : List (String × Json) → Nat
  | [] => 0
  | (_, value) :: members => value.size + sizeOfMembers members

end

/--
As many references as a compilation can meet. A value may have one node for its document and one
for each string that is a reference to it or to a value around it.
-/
def refLimit (options : CompileOptions) (document : Json) : Nat :=
  let size := document.size + sizeOfMembers options.registry
  (size + 1) * size

def Compilation.freeze (c : Compilation) : CompiledSchema :=
  { nodes := (c.nodes.filterMap id).map fun node =>
      { node with refTarget := c.targets.lookup node.id }
    draft := (c.declarationOf "").draft
    locations := c.locations
    warnings := c.warnings }

def compileDocument (options : CompileOptions) (document : Json) : CompileM CompiledSchema := do
  CompileM.addDocument options "" document
  let _ ← CompileM.compileRoot options ""
  CompileM.resolvePending options (refLimit options document)
  let c ← get
  let compiled := c.freeze
  CompileM.record LogLevel.debug
    ("Compiled schema: " ++ natText compiled.nodes.size ++ " nodes, draft " ++
      compiled.draft.name ++ ", " ++ natText c.targets.length ++ " references")
  return compiled

structure CompileOutcome where
  result : Except CompileFault CompiledSchema
  log : Log

def runCompile (options : CompileOptions) (document : Json) : CompileOutcome :=
  let (result, c) := (compileDocument options document).run.run {}
  { result, log := c.log }

/-! ## Registries -/

abbrev Registry := Members Json

namespace Registry

/-- The key of a document: the given URI or its own identifier, without a fragment. -/
def key (document : Json) (uri : Option String) : Except CompileFault String :=
  let name := match uri with
    | some uri => some uri
    | none => (document.member? "$id").bind Json.string?
  match name.filter (· != "") with
  | none => .error .noKey
  | some name => (Uri.defragment name).mapError CompileFault.uri |>.map (·.1)

/-- Registers a document; the key takes the place of an earlier one. -/
def add (registry : Registry) (document : Json) (uri : Option String) :
    Except CompileFault (String × Registry) :=
  (key document uri).map fun key => (key, registry.put key document)

def addedRecord (key : String) : LogRecord :=
  compilerRecord LogLevel.debug ("Registered schema document: " ++ key)

def ofMembers (documents : Members Json) : Except CompileFault Registry :=
  documents.foldlM (fun registry (uri, document) => (·.2) <$> registry.add document (some uri)) []

end Registry

end JsonSchema
