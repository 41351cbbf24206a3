import JsonSchema.Proofs.Schema.Congruence
import JsonSchema.Proofs.Schema.Queue

/-!
# The same document under another draft

Two documents that differ in the declaration of their draft are compiled step by step alike. The
states stay the same but for the declaration and for the annotations of the root, as long as every
schema object of the document that gets a node is timeless.
-/

namespace JsonSchema

def SchemaNode.undeclared (node : SchemaNode) : SchemaNode :=
  { node with annotations := Members.undeclared node.annotations }

/-- The members differ in the declaration of a draft, and each declares a supported one or none. -/
structure Members.Redeclared (members members' : Members Json) : Prop where
  undeclared : members'.undeclared = members.undeclared
  supported : (DraftDeclaration.ofJson? (members.get? "$schema")).isSupported = true
  supported' : (DraftDeclaration.ofJson? (members'.get? "$schema")).isSupported = true

namespace Compilation

variable {members members' schema : Members Json} {c c' d : Compilation}

def Reached (c : Compilation) (document : Json) (schema : Members Json) : Prop :=
  ∃ tokens, document.At tokens (.obj schema) ∧
    locationOf "" (Pointer.ofTokens tokens) ∈ c.locations.toList

/-- The objects of the document that got a node mean the same in every draft. -/
def Timeless (c : Compilation) (document : Json) : Prop :=
  ∀ schema, c.Reached document schema → schema.Timeless

theorem Timeless.earlier {document : Json} (h : d.Timeless document)
    (hkept : c.locations.toList <+: d.locations.toList) : c.Timeless document :=
  fun schema ⟨tokens, hat, hmem⟩ => h schema ⟨tokens, hat, hkept.subset hmem⟩

/-- The second state is the first one for other members of the document, which may declare another
draft. Its root has a node already. -/
structure Redrafted (members members' : Members Json) (c c' : Compilation) : Prop where
  started : locationOf "" "" ∈ c.locations.toList
  content : c.contentOf "" = .obj members
  content' : c'.contentOf "" = .obj members'
  base : c'.baseOf "" = c.baseOf ""
  documents : ∀ key ≠ "", Members.get? c'.documents key = Members.get? c.documents key
  size : c'.nodes.size = c.nodes.size
  nodes : ∀ id ≠ rootId, c'.nodes[id]? = c.nodes[id]?
  root : c'.nodes[rootId]?.map (Option.map SchemaNode.undeclared) =
    c.nodes[rootId]?.map (Option.map SchemaNode.undeclared)
  aliases : c'.aliases = c.aliases
  locations : c'.locations = c.locations
  anchors : c'.anchors = c.anchors
  pending : c'.pending = c.pending
  targets : c'.targets = c.targets
  warnings : c'.warnings = c.warnings

namespace Redrafted

variable (h : Redrafted members members' c c')

include h

theorem nodeAt?_eq (location : String) : c'.nodeAt? location = c.nodeAt? location := by
  rw [nodeAt?, nodeAt?, h.locations]

theorem locationAt_eq (id : NodeId) : c'.locationAt id = c.locationAt id := by
  rw [locationAt, locationAt, h.locations]

theorem baseOf_eq (key : String) : c'.baseOf key = c.baseOf key := by
  by_cases hkey : key = ""
  · rw [hkey, h.base]
  · rw [baseOf, baseOf, h.documents key hkey]

theorem contentOf_eq {key : String} (hkey : key ≠ "") : c'.contentOf key = c.contentOf key := by
  rw [contentOf, contentOf, h.documents key hkey]

theorem declarationOf_eq {key : String} (hkey : key ≠ "") :
    c'.declarationOf key = c.declarationOf key := by
  rw [declarationOf, declarationOf, h.documents key hkey]

theorem nodeAt?_root : c.nodeAt? (locationOf "" "") ≠ none := by
  intro hnone
  exact notMem_of_nodeAt? hnone h.started

theorem entered {key : String} (hkey : key ≠ "") (document : SourceDocument) :
    Redrafted members members' { c with documents := (key, document) :: c.documents }
      { c' with documents := (key, document) :: c'.documents } := by
  have hother (c : Compilation) : Members.get? ((key, document) :: c.documents) "" =
      Members.get? c.documents "" := by
    rw [Members.get?_cons, if_neg (Ne.symm hkey)]
  exact { h with
    content := by
      rw [contentOf, hother]
      exact h.content
    content' := by
      rw [contentOf, hother]
      exact h.content'
    base := by
      rw [baseOf, baseOf, hother, hother]
      exact h.base
    documents := fun name hname => by
      rw [Members.get?_cons, Members.get?_cons, h.documents name hname] }

theorem reserved (location : String) :
    Redrafted members members' (c.reserved location) (c'.reserved location) :=
  { h with
    started := by simp [Compilation.reserved, h.started]
    size := by simp [Compilation.reserved, h.size]
    nodes := by
      intro id hid
      simp only [Compilation.reserved, Array.getElem?_push, h.size, h.nodes id hid]
    root := by
      simp only [Compilation.reserved, Array.getElem?_push, h.size]
      split
      · rfl
      · exact h.root
    locations := by simp [Compilation.reserved, h.locations] }

theorem placed {node node' : SchemaNode} (hid : node'.id = node.id)
    (hnode : node' = node ∨ node.id = rootId ∧ node'.undeclared = node.undeclared) :
    Redrafted members members' (c.placed node) (c'.placed node') :=
  { h with
    size := by simp [Compilation.placed, h.size]
    nodes := by
      intro id hne
      rcases hnode with rfl | ⟨hroot, -⟩
      · simp only [Compilation.placed, Array.set!_eq_setIfInBounds, Array.getElem?_setIfInBounds,
          h.size, h.nodes id hne]
      · have hother : id ≠ node.id := hroot ▸ hne
        rw [placed_other hother, placed_other (hid ▸ hother), h.nodes id hne]
    root := by
      have hsame : node'.undeclared = node.undeclared := by
        rcases hnode with rfl | ⟨-, hsame⟩
        · rfl
        · exact hsame
      simp only [Compilation.placed, Array.set!_eq_setIfInBounds, Array.getElem?_setIfInBounds,
        h.size, hid]
      split
      · split
        · exact congrArg (fun node => some (some node)) hsame
        · rfl
      · exact h.root }

end Redrafted

end Compilation

namespace CompileM

open Compilation

variable {α β ε : Type} {options : CompileOptions} {members members' : Members Json}

def Keeps (x : CompileM α) : Prop :=
  ∀ c o d, Runs x c o d → c.locations.toList <+: d.locations.toList

theorem Keeps.bind {x : CompileM α} {f : α → CompileM β} (h : Keeps x) (hnext : ∀ a, Keeps (f a)) :
    Keeps (x >>= f) := by
  intro c o d hrun
  rcases runs_bind.mp hrun with ⟨e, -, hx⟩ | ⟨a, c₁, hx, hf⟩
  · exact h _ _ _ hx
  · exact (h _ _ _ hx).trans (hnext a _ _ _ hf)

theorem Keeps.get {f : Compilation → CompileM α} (h : ∀ c, Keeps (f c)) : Keeps (get >>= f) :=
  fun c _ _ hrun => h c _ _ _ (runs_get_bind.mp hrun)

theorem Growing.keeps {x : CompileM α} (h : Growing x) : Keeps x :=
  fun _ _ _ hrun => (h.grows hrun).locations

theorem reserve_keeps (location : String) : Keeps (reserve location) := by
  intro c o d hrun
  obtain ⟨-, rfl⟩ := runs_reserve.mp hrun
  simp [Compilation.reserved]

/-- The second step does after a change of the declaration what the first one does before it, as
long as the objects that get nodes mean the same in every draft. -/
structure Follows (members members' : Members Json) (x y : CompileM α) : Prop where
  keeps : Keeps x
  follows : ∀ {c c' o d}, c.Redrafted members members' c' → Runs x c o d →
    d.Timeless (.obj members) → ∃ d', Runs y c' o d' ∧ d.Redrafted members members' d'

def visitChild (options : CompileOptions) (budget : Nat) : CompileChild := fun site child =>
  compileNode options budget ⟨site.location, child.keyword⟩ site.key
    (Pointer.join site.pointer (child.keyword :: child.tokens)) child.value

namespace Follows

/-! ## Single steps -/

theorem pure (a : α) : Follows members members' (pure a) (pure a) where
  keeps c o d hrun := by
    obtain ⟨-, rfl⟩ := runs_pure.mp hrun
    exact List.prefix_rfl
  follows h hrun _ := by
    obtain ⟨rfl, rfl⟩ := runs_pure.mp hrun
    exact ⟨_, runs_pure.mpr ⟨rfl, rfl⟩, h⟩

theorem throw (e : CompileFault) : Follows members members' (throw e : CompileM α) (throw e) where
  keeps c o d hrun := by
    obtain ⟨-, rfl⟩ := runs_throw.mp hrun
    exact List.prefix_rfl
  follows h hrun _ := by
    obtain ⟨rfl, rfl⟩ := runs_throw.mp hrun
    exact ⟨_, runs_throw.mpr ⟨rfl, rfl⟩, h⟩

theorem modify {f g : Compilation → Compilation}
    (hkeeps : ∀ c : Compilation, c.locations.toList <+: (f c).locations.toList)
    (h : ∀ {c c' : Compilation}, c.Redrafted members members' c' →
      (f c).Redrafted members members' (g c')) :
    Follows members members' (modify f) (modify g) where
  keeps c o d hrun := by
    obtain ⟨-, rfl⟩ := runs_modify.mp hrun
    exact hkeeps _
  follows hc hrun _ := by
    obtain ⟨rfl, rfl⟩ := runs_modify.mp hrun
    exact ⟨_, runs_modify.mpr ⟨rfl, rfl⟩, h hc⟩

theorem bind {x y : CompileM α} {f g : α → CompileM β} (h : Follows members members' x y)
    (hnext : ∀ a, Follows members members' (f a) (g a)) :
    Follows members members' (x >>= f) (y >>= g) where
  keeps := h.keeps.bind fun a => (hnext a).keeps
  follows hc hrun htimeless := by
    rcases runs_bind.mp hrun with ⟨e, rfl, hx⟩ | ⟨a, c₁, hx, hf⟩
    · obtain ⟨d', hy, hd⟩ := h.follows hc hx htimeless
      exact ⟨d', runs_bind.mpr (.inl ⟨e, rfl, hy⟩), hd⟩
    · have hearlier := htimeless.earlier ((hnext a).keeps _ _ _ hf)
      obtain ⟨c₁', hy, hc₁⟩ := h.follows hc hx hearlier
      obtain ⟨d', hg, hd⟩ := (hnext a).follows hc₁ hf htimeless
      exact ⟨d', runs_bind.mpr (.inr ⟨a, c₁', hy, hg⟩), hd⟩

theorem record (level : Int) (message : String) :
    Follows members members' (record level message) (CompileM.record level message) :=
  modify (fun _ => List.prefix_rfl) fun h => { h with }

theorem warn (message : String) :
    Follows members members' (warn message) (CompileM.warn message) :=
  (record ..).bind fun _ => modify (fun _ => List.prefix_rfl) fun h =>
    { h with warnings := congrArg (· ++ [message]) h.warnings }

theorem congruence : Congruence fun _ x y => Follows members members' x y :=
  ⟨pure, throw, warn, bind⟩

theorem lift (fault : ε → CompileFault) (outcome : Except ε α) :
    Follows members members' (lift fault outcome) (CompileM.lift fault outcome) :=
  congruence.lift fault outcome

theorem get_bind {f g : Compilation → CompileM α} (hkeeps : Keeps (get >>= f))
    (h : ∀ {c c'}, c.Redrafted members members' c' → Follows members members' (f c) (g c')) :
    Follows members members' (get >>= f) (get >>= g) where
  keeps := hkeeps
  follows hc hrun htimeless := by
    obtain ⟨d', hrun', hd⟩ := (h hc).follows hc (runs_get_bind.mp hrun) htimeless
    exact ⟨d', runs_get_bind.mpr hrun', hd⟩

theorem get_same {f : Compilation → CompileM α}
    (hlook : ∀ {c c'}, c.Redrafted members members' c' → f c' = f c)
    (h : ∀ c, Follows members members' (f c) (f c)) :
    Follows members members' (get >>= f) (get >>= f) :=
  get_bind (.get fun c => (h c).keeps) fun hc => hlook hc ▸ h _

/-! ## New nodes -/

theorem place {node node' : SchemaNode} (hid : node'.id = node.id)
    (hnode : node' = node ∨ node.id = rootId ∧ node'.undeclared = node.undeclared) :
    Follows members members' (place node) (CompileM.place node') :=
  modify (fun _ => List.prefix_rfl) fun h => h.placed hid hnode

theorem reserve (location : String) :
    Follows members members' (reserve location) (CompileM.reserve location) where
  keeps := reserve_keeps location
  follows h hrun _ := by
    obtain ⟨rfl, rfl⟩ := runs_reserve.mp hrun
    exact ⟨_, runs_reserve.mpr ⟨congrArg _ h.size, rfl⟩, h.reserved location⟩

theorem reserve_bind {location : String} {f g : NodeId → CompileM α}
    (hkeeps : ∀ id, Keeps (f id))
    (h : (∀ tokens schema, (Json.obj members).At tokens (.obj schema) →
        location = locationOf "" (Pointer.ofTokens tokens) → Members.Timeless schema) →
      ∀ id, Follows members members' (f id) (g id)) :
    Follows members members' (CompileM.reserve location >>= f)
      (CompileM.reserve location >>= g) where
  keeps := (reserve_keeps location).bind hkeeps
  follows {c c' o d} hc hrun htimeless := by
    refine ((reserve location).bind (h ?_)).follows hc hrun htimeless
    -- What follows the reservation keeps the location, so the object there is timeless.
    intro tokens schema hat hlocation
    rcases runs_bind.mp hrun with ⟨e, -, hreserve⟩ | ⟨id, c₁, hreserve, hf⟩
    · exact nomatch (runs_reserve.mp hreserve).1
    · obtain ⟨-, rfl⟩ := runs_reserve.mp hreserve
      have hmem : location ∈ (c.reserved location).locations.toList := by
        simp [Compilation.reserved]
      exact htimeless schema ⟨tokens, hat, hlocation ▸ (hkeeps id _ _ _ hf).subset hmem⟩

section

variable {compile compile' : CompileChild} {site : Site} {declaration : DraftDeclaration}
  {schema schema' : Members Json}

theorem readIdentity (id : NodeId) (hschema : schema'.undeclared = schema.undeclared) :
    Follows members members' (readIdentity site id schema)
      (CompileM.readIdentity { site with declaration } id schema') := by
  unfold CompileM.readIdentity
  rw [readRef_of_undeclared hschema, readAnchors_of_undeclared hschema]
  refine (lift ..).bind fun ref => bind ?_ fun _ => (lift ..).bind fun names => bind ?_ fun _ =>
    pure ref
  · exact modify (fun _ => List.prefix_rfl) fun h => { h with
      pending := congrArg (· ++ _) h.pending }
  · exact modify (fun _ => List.prefix_rfl) fun h => { h with
      anchors := congrArg (_ ++ ·) h.anchors }

theorem placeObject
    (hcompile : Congruence.Visited (fun _ x y => Follows members members' x y) compile compile' site
      declaration schema)
    (hschema : schema'.undeclared = schema.undeclared)
    (hdeclaration : declaration = site.declaration ∨ schema.Timeless) {id : NodeId}
    (hroot : schema' = schema ∨ id = rootId) :
    Follows members members'
      (do
        CompileM.place (← compileObjectSchema options compile site id schema)
        return id)
      (do
        CompileM.place (← compileObjectSchema options compile' { site with declaration } id schema')
        return id) := by
  unfold compileObjectSchema
  rw [bind_assoc, bind_assoc]
  refine (readIdentity id hschema).bind fun ref => ?_
  refine congruence.compileKeywords hcompile hschema hdeclaration options id ref fun node hid => ?_
  have hplace : Follows members members'
      (CompileM.place { node with annotations := annotationsOf schema })
      (CompileM.place { node with annotations := annotationsOf schema' }) := by
    rcases hroot with rfl | hroot
    · exact place rfl (.inl rfl)
    · refine place rfl (.inr ⟨hid.trans hroot, ?_⟩)
      unfold SchemaNode.undeclared
      rw [Members.annotations_undeclared, Members.annotations_undeclared, hschema]
  exact hplace.bind fun _ => pure id

end

/-! ## Walks -/

def Placed (members : Members Json) (key pointer : String) (value : Json) : Prop :=
  key = "" → ∃ tokens, pointer = Pointer.ofTokens tokens ∧ (Json.obj members).At tokens value

theorem Placed.inside {key pointer : String} {tokens : List String} {schema : Members Json}
    {value : Json} (h : Placed members key pointer (.obj schema))
    (hleads : (Json.obj schema).Leads tokens value) :
    Placed members key (Pointer.join pointer tokens) value := by
  intro hkey
  obtain ⟨before, rfl, hat⟩ := h hkey
  exact ⟨_, Pointer.join_ofTokens .., hat.append hleads.at⟩

/-- A way to visit subschemas that is the same for both documents. -/
def Visits (members members' : Members Json) (compile : CompileChild) : Prop :=
  ∀ (site : Site) (declaration : DraftDeclaration) (schema : Members Json),
    Placed members site.key site.pointer (.obj schema) →
      Congruence.Visited (fun _ x y => Follows members members' x y) compile compile site
        declaration schema

/-- Whether an object is timeless does not matter where the draft stays, and elsewhere it shows as
soon as the object has a node. -/
theorem compileNew {children : Option CompileChild}
    (hchildren : ∀ compile ∈ children, Visits members members' compile) (owner : Owner)
    {key pointer : String} {value : Json} (hplaced : Placed members key pointer value)
    {declaration declaration' : DraftDeclaration} (hkey : declaration' = declaration ∨ key = "") :
    Follows members members'
      (compileNew options children owner ⟨key, pointer, declaration⟩ value)
      (CompileM.compileNew options children owner ⟨key, pointer, declaration'⟩ value) := by
  unfold CompileM.compileNew
  split
  case h_1 b compile =>
    exact (reserve _).bind fun id => (place rfl (.inl rfl)).bind fun _ => pure id
  case h_2 schema compile =>
    have hvisits := hchildren compile rfl ⟨key, pointer, declaration⟩
    refine reserve_bind (fun id => ?_) fun htimeless id => ?_
    · exact (placeObject (hvisits declaration schema hplaced) rfl (.inl rfl) (.inl rfl)).keeps
    refine placeObject (hvisits declaration' schema hplaced) rfl ?_ (.inl rfl)
    refine hkey.imp_right fun hkey => ?_
    obtain ⟨tokens, rfl, hat⟩ := hplaced hkey
    exact htimeless tokens schema hat (hkey ▸ rfl)
  case h_3 => exact throw _
  case h_4 => exact throw _
  case h_5 => exact throw _

theorem visit {children : Option CompileChild}
    (hchildren : ∀ compile ∈ children, Visits members members' compile) (owner : Owner)
    {key pointer : String} {value : Json} (hplaced : Placed members key pointer value) :
    Follows members members' (visit options children owner key pointer value)
      (CompileM.visit options children owner key pointer value) := by
  refine get_bind (.get fun c => ?_) fun {c c'} hc => ?_
  · split
    · exact (Growing.pure _).keeps
    · exact (compileNew hchildren owner hplaced (.inl rfl)).keeps
  · rw [hc.nodeAt?_eq]
    split
    · exact pure _
    · refine compileNew hchildren owner hplaced ?_
      by_cases hkey : key = ""
      · exact .inr hkey
      · exact .inl (hc.declarationOf_eq hkey)

theorem compileNode (budget : Nat) (owner : Owner) {key pointer : String} {value : Json}
    (hplaced : Placed members key pointer value) :
    Follows members members' (compileNode options budget owner key pointer value)
      (CompileM.compileNode options budget owner key pointer value) := by
  induction budget generalizing owner key pointer value with
  | zero => exact visit (by simp) owner hplaced
  | succ budget ih =>
    refine visit ?_ owner hplaced
    rintro compile ⟨⟩ site declaration schema hschema child hleads
    exact ih _ (hschema.inside hleads)

theorem visitChild (options : CompileOptions) (budget : Nat) :
    Visits members members' (visitChild options budget) :=
  fun _ _ _ hschema _ hleads => compileNode budget _ (hschema.inside hleads)

theorem compileRoot (options : CompileOptions) (key : String) :
    Follows members members' (compileRoot options key) (CompileM.compileRoot options key) := by
  refine get_bind (Growing.compileRoot options key).keeps fun {c c'} hc => ?_
  rw [hc.nodeAt?_eq]
  cases hnode : c.nodeAt? (locationOf key "") with
  | some id => exact pure id
  | none =>
    have hkey : key ≠ "" := by
      rintro rfl
      exact hc.nodeAt?_root hnode
    dsimp only
    rw [hc.contentOf_eq hkey]
    split
    · exact compileNode _ _ fun h => absurd h hkey
    · exact throw _

/-! ## References -/

theorem declaration_unresolved {schema : Members Json}
    (h : (DraftDeclaration.ofJson? (schema.get? "$schema")).isSupported = true)
    (options : CompileOptions) (ref key pointer : String) (rest : List String) :
    (do
      let target ←
        CompileM.lift (pointerFault ref) (Pointer.resolve (.obj schema) ("$schema" :: rest))
      CompileM.compileTarget options ref key pointer target) =
      (MonadExcept.throw (CompileFault.unresolved ref "") : CompileM NodeId) := by
  have hcases : ∀ value ∈ schema.get? "$schema", value = .null ∨ ∃ text, value = .str text := by
    intro value hvalue
    rw [Option.mem_def.mp hvalue] at h
    cases value with
    | null => exact .inl rfl
    | str text => exact .inr ⟨text, rfl⟩
    | _ => cases h
  rw [Pointer.resolve, List.foldlM_cons, Pointer.descend]
  cases hget : schema.get? "$schema" with
  | none => rfl
  | some value =>
    rcases hcases value hget with rfl | ⟨text, rfl⟩
    all_goals cases rest <;> rfl

theorem checkDraft (options : CompileOptions) (key : String) (document : Json) :
    Follows members members' (checkDraft options key document)
      (CompileM.checkDraft options key document) := by
  unfold CompileM.checkDraft
  dsimp only
  split
  · exact (record ..).bind fun _ => pure _
  split
  · exact throw _
  split
  · exact throw _
  · exact (warn _).bind fun _ => pure _

theorem addDocument (options : CompileOptions) {key : String} (hkey : key ≠ "") (document : Json) :
    Follows members members' (addDocument options key document)
      (CompileM.addDocument options key document) := by
  refine (lift ..).bind fun declared => bind ?_ fun _ => (checkDraft ..).bind fun declaration => ?_
  · exact modify (fun _ => List.prefix_rfl) fun h => { h with
      aliases := congrArg (_ ++ ·) h.aliases }
  · refine modify (fun _ => List.prefix_rfl) fun h => h.entered hkey _

theorem takeDocument (options : CompileOptions) (ref key : String) {uri : String}
    (huri : uri ≠ "") :
    Follows members members' (takeDocument options ref key uri)
      (CompileM.takeDocument options ref key uri) := by
  refine get_same (fun hc => by rw [hc.aliases]) fun c => ?_
  split
  · exact pure _
  · exact (addDocument options huri _).bind fun _ => pure _
  · exact throw _

theorem targetDocument (options : CompileOptions) (ref key base uri : String) :
    Follows members members' (targetDocument options ref key base uri)
      (CompileM.targetDocument options ref key base uri) := by
  unfold CompileM.targetDocument
  split
  case isTrue => exact pure key
  case isFalse hown =>
    have huri : uri ≠ "" := by
      rintro rfl
      exact hown rfl
    exact (takeDocument options ref key huri).bind fun target =>
      (compileRoot options target).bind fun _ => pure target

theorem anchorTarget (ref key name : String) :
    Follows members members' (anchorTarget ref key name) (CompileM.anchorTarget ref key name) := by
  refine get_same (fun hc => by rw [hc.anchors]) fun c => ?_
  split
  · exact pure _
  · exact throw _

theorem compileTarget (options : CompileOptions) (ref : String) {key pointer : String}
    {target : Json} (hplaced : Placed members key pointer target) :
    Follows members members' (compileTarget options ref key pointer target)
      (CompileM.compileTarget options ref key pointer target) := by
  unfold CompileM.compileTarget
  split
  · exact (record ..).bind fun _ => compileNode _ _ hplaced
  · exact throw _

variable (h : members.Redeclared members')

include h

theorem pointerTarget (options : CompileOptions) (ref key fragment : String) :
    Follows members members' (pointerTarget options ref key fragment)
      (CompileM.pointerTarget options ref key fragment) := by
  refine (lift ..).bind fun tokens => get_bind (.get fun c => ?_) fun {c c'} hc => ?_
  · split
    · exact (Growing.pure _).keeps
    · exact ((Growing.lift ..).bind fun target => .compileTarget ..).keeps
  rw [hc.nodeAt?_eq]
  cases hnode : c.nodeAt? (locationOf key (Pointer.ofTokens tokens)) with
  | some id => exact pure id
  | none =>
    dsimp only
    by_cases hkey : key = ""
    · subst hkey
      rw [hc.content, hc.content']
      match tokens with
      | [] => exact absurd hnode hc.nodeAt?_root
      | token :: rest =>
        by_cases htoken : token = "$schema"
        · subst htoken
          rw [declaration_unresolved h.supported, declaration_unresolved h.supported']
          exact throw _
        · have hresolve : Pointer.resolve (.obj members') (token :: rest) =
              Pointer.resolve (.obj members) (token :: rest) := by
            simp only [Pointer.resolve, List.foldlM_cons, Pointer.descend,
              Members.get?_of_undeclared h.undeclared htoken]
          rw [hresolve]
          refine congruence.lift_bind fun target htarget => compileTarget options ref fun _ => ?_
          exact ⟨_, rfl, Pointer.resolve_at htarget⟩
    · rw [hc.contentOf_eq hkey]
      exact (lift ..).bind fun target => compileTarget options ref fun h => absurd h hkey

theorem resolveRef (options : CompileOptions) (ref key : String) :
    Follows members members' (resolveRef options ref key)
      (CompileM.resolveRef options ref key) := by
  refine get_same (fun hc => by rw [hc.baseOf_eq]) fun c => ?_
  refine (lift .uri _).bind fun located => ?_
  obtain ⟨uri, fragment⟩ := located
  refine (targetDocument options ref key (c.baseOf key) uri).bind fun target => ?_
  split
  · exact anchorTarget ref target fragment
  · exact pointerTarget h options ref target fragment

theorem resolveFirst (options : CompileOptions) (first : PendingRef) (rest : List PendingRef) :
    Follows members members' (resolveFirst options first rest)
      (CompileM.resolveFirst options first rest) := by
  unfold CompileM.resolveFirst
  refine bind ?_ fun _ => (resolveRef h options first.ref first.key).bind fun target => ?_
  · exact modify (fun _ => List.prefix_rfl) fun hc => { hc with pending := rfl }
  refine get_same (fun hc => by rw [hc.locationAt_eq]) fun c => (record ..).bind fun _ => ?_
  exact modify (fun _ => List.prefix_rfl) fun hc => { hc with
    targets := congrArg (_ :: ·) hc.targets }

theorem resolvePending (options : CompileOptions) (fuel : Nat) :
    Follows members members' (resolvePending options fuel)
      (CompileM.resolvePending options fuel) := by
  induction fuel with
  | zero => exact pure ()
  | succ fuel ih =>
    refine get_same (fun hc => by rw [hc.pending]) fun c => ?_
    split
    · exact pure ()
    · exact (resolveFirst h options _ _).bind fun _ => ih

end Follows

end CompileM

end JsonSchema
