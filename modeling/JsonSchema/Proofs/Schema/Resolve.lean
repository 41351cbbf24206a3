import JsonSchema.Proofs.Schema.Documents

/-!
# What a reference resolves to

A reference names a document by its URI and a node of that document by its fragment. What answers
a reference once answers it in all later states.
-/

namespace JsonSchema

namespace Compilation

open CompileM

variable {options : CompileOptions} {root : Json} {c c' c₁ d : Compilation}
  {key ref uri fragment : String} {id : NodeId} {site : Site} {document : SourceDocument}

/-! ## Answers -/

/-- A fragment of a document points to a node. -/
def PointsTo (c : Compilation) (key fragment : String) (id : NodeId) : Prop :=
  if isAnchorFragment fragment then ((key, fragment), id) ∈ c.anchors
  else ∃ tokens, Pointer.split ("#" ++ fragment) = .ok tokens ∧
    c.Located key (Pointer.ofTokens tokens) id

/-- A reference in the document with this key means the document `target` by its URI. -/
def Means (c : Compilation) (key uri target : String) : Prop :=
  if isOwnUri (c.baseOf key) uri then target = key else c.Names uri target

/-- The node answers a reference in the document with this key. -/
def Answers (c : Compilation) (key ref : String) (id : NodeId) : Prop :=
  ∃ uri fragment target, Uri.locate (c.baseOf key) ref = .ok (uri, fragment) ∧
    c.Means key uri target ∧ c.PointsTo target fragment id

/-- The site lies inside a document or inside the value that the fragment leads to. -/
def Entered (c : Compilation) (fragment : String) (site : Site) : Prop :=
  ∃ document tokens value, Members.get? c.documents site.key = some document ∧
    (tokens = [] ∨ Pointer.split ("#" ++ fragment) = .ok tokens) ∧
    Pointer.resolve document.content tokens = .ok value ∧
    Under site.key (Pointer.ofTokens tokens) value site

theorem Entered.of_documents (h : c.Entered fragment site) (hd : c.documents = d.documents) :
    d.Entered fragment site := by
  obtain ⟨document, tokens, value, hdocument, hentry⟩ := h
  exact ⟨document, tokens, value, hd ▸ hdocument, hentry⟩

theorem Means.taken {target : String} (h : c.Means key uri target)
    (hloaded : c.Loaded options root) (hdocument : Members.get? c.documents key = some document) :
    ∃ document, Members.get? c.documents target = some document := by
  unfold Means at h
  split at h
  · exact ⟨document, h ▸ hdocument⟩
  · obtain ⟨document, hmem, -⟩ := h
    exact ⟨document, hloaded.get?_iff.mpr hmem⟩

/-! ## Later states -/

structure Before (c d : Compilation) : Prop where
  documents : c.documents <:+ d.documents
  extends_ : c.Extends d
  anchors : c.anchors <:+ d.anchors
  nodes : ∀ id < c.nodes.size, d.nodes[id]? = c.nodes[id]?

theorem Walk.loaded {sites : Site → Prop} (h : Walk sites c d) (hc : c.Loaded options root) :
    d.Loaded options root := by
  obtain ⟨hsources, honce, haliases⟩ := hc
  constructor
  · rwa [h.documents]
  · rwa [h.documents]
  · intro uri key
    rw [h.aliases, haliases, Names, Names, h.documents]

theorem Walk.before {sites : Site → Prop} (h : Walk sites c d) : c.Before d := by
  obtain ⟨added, hanchors, -⟩ := h.anchors
  exact ⟨h.documents ▸ List.suffix_rfl, h.extends, ⟨added, hanchors.symm⟩, h.nodes⟩

theorem baseOf_eq (hdocument : Members.get? c.documents key = some document) :
    c.baseOf key = document.base := by
  simp [Compilation.baseOf, hdocument]

theorem Extends.baseOf (h : c.Extends d)
    (hdocument : Members.get? c.documents key = some document) : d.baseOf key = c.baseOf key := by
  rw [baseOf_eq hdocument, baseOf_eq (h.documents _ _ hdocument)]

theorem Names.later (h : c.Names uri key) (hd : c.documents <:+ d.documents) : d.Names uri key := by
  obtain ⟨document, hmem, huri⟩ := h
  exact ⟨document, hd.subset hmem, huri⟩

theorem PointsTo.later (h : c.PointsTo key fragment id) (hd : c.Before d) :
    d.PointsTo key fragment id := by
  unfold PointsTo at h ⊢
  split at h
  case isTrue hanchor =>
    rw [if_pos hanchor]
    exact hd.anchors.subset h
  case isFalse hanchor =>
    rw [if_neg hanchor]
    obtain ⟨tokens, hsplit, hlocated⟩ := h
    exact ⟨tokens, hsplit, hd.extends_.located hlocated⟩

theorem Means.later {target : String} (h : c.Means key uri target) (hd : c.Before d)
    (hdocument : Members.get? c.documents key = some document) : d.Means key uri target := by
  unfold Means at h ⊢
  rw [hd.extends_.baseOf hdocument]
  split at h
  case isTrue hown => rwa [if_pos hown]
  case isFalse hown =>
    rw [if_neg hown]
    exact h.later hd.documents

theorem Answers.later (h : c.Answers key ref id) (hd : c.Before d)
    (hdocument : Members.get? c.documents key = some document) : d.Answers key ref id := by
  obtain ⟨uri, fragment, target, hlocate, hmeans, hpoints⟩ := h
  refine ⟨uri, fragment, target, ?_, hmeans.later hd hdocument, hpoints.later hd⟩
  rwa [hd.extends_.baseOf hdocument]

/-! ## Whole documents -/

/-- Each URI leads to one document. -/
def OneKey (c : Compilation) : Prop :=
  ∀ uri key key', c.Names uri key → c.Names uri key' → key = key'

structure Settled (options : CompileOptions) (c : Compilation) : Prop where
  rooted : ∀ key document, Members.get? c.documents key = some document → ∃ id, c.Located key "" id
  oneKey : options.Keyed → c.OneKey

theorem Settled.later (h : c.Settled options) (hdocuments : d.documents = c.documents)
    (hlocations : c.locations.toList <+: d.locations.toList) : d.Settled options where
  rooted key document hdocument := by
    obtain ⟨id, hlocated⟩ := h.rooted key document (hdocuments ▸ hdocument)
    have hextends : c.Extends d := ⟨fun _ _ hget => hdocuments ▸ hget, hlocations⟩
    exact ⟨id, hextends.located hlocated⟩
  oneKey hkeyed := by
    have hone := h.oneKey hkeyed
    unfold OneKey Names at hone ⊢
    rwa [hdocuments]

/-! ## Taking in a document -/

/-- At most one document is taken in from the registry. -/
inductive Takes (options : CompileOptions) (c : Compilation) : Compilation → Prop where
  | none : Takes options c c
  | document {key : String} {content : Json} {declared : String} {warnings : List String}
      {log : Log} (hnew : ∀ other, ¬ c.Names key other) (hkey : key ≠ "")
      (hhash : '#' ∉ key.toList) (hcontent : options.registry.get? key = some content)
      (hdeclared : declaredBase key content = .ok declared) (haccepts : Accepts options content) :
      Takes options c (c.taken key content declared warnings log)

theorem Takes.loaded (h : Takes options c c₁) (hc : c.Loaded options root) :
    c₁.Loaded options root := by
  cases h with
  | none => exact hc
  | document hnew hkey hhash hcontent hdeclared haccepts =>
    refine hc.taken (hnew _) ?_ hhash hdeclared haccepts
    rw [CompileOptions.source?, if_neg hkey, hcontent]

theorem Takes.before (h : Takes options c c₁) : c.Before c₁ := by
  cases h with
  | none => exact ⟨List.suffix_rfl, Extends.refl c, List.suffix_rfl, fun _ _ => rfl⟩
  | @document key content declared warnings log hnew =>
    refine ⟨List.suffix_cons .., extends_taken ?_, List.suffix_rfl, fun _ _ => rfl⟩
    rw [Members.get?_eq_none_iff]
    intro hmem
    obtain ⟨⟨key', document⟩, hentry, rfl⟩ := List.mem_map.mp hmem
    exact hnew _ ⟨document, hentry, .inl rfl⟩

theorem Takes.aligned (h : Takes options c c₁) (hc : c.Aligned) : c₁.Aligned := by
  cases h with
  | none => exact hc
  | document => exact ⟨hc.size, hc.nodup⟩

theorem Takes.oneKey (h : Takes options c c₁) (hkeyed : options.Keyed) (hc : c.OneKey) :
    c₁.OneKey := by
  cases h with
  | none => exact hc
  | @document taken content declared warnings log hnew _ _ hcontent hdeclared _ =>
    have hbase := hkeyed taken content declared hcontent hdeclared
    have hnames : ∀ uri key, (c.taken taken content declared warnings log).Names uri key →
        c.Names uri key ∨ uri = taken ∧ key = taken := by
      rintro uri key ⟨document, hmem, huri⟩
      rcases List.mem_cons.mp hmem with heq | hmem
      · cases heq
        rw [hbase, or_self] at huri
        exact .inr ⟨huri, rfl⟩
      · exact .inl ⟨document, hmem, huri⟩
    intro uri key key' h h'
    rcases hnames uri key h with hold | ⟨rfl, rfl⟩ <;>
      rcases hnames _ key' h' with hold' | ⟨huri, rfl⟩
    · exact hc uri key key' hold hold'
    · exact absurd (huri ▸ hold) (hnew key)
    · exact absurd hold' (hnew key')
    · rfl

theorem Takes.same (h : Takes options c c₁) : c₁.nodes = c.nodes ∧ c₁.anchors = c.anchors ∧
    c₁.pending = c.pending ∧ c₁.targets = c.targets := by
  cases h <;> exact ⟨rfl, rfl, rfl, rfl⟩

end Compilation

namespace CompileM

open Compilation

variable {options : CompileOptions} {root : Json} {c c' : Compilation}
  {key ref uri fragment : String} {id : NodeId} {document : SourceDocument}

/-! ## Entries of a walk -/

theorem compileEntry_visits (key pointer : String) (value : Json) :
    VisitsPlace (compileEntry options key pointer value) key pointer value :=
  compileNode_visits ..

theorem stands_root (hdocument : Members.get? c.documents key = some document) :
    c.Stands key "" document.content :=
  ⟨document, [], hdocument, rfl, .root⟩

theorem contentOf_eq (hdocument : Members.get? c.documents key = some document) :
    c.contentOf key = document.content := by
  simp [Compilation.contentOf, hdocument]

theorem compileRoot_ok (hc : c.Aligned)
    (hdocument : Members.get? c.documents key = some document)
    (h : Runs (compileRoot options key) c (.ok id) c') :
    Walk (Under key "" document.content) c c' ∧ c'.Located key "" id ∧ id ≤ c.nodes.size := by
  replace h := runs_get_bind.mp h
  split at h
  case h_1 found hfound =>
    obtain ⟨hok, rfl⟩ := runs_pure.mp h
    cases hok
    have hlocated := located_of_nodeAt? hfound
    exact ⟨Walk.refl hc, hlocated, Nat.le_of_lt (hc.size ▸ hlocated.lt)⟩
  case h_2 =>
    simp only [contentOf_eq hdocument] at h
    split at h
    · exact (compileEntry_visits ..).ok h hc (stands_root hdocument)
    · exact nomatch (runs_throw.mp h).1

/-! ## Documents of references -/

theorem takeDocument_ok {target : String} (hloaded : c.Loaded options root) (huri : uri ≠ "")
    (hhash : '#' ∉ uri.toList) (h : Runs (takeDocument options ref key uri) c (.ok target) c') :
    Takes options c c' ∧ c'.Names uri target ∧ ∀ key document,
      Members.get? c'.documents key = some document →
        key = target ∨ Members.get? c.documents key = some document := by
  replace h := runs_get_bind.mp h
  split at h
  case h_1 found hfound =>
    obtain ⟨hok, rfl⟩ := runs_pure.mp h
    cases hok
    exact ⟨.none, (hloaded.aliases _ _).mp (Members.mem_of_get? hfound), fun _ _ => .inr⟩
  case h_2 content hnone hcontent =>
    obtain ⟨_, c₁, hadd, h⟩ := runs_bind_ok.mp h
    obtain ⟨declared, warnings, log, hdeclared, haccepts, rfl⟩ := addDocument_ok hadd
    obtain ⟨hok, rfl⟩ := runs_pure.mp h
    cases hok
    have hnew : ∀ other, ¬ c.Names uri other := by
      intro other
      rw [← hloaded.aliases]
      intro hmem
      exact Members.get?_eq_none_iff.mp hnone (List.mem_map.mpr ⟨_, hmem, rfl⟩)
    refine ⟨.document hnew huri hhash hcontent hdeclared haccepts,
      ⟨_, List.mem_cons_self, .inl rfl⟩, fun key document hdocument => ?_⟩
    by_cases hkey : key = uri
    · exact .inl hkey
    · rw [get?_taken, if_neg hkey] at hdocument
      exact .inr hdocument
  case h_3 => exact nomatch (runs_throw.mp h).1

theorem targetDocument_ok {base target : String} (fragment : String) (hc : c.Aligned)
    (hloaded : c.Loaded options root) (hhash : '#' ∉ uri.toList)
    (h : Runs (targetDocument options ref key base uri) c (.ok target) c') :
    ∃ c₁, Takes options c c₁ ∧ Walk (c₁.Entered fragment) c₁ c' ∧
      (if isOwnUri base uri then target = key else c'.Names uri target) ∧
      (c.Settled options → c'.Settled options) := by
  unfold targetDocument at h
  split at h
  case isTrue hown =>
    obtain ⟨hok, rfl⟩ := runs_pure.mp h
    cases hok
    exact ⟨c, .none, Walk.refl hc, by rw [if_pos hown], fun h => h⟩
  case isFalse hown =>
    have huri : uri ≠ "" := by
      rintro rfl
      exact hown rfl
    obtain ⟨found, c₁, htake, h⟩ := runs_bind_ok.mp h
    obtain ⟨htakes, hnames, hnew⟩ := takeDocument_ok hloaded huri hhash htake
    obtain ⟨node, c₂, hroot, h⟩ := runs_bind_ok.mp h
    obtain ⟨hok, rfl⟩ := runs_pure.mp h
    cases hok
    obtain ⟨document, hmem, huri⟩ := hnames
    have hdocument := (htakes.loaded hloaded).get?_iff.mpr hmem
    obtain ⟨hwalk, hlocated, -⟩ := compileRoot_ok (htakes.aligned hc) hdocument hroot
    refine ⟨c₁, htakes, hwalk.mono ?_, ?_, fun hsettled => ⟨fun key' document' hdocument' => ?_,
      fun hkeyed => ?_⟩⟩
    · rintro site ⟨hkey, hunder⟩
      exact ⟨document, [], document.content, hkey ▸ hdocument, .inl rfl, rfl, rfl, hunder⟩
    · rw [if_neg hown]
      exact ⟨document, hwalk.documents ▸ hmem, huri⟩
    · rcases hnew key' document' (hwalk.documents ▸ hdocument') with rfl | hold
      · exact ⟨node, hlocated⟩
      · obtain ⟨id, hlocated⟩ := hsettled.rooted key' document' hold
        exact ⟨id, hwalk.extends.located (htakes.before.extends_.located hlocated)⟩
    · have hone := htakes.oneKey hkeyed (hsettled.oneKey hkeyed)
      unfold OneKey Names at hone ⊢
      rwa [hwalk.documents]

/-! ## Nodes of references -/

theorem anchorTarget_ok {name : String} (h : Runs (anchorTarget ref key name) c (.ok id) c') :
    c = c' ∧ ((key, name), id) ∈ c.anchors := by
  replace h := runs_get_bind.mp h
  split at h
  case h_1 found hfound =>
    obtain ⟨hok, rfl⟩ := runs_pure.mp h
    cases hok
    obtain ⟨before, after, heq, -⟩ := List.lookup_eq_some_iff.mp hfound
    exact ⟨rfl, by rw [heq]; simp⟩
  case h_2 => exact nomatch (runs_throw.mp h).1

theorem compileTarget_ok {pointer : String} {target : Json} (hc : c.Aligned)
    (hstands : c.Stands key pointer target)
    (h : Runs (compileTarget options ref key pointer target) c (.ok id) c') :
    Walk (Under key pointer target) c c' ∧ c'.Located key pointer id := by
  unfold compileTarget at h
  split at h
  case isTrue =>
    replace h := runs_modify_bind.mp h
    have hsilent : Walk (Under key pointer target) c _ :=
      Walk.silent hc c.warnings (c.log ++ [compilerRecord LogLevel.debug
        ("Compiling $ref target on demand: " ++ locationOf key pointer)])
    obtain ⟨hwalk, hlocated, -⟩ := (compileEntry_visits ..).ok h hsilent.aligned hstands
    exact ⟨hsilent.trans hc hwalk, hlocated⟩
  case isFalse => exact nomatch (runs_throw.mp h).1

theorem pointerTarget_ok (hc : c.Aligned)
    (hdocument : Members.get? c.documents key = some document)
    (h : Runs (pointerTarget options ref key fragment) c (.ok id) c') :
    Walk (c.Entered fragment) c c' ∧ ∃ tokens, Pointer.split ("#" ++ fragment) = .ok tokens ∧
      c'.Located key (Pointer.ofTokens tokens) id := by
  obtain ⟨tokens, c₁, hlift, h⟩ := runs_bind_ok.mp h
  obtain ⟨hsplit, rfl⟩ := runs_lift_ok.mp hlift
  replace h := runs_get_bind.mp h
  split at h
  case h_1 found hfound =>
    obtain ⟨hok, rfl⟩ := runs_pure.mp h
    cases hok
    exact ⟨Walk.refl hc, tokens, hsplit, located_of_nodeAt? hfound⟩
  case h_2 =>
    rw [contentOf_eq hdocument] at h
    obtain ⟨target, c₁, hlift, h⟩ := runs_bind_ok.mp h
    obtain ⟨hresolve, rfl⟩ := runs_lift_ok.mp hlift
    have hstands : c.Stands key (Pointer.ofTokens tokens) target :=
      ⟨document, tokens, hdocument, rfl, Pointer.resolve_at hresolve⟩
    obtain ⟨hwalk, hlocated⟩ := compileTarget_ok hc hstands h
    refine ⟨hwalk.mono ?_, tokens, hsplit, hlocated⟩
    rintro site ⟨hkey, hunder⟩
    exact ⟨document, tokens, target, hkey ▸ hdocument, .inr hsplit, hresolve, rfl, hunder⟩

/-- A reference that resolves is answered, after at most one document and two walks. -/
theorem resolveRef_ok (hc : c.Aligned) (hloaded : c.Loaded options root)
    (hdocument : Members.get? c.documents key = some document)
    (h : Runs (resolveRef options ref key) c (.ok id) c') :
    ∃ uri fragment c₁, Uri.locate (c.baseOf key) ref = .ok (uri, fragment) ∧
      Takes options c c₁ ∧ Walk (c₁.Entered fragment) c₁ c' ∧ c'.Answers key ref id ∧
      (c.Settled options → c'.Settled options) := by
  replace h := runs_get_bind.mp h
  obtain ⟨⟨uri, fragment⟩, c₁, hlift, h⟩ := runs_bind_ok.mp h
  obtain ⟨hlocate, rfl⟩ := runs_lift_ok.mp hlift
  obtain ⟨target, c₁, htarget, h⟩ := runs_bind_ok.mp h
  obtain ⟨c₂, htakes, hwalk, hmeans, hsettled⟩ :=
    targetDocument_ok fragment hc hloaded (Uri.hash_notMem_of_locate hlocate) htarget
  have hextends := htakes.before.extends_.trans hwalk.extends
  -- The answer is about the last state, where the base is what it was at the start.
  rw [← hextends.baseOf hdocument] at hlocate hmeans
  replace hmeans : c₁.Means key uri target := hmeans
  refine ⟨uri, fragment, c₂, hextends.baseOf hdocument ▸ hlocate, htakes, ?_⟩
  split at h
  case isTrue hanchor =>
    obtain ⟨rfl, hmem⟩ := anchorTarget_ok h
    exact ⟨hwalk, ⟨uri, fragment, target, hlocate, hmeans, by rwa [PointsTo, if_pos hanchor]⟩,
      hsettled⟩
  case isFalse hanchor =>
    obtain ⟨document', hdocument'⟩ : ∃ document, Members.get? c₁.documents target = some document :=
      hmeans.taken (hwalk.loaded (htakes.loaded hloaded)) (hextends.documents _ _ hdocument)
    obtain ⟨hwalk', hpoints⟩ := pointerTarget_ok hwalk.aligned hdocument' h
    refine ⟨hwalk.trans (htakes.aligned hc) (hwalk'.mono fun site hsite => ?_), ⟨uri, fragment,
      target, ?_, hmeans.later hwalk'.before (hextends.documents _ _ hdocument), ?_⟩,
      fun h => (hsettled h).later hwalk'.documents hwalk'.locations⟩
    · exact hsite.of_documents hwalk.documents
    · rwa [hwalk'.extends.baseOf (hextends.documents _ _ hdocument)]
    · rwa [PointsTo, if_neg hanchor]

end CompileM

end JsonSchema
