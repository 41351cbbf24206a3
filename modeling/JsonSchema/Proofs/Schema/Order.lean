import JsonSchema.Proofs.Schema.Replay
import JsonSchema.Proofs.Schema.WellFormed

/-!
# The order of members is not observable

Two documents that differ in the order of members compile both or not at all, to nodes at the same
locations, and references have their targets at the same locations.
-/

namespace JsonSchema

open CompileM

def CompiledSchema.targetAt? (schema : CompiledSchema) (location : String) : Option String := do
  let id ← schema.locations.idxOf? location
  let node ← schema.node? id
  let target ← node.refTarget
  schema.locations[target]?

theorem CompiledSchema.targetAt?_eq_none {schema : CompiledSchema} {location : String}
    (h : location ∉ schema.locations.toList) : schema.targetAt? location = none := by
  have hnone : schema.locations.idxOf? location = none := by
    rw [Array.idxOf?_eq_none_iff]
    simpa using h
  rw [targetAt?, hnone]
  rfl

namespace Compilation

variable {options : CompileOptions} {root root' : Json} {c d : Compilation} {id s t : NodeId}
  {site : Site} {value : Json} {node : SchemaNode} {key ref uri fragment : String}

/-! ## Targets -/

theorem Finished.targetAt?_eq (h : Finished options root c) (hbuilt : c.Built id site value node) :
    c.freeze.targetAt? site.location =
      (c.targets.lookup id).bind fun target => c.locations[target]? := by
  have hid : c.freeze.locations.idxOf? site.location = some id :=
    (idxOf?_eq_some_iff_of_nodup h.sound.aligned.nodup).mpr hbuilt.nodeOf.located
  rw [CompiledSchema.targetAt?, hid, Option.bind_eq_bind, Option.bind_some, h.node?_of_built hbuilt]
  rfl

theorem Follows.names (h : d.Follows c) (hd : d.Loaded options root') (hnames : d.Names uri key) :
    c.Names uri key := by
  obtain ⟨twin, hmem, hby⟩ := hnames
  obtain ⟨document, hdocument, hsame⟩ := h.documents _ twin (hd.get?_iff.mpr hmem)
  exact ⟨document, Members.mem_of_get? hdocument, hsame.base ▸ hby⟩

section

variable (hc : Finished options root c) (horderly : options.Orderly root)
  (hd : Finished options root' d) (horderly' : options.Orderly root') (h : d.Follows c)

include hc horderly hd horderly' h

theorem Follows.pointsTo (hs : c.PointsTo key fragment s) (ht : d.PointsTo key fragment t) :
    ∃ pointer, c.Located key pointer s ∧ d.Located key pointer t := by
  unfold PointsTo at hs ht
  split at hs
  case isTrue hanchor =>
    rw [if_pos hanchor] at ht
    obtain ⟨document, tokens, value, hdocument, hlocated, hwalked, hname⟩ :=
      hc.sound.walked_of_anchor horderly hs
    obtain ⟨twin, tokens', value', htwin, hlocated', hwalked', hname'⟩ :=
      hd.sound.walked_of_anchor horderly' ht
    obtain ⟨found, hfound, hsame⟩ := h.documents _ twin htwin
    obtain rfl := Option.some.inj (hdocument.symm.trans hfound)
    obtain ⟨other, hother, hvalue⟩ :=
      hwalked'.reordered hsame.content.symm hsame.declaration.symm
    have hsource := hc.sound.loaded.source hdocument
    obtain rfl := (hsource.orderly horderly).once tokens tokens' value other fragment hwalked.leads
      hother.leads hname (anchorNames_eq hvalue ▸ hname')
    exact ⟨_, hlocated, hlocated'⟩
  case isFalse hanchor =>
    rw [if_neg hanchor] at ht
    obtain ⟨tokens, hsplit, hlocated⟩ := hs
    obtain ⟨tokens', hsplit', hlocated'⟩ := ht
    obtain rfl := Except.ok.inj (hsplit.symm.trans hsplit')
    exact ⟨_, hlocated, hlocated'⟩

theorem Follows.answers {twin : SourceDocument}
    (hdocument : Members.get? d.documents key = some twin) (hs : c.Answers key ref s)
    (ht : d.Answers key ref t) : c.locations[s]? = d.locations[t]? := by
  obtain ⟨document, hfound, hsame⟩ := h.documents _ twin hdocument
  have hbase : d.baseOf key = c.baseOf key := by
    rw [baseOf_eq hdocument, baseOf_eq hfound, hsame.base]
  obtain ⟨uri, fragment, target, hlocate, hmeans, hpoints⟩ := hs
  obtain ⟨uri', fragment', target', hlocate', hmeans', hpoints'⟩ := ht
  rw [hbase] at hlocate'
  obtain ⟨rfl, rfl⟩ := Prod.mk.inj (Except.ok.inj (hlocate.symm.trans hlocate'))
  obtain rfl : target = target' := by
    rw [Means] at hmeans hmeans'
    rw [hbase] at hmeans'
    split at hmeans
    case isTrue hown =>
      rw [if_pos hown] at hmeans'
      exact hmeans.trans hmeans'.symm
    case isFalse hown =>
      rw [if_neg hown] at hmeans'
      exact hc.settled.oneKey horderly.keyed uri _ _ hmeans (h.names hd.sound.loaded hmeans')
  obtain ⟨pointer, hlocated, hlocated'⟩ := h.pointsTo hc horderly hd horderly' hpoints hpoints'
  exact hlocated.trans hlocated'.symm

theorem Follows.targetAt?_eq {location : String} (hmem : location ∈ d.locations.toList) :
    c.freeze.targetAt? location = d.freeze.targetAt? location := by
  obtain ⟨id, hid⟩ := List.mem_iff_getElem?.mp hmem
  rw [Array.getElem?_toList] at hid
  have hlt := (Array.getElem?_eq_some_iff.mp hid).1
  rw [hd.sound.aligned.size] at hlt
  obtain ⟨site, value, node, hbuilt, -⟩ := hd.sound.built id hlt
  obtain rfl : location = site.location := Option.some.inj (hid.symm.trans hbuilt.nodeOf.located)
  obtain ⟨id', site', value', node', hbuilt', hkey, hpointer, hvalue⟩ :=
    h.built hc.sound horderly hd.sound hbuilt
  have hlocation : site.location = site'.location := by
    rw [Site.location, Site.location, hkey, hpointer]
  have href := hbuilt'.ref_reordered hbuilt hvalue
  rw [hd.targetAt?_eq hbuilt, hlocation, hc.targetAt?_eq hbuilt']
  cases hnone : node.ref with
  | none => rw [hc.lookup_of_none hbuilt' (href.trans hnone), hd.lookup_of_none hbuilt hnone]; rfl
  | some ref =>
    obtain ⟨s, hs, hanswers⟩ := hc.lookup_of_ref hbuilt' (href.trans hnone)
    obtain ⟨t, ht, hanswers'⟩ := hd.lookup_of_ref hbuilt hnone
    obtain ⟨twin, htwin, -⟩ := hbuilt.declaration
    rw [hkey] at hanswers
    rw [hs, ht, Option.bind_some, Option.bind_some]
    exact h.answers hc horderly hd horderly' htwin hanswers hanswers'

end

end Compilation

/-! ## Outcomes -/

section

open Compilation

variable {options : CompileOptions} {root root' : Json} {schema schema' : CompiledSchema}

/-- What compiles in one order compiles in the other one, and has no more locations then. -/
theorem compiles_reordered (hroot : root.Reordered root') (horderly : options.Orderly root)
    (h : (runCompile options root).result = .ok schema) :
    ∃ schema', (runCompile options root').result = .ok schema' ∧
      schema'.locations.toList ⊆ schema.locations.toList ∧
      ∀ location ∈ schema'.locations.toList,
        schema.targetAt? location = schema'.targetAt? location := by
  obtain ⟨c, hc, rfl⟩ := finished_of_result h
  obtain ⟨schema', d, hrun, hfollows⟩ := compileDocument_completes hc horderly hroot
  obtain ⟨hsound, hpending, rfl, hlocated, hsettled⟩ := compileDocument_sound hrun
  have hd : Finished options root' d := ⟨hsound, hpending, hlocated, hsettled⟩
  refine ⟨d.freeze, congrArg Prod.fst hrun, hfollows.locations, fun location hmem => ?_⟩
  exact hfollows.targetAt?_eq hc horderly hd (horderly.reordered hroot) hmem

/--
Documents that differ in no more than the order of members compile both or not at all, to nodes at
the same locations, and each reference has its target at the same location.
-/
theorem compile_ignores_order (hroot : root.Reordered root') (horderly : options.Orderly root) :
    ((∃ schema, (runCompile options root).result = .ok schema) ↔
      ∃ schema, (runCompile options root').result = .ok schema) ∧
    ∀ schema schema', (runCompile options root).result = .ok schema →
      (runCompile options root').result = .ok schema' →
      schema.locations.toList.Perm schema'.locations.toList ∧
        ∀ location, schema.targetAt? location = schema'.targetAt? location := by
  have horderly' := horderly.reordered hroot
  refine ⟨⟨?_, ?_⟩, fun schema schema' h h' => ?_⟩
  · rintro ⟨schema, h⟩
    obtain ⟨schema', h', -⟩ := compiles_reordered hroot horderly h
    exact ⟨schema', h'⟩
  · rintro ⟨schema, h⟩
    obtain ⟨schema', h', -⟩ := compiles_reordered hroot.symm horderly' h
    exact ⟨schema', h'⟩
  · obtain ⟨found, hfound, hsubset, htargets⟩ := compiles_reordered hroot horderly h
    obtain rfl := Except.ok.inj (h'.symm.trans hfound)
    obtain ⟨found, hfound, hsubset', -⟩ := compiles_reordered hroot.symm horderly' h'
    obtain rfl := Except.ok.inj (h.symm.trans hfound)
    obtain ⟨c, hc, rfl⟩ := finished_of_result h
    obtain ⟨d, hd, rfl⟩ := finished_of_result h'
    have hperm := (List.perm_ext_iff_of_nodup hc.sound.aligned.nodup hd.sound.aligned.nodup).mpr
      fun location => ⟨fun hmem => hsubset' hmem, fun hmem => hsubset hmem⟩
    refine ⟨hperm, fun location => ?_⟩
    by_cases hmem : location ∈ d.locations.toList
    · exact htargets location hmem
    · rw [CompiledSchema.targetAt?_eq_none fun h => hmem (hsubset' h),
        CompiledSchema.targetAt?_eq_none hmem]

/-- An anchor that no walk from the root comes by is there only once a pointer has led to it. -/
example :
    let byPointer := ("p", Json.obj [("$ref", .str "#/x")])
    let byName := ("q", Json.obj [("$ref", .str "#foo")])
    let compiles references := (runCompile ⟨10, false, []⟩ (.obj [("properties", .obj references),
      ("x", .obj [("$anchor", .str "foo")])])).result.isOk
    compiles [byPointer, byName] = true ∧ compiles [byName, byPointer] = false := by
  decide +kernel

end

/-! ## An orderly document -/

def Json.everywhere (v : Json) (check : List String → Json → Bool) : Bool :=
  v.paths.all fun tokens => (v.walk? tokens).all (check tokens)

theorem Json.Leads.check {v value : Json} {tokens : List String} {check : List String → Json → Bool}
    (h : v.Leads tokens value) (hv : v.isWellFormed = true) (hcheck : v.everywhere check = true) :
    check tokens value = true := by
  have hplace := List.all_eq_true.mp hcheck tokens h.mem_paths
  rwa [h.at.walk? hv, Option.all_some] at hplace

def Json.isNumber : Json → Bool
  | .num _ => true
  | _ => false

theorem Json.reordered_of_same {v w : Json} (hv : v.isWellFormed = true)
    (hw : w.isWellFormed = true) (hsame : v.same w = true)
    (hnumbers : v.everywhere (fun _ value => !isNumber value) = true) : v.Reordered w where
  left := hv
  right := hw
  same := hsame
  numbers _ _ _ ha _ := by
    have hnot := ha.check hv hnumbers
    simp [isNumber] at hnot

/-- Three references: to a place, to an anchor and to another document. -/
def anchored : Json :=
  .obj [
    ("properties", .obj [
      ("p", .obj [("$ref", .str "#/$defs/x")]),
      ("q", .obj [("$ref", .str "#foo")]),
      ("r", .obj [("$ref", .str "http://x/a")])]),
    ("$defs", .obj [("x", .obj [("$anchor", .str "foo")])])]

def anchoredBackwards : Json :=
  .obj [
    ("$defs", .obj [("x", .obj [("$anchor", .str "foo")])]),
    ("properties", .obj [
      ("r", .obj [("$ref", .str "http://x/a")]),
      ("q", .obj [("$ref", .str "#foo")]),
      ("p", .obj [("$ref", .str "#/$defs/x")])])]

def anchoredOptions : CompileOptions where
  maxDepth := 10
  strict := false
  registry := [("http://x/a", .bool true)]

/-- No array, not nested too deep, and without an anchor unless it is at this place. -/
def Json.isPlain (options : CompileOptions) (anchor tokens : List String) : Json → Bool
  | .arr _ => false
  | value => decide ((tokens.length : Int) ≤ options.maxDepth) &&
    (value.anchorNames.isEmpty || tokens == anchor)

theorem Json.orderly_of_plain {options : CompileOptions} {v value : Json} {anchor : List String}
    (hv : v.isWellFormed = true)
    (hwalked : v.Walked (DraftDeclaration.ofJson? (v.member? "$schema")) anchor value)
    (hplain : v.everywhere (isPlain options anchor) = true) : v.Orderly options := by
  have hplace : ∀ {tokens value}, v.Leads tokens value → value.anchorNames ≠ [] →
      tokens = anchor := by
    intro tokens value h hne
    have := h.check hv hplain
    unfold isPlain at this
    split at this
    · cases this
    · simp only [Bool.and_eq_true, Bool.or_eq_true, List.isEmpty_iff, hne, false_or,
        beq_iff_eq] at this
      exact this.2
  constructor
  case wellFormed => exact hv
  case nesting =>
    intro tokens value h
    have := h.check hv hplain
    unfold isPlain at this
    split at this
    · cases this
    · simp only [Bool.and_eq_true, decide_eq_true_eq] at this
      exact this.1
  case indices =>
    intro tokens items h
    exact nomatch h.check hv hplain
  case walked =>
    intro tokens value' h hne
    obtain rfl := hplace h hne
    exact hwalked.leads.at.unique hv h.at ▸ hwalked
  case once =>
    intro tokens tokens' value value' name h h' hname hname'
    rw [hplace h (List.ne_nil_of_mem hname), hplace h' (List.ne_nil_of_mem hname')]

theorem anchored_walked : anchored.Walked (DraftDeclaration.ofJson? (anchored.member? "$schema"))
    ["$defs", "x"] (.obj [("$anchor", .str "foo")]) :=
  Json.Walked.root.child (.member (by simp) rfl List.mem_cons_self)

theorem anchored_source {key : String} {content : Json}
    (h : anchoredOptions.source? anchored key = some content) :
    content = anchored ∨ content = .bool true := by
  unfold CompileOptions.source? at h
  split at h
  case isTrue => exact .inl (Option.some.inj h).symm
  case isFalse =>
    have hmem := Members.mem_of_get? h
    exact .inr (Prod.mk.inj (List.mem_singleton.mp hmem)).2

theorem anchored_orderly : anchoredOptions.Orderly anchored where
  documents key content hcontent := by
    rcases anchored_source hcontent with rfl | rfl
    · exact Json.orderly_of_plain (by decide +kernel) anchored_walked (by decide +kernel)
    · exact Json.orderly_of_plain (by decide +kernel) .root (by decide +kernel)
  keyed key content declared hcontent hdeclared := by
    obtain ⟨rfl, rfl⟩ := Prod.mk.inj (List.mem_singleton.mp (Members.mem_of_get? hcontent))
    cases hdeclared
    rfl
  pointers key content hcontent tokens htokens value hvalue := by
    have hentries : (anchoredOptions.entries anchored).all
        (fun tokens => tokens == [] || tokens == ["$defs", "x"]) = true := by decide +kernel
    have hcases := List.all_eq_true.mp hentries tokens htokens
    simp only [Bool.or_eq_true, beq_iff_eq] at hcases
    rcases hcases with rfl | rfl
    · cases hvalue
      exact .root
    · rcases anchored_source hcontent with rfl | rfl
      · have hleads := anchored_walked.leads
        exact (Pointer.resolve_at hvalue).unique (by decide +kernel) hleads.at ▸ hleads
      · cases hvalue

/-- The two orders give nodes in different orders, with the same targets. -/
theorem anchored_in_both_orders : ∃ schema schema',
    (runCompile anchoredOptions anchored).result = .ok schema ∧
    (runCompile anchoredOptions anchoredBackwards).result = .ok schema' ∧
    schema.locations ≠ schema'.locations ∧
    schema.locations.toList.Perm schema'.locations.toList ∧
    ∀ location, schema.targetAt? location = schema'.targetAt? location := by
  have hsame : anchored.Reordered anchoredBackwards :=
    Json.reordered_of_same (by decide +kernel) (by decide +kernel) (by decide +kernel)
      (by decide +kernel)
  have hrun : ((runCompile anchoredOptions anchored).result.toOption.bind fun schema =>
      (runCompile anchoredOptions anchoredBackwards).result.toOption.map fun schema' =>
        schema.locations != schema'.locations) = some true := by decide +kernel
  simp only [Option.bind_eq_some_iff, Option.map_eq_some_iff, Except.toOption_eq_some,
    bne_iff_ne] at hrun
  obtain ⟨schema, h, schema', h', hne⟩ := hrun
  obtain ⟨hperm, htargets⟩ := (compile_ignores_order hsame anchored_orderly).2 schema schema' h h'
  exact ⟨schema, schema', h, h', hne, hperm, htargets⟩

end JsonSchema
