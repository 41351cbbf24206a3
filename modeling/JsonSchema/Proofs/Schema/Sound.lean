import JsonSchema.Proofs.Schema.Limit
import JsonSchema.Proofs.Schema.Resolve
import Mathlib.Data.List.Perm.Subperm

/-!
# What holds between the references

Between two references every node is finished, and every node with a reference either waits or has
its answer. A resolved reference keeps this, so it holds at the end, where none waits any more.
-/

namespace JsonSchema

open CompileM

namespace Compilation

variable {options : CompileOptions} {root : Json} {c c' d : Compilation} {id : NodeId}
  {site : Site} {value : Json} {node : SchemaNode} {key ref uri fragment : String}
  {document : SourceDocument} {first : PendingRef} {rest : List PendingRef}

/-! ## Where walks start -/

/-- The site lies under a place that a walk may start at. -/
def Traced (options : CompileOptions) (root : Json) (site : Site) : Prop :=
  ∃ content tokens value, options.source? root site.key = some content ∧
    tokens ∈ options.entries root ∧ Pointer.resolve content tokens = .ok value ∧
    Under site.key (Pointer.ofTokens tokens) value site

theorem mem_sources {content : Json} (h : options.source? root key = some content) :
    (key, content) ∈ options.sources root := by
  unfold CompileOptions.source? at h
  split at h
  case isTrue hkey =>
    rw [hkey, ← Option.some.inj h]
    exact List.mem_cons_self
  case isFalse => exact List.mem_cons_of_mem _ (Members.mem_of_get? h)

theorem Source.mem_entries {tokens : List String} (h : Source options root key document)
    (href : ref ∈ document.content.strings)
    (hlocate : Uri.locate document.base ref = .ok (uri, fragment))
    (hsplit : Pointer.split ("#" ++ fragment) = .ok tokens) : tokens ∈ options.entries root := by
  obtain ⟨declared, hdeclared, hbase⟩ := h.base
  refine List.mem_cons_of_mem _ (List.mem_flatMap.mpr ⟨_, mem_sources h.content, ?_⟩)
  refine List.mem_filterMap.mpr ⟨ref, href, ?_⟩
  rw [hbase] at hlocate
  simp [CompileOptions.pointerOf, hdeclared, hlocate, hsplit, Except.toOption]

theorem Built.ref_eq (h : c.Built id site value node) (href : node.ref = some ref) :
    ∃ schema, value = .obj schema ∧ Members.get? schema "$ref" = some (.str ref) := by
  have hreading := h.reading c (Extends.refl c)
  cases value with
  | bool b =>
    rw [show node = _ from hreading] at href
    cases href
  | obj schema =>
    have hread := SchemaReading.ref hreading
    rw [href] at hread
    unfold readRef at hread
    split at hread
    case h_1 => cases hread
    case h_2 found hget =>
      cases hread
      exact ⟨schema, rfl, hget⟩
    case h_3 => cases hread
  | _ => exact hreading.elim

theorem Built.ref_mem (h : c.Built id site value node) (href : node.ref = some ref) :
    ∃ document, Members.get? c.documents site.key = some document ∧
      ref ∈ document.content.strings := by
  obtain ⟨document, tokens, hdocument, -, hat⟩ := h.nodeOf.stands
  obtain ⟨schema, rfl, hget⟩ := h.ref_eq href
  refine ⟨document, hdocument, hat.strings_subset ?_⟩
  exact Json.mem_memberStrings (Members.mem_of_get? hget) (by simp [Json.strings])

theorem Entered.traced (h : c.Entered fragment site) (hc : c.Loaded options root)
    (hdocument : Members.get? c.documents key = some document)
    (href : ref ∈ document.content.strings)
    (hlocate : Uri.locate document.base ref = .ok (uri, fragment)) : Traced options root site := by
  obtain ⟨target, tokens, value, htarget, htokens, hresolve, hunder⟩ := h
  refine ⟨target.content, tokens, value, ?_, ?_, hresolve, hunder⟩
  · exact (hc.source htarget).content
  · rcases htokens with rfl | hsplit
    · exact List.mem_cons_self
    · exact (hc.source hdocument).mem_entries href hlocate hsplit

theorem Traced.mem_allLocations (h : Traced options root site) :
    site.location ∈ options.allLocations root := by
  obtain ⟨content, tokens, value, hcontent, htokens, hresolve, -, more, inner, hmore, hpointer⟩ := h
  refine List.mem_flatMap.mpr ⟨_, mem_sources hcontent, List.mem_flatMap.mpr ⟨tokens, htokens, ?_⟩⟩
  rw [CompileOptions.locationsFrom, hresolve]
  refine List.mem_map.mpr ⟨more, hmore.mem_paths, ?_⟩
  rw [Site.location, hpointer, Pointer.join_ofTokens]

/-! ## Between two references -/

/--
While the references in `current` are being resolved: every node is finished and its anchors are
declared, and every node with a reference either waits or has its answer.
-/
structure Sound (options : CompileOptions) (root : Json) (current : List PendingRef)
    (c : Compilation) : Prop where
  aligned : c.Aligned
  loaded : c.Loaded options root
  built : ∀ id < c.nodes.size, ∃ site value node, c.Built id site value node ∧
    Traced options root site ∧ (∀ ref ∈ node.ref, ⟨id, ref, site.key⟩ ∈ current ++ c.pending ∨
      ∃ target, (id, target) ∈ c.targets ∧ c.Answers site.key ref target) ∧
    ∀ name ∈ value.anchorNames, ((site.key, name), id) ∈ c.anchors
  anchors : ∀ entry ∈ c.anchors, c.Declares entry.1.1 entry.1.2 entry.2
  awaits : ∀ p ∈ current ++ c.pending, c.Awaits p
  answered : ∀ entry ∈ c.targets, ∃ ref key, c.Awaits ⟨entry.1, ref, key⟩
  once : (c.targets.map (·.1) ++ (current ++ c.pending).map (·.node)).Nodup

variable {current : List PendingRef}

theorem Sound.size_le (h : Sound options root current c) : c.nodes.size ≤ refLimit options root := by
  have hsubset : c.locations.toList ⊆ options.allLocations root := by
    intro location hmem
    obtain ⟨id, hid, rfl⟩ := List.mem_iff_getElem.mp hmem
    rw [Array.length_toList, h.aligned.size] at hid
    obtain ⟨site, value, node, hbuilt, htraced, -⟩ := h.built id hid
    have hlocated := hbuilt.nodeOf.located
    rw [Located, ← Array.getElem?_toList] at hlocated
    obtain ⟨_, heq⟩ := List.getElem?_eq_some_iff.mp hlocated
    rw [heq]
    exact htraced.mem_allLocations
  have hlength := (List.subperm_of_subset h.aligned.nodup hsubset).length_le
  rw [Array.length_toList, h.aligned.size] at hlength
  exact Nat.le_trans hlength CompileOptions.length_allLocations_le

theorem Sound.lt_size (h : Sound options root current c)
    (hid : id ∈ c.targets.map (·.1) ++ (current ++ c.pending).map (·.node)) : id < c.nodes.size := by
  rcases List.mem_append.mp hid with hid | hid
  · obtain ⟨entry, hentry, rfl⟩ := List.mem_map.mp hid
    obtain ⟨ref, key, hawaits⟩ := h.answered entry hentry
    exact hawaits.lt
  · obtain ⟨p, hp, rfl⟩ := List.mem_map.mp hid
    exact (h.awaits p hp).lt

theorem Sound.targets_length_le (h : Sound options root current c) :
    c.targets.length + (current ++ c.pending).length ≤ c.nodes.size := by
  have hsubset : c.targets.map (·.1) ++ (current ++ c.pending).map (·.node) ⊆
      List.range c.nodes.size := fun id hid => List.mem_range.mpr (h.lt_size hid)
  have hlength := (List.subperm_of_subset h.once hsubset).length_le
  simpa using hlength

theorem Built.answers_later {target : NodeId} (h : c.Built id site value node)
    (hanswers : c.Answers site.key ref target) (hd : c.Before d) :
    d.Answers site.key ref target := by
  obtain ⟨document, hdocument, -⟩ := h.declaration
  exact hanswers.later hd hdocument

theorem Sound.advance (added : List PendingRef) (h : Sound options root current c)
    (hbefore : c.Before c') (haligned : c'.Aligned) (hloaded : c'.Loaded options root)
    (htargets : c'.targets = c.targets) (hpending : c'.pending = c.pending ++ added)
    (hanchors : ∀ entry ∈ c'.anchors, entry ∈ c.anchors ∨
      c'.Declares entry.1.1 entry.1.2 entry.2)
    (hnodup : (added.map (·.node)).Nodup)
    (hadded : ∀ p ∈ added, c.nodes.size ≤ p.node ∧ c'.Awaits p)
    (hbuilt : ∀ id, c.nodes.size ≤ id → id < c'.nodes.size →
      ∃ site value node, Traced options root site ∧ c'.Built id site value node ∧
        (∀ ref ∈ node.ref, ⟨id, ref, site.key⟩ ∈ c'.pending) ∧
        ∀ name ∈ value.anchorNames, ((site.key, name), id) ∈ c'.anchors) :
    Sound options root current c' := by
  have hmore : current ++ c'.pending = current ++ c.pending ++ added := by
    rw [hpending, List.append_assoc]
  exact {
    aligned := haligned
    loaded := hloaded
    built := by
      intro id hid
      by_cases hold : id < c.nodes.size
      -- An old node keeps its answer: no document that it depends on is taken away.
      · obtain ⟨site, value, node, hfinished, htraced, href, hnames⟩ := h.built id hold
        refine ⟨site, value, node, hfinished.later hbefore.extends_ (hbefore.nodes id hold),
          htraced, fun ref hmem => ?_, fun name hname => hbefore.anchors.subset (hnames name hname)⟩
        rcases href ref hmem with hwaits | ⟨target, htarget, hanswers⟩
        · exact .inl (hmore ▸ List.mem_append_left _ hwaits)
        · exact .inr ⟨target, htargets ▸ htarget, hfinished.answers_later hanswers hbefore⟩
      · obtain ⟨site, value, node, htraced, hfinished, href, hnames⟩ :=
          hbuilt id (Nat.not_lt.mp hold) hid
        exact ⟨site, value, node, hfinished, htraced,
          fun ref hmem => .inl (List.mem_append_right _ (href ref hmem)), hnames⟩
    anchors := by
      intro entry hentry
      rcases hanchors entry hentry with hold | hnew
      · have hdeclares := h.anchors entry hold
        exact hdeclares.later hbefore.extends_ (hbefore.nodes _ hdeclares.lt)
      · exact hnew
    awaits := by
      intro p hp
      rw [hmore] at hp
      rcases List.mem_append.mp hp with hp | hp
      · exact (h.awaits p hp).later hbefore.extends_ (hbefore.nodes _ (h.awaits p hp).lt)
      · exact (hadded p hp).2
    answered := by
      intro entry hentry
      obtain ⟨ref, key, hawaits⟩ := h.answered entry (htargets ▸ hentry)
      exact ⟨ref, key, hawaits.later hbefore.extends_ (hbefore.nodes _ hawaits.lt)⟩
    once := by
      rw [hmore, htargets, List.map_append, ← List.append_assoc, List.nodup_append]
      refine ⟨h.once, hnodup, ?_⟩
      intro id hid id' hid'
      obtain ⟨p, hp, rfl⟩ := List.mem_map.mp hid'
      exact Nat.ne_of_lt (Nat.lt_of_lt_of_le (h.lt_size hid) (hadded p hp).1) }

theorem Sound.takes (h : Sound options root current c) (htakes : Takes options c c') :
    Sound options root current c' := by
  obtain ⟨hnodes, hanchors, hpending, htargets⟩ := htakes.same
  refine h.advance [] htakes.before (htakes.aligned h.aligned) (htakes.loaded h.loaded) htargets
    (by simpa using hpending) (fun entry hentry => .inl (hanchors ▸ hentry)) List.nodup_nil
    (by simp) ?_
  intro id hge hlt
  rw [hnodes] at hlt
  exact absurd hlt (Nat.not_lt.mpr hge)

theorem Sound.walk {sites : Site → Prop} (h : Sound options root current c) (hwalk : Walk sites c c')
    (hsites : ∀ site, sites site → Traced options root site) : Sound options root current c' := by
  obtain ⟨added, hpending, hnodup, hadded⟩ := hwalk.pending
  obtain ⟨declared, hanchors, hdeclared⟩ := hwalk.anchors
  refine h.advance added hwalk.before hwalk.aligned (hwalk.loaded h.loaded) hwalk.targets hpending
    (fun entry hentry => ?_) hnodup hadded fun id hge hlt => ?_
  · rw [hanchors] at hentry
    exact (List.mem_append.mp hentry).symm.imp_right (hdeclared entry)
  obtain ⟨site, value, node, hsite, hbuilt⟩ := hwalk.built id hge hlt
  exact ⟨site, value, node, hsites site hsite, hbuilt⟩

theorem Sound.entered (h : Sound options root current c) {c₁ : Compilation}
    (htakes : Takes options c c₁) (hwalk : Walk (c₁.Entered fragment) c₁ c')
    (hdocument : Members.get? c.documents key = some document)
    (href : ref ∈ document.content.strings)
    (hlocate : Uri.locate document.base ref = .ok (uri, fragment)) :
    Sound options root current c' := by
  have htaken := h.takes htakes
  have hdocument₁ := htakes.before.extends_.documents _ _ hdocument
  exact htaken.walk hwalk fun site hsite => hsite.traced htaken.loaded hdocument₁ href hlocate

theorem Before.of_same (hdocuments : d.documents = c.documents) (hlocations : d.locations = c.locations)
    (hanchors : d.anchors = c.anchors) (hnodes : d.nodes = c.nodes) : c.Before d := by
  refine ⟨hdocuments ▸ List.suffix_rfl, ⟨?_, hlocations ▸ List.prefix_rfl⟩,
    hanchors ▸ List.suffix_rfl, fun id _ => by rw [hnodes]⟩
  rw [hdocuments]
  exact fun _ _ hget => hget

theorem Sound.recorded (h : Sound options root current c) (log : Log) :
    Sound options root current { c with log } := by
  refine h.advance [] (Before.of_same rfl rfl rfl rfl) ⟨h.aligned.size, h.aligned.nodup⟩
    ⟨h.loaded.sources, h.loaded.once, h.loaded.aliases⟩ rfl (List.append_nil _).symm
    (fun _ hentry => .inl hentry) List.nodup_nil (by simp) ?_
  intro id hge hlt
  exact absurd hlt (Nat.not_lt.mpr hge)

theorem Sound.begin (h : Sound options root [] c) (hpending : c.pending = first :: rest) :
    Sound options root [first] { c with pending := rest } := by
  have hsame : c.Before { c with pending := rest } := Before.of_same rfl rfl rfl rfl
  have hall : [first] ++ rest = [] ++ c.pending := hpending.symm
  exact {
    aligned := ⟨h.aligned.size, h.aligned.nodup⟩
    loaded := ⟨h.loaded.sources, h.loaded.once, h.loaded.aliases⟩
    built := by
      intro id hid
      obtain ⟨site, value, node, hfinished, htraced, href, hnames⟩ := h.built id hid
      refine ⟨site, value, node, hfinished.later hsame.extends_ rfl, htraced, fun ref hmem => ?_,
        hnames⟩
      rcases href ref hmem with hwaits | ⟨target, htarget, hanswers⟩
      · exact .inl (hall ▸ hwaits)
      · exact .inr ⟨target, htarget, hfinished.answers_later hanswers hsame⟩
    anchors := fun entry hentry => (h.anchors entry hentry).later hsame.extends_ rfl
    awaits := fun p hp => (h.awaits p (hall ▸ hp)).later hsame.extends_ rfl
    answered := by
      intro entry hentry
      obtain ⟨ref, key, hawaits⟩ := h.answered entry hentry
      exact ⟨ref, key, hawaits.later hsame.extends_ rfl⟩
    once := by
      rw [hall]
      exact h.once }

theorem Sound.answer {target : NodeId} (h : Sound options root [first] c) (log : Log)
    (hanswers : c.Answers first.key first.ref target) :
    Sound options root [] { c with log, targets := (first.node, target) :: c.targets } := by
  have hsame : c.Before { c with log, targets := (first.node, target) :: c.targets } :=
    Before.of_same rfl rfl rfl rfl
  exact {
    aligned := ⟨h.aligned.size, h.aligned.nodup⟩
    loaded := ⟨h.loaded.sources, h.loaded.once, h.loaded.aliases⟩
    built := by
      intro id hid
      obtain ⟨site, value, node, hfinished, htraced, href, hnames⟩ := h.built id hid
      refine ⟨site, value, node, hfinished.later hsame.extends_ rfl, htraced, fun ref hmem => ?_,
        hnames⟩
      rcases href ref hmem with hwaits | ⟨target', htarget, hanswers'⟩
      · rcases List.mem_cons.mp hwaits with hfirst | hwaits
        · subst hfirst
          exact .inr ⟨target, List.mem_cons_self, hfinished.answers_later hanswers hsame⟩
        · exact .inl hwaits
      · exact .inr ⟨target', List.mem_cons_of_mem _ htarget,
          hfinished.answers_later hanswers' hsame⟩
    anchors := fun entry hentry => (h.anchors entry hentry).later hsame.extends_ rfl
    awaits := fun p hp => (h.awaits p (List.mem_cons_of_mem _ hp)).later hsame.extends_ rfl
    answered := by
      intro entry hentry
      rcases List.mem_cons.mp hentry with rfl | hentry
      · exact ⟨first.ref, first.key,
          (h.awaits first List.mem_cons_self).later hsame.extends_ rfl⟩
      · obtain ⟨ref, key, hawaits⟩ := h.answered entry hentry
        exact ⟨ref, key, hawaits.later hsame.extends_ rfl⟩
    once := by
      refine List.Perm.nodup ?_ h.once
      simp }

end Compilation

namespace CompileM

open Compilation

variable {options : CompileOptions} {root : Json} {c c' : Compilation} {first : PendingRef}
  {rest : List PendingRef}

/-- The next reference is answered, and all that was said before stays true. -/
theorem resolveFirst_sound {u : Unit} (h : Sound options root [] c)
    (hpending : c.pending = first :: rest)
    (hrun : Runs (resolveFirst options first rest) c (.ok u) c') :
    Sound options root [] c' ∧ c'.targets.length = c.targets.length + 1 ∧ c.Extends c' ∧
      (c.Settled options → c'.Settled options) := by
  replace hrun := runs_modify_bind.mp hrun
  obtain ⟨target, c₁, hresolve, hrun⟩ := runs_bind_ok.mp hrun
  replace hrun := runs_get_bind.mp hrun
  replace hrun := runs_modify_bind.mp hrun
  obtain ⟨-, rfl⟩ := runs_modify.mp hrun
  have hbegin := h.begin hpending
  obtain ⟨site, value, node, hbuilt, hkey, href⟩ := hbegin.awaits first List.mem_cons_self
  obtain ⟨document, hdocument, hmem⟩ := hbuilt.ref_mem href
  rw [hkey] at hdocument
  obtain ⟨uri, fragment, c₂, hlocate, htakes, hwalk, hanswers, hsettled⟩ :=
    resolveRef_ok hbegin.aligned hbegin.loaded hdocument hresolve
  rw [baseOf_eq hdocument] at hlocate
  have hwalked := hbegin.entered htakes hwalk hdocument hmem hlocate
  have hextends := htakes.before.extends_.trans hwalk.extends
  refine ⟨hwalked.answer _ hanswers, ?_, ⟨hextends.documents, hextends.locations⟩, fun h => ?_⟩
  · rw [List.length_cons, hwalk.targets, htakes.same.2.2.2]
  · exact (hsettled (h.later rfl List.prefix_rfl)).later rfl List.prefix_rfl

/-- A run that has enough fuel for all references that may come leaves none behind. -/
theorem resolvePending_sound {u : Unit} {fuel : Nat} (h : Sound options root [] c)
    (hfuel : refLimit options root ≤ c.targets.length + fuel)
    (hrun : Runs (resolvePending options fuel) c (.ok u) c') :
    Sound options root [] c' ∧ c'.pending = [] ∧ c.Extends c' ∧
      (c.Settled options → c'.Settled options) := by
  induction fuel generalizing c with
  | zero =>
    -- Every answer has used up one unit of fuel, and there are no more answers than nodes.
    obtain ⟨-, rfl⟩ := runs_pure.mp hrun
    have hsize := h.size_le
    have htargets := h.targets_length_le
    rw [List.nil_append] at htargets
    exact ⟨h, List.length_eq_zero_iff.mp (by omega), Extends.refl c, fun h => h⟩
  | succ fuel ih =>
    replace hrun := runs_get_bind.mp hrun
    split at hrun
    case h_1 hnone =>
      obtain ⟨-, rfl⟩ := runs_pure.mp hrun
      exact ⟨h, hnone, Extends.refl c, fun h => h⟩
    case h_2 first rest hpending =>
      obtain ⟨_, c₁, hfirst, hrun⟩ := runs_bind_ok.mp hrun
      obtain ⟨hsound, hlength, hextends, hsettled⟩ := resolveFirst_sound h hpending hfirst
      obtain ⟨hend, hnone, hextends', hsettled'⟩ := ih hsound (by omega) hrun
      exact ⟨hend, hnone, hextends.trans hextends', fun h => hsettled' (hsettled h)⟩

theorem loaded_empty : Loaded options root {} := by
  refine ⟨by simp, by simp [Members.names], ?_⟩
  simp [Names]

theorem sound_start {declared : String} (warnings : List String) (log : Log)
    (hdeclared : declaredBase "" root = .ok declared) (haccepts : Accepts options root) :
    Sound options root [] (taken {} "" root declared warnings log) := by
  have hloaded : (taken {} "" root declared warnings log).Loaded options root :=
    loaded_empty.taken (by simp [Names]) rfl (by simp) hdeclared haccepts
  constructor
  · exact ⟨rfl, List.nodup_nil⟩
  · exact hloaded
  · intro id hid
    exact absurd hid (Nat.not_lt_zero id)
  · simp [taken]
  · simp [taken]
  · simp [taken]
  · simp [taken]

theorem compileRoot_sound {declared : String} {warnings : List String} {log : Log} {id : NodeId}
    (hdeclared : declaredBase "" root = .ok declared) (haccepts : Accepts options root)
    (hrun : Runs (compileRoot options "") (taken {} "" root declared warnings log) (.ok id) c) :
    Sound options root [] c ∧ c.Located "" "" 0 ∧ c.Settled options := by
  have hstart : Sound options root [] (taken {} "" root declared warnings log) :=
    sound_start warnings log hdeclared haccepts
  obtain ⟨hwalk, hlocated, hid⟩ := compileRoot_ok hstart.aligned rfl hrun
  have hzero : id = 0 := Nat.le_zero.mp hid
  have hroot : c.Located "" "" 0 := hzero ▸ hlocated
  have hone : ∀ key document, (key, document) ∈ c.documents → key = "" := by
    intro key document hmem
    rw [hwalk.documents] at hmem
    exact (Prod.mk.inj (List.mem_singleton.mp hmem)).1
  refine ⟨hstart.walk hwalk ?_, hroot, ?_, ?_⟩
  · rintro site ⟨hkey, hunder⟩
    refine ⟨root, [], root, ?_, List.mem_cons_self, rfl, rfl, hunder⟩
    rw [hkey, CompileOptions.source?, if_pos rfl]
  · intro key document hdocument
    exact ⟨0, hone key document (Members.mem_of_get? hdocument) ▸ hroot⟩
  · rintro - uri key key' ⟨document, hmem, -⟩ ⟨document', hmem', -⟩
    exact (hone key document hmem).trans (hone key' document' hmem').symm

theorem compileDocument_sound {schema : CompiledSchema}
    (hrun : Runs (compileDocument options root) {} (.ok schema) c) :
    Sound options root [] c ∧ c.pending = [] ∧ schema = c.freeze ∧ c.Located "" "" 0 ∧
      c.Settled options := by
  obtain ⟨_, c₁, hadd, hrun⟩ := runs_bind_ok.mp hrun
  obtain ⟨declared, warnings, log, hdeclared, haccepts, rfl⟩ := addDocument_ok hadd
  obtain ⟨id, c₂, hroot, hrun⟩ := runs_bind_ok.mp hrun
  obtain ⟨_, c₃, hresolve, hrun⟩ := runs_bind_ok.mp hrun
  replace hrun := runs_get_bind.mp hrun
  replace hrun := runs_modify_bind.mp hrun
  obtain ⟨hok, rfl⟩ := runs_pure.mp hrun
  cases hok
  obtain ⟨hsound, hlocated, hsettled⟩ := compileRoot_sound hdeclared haccepts hroot
  obtain ⟨hend, hnone, hextends, hsettles⟩ :=
    resolvePending_sound hsound (Nat.le_add_left _ _) hresolve
  exact ⟨hend.recorded _, hnone, rfl, hextends.located hlocated,
    (hsettles hsettled).later rfl List.prefix_rfl⟩

end CompileM

end JsonSchema
