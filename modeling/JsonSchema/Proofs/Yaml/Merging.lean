import JsonSchema.Proofs.Outcome
import JsonSchema.Proofs.Yaml.Partly
import Mathlib.Algebra.BigOperators.Fin
import Mathlib.Algebra.Order.BigOperators.Group.Finset

/-!
# Merging in place

Whatever was merged before, a mapping that is merged holds its expansion, and so does everything
that is merged into it.
-/

namespace JsonSchema.Yaml

open Relation (TransGen ReflTransGen)

namespace YamlGraph

variable {G g g' : YamlGraph} {root id inner : YamlId} {entry : Entry}
  {done busy : YamlId → Prop} {content : Content}

/-! ## Merge keys that are left -/

def mergesAt (g : YamlGraph) (id : YamlId) : Nat := ((g.entries id).filter g.isMergeKey).length

def mergesOf (g : YamlGraph) (node : YamlNode) : Nat :=
  match node.content with
  | .mapping entries => (entries.filter g.isMergeKey).length
  | _ => 0

theorem mergesOf_node (g : YamlGraph) (id : YamlId) : g.mergesOf (g.node id) = g.mergesAt id := by
  unfold mergesOf mergesAt entries
  split <;> simp_all

theorem foldl_mergesOf {count : Nat → YamlNode → Nat}
    (h : ∀ n node, count n node = n + g.mergesOf node) (nodes : List YamlNode) (n : Nat) :
    nodes.foldl count n = n + (nodes.map g.mergesOf).sum := by
  induction nodes generalizing n with
  | nil => simp
  | cons node rest ih => rw [List.foldl_cons, ih, h, List.map_cons, List.sum_cons, Nat.add_assoc]

theorem mergeCount_eq (g : YamlGraph) :
    g.mergeCount = ∑ id ∈ Finset.range g.nodes.size, g.mergesAt id := by
  rw [mergeCount, ← Array.foldl_toList, foldl_mergesOf (g := g) fun n node => ?_]
  · rw [Nat.zero_add, ← Fin.sum_univ_eq_sum_range, ← List.sum_ofFn]
    congr 1
    refine List.ext_getElem (by simp) fun id hid _ => ?_
    have hlt : id < g.nodes.size := by simpa using hid
    have hnode : g.node id = g.nodes[id] := by
      simp [node, Array.getD_eq_getD_getElem?, Array.getElem?_eq_getElem hlt]
    simp [← mergesOf_node, hnode]
  · unfold mergesOf
    cases node.content <;> rfl

theorem mergeCount_le (hsize : g'.nodes.size = g.nodes.size)
    (h : ∀ id, g'.mergesAt id ≤ g.mergesAt id) : g'.mergeCount ≤ g.mergeCount := by
  rw [mergeCount_eq, mergeCount_eq, hsize]
  exact Finset.sum_le_sum fun id _ => h id

theorem mergeCount_lt (hsize : g'.nodes.size = g.nodes.size)
    (h : ∀ id, g'.mergesAt id ≤ g.mergesAt id) (hid : id < g.nodes.size)
    (hlt : g'.mergesAt id < g.mergesAt id) : g'.mergeCount < g.mergeCount := by
  rw [mergeCount_eq, mergeCount_eq, hsize]
  exact Finset.sum_lt_sum (fun id _ => h id) ⟨id, Finset.mem_range.mpr hid, hlt⟩

theorem filter_others {entries : List Entry} (h : ∀ entry ∈ entries, g.isMergeKey entry = false) :
    entries.filter (!g.isMergeKey ·) = entries ∧ entries.filter g.isMergeKey = [] := by
  rw [List.filter_eq_self, List.filter_eq_nil_iff]
  exact ⟨fun entry hentry => by simp [h entry hentry], fun entry hentry => by simp [h entry hentry]⟩

theorem isMergeKey_expanded (hg : G.Regular root) (h : entry ∈ G.expanded id) :
    G.isMergeKey entry = false := by
  obtain ⟨source, -, hown⟩ := mem_expanded hg h
  simpa using (List.mem_filter.mp hown).2

theorem filter_expanded (hg : G.Regular root) (id : YamlId) :
    (G.expanded id).filter G.isMergeKey = [] :=
  (filter_others fun _ => isMergeKey_expanded hg).2

theorem Partly.mergeCount_le (hg : G.Regular root) {done' : YamlId → Prop}
    (h : Partly G done busy g) (h' : Partly G done' busy g') (hmore : ∀ id, done id → done' id)
    (hkeeps : Keeps busy g g') : g'.mergeCount ≤ g.mergeCount := by
  refine YamlGraph.mergeCount_le (h'.size.trans h.size.symm) fun id => ?_
  unfold mergesAt
  rw [h.filter_isMergeKey, h'.filter_isMergeKey]
  by_cases hbusy : busy id
  · rw [YamlGraph.entries, hkeeps.content id hbusy]
    rfl
  · by_cases hdone' : done' id
    · rw [h'.entries_done hbusy hdone', filter_expanded hg]
      exact Nat.zero_le _
    · rw [h'.entries hbusy hdone', h.entries hbusy fun hdone => hdone' (hmore id hdone)]

/-! ## One mapping -/

section

variable {merge : YamlGraph → YamlId → Except YamlFault YamlGraph} {merged kept : List Entry}

theorem ofEntries_before {before entries : List Entry}
    (h : ∀ entry ∈ before, g.isMergeKey entry = false) :
    Merge.ofEntries merge id merged kept g (before ++ entries) =
      Merge.ofEntries merge id merged (before.reverse ++ kept) (before.foldl plainKey g)
        entries := by
  induction before generalizing g kept with
  | nil => rfl
  | cons entry rest ih =>
    rw [List.forall_mem_cons] at h
    rw [List.cons_append, Merge.ofEntries, h.1, if_neg Bool.false_ne_true, ih]
    · simp
    · exact fun other hother => (isMergeKey_plainKey other).trans (h.2 other hother)

theorem ofEntries_own {entries : List Entry} (h : ∀ entry ∈ entries, g.isMergeKey entry = false) :
    Merge.ofEntries merge id merged kept g entries = .ok ((entries.foldl plainKey g).setContent id
      (.mapping (merged ++ (kept.reverse ++ entries)))) := by
  rw [← List.append_nil entries, ofEntries_before h, Merge.ofEntries]
  simp

end

theorem entries_cases (hg : g.Regular root) (id : YamlId) :
    (∀ entry ∈ g.entries id, g.isMergeKey entry = false) ∨
      ∃ before entry after, g.entries id = before ++ entry :: after ∧ g.isMergeKey entry = true ∧
        ∀ other ∈ before ++ after, g.isMergeKey other = false := by
  cases hfilter : (g.entries id).filter g.isMergeKey with
  | nil =>
    refine .inl fun entry hentry => ?_
    simpa using List.filter_eq_nil_iff.mp hfilter entry hentry
  | cons entry more =>
    have hsingle := hg.single id
    rw [hfilter, List.length_cons] at hsingle
    obtain rfl : more = [] := List.length_eq_zero_iff.mp (by omega)
    obtain ⟨before, after, hentries, hbefore, hentry, hafter⟩ := List.filter_eq_cons_iff.mp hfilter
    refine .inr ⟨before, entry, after, hentries, hentry, ?_⟩
    rw [List.filter_eq_nil_iff] at hafter
    exact List.forall_mem_append.mpr ⟨fun other hother => by simpa using hbefore other hother,
      fun other hother => by simpa using hafter other hother⟩

theorem own_eq_self (h : ∀ entry ∈ g.entries id, g.isMergeKey entry = false) :
    g.own id = g.entries id ∧ g.sources id = [] := by
  obtain ⟨hown, hnone⟩ := filter_others h
  refine ⟨hown, ?_⟩
  rw [sources, hnone]
  rfl

theorem own_eq_append {before after : List Entry}
    (hentries : g.entries id = before ++ entry :: after)
    (hkey : g.isMergeKey entry = true)
    (hothers : ∀ other ∈ before ++ after, g.isMergeKey other = false) :
    g.own id = before ++ after ∧ g.sources id = g.merged entry.2 := by
  rw [List.forall_mem_append] at hothers
  obtain ⟨hbefore, hbefore'⟩ := filter_others hothers.1
  obtain ⟨hafter, hafter'⟩ := filter_others hothers.2
  constructor
  · rw [own, hentries, List.filter_append, List.filter_cons, hkey, hbefore, hafter]
    rfl
  · rw [sources, hentries, List.filter_append, List.filter_cons, hkey, hbefore', hafter']
    simp

/-! ## A whole merge -/

section

variable {merge : YamlGraph → YamlId → Except YamlFault YamlGraph} {merged kept : List Entry}

theorem ofEntries_last (merge : YamlGraph → YamlId → Except YamlFault YamlGraph)
    (merged kept : List Entry) {entries : List Entry}
    (h : Partly G done (fun other => busy other ∨ other = id) g) (hbusy : ¬ busy id)
    (hothers : ∀ entry ∈ entries, G.isMergeKey entry = false)
    (hexpanded : merged ++ (kept.reverse ++ entries) = G.expanded id)
    (hsources : ∀ source, G.Merges id source → done source)
    (hplain : ∀ entry ∈ G.own id, entry ∈ entries ∨ (g.node entry.1).tag ≠ Tag.value) :
    ∃ g', Merge.ofEntries merge id merged kept g entries = .ok g' ∧
      Partly G (fun other => done other ∨ other = id) busy g' ∧ Keeps busy g g' := by
  have hkeeps := Keeps.plainKeys busy g entries
  have hpartly := h.plainKeys entries
  have hlt : id < (entries.foldl YamlGraph.plainKey g).nodes.size := by
    have hkind := hpartly.mapping id (.inl (.inr rfl))
    exact hpartly.size ▸ lt_of_kind (by simp [hkind])
  refine ⟨_, ofEntries_own fun entry hentry => ?_, ?_, hkeeps.trans (.setContent hbusy hlt)⟩
  · rw [h.isMergeKey, hothers entry hentry]
  · refine (hpartly.setBusy (.inr rfl) _).release ?_ hsources fun entry hentry => ?_
    · rw [node_setContent hlt, if_pos rfl, hexpanded]
    · rw [tag_setContent hlt]
      rcases hplain entry hentry with hmem | htag
      · exact tag_plainKeys hmem
      · exact hkeeps.plain _ htag

/-- A result in which the mapping is merged too, and so is whatever is merged into it. -/
def MergedTo (G : YamlGraph) (done busy : YamlId → Prop) (g : YamlGraph) (id : YamlId)
    (result : Except YamlFault YamlGraph) : Prop :=
  ∃ g', result = .ok g' ∧
    Partly G (fun other => done other ∨ ReflTransGen G.Merges id other) busy g' ∧ Keeps busy g g'

def Merger (G : YamlGraph) (bound : Nat)
    (merge : YamlGraph → YamlId → Except YamlFault YamlGraph) : Prop :=
  ∀ (done busy : YamlId → Prop) (g : YamlGraph) (id : YamlId), Partly G done busy g →
    (G.node id).kind = .mapping → (∀ inner, ReflTransGen G.Merges id inner → ¬ busy inner) →
    g.mergeCount < bound → G.MergedTo done busy g id (merge g id)

def Below (G : YamlGraph) (ids : List YamlId) (inner : YamlId) : Prop :=
  ∃ id ∈ ids, ReflTransGen G.Merges id inner

variable {ids : List YamlId} {bound : Nat}

theorem ofItems_merges (hg : G.Regular root) (hmerge : Merger G bound merge)
    (h : Partly G done busy g) (hkind : ∀ id ∈ ids, (G.node id).kind = .mapping)
    (hbusy : ∀ inner, G.Below ids inner → ¬ busy inner) (hbound : g.mergeCount < bound) :
    ∃ g', Merge.ofItems merge g ids = .ok ⟨g', ids.reverse.flatMap G.expanded⟩ ∧
      Partly G (fun other => done other ∨ G.Below ids other) busy g' ∧ Keeps busy g g' := by
  induction ids generalizing done g with
  | nil => exact ⟨g, rfl, h.congr fun other => by simp [Below], .refl busy g⟩
  | cons id rest ih =>
    rw [List.forall_mem_cons] at hkind
    have hfirst : ∀ inner, ReflTransGen G.Merges id inner → ¬ busy inner := fun inner hinner =>
      hbusy inner ⟨id, List.mem_cons_self, hinner⟩
    have hrest : ∀ inner, G.Below rest inner → ¬ busy inner := fun inner ⟨other, hother, hinner⟩ =>
      hbusy inner ⟨other, List.mem_cons_of_mem _ hother, hinner⟩
    obtain ⟨g₁, heq₁, h₁, hkeeps₁⟩ := hmerge done busy g id h hkind.1 hfirst hbound
    have hcount := Partly.mergeCount_le hg h h₁ (fun _ => .inl) hkeeps₁
    obtain ⟨g₂, heq₂, h₂, hkeeps₂⟩ := ih h₁ hkind.2 hrest (hcount.trans_lt hbound)
    refine ⟨g₂, ?_, h₂.congr fun other => ?_, hkeeps₁.trans hkeeps₂⟩
    · have hkind' : ((g.node id).kind != .mapping) = false := by simp [h.kind, hkind.1]
      have hentries : g₁.entries id = G.expanded id :=
        h₁.entries_done (hfirst id .refl) (.inr .refl)
      rw [Merge.ofItems]
      simp [hkind', heq₁, heq₂, hentries, bind, Except.bind, pure, Except.pure]
    · simp [Below, or_assoc]

theorem ofValue_merges (hg : G.Regular root) (hmerge : Merger G bound merge)
    (h : Partly G done busy g) {value : YamlId}
    (hmergeable : G.isMergeable value = true)
    (hbusy : ∀ inner, G.Below (G.merged value) inner → ¬ busy inner)
    (hbound : g.mergeCount < bound) :
    ∃ g', Merge.ofValue merge g value = .ok ⟨g', (G.merged value).reverse.flatMap G.expanded⟩ ∧
      Partly G (fun other => done other ∨ G.Below (G.merged value) other) busy g' ∧
      Keeps busy g g' := by
  have hkind := h.kind value
  unfold isMergeable at hmergeable
  split at hmergeable
  case h_1 entries hcontent =>
    have hmerged : G.merged value = [value] := by rw [YamlGraph.merged, hcontent]
    rw [hmerged] at hbusy ⊢
    have hmapping : (G.node value).kind = .mapping := congrArg Content.kind hcontent
    obtain ⟨g', heq, h', hkeeps⟩ := hmerge done busy g value h hmapping
      (fun inner hinner => hbusy inner ⟨value, List.mem_singleton.mpr rfl, hinner⟩) hbound
    refine ⟨g', ?_, h'.congr fun other => by simp [Below], hkeeps⟩
    have hvalue : ¬ busy value := hbusy value ⟨value, List.mem_singleton.mpr rfl, .refl⟩
    have hentries : g'.entries value = G.expanded value := h'.entries_done hvalue (.inr .refl)
    unfold Merge.ofValue
    dsimp only
    rw [entries_eq (hkind.trans hmapping)]
    simp [heq, hentries, bind, Except.bind, pure, Except.pure]
  case h_2 items hcontent =>
    have hmerged : G.merged value = items := by rw [YamlGraph.merged, hcontent]
    rw [hmerged] at hbusy ⊢
    have hsequence : (G.node value).kind = .sequence := congrArg Content.kind hcontent
    have hnot : ¬ (busy value ∨ done value) := fun hmapping => by
      simp [h.mapping value hmapping] at hsequence
    rw [not_or] at hnot
    have hmappings : ∀ id ∈ items, (G.node id).kind = .mapping := fun id hid => by
      simpa using List.all_eq_true.mp hmergeable id hid
    obtain ⟨g', heq, h', hkeeps⟩ := ofItems_merges hg hmerge h hmappings hbusy hbound
    refine ⟨g', ?_, h', hkeeps⟩
    unfold Merge.ofValue
    dsimp only
    rw [h.content value hnot.1 hnot.2, hcontent]
    exact heq
  case h_3 => cases hmergeable

end

/-! ## The merge key of a mapping -/

/-- The graph while the value of a merge key is merged: its mapping has the other entries only. -/
def withoutMerge (g : YamlGraph) (id : YamlId) (before after : List Entry) : YamlGraph :=
  (before.foldl plainKey g).setContent id (.mapping (before ++ after))

section

variable {before after : List Entry}

theorem lt_plainKeys (hid : (g.node id).kind = .mapping) :
    id < (before.foldl plainKey g).nodes.size := by
  rw [((Partly.start g).plainKeys before).size]
  exact lt_of_kind (by simp [hid])

theorem content_withoutMerge (hid : (g.node id).kind = .mapping) :
    ((g.withoutMerge id before after).node id).content = .mapping (before ++ after) := by
  rw [withoutMerge, node_setContent (lt_plainKeys hid), if_pos rfl]

theorem Keeps.withoutMerge (hid : (g.node id).kind = .mapping) (hbusy : ¬ busy id) :
    Keeps busy g (g.withoutMerge id before after) :=
  (Keeps.plainKeys busy g before).trans (.setContent hbusy (lt_plainKeys hid))

theorem tag_withoutMerge (hid : (g.node id).kind = .mapping) (h : entry ∈ before) :
    ((g.withoutMerge id before after).node entry.1).tag ≠ Tag.value := by
  rw [withoutMerge, tag_setContent (lt_plainKeys hid)]
  exact tag_plainKeys h

theorem mergeCount_withoutMerge (hid : (g.node id).kind = .mapping)
    (hentries : g.entries id = before ++ entry :: after) (hkey : g.isMergeKey entry = true)
    (hothers : ∀ other ∈ before ++ after, g.isMergeKey other = false) :
    (g.withoutMerge id before after).mergeCount < g.mergeCount := by
  have hpartly :=
    (((Partly.start g).hold hid).plainKeys before).setBusy (.inr rfl) (before ++ after)
  have hkeeps : Keeps (· ≠ id) g (g.withoutMerge id before after) := .withoutMerge hid (by simp)
  have hself : (g.withoutMerge id before after).mergesAt id = 0 := by
    rw [mergesAt, YamlGraph.entries, content_withoutMerge hid, List.length_eq_zero_iff,
      List.filter_eq_nil_iff]
    intro other hother
    rw [withoutMerge, hpartly.isMergeKey, hothers other hother]
    exact Bool.false_ne_true
  have hother : ∀ other, other ≠ id →
      (g.withoutMerge id before after).mergesAt other = g.mergesAt other := by
    intro other hne
    rw [mergesAt, YamlGraph.entries, hkeeps.content other hne]
    exact congrArg List.length (hpartly.filter_isMergeKey _)
  have hlt : id < g.nodes.size := lt_of_kind (by simp [hid])
  refine mergeCount_lt hpartly.size (fun other => ?_) hlt ?_
  · by_cases heq : other = id
    · rw [heq, hself]
      exact Nat.zero_le _
    · rw [hother other heq]
  · rw [hself, mergesAt, hentries, List.filter_append, List.filter_cons, hkey]
    simp

end

section

variable {depth : Nat}

theorem reach_iff : ReflTransGen G.Merges id inner ↔ inner = id ∨ G.Below (G.sources id) inner := by
  rw [ReflTransGen.cases_head_iff]
  exact or_congr eq_comm Iff.rfl

theorem ofMapping_done (hg : G.Regular root) (h : Partly G done busy g) (hbusy : ¬ busy id)
    (hdone : done id) :
    G.MergedTo done busy g id (Merge.ofMapping (depth + 1) g id) := by
  have hid := h.mapping id (.inr hdone)
  rw [Merge.ofMapping, h.entries_done hbusy hdone]
  obtain ⟨g', heq, h', hkeeps⟩ := ofEntries_last (Merge.ofMapping depth) [] [] (h.hold hid)
    hbusy (fun _ => isMergeKey_expanded hg) rfl
    (fun source => h.closed id source hdone)
    fun entry hentry => .inr (h.plain id hdone entry hentry)
  refine ⟨g', heq, h'.congr fun other => or_congr_right' fun hother => ?_, hkeeps⟩
  exact ⟨fun heq => heq ▸ .refl, fun hreach => absurd (h.reached hdone hreach) hother⟩

theorem ofMapping_plain (hg : G.Regular root) (h : Partly G done busy g)
    (hid : (G.node id).kind = .mapping) (hbusy : ¬ busy id) (hdone : ¬ done id)
    (hothers : ∀ entry ∈ G.entries id, G.isMergeKey entry = false) :
    G.MergedTo done busy g id (Merge.ofMapping (depth + 1) g id) := by
  obtain ⟨hown, hnone⟩ := own_eq_self hothers
  have hexpanded : G.expanded id = G.entries id := by
    rw [expanded_eq hg, hnone, hown]
    rfl
  have hsources : ∀ source, G.Merges id source → done source := by simp [Merges, hnone]
  rw [Merge.ofMapping, h.entries hbusy hdone]
  obtain ⟨g', heq, h', hkeeps⟩ := ofEntries_last (Merge.ofMapping depth) [] [] (h.hold hid)
    hbusy hothers hexpanded.symm hsources
    fun entry hentry => .inl (hown ▸ hentry)
  refine ⟨g', heq, h'.congr fun other => or_congr_right ?_, hkeeps⟩
  rw [reach_iff, hnone]
  simp [Below]

theorem ofMapping_key (hg : G.Regular root) (ih : Merger G depth (Merge.ofMapping depth))
    (h : Partly G done busy g) (hid : (G.node id).kind = .mapping)
    (hbusy : ∀ inner, ReflTransGen G.Merges id inner → ¬ busy inner) (hdone : ¬ done id)
    (hbound : g.mergeCount < depth + 1) {before after : List Entry}
    (hentries : G.entries id = before ++ entry :: after) (hkey : G.isMergeKey entry = true)
    (hothers : ∀ other ∈ before ++ after, G.isMergeKey other = false) :
    G.MergedTo done busy g id (Merge.ofMapping (depth + 1) g id) := by
  have hfree : ¬ busy id := hbusy id .refl
  have hid' : (g.node id).kind = .mapping := (h.kind id).trans hid
  obtain ⟨hown, hmerged⟩ := own_eq_append hentries hkey hothers
  have hothers' : ∀ other ∈ before ++ after, g.isMergeKey other = false :=
    fun other hother => (h.isMergeKey other).trans (hothers other hother)
  -- First the value of the merge key, while the mapping holds the other entries only.
  have h₁ := ((h.hold hid).plainKeys before).setBusy (.inr rfl) (before ++ after)
  have hcount := mergeCount_withoutMerge hid' ((h.entries hfree hdone).trans hentries)
    ((h.isMergeKey entry).trans hkey) hothers'
  have hinner : ∀ inner, G.Below (G.merged entry.2) inner → ¬ (busy inner ∨ inner = id) := by
    rw [← hmerged]
    rintro inner ⟨source, hsource, hreach⟩ (hin | rfl)
    · exact hbusy inner (.head hsource hreach) hin
    · exact ne_of_merges hg (TransGen.head' hsource hreach) rfl
  obtain ⟨g₂, heq₂, h₂, hkeeps₂⟩ := ofValue_merges hg ih h₁
    (hg.merges id entry (by simp [hentries]) hkey) hinner
    (Nat.lt_of_lt_of_le hcount (Nat.lt_succ_iff.mp hbound))
  rw [← hmerged] at heq₂ h₂
  have hcurrent : g₂.entries id = before ++ after := by
    rw [YamlGraph.entries, hkeeps₂.content id (.inr rfl), ← withoutMerge, content_withoutMerge hid']
  -- Then the entries behind it, none of which is a merge key.
  obtain ⟨g', heq, h', hkeeps⟩ := ofEntries_last (Merge.ofMapping depth)
    ((G.sources id).reverse.flatMap G.expanded) before.reverse h₂ hfree
    (List.forall_mem_append.mp hothers).2 (by rw [expanded_eq hg, hown, List.reverse_reverse])
    (fun source hsource => .inr ⟨source, hsource, .refl⟩) fun other hother => by
      rcases List.mem_append.mp (hown ▸ hother) with hbefore | hafter
      · exact .inr (hkeeps₂.plain _ (tag_withoutMerge hid' hbefore))
      · exact .inl hafter
  refine ⟨g', ?_, h'.congr fun other => ?_, ?_⟩
  · have hkey' : (before.foldl plainKey g).isMergeKey entry = true := by
      rw [isMergeKey_plainKeys, h.isMergeKey, hkey]
    rw [Merge.ofMapping, h.entries hfree hdone, hentries,
      ofEntries_before (List.forall_mem_append.mp hothers').1, Merge.ofEntries, if_pos hkey',
      List.append_nil, List.reverse_reverse]
    dsimp only
    rw [heq₂]
    simp [bind, Except.bind, hcurrent, heq]
  · rw [or_assoc, reach_iff]
    exact or_congr_right or_comm
  · exact (Keeps.withoutMerge hid' hfree).trans ((hkeeps₂.mono fun _ => .inl).trans hkeeps)

end

/-- A fuel above the number of merge keys that are left suffices. -/
theorem ofMapping_merges (hg : G.Regular root) (depth : Nat) :
    Merger G depth (Merge.ofMapping depth) := by
  -- On the fuel: the merge key of the mapping is taken out before its value is merged.
  induction depth with
  | zero => exact fun _ _ _ _ _ _ _ hbound => absurd hbound (Nat.not_lt_zero _)
  | succ depth ih =>
    intro done busy g id h hid hbusy hbound
    by_cases hdone : done id
    · exact ofMapping_done hg h (hbusy id .refl) hdone
    rcases entries_cases hg id with hothers | ⟨before, entry, after, hentries, hkey, hothers⟩
    · exact ofMapping_plain hg h hid (hbusy id .refl) hdone hothers
    · exact ofMapping_key hg ih h hid hbusy hdone hbound hentries hkey hothers

/-- Merging the keys of a mapping merges it, and whatever is merged into it. -/
theorem mergeKeys_merges (hg : G.Regular root) (h : Partly G done (fun _ => False) g)
    (hid : (G.node id).kind = .mapping) :
    G.MergedTo done (fun _ => False) g id (g.mergeKeys id) :=
  ofMapping_merges hg _ done (fun _ => False) g id h hid
    (fun _ _ => not_false) (Nat.lt_succ_self _)

end YamlGraph

end JsonSchema.Yaml
