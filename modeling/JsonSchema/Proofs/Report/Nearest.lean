import JsonSchema.Proofs.Json.Members
import JsonSchema.Proofs.Text.Split
import JsonSchema.Report.Source
import Mathlib.Data.List.Induction
import Mathlib.Data.List.Infix
import Mathlib.Data.Nat.Find
import Mathlib.Logic.Function.Iterate

/-!
# The nearest recorded place

A search in a source map goes from a pointer to the text before its last slash, and so on. For the
pointer of a path that is from each beginning of the path to the next shorter one, and the empty
pointer ends it. Any other text may have no slash in front, and then the search ends only where
something is recorded.
-/

namespace JsonSchema

namespace SourceMap

variable {map : SourceMap} {pointer outer before last : String} {found : Option SourceEntry}

/-! ## The text before the last slash -/

theorem toList_slash (before last : String) :
    (before ++ "/" ++ last).toList = before.toList ++ '/' :: last.toList := by
  rw [String.toList_append, String.toList_append, List.append_assoc]
  rfl

theorem parent_append (h : '/' ∉ last.toList) : parent (before ++ "/" ++ last) = before := by
  rw [parent, toList_slash, cutLastChars?_append h]
  exact String.ofList_toList

theorem parent_of_notMem (h : '/' ∉ pointer.toList) : parent pointer = pointer := by
  rw [parent, cutLastChars?_eq_none h]

theorem exists_eq_parent (h : '/' ∈ pointer.toList) :
    ∃ last, pointer = parent pointer ++ "/" ++ last ∧ '/' ∉ last.toList := by
  obtain ⟨before, last, hcs, hlast⟩ := exists_last_mark h
  have hpointer : pointer = String.ofList before ++ "/" ++ String.ofList last := by
    rw [← String.toList_inj, toList_slash, hcs, String.toList_ofList, String.toList_ofList]
  have hlast : '/' ∉ (String.ofList last).toList := by rwa [String.toList_ofList]
  refine ⟨String.ofList last, ?_, hlast⟩
  rw [hpointer, parent_append hlast]

theorem length_parent_lt (h : '/' ∈ pointer.toList) : (parent pointer).length < pointer.length := by
  obtain ⟨last, hpointer, -⟩ := exists_eq_parent h
  have hlength := congrArg String.length hpointer
  simp only [String.length_append] at hlength
  have hslash : "/".length = 1 := rfl
  omega

/-! ## The texts around a pointer -/

/-- The text itself, or what stands before one of its slashes. -/
def Around (outer pointer : String) : Prop :=
  outer = pointer ∨ ∃ rest, pointer = outer ++ "/" ++ rest

theorem Around.slash_mem (h : Around outer pointer) (hne : outer ≠ pointer) :
    '/' ∈ pointer.toList := by
  obtain ⟨rest, rfl⟩ := h.resolve_left hne
  rw [toList_slash]
  simp

theorem around_parent (h : Around outer pointer) (hne : outer ≠ pointer) :
    Around outer (parent pointer) := by
  obtain ⟨last, hpointer, hlast⟩ := exists_eq_parent (h.slash_mem hne)
  obtain ⟨rest, hrest⟩ := h.resolve_left hne
  have heq := congrArg String.toList (hpointer.symm.trans hrest)
  rw [toList_slash, toList_slash, List.append_eq_append_iff] at heq
  rcases heq with ⟨more, houter, hmore⟩ | ⟨more, hparent, hmore⟩
  · cases more with
    | nil => exact .inl (String.toList_inj.mp (houter.trans (List.append_nil _)))
    | cons c more =>
      rw [List.cons_append] at hmore
      rw [(List.cons.inj hmore).2] at hlast
      simp at hlast
  · cases more with
    | nil => exact .inl (String.toList_inj.mp (hparent.trans (List.append_nil _)).symm)
    | cons c more =>
      obtain ⟨rfl, -⟩ := List.cons.inj hmore
      refine .inr ⟨String.ofList more, ?_⟩
      rw [← String.toList_inj, toList_slash, hparent, String.toList_ofList]

theorem around_of_parent (h : Around outer (parent pointer)) : Around outer pointer := by
  by_cases hslash : '/' ∈ pointer.toList
  · obtain ⟨last, hpointer, -⟩ := exists_eq_parent hslash
    rcases h with rfl | ⟨rest, hrest⟩
    · exact .inr ⟨last, hpointer⟩
    · refine .inr ⟨rest ++ "/" ++ last, ?_⟩
      rw [hpointer, hrest]
      simp only [String.append_assoc]
  · rwa [parent_of_notMem hslash] at h

theorem around_iff_iterate : Around outer pointer ↔ ∃ n, parent^[n] pointer = outer := by
  constructor
  · intro h
    induction hlength : pointer.length using Nat.strong_induction_on generalizing pointer with
    | _ length ih =>
      by_cases hne : outer = pointer
      · exact ⟨0, hne.symm⟩
      · obtain ⟨n, hn⟩ := ih _ (hlength ▸ length_parent_lt (h.slash_mem hne))
          (around_parent h hne) rfl
        exact ⟨n + 1, hn⟩
  · rintro ⟨n, rfl⟩
    induction n generalizing pointer with
    | zero => exact .inl rfl
    | succ n ih => exact around_of_parent ih

/-! ## Searches -/

def GoesOn (map : SourceMap) (pointer : String) : Prop :=
  map.recorded? pointer = none ∧ pointer ≠ ""

instance : Decidable (map.GoesOn pointer) := inferInstanceAs (Decidable (_ ∧ _))

theorem step_eq (next : String → Option (Option SourceEntry)) :
    (match map.recorded? pointer with
      | some entry => some (some entry)
      | none => if pointer == "" then some none else next (parent pointer)) =
      if map.GoesOn pointer then next (parent pointer) else some (map.recorded? pointer) := by
  cases hentry : map.recorded? pointer with
  | some entry => simp [GoesOn, hentry]
  | none => by_cases hempty : pointer = "" <;> simp [GoesOn, hentry, hempty]

theorem search_of_goesOn (h : map.GoesOn pointer) :
    map.search pointer = map.search (parent pointer) := by
  rw [search]
  exact (step_eq _).trans (if_pos h)

theorem search_of_not_goesOn (h : ¬ map.GoesOn pointer) :
    map.search pointer = some (map.recorded? pointer) := by
  rw [search]
  exact (step_eq map.search).trans (if_neg h)

/-- A search ends at the first text where it does not go on, with what is recorded there. -/
theorem search_eq_some_iff : map.search pointer = some found ↔
    ∃ n, (∀ m < n, map.GoesOn (parent^[m] pointer)) ∧ ¬ map.GoesOn (parent^[n] pointer) ∧
      map.recorded? (parent^[n] pointer) = found := by
  constructor
  · intro h
    refine search.partial_correctness map (fun pointer found =>
      ∃ n, (∀ m < n, map.GoesOn (parent^[m] pointer)) ∧ ¬ map.GoesOn (parent^[n] pointer) ∧
        map.recorded? (parent^[n] pointer) = found) ?_ pointer found h
    intro search ih pointer found hstep
    replace hstep := (step_eq search).symm.trans hstep
    split at hstep
    case isTrue hfirst =>
      obtain ⟨n, hgoes, hstops, hfound⟩ := ih _ _ hstep
      refine ⟨n + 1, fun m hm => ?_, hstops, hfound⟩
      cases m with
      | zero => exact hfirst
      | succ m => exact hgoes m (Nat.lt_of_succ_lt_succ hm)
    case isFalse hstops =>
      exact ⟨0, fun m hm => absurd hm m.not_lt_zero, hstops, Option.some.inj hstep⟩
  · rintro ⟨n, hgoes, hstops, rfl⟩
    induction n generalizing pointer with
    | zero => exact search_of_not_goesOn hstops
    | succ n ih =>
      have hfirst : map.GoesOn pointer := hgoes 0 n.succ_pos
      rw [search_of_goesOn hfirst]
      exact ih (fun m hm => hgoes (m + 1) (Nat.succ_lt_succ hm)) hstops

theorem search_ends_iff :
    (∃ found, map.search pointer = some found) ↔ ∃ n, ¬ map.GoesOn (parent^[n] pointer) := by
  constructor
  · rintro ⟨found, hfound⟩
    obtain ⟨n, -, hstops, -⟩ := search_eq_some_iff.mp hfound
    exact ⟨n, hstops⟩
  · intro hstops
    exact ⟨_, search_eq_some_iff.mpr ⟨Nat.find hstops,
      fun m hm => not_not.mp (Nat.find_min hstops hm), Nat.find_spec hstops, rfl⟩⟩

theorem not_goesOn_iff : ¬ map.GoesOn pointer ↔ pointer = "" ∨ (map.recorded? pointer).isSome := by
  rw [GoesOn, not_and_or, not_not, or_comm, Option.isSome_iff_ne_none]

theorem around_empty_iff : Around "" pointer ↔ pointer = "" ∨ ∃ rest, pointer = "/" ++ rest := by
  simp only [Around, String.empty_append, eq_comm]

theorem nearest_eq_search (h : map ≠ []) : map.nearest pointer = map.search pointer := by
  rw [nearest, if_neg (by simpa using h)]

/--
A search in a map with entries ends if one of the texts that it comes to, one after the other, is
empty or recorded. This is so for every pointer that is empty or starts with a slash, and for any
other text exactly if that text or what stands before one of its slashes is recorded.
-/
theorem nearest_ends_iff (map : SourceMap) (pointer : String) :
    ((∃ found, map.nearest pointer = some found) ↔
      map = [] ∨ ∃ n, ¬ map.GoesOn (parent^[n] pointer)) ∧
    ((∃ found, map.nearest pointer = some found) ↔
      map = [] ∨ pointer = "" ∨ (∃ rest, pointer = "/" ++ rest) ∨
        ∃ outer, Around outer pointer ∧ (map.recorded? outer).isSome) := by
  have hends : (∃ found, map.nearest pointer = some found) ↔
      map = [] ∨ ∃ n, ¬ map.GoesOn (parent^[n] pointer) := by
    by_cases hmap : map = []
    · subst hmap
      exact iff_of_true ⟨none, rfl⟩ (.inl rfl)
    · rw [nearest_eq_search hmap, search_ends_iff, or_iff_right hmap]
  have hstops : (∃ n, ¬ map.GoesOn (parent^[n] pointer)) ↔
      pointer = "" ∨ (∃ rest, pointer = "/" ++ rest) ∨
        ∃ outer, Around outer pointer ∧ (map.recorded? outer).isSome := by
    rw [← or_assoc, ← around_empty_iff]
    constructor
    · rintro ⟨n, hn⟩
      rcases not_goesOn_iff.mp hn with hempty | hentry
      · exact .inl (around_iff_iterate.mpr ⟨n, hempty⟩)
      · exact .inr ⟨_, around_iff_iterate.mpr ⟨n, rfl⟩, hentry⟩
    · rintro (hempty | ⟨outer, houter, hentry⟩)
      · obtain ⟨n, hn⟩ := around_iff_iterate.mp hempty
        exact ⟨n, not_goesOn_iff.mpr (.inl hn)⟩
      · obtain ⟨n, rfl⟩ := around_iff_iterate.mp houter
        exact ⟨n, not_goesOn_iff.mpr (.inr hentry)⟩
  exact ⟨hends, by rw [hends, hstops]⟩

/-- A text without a slash is its own parent, and a search that goes on there has no end. -/
theorem nearest_eq_none (hslash : '/' ∉ pointer.toList) (hmap : map ≠ [])
    (hgoes : map.GoesOn pointer) : map.nearest pointer = none := by
  rw [nearest_eq_search hmap, Option.eq_none_iff_forall_ne_some]
  intro found hfound
  obtain ⟨n, hstops⟩ := search_ends_iff.mp ⟨found, hfound⟩
  rw [Function.iterate_fixed (parent_of_notMem hslash)] at hstops
  exact hstops hgoes

example : nearest [("/q", ⟨some 1, some 1⟩)] "a" = none :=
  nearest_eq_none (by decide) (by decide) ⟨by decide, by decide⟩

/-! ## Paths -/

/-- The longest beginning of a path whose pointer is in the map, and what the map has for it. -/
structure Nearest (map : SourceMap) (path outer : Path) (entry : SourceEntry) : Prop where
  begins : outer <+: path
  recorded : Members.get? map outer.pointer = some entry
  longest : ∀ other : Path, other <+: path → Members.has map other.pointer = true →
    other.length ≤ outer.length

variable {path outerPath : Path} {segment : Segment} {entry entry' : SourceEntry}

theorem nearest_iff_inits : map.Nearest path outerPath entry ↔
    outerPath <+: path ∧ Members.get? map outerPath.pointer = some entry ∧
      ∀ other ∈ path.inits, Members.has map (Path.pointer other) = true →
        other.length ≤ outerPath.length := by
  simp only [List.mem_inits]
  exact ⟨fun h => ⟨h.begins, h.recorded, h.longest⟩, fun h => ⟨h.1, h.2.1, h.2.2⟩⟩

instance : Decidable (map.Nearest path outerPath entry) :=
  decidable_of_iff _ nearest_iff_inits.symm

theorem Nearest.self (h : Members.get? map path.pointer = some entry) :
    map.Nearest path path entry :=
  ⟨List.prefix_rfl, h, fun _ hother _ => hother.length_le⟩

theorem Nearest.concat (h : map.Nearest path outerPath entry)
    (hnone : Members.has map (Path.pointer (path ++ [segment])) = false) :
    map.Nearest (path ++ [segment]) outerPath entry where
  begins := h.begins.trans (List.prefix_append _ _)
  recorded := h.recorded
  longest other hother hhas := by
    rcases List.prefix_concat_iff.mp hother with rfl | hother
    · rw [hnone] at hhas
      cases hhas
    · exact h.longest other hother hhas

theorem Nearest.has (h : map.Nearest path outerPath entry) :
    Members.has map outerPath.pointer = true := by
  rw [Members.has, h.recorded]
  rfl

theorem Nearest.unique (h : map.Nearest path outerPath entry) {outerPath' : Path}
    (h' : map.Nearest path outerPath' entry') : entry = entry' := by
  have hlength : outerPath.length = outerPath'.length :=
    le_antisymm (h'.longest _ h.begins h.has) (h.longest _ h'.begins h'.has)
  have hsame : outerPath = outerPath' :=
    (List.prefix_of_prefix_length_le h.begins h'.begins hlength.le).eq_of_length hlength
  subst hsame
  exact Option.some.inj (h.recorded.symm.trans h'.recorded)

theorem exists_pointer_concat (path : Path) (segment : Segment) : ∃ last : String,
    Path.pointer (path ++ [segment]) = path.pointer ++ "/" ++ last ∧ '/' ∉ last.toList := by
  refine ⟨Pointer.escape (Pointer.token segment), ?_, ?_⟩
  · rw [Path.pointer_append, ← String.toList_inj, String.toList_append, toList_slash, Path.pointer,
      Path.pointer, Pointer.toList_ofTokens, Pointer.toList_ofTokens, Pointer.escape,
      String.toList_ofList]
    simp [Pointer.chars]
  · rw [Pointer.escape, String.toList_ofList]
    exact Pointer.slash_notMem_escapeChars _

theorem parent_pointer_concat (path : Path) (segment : Segment) :
    parent (Path.pointer (path ++ [segment])) = path.pointer := by
  obtain ⟨last, hpointer, hlast⟩ := exists_pointer_concat path segment
  rw [hpointer, parent_append hlast]

theorem pointer_concat_ne_empty (path : Path) (segment : Segment) :
    Path.pointer (path ++ [segment]) ≠ "" := by
  obtain ⟨last, hpointer, -⟩ := exists_pointer_concat path segment
  rw [hpointer, Ne, ← String.toList_inj, toList_slash]
  simp

theorem iterate_parent_path (path : Path) : parent^[path.length] path.pointer = "" := by
  induction path using List.reverseRecOn with
  | nil => rfl
  | append_singleton path segment ih =>
    rw [List.length_append, List.length_singleton, Function.iterate_succ_apply,
      parent_pointer_concat, ih]

theorem exists_nearest_path (map : SourceMap) (path : Path) :
    ∃ found, map.nearest path.pointer = some found := by
  by_cases hmap : map = []
  · subst hmap
    exact ⟨none, rfl⟩
  · rw [nearest_eq_search hmap]
    exact search_ends_iff.mpr ⟨path.length, not_goesOn_iff.mpr (.inl (iterate_parent_path path))⟩

section

variable (hplaces : ∀ recorded ∈ map, recorded.2.line.isSome ∧ recorded.2.column.isSome)

include hplaces

theorem recorded?_eq_get? (pointer : String) : map.recorded? pointer = Members.get? map pointer := by
  rw [recorded?]
  cases hentry : Members.get? map pointer with
  | none => rfl
  | some entry =>
    obtain ⟨hline, -⟩ := hplaces _ (Members.mem_of_get? hentry)
    simp [SourceEntry.isBlank, hline]

theorem search_of_get? (h : Members.get? map pointer = some entry) :
    map.search pointer = some (some entry) := by
  have hentry : map.recorded? pointer = some entry := (recorded?_eq_get? hplaces pointer).trans h
  have hstops : ¬ map.GoesOn pointer := fun hgoes => nomatch hentry.symm.trans hgoes.1
  rw [search_of_not_goesOn hstops, hentry]

theorem search_root (h : Members.get? map "" = none) : map.search "" = some none := by
  rw [search_of_not_goesOn fun hgoes => hgoes.2 rfl, recorded?_eq_get? hplaces, h]

theorem search_concat (h : Members.get? map (Path.pointer (path ++ [segment])) = none) :
    map.search (Path.pointer (path ++ [segment])) = map.search path.pointer := by
  have hgoes : map.GoesOn (Path.pointer (path ++ [segment])) :=
    ⟨(recorded?_eq_get? hplaces _).trans h, pointer_concat_ne_empty path segment⟩
  rw [search_of_goesOn hgoes, parent_pointer_concat]

/-- From the pointer of a path a search comes to its longest recorded beginning, or to the root. -/
theorem search_path (path : Path) :
    (∃ outer entry, map.Nearest path outer entry ∧
        map.search path.pointer = some (some entry)) ∨
      (∀ outer : Path, outer <+: path → Members.has map outer.pointer = false) ∧
        map.search path.pointer = some none := by
  induction path using List.reverseRecOn with
  | nil =>
    cases hentry : Members.get? map (Path.pointer []) with
    | some entry => exact .inl ⟨[], entry, .self hentry, search_of_get? hplaces hentry⟩
    | none =>
      refine .inr ⟨fun outer houter => ?_, search_root hplaces hentry⟩
      rw [List.prefix_nil.mp houter, Members.has, hentry]
      rfl
  | append_singleton path segment ih =>
    cases hentry : Members.get? map (Path.pointer (path ++ [segment])) with
    | some entry => exact .inl ⟨_, entry, .self hentry, search_of_get? hplaces hentry⟩
    | none =>
      have hhas : Members.has map (Path.pointer (path ++ [segment])) = false := by
        rw [Members.has, hentry]
        rfl
      rw [search_concat hplaces hentry]
      rcases ih with ⟨outer, entry, hnearest, hsearch⟩ | ⟨hnone, hsearch⟩
      · exact .inl ⟨outer, entry, hnearest.concat hhas, hsearch⟩
      · refine .inr ⟨fun outer houter => ?_, hsearch⟩
        rcases List.prefix_concat_iff.mp houter with rfl | houter
        · exact hhas
        · exact hnone outer houter

theorem nearest_path (path : Path) :
    (∃ outer entry, map.Nearest path outer entry ∧
        map.nearest path.pointer = some (some entry)) ∨
      (∀ outer : Path, outer <+: path → Members.has map outer.pointer = false) ∧
        map.nearest path.pointer = some none := by
  by_cases hmap : map = []
  · subst hmap
    exact .inr ⟨fun _ _ => rfl, rfl⟩
  · rw [nearest_eq_search hmap]
    exact search_path hplaces path

end

theorem locate_of_nearest (h : map.nearest pointer = some found) (file : Option FilePath) :
    map.locate (some pointer) file =
      ⟨file, some pointer, found.bind (·.line), found.bind (·.column)⟩ := by
  rw [locate, Option.bind_some, h]
  cases found <;> rfl

/--
Where every entry has a line and a column, a value is located at the longest beginning of its path
that is recorded, and nowhere exactly if none is, not even the empty one. The search always ends,
and the pointer is the one that was asked for.
-/
theorem located_at_longest_recorded (map : SourceMap)
    (hplaces : ∀ recorded ∈ map, recorded.2.line.isSome ∧ recorded.2.column.isSome)
    (path : Path) (file : Option FilePath) :
    (∃ found, map.nearest path.pointer = some found) ∧
      (∀ outer entry, map.Nearest path outer entry →
        map.locate (some path.pointer) file =
          ⟨file, some path.pointer, entry.line, entry.column⟩) ∧
      ((map.locate (some path.pointer) file).line = none ↔
        ∀ outer : Path, outer <+: path → Members.has map outer.pointer = false) ∧
      ((map.locate (some path.pointer) file).column = none ↔
        ∀ outer : Path, outer <+: path → Members.has map outer.pointer = false) ∧
      (map.locate (some path.pointer) file).pointer = some path.pointer := by
  rcases nearest_path hplaces path with ⟨outer, entry, hnearest, hfound⟩ | ⟨hnone, hfound⟩
  · obtain ⟨hline, hcolumn⟩ := hplaces _ (Members.mem_of_get? hnearest.recorded)
    have hsome : ¬ ∀ outer : Path, outer <+: path → Members.has map outer.pointer = false :=
      fun hnone => nomatch hnearest.has.symm.trans (hnone outer hnearest.begins)
    rw [locate_of_nearest hfound]
    refine ⟨exists_nearest_path map path, fun other entry' hother => ?_, iff_of_false ?_ hsome,
      iff_of_false ?_ hsome, rfl⟩
    · rw [hother.unique hnearest]
      rfl
    · exact Option.isSome_iff_ne_none.mp hline
    · exact Option.isSome_iff_ne_none.mp hcolumn
  · rw [locate_of_nearest hfound]
    refine ⟨exists_nearest_path map path, fun other entry hother => ?_, iff_of_true rfl hnone,
      iff_of_true rfl hnone, rfl⟩
    exact nomatch hother.has.symm.trans (hnone other hother.begins)

def slashedMap : SourceMap := [("", ⟨some 1, some 1⟩), ("/a~1b", ⟨some 9, some 2⟩)]

/-- What stands below that name, behind an empty one, is located at it; another name at the root. -/
theorem slashedMap_located :
    (∀ recorded ∈ slashedMap, recorded.2.line.isSome ∧ recorded.2.column.isSome) ∧
      slashedMap.locate (some "/a~1b//0") none = ⟨none, some "/a~1b//0", some 9, some 2⟩ ∧
      slashedMap.locate (some "/a") none = ⟨none, some "/a", some 1, some 1⟩ := by
  have hplaces : ∀ recorded ∈ slashedMap,
      recorded.2.line.isSome ∧ recorded.2.column.isSome := by decide
  have hbelow : Path.pointer [.name "a/b", .name "", .index 0] = "/a~1b//0" := by decide +kernel
  have hbeside : Path.pointer [.name "a"] = "/a" := by decide +kernel
  refine ⟨hplaces, ?_, ?_⟩
  · rw [← hbelow]
    exact (located_at_longest_recorded slashedMap hplaces _ none).2.1 [.name "a/b"]
      ⟨some 9, some 2⟩ (by decide +kernel)
  · rw [← hbeside]
    exact (located_at_longest_recorded slashedMap hplaces _ none).2.1 [] ⟨some 1, some 1⟩
      (by decide +kernel)

end SourceMap

end JsonSchema
