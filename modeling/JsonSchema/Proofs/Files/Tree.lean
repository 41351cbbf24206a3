import JsonSchema.Files.Tree
import JsonSchema.Proofs.Json.Members
import JsonSchema.Proofs.Text.Split
import Mathlib

/-!
# Paths and well-formed trees

Paths in normal form are ordered by their parts, and no two of them are equal in that order. In a
well-formed tree every entry has a name in a directory, so a path names what stands at its location.
-/

namespace JsonSchema

/-! ## Paths in normal form -/

namespace FilePath

variable {a b c path : FilePath} {as bs : List String}

/-- Parts are not empty and no single dot, and slashes stand between them only. -/
def IsNormal (path : FilePath) : Prop :=
  ∀ part ∈ path.parts, isProperPart part = true ∧ '/' ∉ part.toList

instance (path : FilePath) : Decidable path.IsNormal :=
  inferInstanceAs (Decidable (∀ part ∈ path.parts, _ ∧ _))

/-- The path leads from the directory through names only. -/
def IsBelow (directory path : FilePath) : Prop :=
  ∃ names, names ≠ [] ∧ ".." ∉ names ∧ path = directory.append ⟨.relative, names⟩

theorem isNormal_ofText (text : String) : (ofText text).IsNormal := by
  intro part hpart
  obtain ⟨hsplit, hproper⟩ := List.mem_filter.mp hpart
  obtain ⟨chars, hchars, rfl⟩ := List.mem_map.mp hsplit
  rw [String.toList_ofList]
  exact ⟨hproper, mark_notMem_of_mem_splitChars hchars⟩

theorem compareKeys_eq (as bs : List String) :
    order.compareKeys as bs = List.compareLex compare as bs := by
  induction as generalizing bs with
  | nil => cases bs <;> rfl
  | cons a as ih =>
    cases bs with
    | nil => rfl
    | cons b bs => rw [order.compareKeys, List.compareLex_cons_cons, ih]

theorem order_isLE_trans (hab : (a.order b).isLE = true) (hbc : (b.order c).isLE = true) :
    (a.order c).isLE = true := by
  rw [order, compareKeys_eq] at *
  exact Std.TransCmp.isLE_trans hab hbc

theorem order_isLE_total (a b : FilePath) : ((a.order b).isLE || (b.order a).isLE) = true := by
  have hswap : List.compareLex compare b.orderKey a.orderKey =
      (List.compareLex compare a.orderKey b.orderKey).swap := Std.OrientedCmp.eq_swap
  rw [order, order, compareKeys_eq, compareKeys_eq, hswap]
  cases List.compareLex compare a.orderKey b.orderKey <;> rfl

theorem order_eq_of_isLE (hab : (a.order b).isLE = true) (hba : (b.order a).isLE = true) :
    a.order b = .eq := by
  rw [order, compareKeys_eq] at *
  exact Std.OrientedCmp.isLE_antisymm hab hba

/-- No part is the text of a root, so a path that starts with one is no relative path. -/
theorem IsNormal.notMem_rootText (h : path.IsNormal) {start : PathRoot}
    (hstart : start ≠ .relative) : rootText start ∉ path.parts := by
  intro hpart
  have hslash := (h _ hpart).2
  cases start with
  | relative => exact hstart rfl
  | root | doubleRoot => exact hslash (by decide)

theorem orderKey_relative (parts : List String) : orderKey ⟨.relative, parts⟩ = parts := rfl

theorem orderKey_absolute {start : PathRoot} (h : start ≠ .relative) (parts : List String) :
    orderKey ⟨start, parts⟩ = rootText start :: parts :=
  if_pos (by simpa [isAbsolute] using h)

theorem IsNormal.eq_of_orderKey (ha : a.IsNormal) (hb : b.IsNormal)
    (h : a.orderKey = b.orderKey) : a = b := by
  obtain ⟨start, parts⟩ := a
  obtain ⟨start', parts'⟩ := b
  by_cases hstart : start = .relative <;> by_cases hstart' : start' = .relative
  · subst hstart hstart'
    exact congrArg (FilePath.mk .relative) h
  · subst hstart
    rw [orderKey_relative, orderKey_absolute hstart'] at h
    exact absurd (h ▸ List.mem_cons_self) (ha.notMem_rootText hstart')
  · subst hstart'
    rw [orderKey_relative, orderKey_absolute hstart] at h
    exact absurd (h ▸ List.mem_cons_self) (hb.notMem_rootText hstart)
  · rw [orderKey_absolute hstart, orderKey_absolute hstart'] at h
    obtain ⟨hroot, hparts⟩ := List.cons.inj h
    obtain rfl : start = start' := by
      cases start <;> cases start' <;> simp_all [rootText]
    exact congrArg _ hparts

theorem IsNormal.eq_of_order (ha : a.IsNormal) (hb : b.IsNormal) (h : a.order b = .eq) : a = b := by
  rw [order, compareKeys_eq] at h
  exact ha.eq_of_orderKey hb (Std.LawfulEqCmp.eq_of_compare h)

end FilePath

/-! ## Well-formed trees -/

namespace FileTree

variable {tree : FileTree} {here location : Location} {names parts : List String}
  {entry : FileEntry} {directory path : FilePath}

/-- A name of an entry: not empty, without dots in the place of a name and without a slash. -/
def IsName (part : String) : Prop :=
  FilePath.isProperPart part = true ∧ part ≠ ".." ∧ '/' ∉ part.toList

instance (part : String) : Decidable (IsName part) := inferInstanceAs (Decidable (_ ∧ _ ∧ _))

/-- Every entry has a name at every step, and a directory around it. -/
structure WellFormed (tree : FileTree) : Prop where
  named : ∀ item ∈ tree.entries, ∀ part ∈ item.1, IsName part
  inside : ∀ item ∈ tree.entries, ∀ length < item.1.length,
    tree.entryAt? (item.1.take length) = some .directory

instance (tree : FileTree) : Decidable tree.WellFormed :=
  decidable_of_iff _
    (Iff.intro (fun h => WellFormed.mk h.1 h.2) fun h => And.intro h.named h.inside)

def IsFile (tree : FileTree) (path : FilePath) : Prop :=
  ∃ content, tree.entry? path = some (.file content)

def IsDirectory (tree : FileTree) (path : FilePath) : Prop := tree.entry? path = some .directory

theorem IsFile.isSome_entry? (h : tree.IsFile path) : (tree.entry? path).isSome = true := by
  obtain ⟨content, hcontent⟩ := h
  rw [hcontent]
  rfl

theorem follow_append (here : Location) (parts more : List String) :
    tree.follow here (parts ++ more) = (tree.follow here parts).bind (tree.follow · more) := by
  induction parts generalizing here with
  | nil => rfl
  | cons part rest ih =>
    rw [List.cons_append, follow, follow]
    split
    · exact ih _
    · rfl

theorem follow_names (hnames : ".." ∉ names) : tree.follow here names = some location ↔
    location = here ++ names ∧
      ∀ length < names.length, tree.entryAt? (here ++ names.take length) = some .directory := by
  induction names generalizing here with
  | nil => simp [follow, eq_comm]
  | cons name rest ih =>
    obtain ⟨hname, hrest⟩ : ".." ≠ name ∧ ".." ∉ rest := by simpa using hnames
    rw [follow]
    by_cases hhere : tree.entryAt? here = some .directory
    · rw [if_pos hhere, if_neg (by simpa using hname.symm), ih hrest, List.append_assoc,
        List.singleton_append]
      refine and_congr_right fun _ => ?_
      constructor
      · intro h length hlength
        cases length with
        | zero => simpa using hhere
        | succ length => simpa using h length (by simpa using hlength)
      · intro h length hlength
        simpa using h (length + 1) (by simpa using hlength)
    · rw [if_neg hhere]
      refine ⟨nofun, fun h => absurd ?_ hhere⟩
      simpa using h.2 0 (by simp)

theorem mem_entries_of_entryAt? (h : tree.entryAt? location = some entry) (hroot : location ≠ []) :
    (location, entry) ∈ tree.entries := by
  rw [entryAt?, if_neg (by simpa using hroot)] at h
  exact mem_of_lookup h

theorem isSome_entryAt? (h : (location, entry) ∈ tree.entries) :
    (tree.entryAt? location).isSome = true := by
  rw [entryAt?]
  split
  · rfl
  · rw [Option.isSome_iff_ne_none, ne_eq, lookup_eq_none_iff, not_not]
    exact List.mem_map.mpr ⟨_, h, rfl⟩

theorem inside?_eq_some {base : Location} : inside? base location = some names ↔
    names ≠ [] ∧ location = base ++ names := by
  rw [inside?, Option.ite_none_right_eq_some, Bool.and_eq_true, List.isPrefixOf_iff_prefix,
    Option.some.injEq]
  constructor
  · rintro ⟨⟨⟨more, rfl⟩, hlength⟩, rfl⟩
    rw [List.drop_left]
    refine ⟨?_, rfl⟩
    rintro rfl
    simp at hlength
  · rintro ⟨hnames, rfl⟩
    refine ⟨⟨List.prefix_append .., ?_⟩, List.drop_left⟩
    simpa using hnames

theorem entry?_append (directory : FilePath) (names : List String) :
    tree.entry? (directory.append ⟨.relative, names⟩) =
      ((tree.location? directory).bind (tree.follow · names)).bind tree.entryAt? :=
  congrArg (Option.bind · tree.entryAt?) (follow_append ..)

theorem mem_entries_below (hnonempty : names ≠ []) (hdots : ".." ∉ names)
    (h : tree.entry? (directory.append ⟨.relative, names⟩) = some entry) :
    ∃ base, tree.location? directory = some base ∧ (base ++ names, entry) ∈ tree.entries := by
  rw [entry?_append] at h
  obtain ⟨location, hlocation, hentry⟩ := Option.bind_eq_some_iff.mp h
  obtain ⟨base, hbase, hfollow⟩ := Option.bind_eq_some_iff.mp hlocation
  obtain ⟨rfl, -⟩ := (follow_names hdots).mp hfollow
  exact ⟨base, hbase, mem_entries_of_entryAt? hentry (by simp [hnonempty])⟩

namespace WellFormed

theorem follow_to (h : tree.WellFormed) (hentry : (here ++ names, entry) ∈ tree.entries) :
    tree.follow here names = some (here ++ names) := by
  have hdots : ".." ∉ names := fun hpart =>
    (h.named _ hentry ".." (List.mem_append_right here hpart)).2.1 rfl
  refine (follow_names hdots).mpr ⟨rfl, fun length hlength => ?_⟩
  have hinside := h.inside _ hentry (here.length + length) (by simpa using hlength)
  rwa [List.take_length_add_append] at hinside

theorem mem_pathsBelow (h : tree.WellFormed) : path ∈ tree.pathsBelow directory ↔
    directory.IsBelow path ∧ (tree.entry? path).isSome = true := by
  constructor
  · intro hpath
    rw [pathsBelow] at hpath
    split at hpath
    case h_1 => cases hpath
    case h_2 base hbase =>
      obtain ⟨⟨_, entry⟩, hentry, hinside⟩ := List.mem_filterMap.mp hpath
      obtain ⟨names, hnames, rfl⟩ := Option.map_eq_some_iff.mp hinside
      obtain ⟨hnonempty, rfl⟩ := inside?_eq_some.mp hnames
      refine ⟨⟨names, hnonempty, fun hpart => ?_, rfl⟩, ?_⟩
      · exact (h.named _ hentry ".." (List.mem_append_right base hpart)).2.1 rfl
      · rw [entry?_append, hbase, Option.bind_some, h.follow_to hentry]
        exact isSome_entryAt? hentry
  · rintro ⟨⟨names, hnonempty, hdots, rfl⟩, hsome⟩
    obtain ⟨entry, hentry⟩ := Option.isSome_iff_exists.mp hsome
    obtain ⟨base, hbase, hmem⟩ := mem_entries_below hnonempty hdots hentry
    rw [pathsBelow, hbase]
    refine List.mem_filterMap.mpr ⟨_, hmem, ?_⟩
    rw [inside?_eq_some.mpr ⟨hnonempty, rfl⟩, Option.map_some]

theorem isNormal_of_isBelow (h : tree.WellFormed) (hdirectory : directory.IsNormal)
    (hbelow : directory.IsBelow path) (hsome : (tree.entry? path).isSome = true) :
    path.IsNormal := by
  obtain ⟨names, hnonempty, hdots, rfl⟩ := hbelow
  obtain ⟨entry, hentry⟩ := Option.isSome_iff_exists.mp hsome
  obtain ⟨base, -, hmem⟩ := mem_entries_below hnonempty hdots hentry
  refine List.forall_mem_append.mpr ⟨hdirectory, fun part hpart => ?_⟩
  obtain ⟨hproper, -, hslash⟩ := h.named _ hmem part (List.mem_append_right base hpart)
  exact ⟨hproper, hslash⟩

end WellFormed

/-! ## Writing -/

theorem lookup_filter_ne (entries : List (Location × FileEntry)) {other : Location}
    (h : other ≠ location) :
    (entries.filter (·.1 != location)).lookup other = entries.lookup other := by
  induction entries with
  | nil => rfl
  | cons item rest ih =>
    by_cases hitem : item.1 = location
    · rw [List.filter_cons_of_neg (by simpa using hitem), List.lookup_cons, ih,
        beq_false_of_ne (hitem ▸ h)]
    · rw [List.filter_cons_of_pos (by simpa using hitem), List.lookup_cons, List.lookup_cons, ih]

theorem entryAt?_put (hroot : location ≠ []) (entry : FileEntry) (other : Location) :
    (tree.put location entry).entryAt? other =
      if other = location then some entry else tree.entryAt? other := by
  by_cases hother : other = location
  · rw [if_pos hother, hother, entryAt?, if_neg (by simpa using hroot), put, List.lookup_cons_self]
  · rw [if_neg hother, entryAt?, entryAt?, put, List.lookup_cons, beq_false_of_ne hother]
    exact congrArg _ (lookup_filter_ne tree.entries hother)

namespace WellFormed

theorem put (h : tree.WellFormed) (hroot : location ≠ []) (hnames : ∀ part ∈ location, IsName part)
    (haround : ∀ length < location.length,
      tree.entryAt? (location.take length) = some .directory)
    (hfree : entry = .directory ∨ ∀ item ∈ tree.entries, inside? location item.1 = none) :
    (tree.put location entry).WellFormed := by
  have hitems (item : Location × FileEntry) (hitem : item ∈ (tree.put location entry).entries) :
      item = (location, entry) ∨ item ∈ tree.entries :=
    (List.mem_cons.mp hitem).imp_right List.mem_of_mem_filter
  refine ⟨fun item hitem => ?_, fun item hitem length hlength => ?_⟩
  · obtain rfl | hold := hitems item hitem
    · exact hnames
    · exact h.named item hold
  · rw [entryAt?_put hroot]
    split
    case isTrue hplace =>
      obtain rfl | hold := hitems item hitem
      · have hshort : length < location.length := hlength
        exact absurd (congrArg List.length hplace) (by rw [List.length_take]; omega)
      · have hinside : inside? location item.1 = some (item.1.drop length) :=
          inside?_eq_some.mpr ⟨by simpa using hlength, by rw [← hplace, List.take_append_drop]⟩
        rw [hfree.resolve_right fun hnone => by rw [hnone item hold] at hinside; cases hinside]
    case isFalse =>
      obtain rfl | hold := hitems item hitem
      · exact haround length hlength
      · exact h.inside item hold length hlength

end WellFormed

def IsOpen (tree : FileTree) (location : Location) : Prop :=
  ∀ length < location.length, ∀ entry, tree.entryAt? (location.take length) = some entry →
    entry = .directory

/-- The tree with the first directories around a location in it. -/
structure Around (tree : FileTree) (location : Location) (count : Nat) (made : FileTree) :
    Prop where
  wellFormed : made.WellFormed
  directories : ∀ length < count, made.entryAt? (location.take length) = some .directory
  elsewhere : ∀ length, count ≤ length → length ≤ location.length →
    made.entryAt? (location.take length) = tree.entryAt? (location.take length)
  entries : ∀ item ∈ made.entries, item ∈ tree.entries ∨
    ∃ length < location.length, item.1 = location.take length

namespace Around

variable {made : FileTree} {count : Nat}

theorem skip (h : tree.Around location count made)
    (hthere : made.entryAt? (location.take count) = some .directory) :
    tree.Around location (count + 1) made where
  wellFormed := h.wellFormed
  directories length hlength := by
    obtain hlength | rfl := Nat.lt_succ_iff_lt_or_eq.mp hlength
    · exact h.directories length hlength
    · exact hthere
  elsewhere length hlength := h.elsewhere length (by omega)
  entries := h.entries

theorem make (h : tree.Around location count made) (hnames : ∀ part ∈ location, IsName part)
    (hcount : count < location.length) (hroot : location.take count ≠ []) :
    tree.Around location (count + 1) (made.put (location.take count) .directory) where
  wellFormed := by
    refine h.wellFormed.put hroot (fun part hpart => hnames part (List.mem_of_mem_take hpart))
      (fun length hlength => ?_) (.inl rfl)
    rw [List.length_take] at hlength
    rw [List.take_take, Nat.min_eq_left (by omega)]
    exact h.directories length (by omega)
  directories length hlength := by
    rw [entryAt?_put hroot]
    split
    case isTrue => rfl
    case isFalse hplace =>
      have hne : length ≠ count := fun heq => hplace (by rw [heq])
      exact h.directories length (by omega)
  elsewhere length hlength hle := by
    rw [entryAt?_put hroot, if_neg, h.elsewhere length (by omega) hle]
    intro hplace
    have hlengths := congrArg List.length hplace
    rw [List.length_take, List.length_take] at hlengths
    omega
  entries item hitem := by
    obtain rfl | hitem := List.mem_cons.mp hitem
    · exact .inr ⟨count, hcount, rfl⟩
    · exact h.entries item (List.mem_of_mem_filter hitem)

end Around

theorem around_makeParents (h : tree.WellFormed) (hnames : ∀ part ∈ location, IsName part)
    (hopen : tree.IsOpen location) :
    tree.Around location location.length (tree.makeParents location) := by
  have hsteps (count : Nat) (hcount : count ≤ location.length) :
      tree.Around location count ((List.range count).foldl (fun tree length =>
        if (tree.entryAt? (location.take length)).isSome then tree
        else tree.put (location.take length) .directory) tree) := by
    induction count with
    | zero => exact ⟨h, nofun, fun _ _ _ => rfl, fun _ hitem => .inl hitem⟩
    | succ count ih =>
      have hmade := ih (by omega)
      rw [List.range_succ, List.foldl_append, List.foldl_cons, List.foldl_nil]
      generalize (List.range count).foldl _ tree = made at hmade ⊢
      split
      case isTrue hsome =>
        obtain ⟨entry, hentry⟩ := Option.isSome_iff_exists.mp hsome
        have hbefore := hmade.elsewhere count (Nat.le_refl _) (by omega)
        obtain rfl := hopen count hcount entry (hbefore ▸ hentry)
        exact hmade.skip hentry
      case isFalse hnone =>
        exact hmade.make hnames hcount fun hnil => hnone (by rw [hnil]; rfl)
  exact hsteps location.length (Nat.le_refl _)

theorem isName_normalParts (h : path.IsNormal) {part : String}
    (hpart : part ∈ path.normalParts) : IsName part := by
  have hsteps (parts done : List String) (hparts : ∀ part ∈ parts, part ∈ path.parts)
      (hdone : ∀ part ∈ done, IsName part) : ∀ part ∈ parts.foldl (fun done part =>
        if part == ".." then done.drop 1 else part :: done) done, IsName part := by
    induction parts generalizing done with
    | nil => exact hdone
    | cons part rest ih =>
      refine ih _ (fun other hother => hparts other (List.mem_cons_of_mem _ hother)) ?_
      beta_reduce
      split
      case isTrue => exact fun other hother => hdone other (List.mem_of_mem_drop hother)
      case isFalse hdots =>
        obtain ⟨hproper, hslash⟩ := h part (hparts part List.mem_cons_self)
        exact List.forall_mem_cons.mpr ⟨⟨hproper, by simpa using hdots, hslash⟩, hdone⟩
  exact hsteps path.parts [] (fun _ => id) nofun part (List.mem_reverse.mp hpart)

/--
An entry can be written wherever a path leads through directories, or through nothing yet; only a
directory is written where something lies below.
-/
theorem WellFormed.write (h : tree.WellFormed)
    (hhere : FilePath.IsNormal ⟨.root, tree.workingDirectory⟩) (hpath : path.IsNormal)
    (hroot : (tree.resolve path).parts ≠ []) (hopen : tree.IsOpen (tree.resolve path).parts)
    (hfree : entry = .directory ∨
      ∀ item ∈ tree.entries, inside? (tree.resolve path).parts item.1 = none) :
    (tree.write path entry).WellFormed := by
  have hnames (part : String) (hpart : part ∈ (tree.resolve path).parts) : IsName part := by
    refine isName_normalParts ?_ hpart
    refine List.forall_mem_append.mpr ⟨?_, hpath⟩
    rw [startOf]
    split
    · exact nofun
    · exact hhere
  have hmade := around_makeParents h hnames hopen
  refine hmade.wellFormed.put hroot hnames hmade.directories (hfree.imp_right ?_)
  intro hnone item hitem
  obtain hold | ⟨length, hlength, heq⟩ := hmade.entries item hitem
  · exact hnone item hold
  · rw [Option.eq_none_iff_forall_ne_some]
    intro names hinside
    have hlengths := congrArg List.length (inside?_eq_some.mp hinside).2
    rw [heq, List.length_take, List.length_append] at hlengths
    omega

end FileTree

end JsonSchema
