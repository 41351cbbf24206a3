import JsonSchema.Batch.Find
import JsonSchema.Proofs.Files.Tree

/-!
# The documents that are found

The listed files, and everything below a listed directory that has the name of a document, each of
them once and in order. Names are all that is asked for below a directory: a directory whose name
ends like that of a document is found as well.
-/

namespace JsonSchema

namespace Found

variable {tree : FileTree} {paths : List FilePath} {path : FilePath}

/-! ## Each path once -/

theorem mem_once : path ∈ once paths ↔ path ∈ paths := by
  fun_induction once paths with
  | case1 a b rest h ih => rw [ih, eq_of_beq h]; simp
  | case2 a b rest h ih => rw [List.mem_cons, ih, List.mem_cons (l := b :: rest)]
  | case3 => rfl

/-- Paths that differ are not equal in the order, so a sorted list is strictly increasing. -/
theorem pairwise_once (hsorted : paths.Pairwise fun a b => (a.order b).isLE = true)
    (hnormal : ∀ path ∈ paths, path.IsNormal) :
    (once paths).Pairwise fun a b => a.order b = .lt := by
  fun_induction once paths with
  | case1 a b rest h ih =>
    exact ih hsorted.of_cons fun path hpath => hnormal path (List.mem_cons_of_mem _ hpath)
  | case2 a b rest h ih =>
    obtain ⟨hfirst, htail⟩ := List.pairwise_cons.mp hsorted
    have hrest (path : FilePath) (hpath : path ∈ b :: rest) : path.IsNormal :=
      hnormal path (List.mem_cons_of_mem _ hpath)
    have ha : a.IsNormal := hnormal a List.mem_cons_self
    have hab : a ≠ b := by simpa using h
    refine List.pairwise_cons.mpr ⟨fun other hother => ?_, ih htail hrest⟩
    have hother := mem_once.mp hother
    have hle := hfirst other hother
    cases horder : a.order other with
    | lt => rfl
    | gt => rw [horder] at hle; cases hle
    | eq =>
      -- The path would stand behind `b` again, and `b` would be equal to it in the order.
      obtain rfl := ha.eq_of_order (hrest other hother) horder
      obtain rfl | hbehind := List.mem_cons.mp hother
      · exact absurd rfl hab
      · have hback := (List.pairwise_cons.mp htail).1 a hbehind
        have heq := FilePath.order_eq_of_isLE (hfirst b List.mem_cons_self) hback
        exact absurd (ha.eq_of_order (hrest b List.mem_cons_self) heq) hab
  | case3 paths hshort =>
    cases paths with
    | nil => exact .nil
    | cons a rest =>
      cases rest with
      | nil => exact List.pairwise_singleton _ _
      | cons b rest => exact (hshort a b rest rfl).elim

/-! ## What a path stands for -/

theorem mem_ofPath (h : tree.WellFormed) {listed : FilePath} : path ∈ (ofPath tree listed).paths ↔
    path = listed ∧ tree.IsFile listed ∨
      tree.IsDirectory listed ∧ listed.IsBelow path ∧ (tree.entry? path).isSome = true ∧
        hasDocumentName path = true := by
  unfold ofPath FileTree.IsFile FileTree.IsDirectory
  split
  case h_1 hentry => simp [warn, hentry]
  case h_2 hentry => simp [hentry]
  case h_3 hentry => simp [hentry, h.mem_pathsBelow, and_assoc]
  case h_4 hentry => simp [warn, hentry]

theorem mem_ofPaths : path ∈ (ofPaths tree paths).paths ↔
    ∃ listed ∈ paths, path ∈ (ofPath tree listed).paths := by
  rw [ofPaths, mem_once, List.mem_mergeSort]
  simp

/-! ## What is found -/

/--
The paths are those of the documents, but for directories and devices among them. A file is found
where it is listed, or where it stands below a listed directory and has the name of a document;
anything else is found in the second case only.
-/
structure Documents (tree : FileTree) (listed found : List FilePath) : Prop where
  increasing : found.Pairwise fun a b => a.order b = .lt
  file_iff (path : FilePath) (hfile : tree.IsFile path) : path ∈ found ↔ path ∈ listed ∨
    ∃ directory ∈ listed, tree.IsDirectory directory ∧ directory.IsBelow path ∧
      hasDocumentName path = true
  other_iff (path : FilePath) (hother : ¬ tree.IsFile path) : path ∈ found ↔
    ∃ directory ∈ listed, tree.IsDirectory directory ∧ directory.IsBelow path ∧
      (tree.entry? path).isSome = true ∧ hasDocumentName path = true

/--
In a well-formed tree, the documents of listed paths are found in order and without repetition:
exactly the listed files and the files below listed directories whose names are those of documents,
and with them whatever else below those directories has such a name.
-/
theorem documents_found (h : tree.WellFormed) (hnormal : ∀ path ∈ paths, path.IsNormal) :
    Documents tree paths (ofPaths tree paths).paths where
  increasing := by
    have hfound (path : FilePath)
        (hpath : path ∈ paths.flatMap fun listed => (ofPath tree listed).paths) :
        path.IsNormal := by
      obtain ⟨listed, hlisted, hpath⟩ := List.mem_flatMap.mp hpath
      obtain ⟨rfl, -⟩ | ⟨-, hbelow, hsome, -⟩ := (mem_ofPath h).mp hpath
      · exact hnormal _ hlisted
      · exact h.isNormal_of_isBelow (hnormal listed hlisted) hbelow hsome
    have hsorted (found : List FilePath) :
        (found.mergeSort fun a b => (a.order b).isLE).Pairwise fun a b => (a.order b).isLE = true :=
      @List.pairwise_mergeSort _ (fun a b : FilePath => (a.order b).isLE)
        (fun _ _ _ => FilePath.order_isLE_trans) FilePath.order_isLE_total found
    rw [ofPaths, List.flatMap_map]
    exact pairwise_once (hsorted _) fun path hpath => hfound path (List.mem_mergeSort.mp hpath)
  file_iff path hfile := by
    simp only [mem_ofPaths, mem_ofPath h]
    constructor
    · rintro ⟨listed, hlisted, ⟨rfl, -⟩ | ⟨hdirectory, hbelow, -, hname⟩⟩
      · exact .inl hlisted
      · exact .inr ⟨listed, hlisted, hdirectory, hbelow, hname⟩
    · rintro (hlisted | ⟨listed, hlisted, hdirectory, hbelow, hname⟩)
      · exact ⟨path, hlisted, .inl ⟨rfl, hfile⟩⟩
      · exact ⟨listed, hlisted, .inr ⟨hdirectory, hbelow, hfile.isSome_entry?, hname⟩⟩
  other_iff path hother := by
    simp only [mem_ofPaths, mem_ofPath h]
    refine exists_congr fun listed => and_congr_right fun _ => or_iff_right ?_
    rintro ⟨rfl, hfile⟩
    exact hother hfile

def shelf : FileTree :=
  ((FileTree.withWorkingDirectory ["home"]).write (.ofText "d/a.json") (.file [])).write
    (.ofText "d/x.json") .directory

theorem directory_on_shelf_found : shelf.WellFormed ∧
    FilePath.ofText "d/x.json" ∈ (ofPaths shelf [.ofText "d"]).paths := by
  have hshelf : shelf.WellFormed := by decide +kernel
  have hnormal : ∀ path ∈ [FilePath.ofText "d"], path.IsNormal :=
    List.forall_mem_singleton.mpr (FilePath.isNormal_ofText "d")
  refine ⟨hshelf, ?_⟩
  refine ((documents_found hshelf hnormal).other_iff _ ?_).mpr
    ⟨.ofText "d", List.mem_cons_self, ?_, ⟨["x.json"], nofun, by decide, ?_⟩, ?_, ?_⟩
  · rintro ⟨content, hcontent⟩
    have hdirectory : shelf.entry? (.ofText "d/x.json") = some .directory := by decide +kernel
    cases hdirectory.symm.trans hcontent
  · show shelf.entry? (.ofText "d") = some .directory
    decide +kernel
  · decide +kernel
  · decide +kernel
  · decide +kernel

end Found

end JsonSchema
