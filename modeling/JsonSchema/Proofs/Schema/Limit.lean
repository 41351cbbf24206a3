import JsonSchema.Proofs.Schema.Documents

/-!
# How many nodes a compilation can have

Every node stands at a path that leads down from the root of a document or from the target of a
reference. There are finitely many such paths, and the limit on references is no smaller.
-/

namespace JsonSchema

/-! ## Paths and strings of a value -/

mutual

def Json.paths : Json → List (List String)
  | .arr items => [] :: itemPaths 0 items
  | .obj members => [] :: memberPaths members
  | _ => [[]]

def itemPaths : (index : Nat) → List Json → List (List String)
  | _, [] => []
  | index, item :: items => item.paths.map (natText index :: ·) ++ itemPaths (index + 1) items

def memberPaths : List (String × Json) → List (List String)
  | [] => []
  | (name, value) :: members => value.paths.map (name :: ·) ++ memberPaths members

end

mutual

def Json.strings : Json → List String
  | .str s => [s]
  | .arr items => itemStrings items
  | .obj members => memberStrings members
  | _ => []

def itemStrings : List Json → List String
  | [] => []
  | item :: items => item.strings ++ itemStrings items

def memberStrings : List (String × Json) → List String
  | [] => []
  | (_, value) :: members => value.strings ++ memberStrings members

end

mutual

theorem Json.length_paths (value : Json) : value.paths.length = value.size := by
  cases value with
  | arr items => simp [Json.paths, Json.size, length_itemPaths]
  | obj members => simp [Json.paths, Json.size, length_memberPaths]
  | _ => rfl

theorem length_itemPaths (index : Nat) (items : List Json) :
    (itemPaths index items).length = sizeOfItems items := by
  cases items with
  | nil => rfl
  | cons item items => simp [itemPaths, sizeOfItems, Json.length_paths, length_itemPaths]

theorem length_memberPaths (members : List (String × Json)) :
    (memberPaths members).length = sizeOfMembers members := by
  cases members with
  | nil => rfl
  | cons member members =>
    simp [memberPaths, sizeOfMembers, Json.length_paths, length_memberPaths]

end

mutual

theorem Json.length_strings_le (value : Json) : value.strings.length ≤ value.size := by
  cases value with
  | arr items =>
    have := length_itemStrings_le items
    simp only [Json.strings, Json.size]
    omega
  | obj members =>
    have := length_memberStrings_le members
    simp only [Json.strings, Json.size]
    omega
  | _ => simp [Json.strings, Json.size]

theorem length_itemStrings_le (items : List Json) :
    (itemStrings items).length ≤ sizeOfItems items := by
  cases items with
  | nil => simp [itemStrings]
  | cons item items =>
    have := item.length_strings_le
    have := length_itemStrings_le items
    simp only [itemStrings, sizeOfItems, List.length_append]
    omega

theorem length_memberStrings_le (members : List (String × Json)) :
    (memberStrings members).length ≤ sizeOfMembers members := by
  cases members with
  | nil => simp [memberStrings]
  | cons member members =>
    have := member.2.length_strings_le
    have := length_memberStrings_le members
    simp only [memberStrings, sizeOfMembers, List.length_append]
    omega

end

namespace Json

variable {value inner : Json} {tokens : List String}

theorem size_item_le {items : List Json} {item : Json} (h : item ∈ items) :
    item.size ≤ sizeOfItems items := by
  induction items with
  | nil => simp at h
  | cons first rest ih =>
    rw [sizeOfItems]
    rcases List.mem_cons.mp h with rfl | h
    · omega
    · have := ih h
      omega

theorem size_member_le {members : Members Json} {name : String} {member : Json}
    (h : (name, member) ∈ members) : member.size ≤ sizeOfMembers members := by
  induction members with
  | nil => simp at h
  | cons first rest ih =>
    rw [sizeOfMembers]
    rcases List.mem_cons.mp h with rfl | h
    · simp
    · have := ih h
      omega

theorem nil_mem_paths (value : Json) : [] ∈ value.paths := by
  cases value <;> simp [paths]

theorem mem_memberPaths {members : Members Json} {name : String} {member : Json}
    (h : (name, member) ∈ members) (htokens : tokens ∈ member.paths) :
    name :: tokens ∈ memberPaths members := by
  induction members with
  | nil => simp at h
  | cons first rest ih =>
    rw [memberPaths, List.mem_append]
    rcases List.mem_cons.mp h with rfl | h
    · exact .inl (List.mem_map_of_mem htokens)
    · exact .inr (ih h)

theorem mem_itemPaths {items : List Json} {i : Nat} {item : Json} (index : Nat)
    (h : items[i]? = some item) (htokens : tokens ∈ item.paths) :
    natText (index + i) :: tokens ∈ itemPaths index items := by
  induction items generalizing index i with
  | nil => simp at h
  | cons first rest ih =>
    rw [itemPaths, List.mem_append]
    cases i with
    | zero =>
      rw [List.getElem?_cons_zero, Option.some.injEq] at h
      exact .inl (h ▸ List.mem_map_of_mem htokens)
    | succ i =>
      have := ih (index + 1) h
      rw [Nat.add_assoc, Nat.add_comm 1] at this
      exact .inr this

theorem Leads.paths_append (h : value.Leads tokens inner) :
    ∀ more ∈ inner.paths, tokens ++ more ∈ value.paths := by
  induction h with
  | root => exact fun _ hmore => hmore
  | @member tokens members name inner _ hvalue ih =>
    intro more hmore
    rw [List.append_assoc]
    exact ih _ (List.mem_cons_of_mem _ (mem_memberPaths hvalue hmore))
  | @item tokens items index inner _ hvalue ih =>
    intro more hmore
    rw [List.append_assoc]
    refine ih _ (List.mem_cons_of_mem _ ?_)
    have := mem_itemPaths 0 hvalue hmore
    rwa [Nat.zero_add] at this

theorem Leads.mem_paths (h : value.Leads tokens inner) : tokens ∈ value.paths := by
  have := h.paths_append [] (nil_mem_paths inner)
  rwa [List.append_nil] at this

theorem mem_memberStrings {members : Members Json} {name s : String} {member : Json}
    (h : (name, member) ∈ members) (hs : s ∈ member.strings) : s ∈ memberStrings members := by
  induction members with
  | nil => simp at h
  | cons first rest ih =>
    rw [memberStrings, List.mem_append]
    rcases List.mem_cons.mp h with rfl | h
    · exact .inl hs
    · exact .inr (ih h)

theorem mem_itemStrings {items : List Json} {s : String} {item : Json} (h : item ∈ items)
    (hs : s ∈ item.strings) : s ∈ itemStrings items := by
  induction items with
  | nil => simp at h
  | cons first rest ih =>
    rw [itemStrings, List.mem_append]
    rcases List.mem_cons.mp h with rfl | h
    · exact .inl hs
    · exact .inr (ih h)

theorem At.strings_subset (h : value.At tokens inner) : inner.strings ⊆ value.strings := by
  induction h with
  | root => exact List.Subset.refl _
  | member _ hvalue ih => exact fun s hs => ih (mem_memberStrings hvalue hs)
  | item _ _ hvalue ih =>
    exact fun s hs => ih (mem_itemStrings (List.mem_of_getElem? hvalue) hs)

theorem At.size_le (h : value.At tokens inner) : inner.size ≤ value.size := by
  induction h with
  | root => exact Nat.le_refl _
  | @member tokens members name value _ hvalue ih =>
    have := size_member_le hvalue
    rw [size] at ih
    omega
  | @item tokens items token index value _ _ hvalue ih =>
    have := size_item_le (List.mem_of_getElem? hvalue)
    rw [size] at ih
    omega

end Json

/-! ## Places that a compilation can meet -/

namespace CompileOptions

open CompileM

variable (options : CompileOptions) (root : Json)

def sources : Members Json := ("", root) :: options.registry

def pointerOf (key : String) (content : Json) (ref : String) : Option (List String) := do
  let declared ← (declaredBase key content).toOption
  let (_, fragment) ← (Uri.locate (documentBase key declared) ref).toOption
  (Pointer.split ("#" ++ fragment)).toOption

/-- The tokens that walks start at: those of roots, and those of references. -/
def entries : List (List String) :=
  [] :: (options.sources root).flatMap fun source =>
    source.2.strings.filterMap (pointerOf source.1 source.2)

def locationsFrom (key : String) (content : Json) (tokens : List String) : List String :=
  match Pointer.resolve content tokens with
  | .ok value => value.paths.map fun more => locationOf key (Pointer.ofTokens (tokens ++ more))
  | .error _ => []

def allLocations : List String :=
  (options.sources root).flatMap fun source =>
    (options.entries root).flatMap (locationsFrom source.1 source.2)

variable {options root}

theorem length_locationsFrom_le (key : String) (content : Json) (tokens : List String) :
    (locationsFrom key content tokens).length ≤ content.size := by
  unfold locationsFrom
  split
  case h_1 value hresolve =>
    rw [List.length_map, Json.length_paths]
    exact (Pointer.resolve_at hresolve).size_le
  case h_2 => exact Nat.zero_le _

theorem length_flatMap_le_of_all {α β : Type} (list : List α) (f : α → List β) (n : Nat)
    (hf : ∀ a, (f a).length ≤ n) : (list.flatMap f).length ≤ list.length * n := by
  induction list with
  | nil => simp
  | cons a rest ih =>
    rw [List.flatMap_cons, List.length_append, List.length_cons, Nat.succ_mul, Nat.add_comm]
    exact Nat.add_le_add ih (hf a)

theorem length_flatMap_le {α : Type} (sources : Members Json) (f : String × Json → List α)
    (n : Nat) (hf : ∀ source ∈ sources, (f source).length ≤ n * source.2.size) :
    (sources.flatMap f).length ≤ n * sizeOfMembers sources := by
  induction sources with
  | nil => simp
  | cons source rest ih =>
    rw [List.forall_mem_cons] at hf
    have hrest := ih hf.2
    rw [List.flatMap_cons, List.length_append, sizeOfMembers, Nat.mul_add]
    exact Nat.add_le_add hf.1 hrest

theorem length_entries_le :
    (options.entries root).length ≤ sizeOfMembers (options.sources root) + 1 := by
  have hsources := length_flatMap_le (options.sources root)
    (fun source => source.2.strings.filterMap (pointerOf source.1 source.2)) 1 ?_
  · rw [entries, List.length_cons]
    omega
  · intro source _
    have := List.length_filterMap_le (pointerOf source.1 source.2) source.2.strings
    have := source.2.length_strings_le
    omega

theorem length_allLocations_le : (options.allLocations root).length ≤ refLimit options root := by
  -- Each entry leads into each document at most once, and there to at most all of its values.
  have hlocations := length_flatMap_le (options.sources root)
    (fun source => (options.entries root).flatMap (locationsFrom source.1 source.2))
    (options.entries root).length fun source _ =>
      length_flatMap_le_of_all _ _ _ (length_locationsFrom_le source.1 source.2)
  exact Nat.le_trans hlocations (Nat.mul_le_mul_right _ length_entries_le)

end CompileOptions

end JsonSchema
