import JsonSchema.Proofs.Relation
import JsonSchema.Proofs.Json.Members
import JsonSchema.Proofs.Yaml.Places

/-!
# Aliases that lead back

A node is in the graph once, however many aliases lead to it, so the nodes form a graph and not a
tree. A walk that turns back at a node inside itself comes to its end, and a value is refused if
and only if one of its collections holds itself.
-/

namespace JsonSchema.Yaml

open Relation (TransGen ReflTransGen)

/-! ## The walk through the nodes -/

namespace YamlGraph

variable {g : YamlGraph} {fuel fuel' : Nat} {around : List YamlId}

theorem locateItems_congr (h : ∀ base id map,
      g.locate fuel' around base id map = g.locate fuel around base id map)
    (base : String) (index : Nat) (items : List YamlId) (map : SourceMap) :
    g.locateItems fuel' around base index items map =
      g.locateItems fuel around base index items map := by
  induction items generalizing index map with
  | nil => rw [locateItems, locateItems]
  | cons id rest ih =>
    rw [locateItems, locateItems]
    simp only [h, ih]

theorem locateEntries_congr (h : ∀ base id map,
      g.locate fuel' around base id map = g.locate fuel around base id map)
    (base : String) (entries : List Entry) (map : SourceMap) :
    g.locateEntries fuel' around base entries map =
      g.locateEntries fuel around base entries map := by
  induction entries generalizing map with
  | nil => rw [locateEntries, locateEntries]
  | cons entry rest ih =>
    rw [locateEntries, locateEntries]
    simp only [h, ih]

/-- The walk does not run out of fuel: with more of it nothing changes. -/
theorem locate_add (haround : Around g.nodes.size around)
    (hfuel : g.nodes.size < fuel + around.length) (more : Nat) (base : String) (id : YamlId)
    (map : SourceMap) :
    g.locate (fuel + more) around base id map = g.locate fuel around base id map := by
  induction fuel generalizing around base id map with
  | zero =>
    have hlength := haround.length_le
    omega
  | succ fuel ih =>
    rw [Nat.add_right_comm, locate, locate]
    cases hagain : around.contains id with
    | true => rfl
    | false =>
      have hinside : ∀ kind ≠ YamlNodeKind.scalar, (g.node id).kind = kind →
          ∀ base inner map, g.locate (fuel + more) (id :: around) base inner map =
            g.locate fuel (id :: around) base inner map := by
        intro kind hkind hid base inner map
        refine ih (haround.cons hagain (lt_of_kind (hid ▸ hkind))) ?_ base inner map
        rw [List.length_cons]
        omega
      simp only [Bool.false_eq_true, if_false]
      cases hcontent : (g.node id).content with
      | scalar text => rfl
      | sequence items =>
        exact locateItems_congr (hinside .sequence (by decide) (congrArg _ hcontent)) ..
      | mapping entries =>
        exact locateEntries_congr (hinside .mapping (by decide) (congrArg _ hcontent)) ..

end YamlGraph

/-! ## Values inside values -/

def YamlValue.parts : YamlValue → List YamlId
  | .sequence items => items
  | .mapping members => members.map (·.2)
  | _ => []

/-- Whether there is a JSON value of that kind; what it consists of is not looked at. -/
def YamlValue.hasJson : YamlValue → Bool
  | .scalar value => value.json?.isSome
  | .sequence _ | .mapping _ | .pairs 0 => true
  | .pairs (_ + 1) | .set => false

namespace Construction

def found (c : Construction) (id : YamlId) : YamlValue := (c.value? id).getD default

def Contains (c : Construction) (id inner : YamlId) : Prop := inner ∈ (c.found id).parts

/-- A collection inside a node, or the node itself, is inside itself. -/
def Recursive (c : Construction) (id : YamlId) : Prop := LeadsIntoCircle c.Contains id

/-- Every value inside a node is of a kind that JSON has. -/
def Jsonable (c : Construction) (id : YamlId) : Prop :=
  ∀ inner, ReflTransGen c.Contains id inner → (c.found inner).hasJson = true

/-- The tree that the values of a graph unfold to. A shared value stands at each of its places. -/
inductive Unfolds (c : Construction) : YamlId → Json → Prop
  | scalar {id : YamlId} {value : ScalarValue} {json : Json}
      (hfound : c.found id = .scalar value) (hjson : value.json? = some json) : Unfolds c id json
  | noPairs {id : YamlId} (hfound : c.found id = .pairs 0) : Unfolds c id (.arr [])
  | sequence {id : YamlId} {items : List YamlId} {values : List Json}
      (hfound : c.found id = .sequence items) (hvalues : List.Forall₂ (Unfolds c) items values) :
      Unfolds c id (.arr values)
  | mapping {id : YamlId} {members : Members YamlId} {values : Members Json}
      (hfound : c.found id = .mapping members) (hnames : values.names = members.names)
      (hvalues : List.Forall₂ (Unfolds c) (members.map (·.2)) (values.map (·.2))) :
      Unfolds c id (.obj values)

inductive Nests (c : Construction) : Nat → YamlId → Prop
  | zero {id : YamlId} : Nests c 0 id
  | succ {levels : Nat} {id inner : YamlId} (hinner : c.Contains id inner)
      (h : Nests c levels inner) : Nests c (levels + 1) id

/-- Why a node has no JSON value: it is too deep, or inside itself, or there is no such kind. -/
inductive Stops (c : Construction) (fuel : Nat) (around : List YamlId) (id : YamlId) :
    YamlFault → Prop
  | deep (hnests : c.Nests fuel id) (hfuel : fuel + around.length ≤ c.values.size) :
      Stops c fuel around id tooDeep
  | recursive {there : YamlId} {pointer : String} (hreach : ReflTransGen c.Contains id there)
      (hagain : there ∈ around ∨ TransGen c.Contains there there) :
      Stops c fuel around id (.notJson .recursive pointer)
  | unfit {there : YamlId} {cause : NotJson} {pointer : String}
      (hreach : ReflTransGen c.Contains id there) (hunfit : (c.found there).hasJson = false) :
      Stops c fuel around id (.notJson cause pointer)

variable {c : Construction} {fuel : Nat} {around : List YamlId} {id inner : YamlId}
  {fault : YamlFault} {json : Json}

theorem Stops.inside (h : c.Stops fuel (id :: around) inner fault) (hinner : c.Contains id inner) :
    c.Stops (fuel + 1) around id fault := by
  cases h with
  | deep hnests hfuel =>
    rw [List.length_cons] at hfuel
    exact .deep (.succ hinner hnests) (by omega)
  | recursive hreach hagain =>
    refine .recursive (hreach.head hinner) ?_
    rcases hagain with hagain | hcircle
    · rcases List.mem_cons.mp hagain with rfl | hagain
      · exact .inr (.head' hinner hreach)
      · exact .inl hagain
    · exact .inr hcircle
  | unfit hreach hunfit => exact .unfit (hreach.head hinner) hunfit

theorem Jsonable.of_values (h : ∀ id < c.values.size, (c.found id).hasJson = true) :
    c.Jsonable id := by
  intro inner _
  rcases Nat.lt_or_ge inner c.values.size with hlt | hge
  · exact h inner hlt
  · rw [found, value?, Array.getElem?_eq_none hge]
    rfl

theorem lt_of_parts (h : (c.found id).parts ≠ []) : id < c.values.size := by
  by_contra hge
  rw [found, value?, Array.getElem?_eq_none (Nat.not_lt.mp hge)] at h
  exact h rfl

/-! ### The values of parts -/

variable {fair : YamlFault → Prop}

theorem itemsToJson_ends {items : List YamlId}
    (h : ∀ item ∈ items, ∀ pointer,
      Except.Ends (c.Unfolds item) fair (c.toJson fuel around pointer item))
    (pointer : List String) (index : Nat) :
    Except.Ends (List.Forall₂ c.Unfolds items) fair
      (c.itemsToJson fuel around pointer index items) := by
  induction items generalizing index with
  | nil =>
    rw [itemsToJson]
    exact .ok .nil
  | cons item rest ih =>
    rw [List.forall_mem_cons] at h
    rw [itemsToJson]
    refine (h.1 _).bind fun json hjson => (ih h.2 _).bind fun values hvalues => ?_
    exact .ok (.cons hjson hvalues)

theorem membersToJson_ends {members : Members YamlId}
    (h : ∀ inner ∈ members.map (·.2), ∀ pointer,
      Except.Ends (c.Unfolds inner) fair (c.toJson fuel around pointer inner))
    (pointer : List String) :
    Except.Ends (fun values : Members Json => values.names = members.names ∧
        List.Forall₂ c.Unfolds (members.map (·.2)) (values.map (·.2))) fair
      (c.membersToJson fuel around pointer members) := by
  induction members with
  | nil =>
    rw [membersToJson]
    exact .ok ⟨rfl, .nil⟩
  | cons member rest ih =>
    rw [List.map_cons, List.forall_mem_cons] at h
    rw [membersToJson]
    refine (h.1 _).bind fun json hjson => (ih h.2).bind fun values hvalues => ?_
    exact .ok ⟨congrArg (member.1 :: ·) hvalues.1, .cons hjson hvalues.2⟩

/-- A node comes to the tree that it unfolds to, unless something stops it. -/
theorem toJson_ends (haround : YamlGraph.Around c.values.size around) (pointer : List String) :
    Except.Ends (c.Unfolds id) (c.Stops fuel around id) (c.toJson fuel around pointer id) := by
  induction fuel generalizing around id pointer with
  | zero =>
    rw [toJson]
    exact .error (.deep .zero (by simpa using haround.length_le))
  | succ fuel ih =>
    have hinside : around.contains id = false → ∀ inner ∈ (c.found id).parts, ∀ pointer,
        Except.Ends (c.Unfolds inner) (c.Stops (fuel + 1) around id)
          (c.toJson fuel (id :: around) pointer inner) := by
      intro hnew inner hinner pointer
      have hid := lt_of_parts (List.ne_nil_of_mem hinner)
      exact (ih (haround.cons hnew hid) pointer).mono fun _ hstops => hstops.inside hinner
    have hagain : ∀ pointer, around.contains id = true →
        Except.Ends (c.Unfolds id) (c.Stops (fuel + 1) around id)
          (.error (.notJson .recursive pointer)) :=
      fun _ h => .error (.recursive .refl (.inl (by simpa using h)))
    have hunfit : (c.found id).hasJson = false → ∀ cause pointer,
        Except.Ends (c.Unfolds id) (c.Stops (fuel + 1) around id)
          (.error (.notJson cause pointer)) := fun h _ _ => .error (.unfit .refl h)
    have hvalue : (c.value? id).getD default = c.found id := rfl
    rw [toJson, hvalue]
    cases hfound : c.found id with
    | scalar value =>
      cases value with
      | float x =>
        cases x with
        | finite x => exact .ok (.scalar hfound rfl)
        | _ => exact hunfit (by rw [hfound]; rfl) _ _
      | null | bool | int | str => exact .ok (.scalar hfound rfl)
      | _ => exact hunfit (by rw [hfound]; rfl) _ _
    | sequence items =>
      rw [hfound] at hinside
      dsimp only
      split
      case isTrue h => exact hagain _ h
      case isFalse h =>
        exact (itemsToJson_ends (hinside (by simpa using h)) pointer 0).map fun _ hvalues =>
          .sequence hfound hvalues
    | mapping members =>
      rw [hfound] at hinside
      dsimp only
      split
      case isTrue h => exact hagain _ h
      case isFalse h =>
        exact (membersToJson_ends (hinside (by simpa using h)) pointer).map fun _ hvalues =>
          .mapping hfound hvalues.1 hvalues.2
    | pairs count =>
      cases count with
      | zero => exact .ok (.noPairs hfound)
      | succ count => exact hunfit (by rw [hfound]; rfl) _ _
    | set => exact hunfit (by rw [hfound]; rfl) _ _

/-! ## Trees -/

theorem Unfolds.part (h : c.Unfolds id json) (hinner : c.Contains id inner) :
    ∃ value, c.Unfolds inner value ∧ value.depth < json.depth := by
  rw [Contains] at hinner
  cases h with
  | scalar hfound => simp [hfound, YamlValue.parts] at hinner
  | noPairs hfound => simp [hfound, YamlValue.parts] at hinner
  | sequence hfound hvalues =>
    rw [hfound] at hinner
    obtain ⟨value, hvalue, hunfolds⟩ := exists_of_forall₂ hvalues hinner
    exact ⟨value, hunfolds, Json.depth_item hvalue⟩
  | mapping hfound _ hvalues =>
    rw [hfound] at hinner
    obtain ⟨value, hvalue, hunfolds⟩ := exists_of_forall₂ hvalues hinner
    obtain ⟨⟨name, value⟩, hmember, rfl⟩ := List.mem_map.mp hvalue
    exact ⟨value, hunfolds, Json.depth_member hmember⟩

theorem Unfolds.not_recursive (h : c.Unfolds id json) : ¬ c.Recursive id := by
  -- On the depth of the tree: a way into a circle has no end, and the tree gets less deep on it.
  induction hdepth : json.depth using Nat.strong_induction_on generalizing id json with
  | _ depth ih =>
    intro hrecursive
    obtain ⟨inner, hinner, hagain⟩ := hrecursive.step
    obtain ⟨value, hvalue, hlt⟩ := h.part hinner
    exact ih _ (hdepth ▸ hlt) hvalue rfl hagain

theorem forall₂_unique {α β : Type} {R : α → β → Prop} {as : List α} {bs bs' : List β}
    (h : List.Forall₂ R as bs) (h' : List.Forall₂ R as bs')
    (hunique : ∀ a, ∀ b ∈ bs, ∀ b', R a b → R a b' → b = b') : bs = bs' := by
  induction h generalizing bs' with
  | nil =>
    cases h'
    rfl
  | cons hfirst _ ih =>
    cases h' with
    | cons hfirst' hrest' =>
      rw [hunique _ _ List.mem_cons_self _ hfirst hfirst',
        ih hrest' fun a b hb => hunique a b (List.mem_cons_of_mem _ hb)]

theorem Unfolds.unique {json' : Json} (h : c.Unfolds id json) (h' : c.Unfolds id json') :
    json = json' := by
  induction hdepth : json.depth using Nat.strong_induction_on generalizing id json json' with
  | _ depth ih =>
    subst hdepth
    cases h with
    | scalar hfound hjson =>
      cases h' with
      | scalar hfound' hjson' =>
        cases hfound.symm.trans hfound'
        exact Option.some.inj (hjson.symm.trans hjson')
      | _ hfound' => exact nomatch hfound.symm.trans hfound'
    | noPairs hfound =>
      cases h' with
      | noPairs => rfl
      | _ hfound' => exact nomatch hfound.symm.trans hfound'
    | sequence hfound hvalues =>
      cases h' with
      | sequence hfound' hvalues' =>
        cases hfound.symm.trans hfound'
        exact congrArg Json.arr (forall₂_unique hvalues hvalues' fun inner value hvalue _ h h' =>
          ih _ (Json.depth_item hvalue) h h' rfl)
      | _ hfound' => exact nomatch hfound.symm.trans hfound'
    | mapping hfound hnames hvalues =>
      cases h' with
      | mapping hfound' hnames' hvalues' =>
        cases hfound.symm.trans hfound'
        have hsame := forall₂_unique hvalues hvalues' fun inner value hvalue _ h h' => by
          obtain ⟨⟨name, value⟩, hmember, rfl⟩ := List.mem_map.mp hvalue
          exact ih _ (Json.depth_member hmember) h h' rfl
        refine congrArg Json.obj ((List.zip_of_prod hnames hsame).trans ?_)
        exact (List.zip_of_prod hnames' rfl).symm
      | _ hfound' => exact nomatch hfound.symm.trans hfound'

/-! ## Fuel -/

theorem itemsToJson_upTo {more : Nat}
    (h : ∀ pointer id, Except.UpTo tooDeep (c.toJson fuel around pointer id)
      (c.toJson more around pointer id)) (pointer : List String) (index : Nat)
    (items : List YamlId) :
    Except.UpTo tooDeep (c.itemsToJson fuel around pointer index items)
      (c.itemsToJson more around pointer index items) := by
  induction items generalizing index with
  | nil =>
    rw [itemsToJson, itemsToJson]
    exact .refl _ _
  | cons id rest ih =>
    rw [itemsToJson, itemsToJson]
    exact (h _ _).bind fun _ => (ih _).bind fun _ => .refl _ _

theorem membersToJson_upTo {more : Nat}
    (h : ∀ pointer id, Except.UpTo tooDeep (c.toJson fuel around pointer id)
      (c.toJson more around pointer id)) (pointer : List String) (members : Members YamlId) :
    Except.UpTo tooDeep (c.membersToJson fuel around pointer members)
      (c.membersToJson more around pointer members) := by
  induction members with
  | nil =>
    rw [membersToJson, membersToJson]
    exact .refl _ _
  | cons member rest ih =>
    rw [membersToJson, membersToJson]
    exact (h _ _).bind fun _ => ih.bind fun _ => .refl _ _

theorem toJson_upTo (c : Construction) (fuel more : Nat) (around : List YamlId)
    (pointer : List String) (id : YamlId) :
    Except.UpTo tooDeep (c.toJson fuel around pointer id)
      (c.toJson (fuel + more) around pointer id) := by
  induction fuel generalizing around pointer id with
  | zero =>
    rw [toJson]
    exact .inl rfl
  | succ fuel ih =>
    rw [Nat.add_right_comm, toJson, toJson]
    dsimp only
    split
    case h_9 items _ =>
      split
      · exact .refl _ _
      · exact (itemsToJson_upTo (ih _) pointer 0 items).map _
    case h_10 members _ =>
      split
      · exact .refl _ _
      · exact (membersToJson_upTo (ih _) pointer members).map _
    all_goals exact .refl _ _

/-- There is fuel enough for all nodes to stand inside each other. -/
theorem toJson_ne_tooDeep (c : Construction) (id : YamlId) :
    c.toJson (c.values.size + 1) [] [] id ≠ .error tooDeep := by
  intro hdeep
  have hends : Except.Ends (c.Unfolds id) (c.Stops (c.values.size + 1) [] id) _ :=
    toJson_ends (.nil c.values.size) []
  rw [hdeep] at hends
  cases hends.of_error with
  | deep _ hfuel => exact absurd hfuel (by simp)

theorem toJson_outcome (hjson : c.Jsonable id) (limit : Nat) :
    (c.Recursive id ∧ ∃ pointer, c.toJson limit [] [] id = .error (.notJson .recursive pointer)) ∨
      (¬ c.Recursive id ∧ ∃ json, c.Unfolds id json ∧ c.toJson limit [] [] id = .ok json) ∨
      c.toJson limit [] [] id = .error tooDeep ∧ c.Nests limit id ∧ limit ≤ c.values.size := by
  have hends : Except.Ends (c.Unfolds id) (c.Stops limit [] id) _ :=
    toJson_ends (.nil c.values.size) []
  cases houtcome : c.toJson limit [] [] id with
  | ok json =>
    rw [houtcome] at hends
    exact .inr (.inl ⟨hends.of_ok.not_recursive, json, hends.of_ok, rfl⟩)
  | error fault =>
    rw [houtcome] at hends
    cases hends.of_error with
    | deep hnests hfuel => exact .inr (.inr ⟨rfl, hnests, hfuel⟩)
    | recursive hreach hagain =>
      exact .inl ⟨⟨_, hreach, hagain.resolve_left List.not_mem_nil⟩, _, rfl⟩
    | unfit hreach hunfit => exact Bool.noConfusion (hunfit.symm.trans (hjson _ hreach))

end Construction

/-! ## Documents -/

/--
Every walk through a document comes to its end: with more fuel neither the map of its places nor its
JSON value changes. Where JSON has all kinds of its values, it is refused as recursive if a
collection in it is inside itself, and otherwise it has the value that it unfolds to. Only a limit
on the depth can stop it before, if the collections nest as deep as that.
-/
theorem aliases_unfold_or_recur :
    (∀ (g : YamlGraph) (id : YamlId) (base : String) (map : SourceMap) (more : Nat),
      g.locate (g.nodes.size + 1 + more) [] base id map =
        g.locate (g.nodes.size + 1) [] base id map) ∧
    (∀ (c : Construction) (id : YamlId) (more : Nat),
      c.toJson (c.values.size + 1) [] [] id ≠ .error tooDeep ∧
        c.toJson (c.values.size + 1 + more) [] [] id = c.toJson (c.values.size + 1) [] [] id) ∧
    ∀ (c : Construction) (id : YamlId) (limit : Nat), c.Jsonable id →
      (c.Recursive id ∧
          ∃ pointer, c.toJson limit [] [] id = .error (.notJson .recursive pointer)) ∨
        (¬ c.Recursive id ∧ ∃ json, c.Unfolds id json ∧ c.toJson limit [] [] id = .ok json) ∨
        c.toJson limit [] [] id = .error tooDeep ∧ c.Nests limit id ∧ limit ≤ c.values.size := by
  refine ⟨fun g id base map more => ?_, fun c id more => ⟨c.toJson_ne_tooDeep id, ?_⟩,
    fun c id limit hjson => c.toJson_outcome hjson limit⟩
  · exact YamlGraph.locate_add (.nil _) (by simp) more base id map
  · exact ((c.toJson_upTo _ more [] [] id).resolve_left (c.toJson_ne_tooDeep id)).symm

def listOfItself : Construction := ⟨.empty, #[some (.sequence [0])], []⟩

def listUsedTwice : Construction :=
  ⟨.empty,
    #[some (.mapping [("a", 1), ("b", 1)]), some (.sequence [2]), some (.scalar (.int 7))], []⟩

theorem listUsedTwice_not_recursive : ¬ listUsedTwice.Recursive 0 := by
  have hparts : ∀ id < listUsedTwice.values.size,
      ∀ inner ∈ (listUsedTwice.found id).parts, id < inner := by decide
  exact not_leadsIntoCircle_of_lt (fun id => id) fun id inner h =>
    hparts id (Construction.lt_of_parts (List.ne_nil_of_mem h)) inner h

/-- The one list is refused, and of the other one there are two copies. -/
theorem cycle_refused_sharing_unfolds :
    (∃ pointer, listOfItself.toJson (yamlDepthLimit + 1) [] [] 0 =
        .error (.notJson .recursive pointer)) ∧
      listUsedTwice.toJson (yamlDepthLimit + 1) [] [] 0 =
        .ok (.obj [("a", .arr [.int 7]), ("b", .arr [.int 7])]) := by
  constructor
  · have hself : listOfItself.Recursive 0 := ⟨0, .refl, .single (List.mem_singleton.mpr rfl)⟩
    have hjson : listOfItself.Jsonable 0 := .of_values (by decide)
    rcases aliases_unfold_or_recur.2.2 listOfItself 0 (yamlDepthLimit + 1) hjson with
      ⟨-, hpointer⟩ | ⟨hnot, -⟩ | ⟨-, -, hlimit⟩
    · exact hpointer
    · exact absurd hself hnot
    · exact absurd hlimit (by decide)
  · have hjson : listUsedTwice.Jsonable 0 := .of_values (by decide)
    rcases aliases_unfold_or_recur.2.2 listUsedTwice 0 (yamlDepthLimit + 1) hjson with
      ⟨hself, -⟩ | ⟨-, json, hunfolds, hvalue⟩ | ⟨-, -, hlimit⟩
    · exact absurd hself listUsedTwice_not_recursive
    · have hlist : listUsedTwice.Unfolds 1 (.arr [.int 7]) :=
        .sequence rfl (.cons (.scalar rfl rfl) .nil)
      have hobject : listUsedTwice.Unfolds 0 (.obj [("a", .arr [.int 7]), ("b", .arr [.int 7])]) :=
        .mapping rfl rfl (.cons hlist (.cons hlist .nil))
      exact hunfolds.unique hobject ▸ hvalue
    · exact absurd hlimit (by decide)

/-! ### Lists inside each other -/

def nestedLists (levels : Nat) : Construction :=
  ⟨.empty, (Array.range (levels + 1)).map fun id =>
    some (if id < levels then .sequence [id + 1] else .scalar (.int 7)), []⟩

section

variable {levels id inner : Nat}

theorem nestedLists_found (levels id : Nat) :
    (nestedLists levels).found id = if id < levels then .sequence [id + 1]
      else if id = levels then .scalar (.int 7) else .scalar .null := by
  rw [nestedLists, Construction.found, Construction.value?]
  rcases Nat.lt_trichotomy id levels with hlt | rfl | hgt
  · simp [hlt, Nat.lt_succ_of_lt hlt]
  · simp
  · rw [if_neg (Nat.lt_asymm hgt), if_neg (Nat.ne_of_gt hgt),
      Array.getElem?_eq_none (by simpa using Nat.succ_le_of_lt hgt)]
    rfl

theorem nestedLists_contains (h : (nestedLists levels).Contains id inner) : inner = id + 1 := by
  rw [Construction.Contains, nestedLists_found] at h
  split_ifs at h with hlt heq
  · exact List.mem_singleton.mp h
  · cases h
  · cases h

theorem nestedLists_jsonable : (nestedLists levels).Jsonable id := by
  intro inner _
  rw [nestedLists_found]
  split_ifs <;> rfl

theorem nestedLists_not_recursive : ¬ (nestedLists levels).Recursive id :=
  not_leadsIntoCircle_of_lt (fun id => id) fun _ _ h => (nestedLists_contains h) ▸ Nat.lt_succ_self _

theorem nestedLists_tooDeep {fuel : Nat} {around : List YamlId} (pointer : List String)
    (hlevels : id + fuel ≤ levels) (haround : ∀ outer ∈ around, outer < id) :
    (nestedLists levels).toJson fuel around pointer id = .error tooDeep := by
  induction fuel generalizing id around pointer with
  | zero => rw [Construction.toJson]
  | succ fuel ih =>
    have hfound : ((nestedLists levels).value? id).getD default = .sequence [id + 1] :=
      (nestedLists_found levels id).trans (if_pos (by omega))
    have hnew : around.contains id = false := by
      simpa using fun hid => Nat.lt_irrefl _ (haround id hid)
    have hinner : ∀ outer ∈ id :: around, outer < id + 1 :=
        List.forall_mem_cons.mpr
        ⟨Nat.lt_succ_self id, fun outer h => Nat.lt_succ_of_lt (haround outer h)⟩
    rw [Construction.toJson, hfound]
    simp only [hnew, Bool.false_eq_true, if_false]
    rw [Construction.itemsToJson, ih _ (by omega) hinner]
    rfl

end

/-- Six hundred lists make no circle, and are refused all the same. -/
theorem nestedLists_refused :
    (nestedLists 600).Jsonable 0 ∧ ¬ (nestedLists 600).Recursive 0 ∧
      (nestedLists 600).toJson (yamlDepthLimit + 1) [] [] 0 = .error tooDeep :=
  ⟨nestedLists_jsonable, nestedLists_not_recursive, nestedLists_tooDeep [] (by decide) nofun⟩

end JsonSchema.Yaml
