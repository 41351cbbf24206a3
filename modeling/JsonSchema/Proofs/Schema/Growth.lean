import JsonSchema.Proofs.Pointer.Place
import JsonSchema.Schema.Compilation

/-!
# How a compilation grows

A compilation never forgets a document or a location. What is said here of a state holds of every
later state too.
-/

namespace JsonSchema.Compilation

variable {c d e : Compilation} {key pointer : String} {id : NodeId} {value : Json}

/-! ## Places and nodes -/

/-- The value stands at this pointer of a document that was taken in. -/
def Stands (c : Compilation) (key pointer : String) (value : Json) : Prop :=
  ∃ document tokens, Members.get? c.documents key = some document ∧
    pointer = Pointer.ofTokens tokens ∧ document.content.At tokens value

/-- The node was started at this pointer of a document. -/
def Located (c : Compilation) (key pointer : String) (id : NodeId) : Prop :=
  c.locations[id]? = some (locationOf key pointer)

/-- The node was started for the value at this pointer of a document. -/
structure NodeOf (c : Compilation) (key pointer : String) (value : Json) (id : NodeId) : Prop where
  located : c.Located key pointer id
  stands : c.Stands key pointer value

/-- Every node has one location, and every location one node. -/
structure Aligned (c : Compilation) : Prop where
  size : c.locations.size = c.nodes.size
  nodup : c.locations.toList.Nodup

theorem Stands.inside {more : List String} {value' : Json} (h : c.Stands key pointer value)
    (hvalue : value.At more value') : c.Stands key (Pointer.join pointer more) value' := by
  obtain ⟨document, tokens, hdocument, rfl, hat⟩ := h
  exact ⟨document, tokens ++ more, hdocument, Pointer.join_ofTokens .., hat.append hvalue⟩

theorem located_of_nodeAt? (h : c.nodeAt? (locationOf key pointer) = some id) :
    c.Located key pointer id := by
  have hlist : c.locations.toList.toArray = c.locations := Array.toArray_toList
  rw [nodeAt?, ← hlist, List.idxOf?_toArray, List.idxOf?_eq_some_iff] at h
  obtain ⟨hlt, hid, -⟩ := h
  rw [Located, ← Array.getElem?_toList, List.getElem?_eq_getElem hlt]
  rw [hid]

theorem notMem_of_nodeAt? {location : String} (h : c.nodeAt? location = none) :
    location ∉ c.locations.toList := by
  rw [nodeAt?, Array.idxOf?_eq_none_iff] at h
  simpa using h

theorem Located.lt (h : c.Located key pointer id) : id < c.locations.size :=
  (Array.getElem?_eq_some_iff.mp h).1

theorem Located.unique {id' : NodeId} (hc : c.Aligned) (h : c.Located key pointer id)
    (h' : c.Located key pointer id') : id = id' := by
  rw [Located, ← Array.getElem?_toList] at h h'
  have hlt : id < c.locations.toList.length := (List.getElem?_eq_some_iff.mp h).1
  exact (List.getElem?_inj hlt hc.nodup).mp (h.trans h'.symm)

theorem append_mark_inj {α : Type} {mark : α} {before after before' after' : List α}
    (h : mark ∉ before) (h' : mark ∉ before')
    (heq : before ++ mark :: after = before' ++ mark :: after') :
    before = before' ∧ after = after' := by
  induction before generalizing before' with
  | nil =>
    cases before' with
    | nil => simpa using heq
    | cons c rest =>
      rw [List.nil_append, List.cons_append, List.cons.injEq] at heq
      exact absurd (heq.1 ▸ List.mem_cons_self) h'
  | cons c rest ih =>
    cases before' with
    | nil =>
      rw [List.nil_append, List.cons_append, List.cons.injEq] at heq
      exact absurd (heq.1 ▸ List.mem_cons_self) h
    | cons c' rest' =>
      rw [List.cons_append, List.cons_append, List.cons.injEq] at heq
      rw [List.mem_cons, not_or] at h h'
      obtain ⟨rfl, rfl⟩ := ih h.2 h'.2 heq.2
      exact ⟨by rw [heq.1], rfl⟩

/-- A key without a hash mark can be told from the pointer behind it. -/
theorem locationOf_inj {key' pointer' : String} (hkey : '#' ∉ key.toList)
    (hkey' : '#' ∉ key'.toList) (h : locationOf key pointer = locationOf key' pointer') :
    key = key' ∧ pointer = pointer' := by
  have hchars := congrArg String.toList h
  simp only [locationOf, String.toList_append, List.append_assoc] at hchars
  obtain ⟨hkeys, hpointers⟩ := append_mark_inj hkey hkey' hchars
  exact ⟨String.toList_inj.mp hkeys, String.toList_inj.mp hpointers⟩

/-! ## Later states -/

structure Extends (c d : Compilation) : Prop where
  documents : ∀ key document, Members.get? c.documents key = some document →
    Members.get? d.documents key = some document
  locations : c.locations.toList <+: d.locations.toList

theorem Extends.refl (c : Compilation) : c.Extends c := ⟨fun _ _ h => h, List.prefix_rfl⟩

theorem Extends.trans (h : c.Extends d) (h' : d.Extends e) : c.Extends e :=
  ⟨fun _ _ hget => h'.documents _ _ (h.documents _ _ hget), h.locations.trans h'.locations⟩

theorem Extends.stands (h : c.Extends d) (hc : c.Stands key pointer value) :
    d.Stands key pointer value := by
  obtain ⟨document, tokens, hdocument, hpointer, hat⟩ := hc
  exact ⟨document, tokens, h.documents _ _ hdocument, hpointer, hat⟩

theorem Extends.located (h : c.Extends d) (hc : c.Located key pointer id) :
    d.Located key pointer id := by
  rw [Located, ← Array.getElem?_toList] at hc ⊢
  obtain ⟨hlt, heq⟩ := List.getElem?_eq_some_iff.mp hc
  rw [List.prefix_iff_getElem?.mp h.locations id hlt, heq]

theorem Extends.nodeOf (h : c.Extends d) (hc : c.NodeOf key pointer value id) :
    d.NodeOf key pointer value id :=
  ⟨h.located hc.located, h.stands hc.stands⟩

end JsonSchema.Compilation
