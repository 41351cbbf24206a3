import JsonSchema.Proofs.Pointer.Place
import Mathlib.Data.List.Induction

/-!
# Paths into a document

A path names the members and indices that lead to a value, and its pointer names the same value.
-/

namespace JsonSchema

namespace Json

def child? (value : Json) : Segment → Option Json
  | .name name => value.member? name
  | .index index =>
    match value with
    | .arr items => if 0 ≤ index then items[index.toNat]? else none
    | _ => none

def along? (document : Json) (path : Path) : Option Json := path.foldlM child? document

variable {document value : Json} {path : Path}

theorem along?_concat (document : Json) (path : Path) (segment : Segment) :
    document.along? (path ++ [segment]) = (document.along? path).bind (·.child? segment) := by
  rw [along?, List.foldlM_append]
  exact bind_congr fun value => List.foldlM_cons.trans (bind_pure _)

theorem leads_of_child? {segment : Segment} (h : document.child? segment = some value) :
    document.Leads [Pointer.token segment] value := by
  cases document with
  | obj members =>
    cases segment with
    | name name => exact Leads.root.member (Members.mem_of_get? h)
    | index index => cases h
  | arr items =>
    cases segment with
    | name name => cases h
    | index index =>
      rw [child?] at h
      split at h
      case isTrue hindex =>
        obtain ⟨n, rfl⟩ := Int.eq_ofNat_of_zero_le hindex
        exact Leads.root.item h
      case isFalse => cases h
  | _ => cases segment <;> cases h

theorem leads_of_along? (h : document.along? path = some value) :
    document.Leads (path.map Pointer.token) value := by
  induction path using List.reverseRecOn generalizing value with
  | nil =>
    cases h
    exact .root
  | append_singleton path segment ih =>
    rw [along?_concat, Option.bind_eq_some_iff] at h
    obtain ⟨parent, hparent, hchild⟩ := h
    rw [List.map_append]
    exact (ih hparent).append (leads_of_child? hchild)

/-! ## Pointers -/

/-- Each name stands once in its object, and every index of an array can be read from a pointer. -/
structure Pointable (document : Json) : Prop where
  wellFormed : document.isWellFormed = true
  indices : ∀ tokens items, document.Leads tokens (.arr items) →
    items.length ≤ 10 ^ maxIntegerDigits

theorem At.exists_leads {tokens : List String} (h : document.At tokens value) :
    ∃ plain, document.Leads plain value := by
  induction h with
  | root => exact ⟨[], .root⟩
  | member _ hvalue ih =>
    obtain ⟨plain, hplain⟩ := ih
    exact ⟨_, hplain.member hvalue⟩
  | item _ _ hvalue ih =>
    obtain ⟨plain, hplain⟩ := ih
    exact ⟨_, hplain.item hvalue⟩

theorem Pointable.inside {tokens : List String} (h : document.Pointable)
    (hat : document.At tokens value) : value.Pointable where
  wellFormed := hat.isWellFormed h.wellFormed
  indices more items hmore := by
    obtain ⟨plain, hplain⟩ := hat.exists_leads
    exact h.indices _ _ (hplain.append hmore)

end Json

namespace Pointer

def follow (document : Json) (pointer : String) : Except PointerFault Json :=
  split pointer >>= resolve document

variable {document value : Json}

theorem follow_ofTokens (document : Json) (tokens : List String) :
    follow document (ofTokens tokens) = resolve document tokens := by
  rw [follow, split_ofTokens, Except.ok_bind]

theorem follow_of_leads {tokens : List String} (hdocument : document.Pointable)
    (h : document.Leads tokens value) : follow document (ofTokens tokens) = .ok value := by
  rw [follow_ofTokens]
  exact resolve_of_leads hdocument.wellFormed hdocument.indices h

theorem follow_of_along? {path : Path} (hdocument : document.Pointable)
    (h : document.along? path = some value) : follow document path.pointer = .ok value :=
  follow_of_leads hdocument (Json.leads_of_along? h)

end Pointer

end JsonSchema
