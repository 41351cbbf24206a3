import JsonSchema.Proofs.Evaluation.Violated
import JsonSchema.Proofs.Json.Reorder
import Mathlib.Data.List.Nodup
import Mathlib.Data.String.Basic

/-!
# Canonical forms

A value without the way in which it is written: numbers by their exact values, and objects as
tables whose names stand in order. Two values are equal when their canonical forms are the same.
-/

namespace JsonSchema

inductive Canonical where
  | null
  | bool (value : Bool)
  | num (value : ℚ)
  | str (value : String)
  | arr (items : List Canonical)
  | obj (members : List (String × Canonical))

/-! ## Tables in order -/

namespace Members

variable {α : Type} {ms ns : Members α}

def sorted (members : Members α) : Members α :=
  members.mergeSort fun a b => decide (a.1 ≤ b.1)

theorem sorted_perm (members : Members α) : members.sorted.Perm members :=
  List.mergeSort_perm _ _

theorem pairwise_sorted (members : Members α) :
    members.sorted.Pairwise fun a b => a.1 ≤ b.1 := by
  refine (List.pairwise_mergeSort (fun a b c hab hbc => ?_) (fun a b => ?_) members).imp
    fun h => of_decide_eq_true h
  · exact decide_eq_true ((of_decide_eq_true hab).trans (of_decide_eq_true hbc))
  · simpa using le_total a.1 b.1

theorem sorted_eq_iff (hms : ms.names.Nodup) : ms.sorted = ns.sorted ↔ ms.Perm ns := by
  constructor
  · intro h
    exact (ms.sorted_perm.symm.trans (h ▸ .refl _)).trans ns.sorted_perm
  · intro h
    refine List.Perm.eq_of_pairwise (fun a b ha hb hab hba => ?_) ms.pairwise_sorted
      ns.pairwise_sorted (ms.sorted_perm.trans (h.trans ns.sorted_perm.symm))
    have hbms := h.symm.mem_iff.mp (ns.sorted_perm.mem_iff.mp hb)
    exact List.inj_on_of_nodup_map hms (ms.sorted_perm.mem_iff.mp ha) hbms (hab.antisymm hba)

theorem perm_iff (hms : ms.names.Nodup) :
    ms.Perm ns ↔ ms.length = ns.length ∧ ∀ member ∈ ms, member ∈ ns := by
  constructor
  · exact fun h => ⟨h.length_eq, fun member => h.mem_iff.mp⟩
  · rintro ⟨hlength, hsubset⟩
    exact (List.subperm_of_subset (List.Nodup.of_map _ hms) hsubset).perm_of_length_le hlength.ge

end Members

/-! ## The canonical form of a value -/

theorem Number.same_iff_value (a b : Number) : a.same b = true ↔ a.value = b.value := by
  refine ⟨value_of_same, fun h => (same_iff a b).mpr ?_⟩
  have hscaled : (a.scaled : ℚ) = b.scaled := by rw [a.scaled_eq, b.scaled_eq, h]
  exact_mod_cast hscaled

namespace Json

mutual

def canonical : Json → Canonical
  | .null => .null
  | .bool b => .bool b
  | .num n => .num n.value
  | .str s => .str s
  | .arr items => .arr (canonicalItems items)
  | .obj members => .obj (Members.sorted (canonicalMembers members))

def canonicalItems : List Json → List Canonical
  | [] => []
  | item :: rest => item.canonical :: canonicalItems rest

def canonicalMembers : List (String × Json) → List (String × Canonical)
  | [] => []
  | (name, value) :: rest => (name, value.canonical) :: canonicalMembers rest

end

variable {v w u : Json} {as bs : List Json} {ms ns : Members Json}

theorem canonicalItems_eq (items : List Json) : canonicalItems items = items.map canonical := by
  induction items with
  | nil => rfl
  | cons item rest ih => rw [canonicalItems, ih, List.map_cons]

theorem canonicalMembers_eq (members : Members Json) :
    canonicalMembers members = members.map fun member => (member.1, member.2.canonical) := by
  induction members with
  | nil => rfl
  | cons first rest ih => rw [canonicalMembers, ih, List.map_cons]

theorem names_canonicalMembers (members : Members Json) :
    Members.names (canonicalMembers members) = members.names := by
  rw [canonicalMembers_eq, Members.names, Members.names, List.map_map]
  rfl

theorem length_canonicalMembers (members : Members Json) :
    (canonicalMembers members).length = members.length := by
  rw [canonicalMembers_eq, List.length_map]

theorem mem_canonicalMembers {name : String} {form : Canonical} :
    (name, form) ∈ canonicalMembers ms ↔ ∃ value, (name, value) ∈ ms ∧ value.canonical = form := by
  simp [canonicalMembers_eq]

/-! ## Equal values -/

theorem sameItems_iff_canonical (h : ∀ a ∈ as, ∀ b ∈ bs, a.same b = true ↔ a.canonical = b.canonical) :
    List.Forall₂ (fun a b => a.same b = true) as bs ↔ as.map canonical = bs.map canonical := by
  induction as generalizing bs with
  | nil => cases bs <;> simp
  | cons a as ih =>
    cases bs with
    | nil => simp
    | cons b bs =>
      have hfirst := h a List.mem_cons_self b List.mem_cons_self
      have hrest := ih fun a' ha b' hb => h a' (List.mem_cons_of_mem _ ha) b' (List.mem_cons_of_mem _ hb)
      rw [List.forall₂_cons, List.map_cons, List.map_cons, List.cons.injEq, hfirst, hrest]

theorem sameObjects_iff_canonical (hms : ms.names.Nodup) (hns : ns.names.Nodup)
    (h : ∀ name a b, (name, a) ∈ ms → (name, b) ∈ ns →
      (a.same b = true ↔ a.canonical = b.canonical)) :
    (obj ms).same (obj ns) = true ↔ (canonicalMembers ms).Perm (canonicalMembers ns) := by
  have hnames : (Members.names (canonicalMembers ms)).Nodup := by rwa [names_canonicalMembers]
  rw [same_obj_iff, Members.perm_iff hnames, length_canonicalMembers, length_canonicalMembers]
  refine and_congr_right fun _ => ⟨?_, ?_⟩
  · rintro hall ⟨name, form⟩ hmem
    obtain ⟨a, ha, rfl⟩ := mem_canonicalMembers.mp hmem
    obtain ⟨b, hget, hsame⟩ := hall name a ha
    have hb := Members.mem_of_get? hget
    exact mem_canonicalMembers.mpr ⟨b, hb, ((h name a b ha hb).mp hsame).symm⟩
  · intro hall name a ha
    obtain ⟨b, hb, hform⟩ := mem_canonicalMembers.mp (hall _ (mem_canonicalMembers.mpr ⟨a, ha, rfl⟩))
    exact ⟨b, Members.get?_of_mem hns hb, (h name a b ha hb).mpr hform.symm⟩

theorem same_iff_canonical (hv : v.isWellFormed = true) (hw : w.isWellFormed = true) :
    v.same w = true ↔ v.canonical = w.canonical := by
  induction v using induction_parts generalizing w with
  | null => cases w <;> simp [same, canonical]
  | bool b => cases w <;> simp [same, canonical]
  | str s => cases w <;> simp [same, canonical]
  | num n => cases w <;> simp [same, canonical, Number.same_iff_value]
  | arr as ih =>
    cases w with
    | arr bs =>
      have hitems := sameItems_iff_canonical fun a ha b hb =>
        ih a ha (isWellFormed_item hv ha) (isWellFormed_item hw hb)
      rw [canonical, canonical, Canonical.arr.injEq, canonicalItems_eq, canonicalItems_eq, ← hitems]
      simp [same, sameItems_iff]
    | _ => simp [same, canonical]
  | obj ms ih =>
    cases w with
    | obj ns =>
      have hms := isWellFormed_names hv
      rw [canonical, canonical, Canonical.obj.injEq,
        Members.sorted_eq_iff (by rwa [names_canonicalMembers])]
      exact sameObjects_iff_canonical hms (isWellFormed_names hw) fun name a b ha hb =>
        ih name a ha (isWellFormed_member hv ha) (isWellFormed_member hw hb)
    | _ => simp [same, canonical]

theorem kind_of_same (h : v.same w = true) : v.kind = w.kind := by
  cases v with
  | num n =>
    obtain ⟨m, rfl, hnm⟩ := num_same_iff.mp h
    have hintegral : n.isIntegral = m.isIntegral := by
      rw [Bool.eq_iff_iff, n.isIntegral_iff, m.isIntegral_iff, Number.value_of_same hnm]
    rw [kind, kind, hintegral]
  | _ => cases w <;> first | rfl | simp [same] at h

theorem hasKind_of_same (h : v.same w = true) (kind : Kind) : v.hasKind kind = w.hasKind kind := by
  have hkind := kind_of_same h
  cases v with
  | num n =>
    obtain ⟨m, rfl, -⟩ := num_same_iff.mp h
    cases kind <;> simp only [hasKind, hkind]
  | _ => cases w <;> first | (cases kind <;> rfl) | simp [same] at h

end Json

/-! ## Arrays without equal items -/

theorem Json.pairwise_differ_iff {items : List Json} (hitems : ∀ item ∈ items, item.isWellFormed = true) :
    (items.Pairwise fun a b => a.same b = false) ↔ (items.map Json.canonical).Nodup := by
  rw [List.Nodup, List.pairwise_map]
  refine List.Pairwise.iff_of_mem fun ha hb => ?_
  rw [Ne, ← same_iff_canonical (hitems _ ha) (hitems _ hb), Bool.not_eq_true]

theorem ArrayKeywords.fails_uniqueItems {keywords : ArrayKeywords} {items : List Json} :
    Fails (keywords.check items) "uniqueItems" ↔
      keywords.uniqueItems = true ∧ ¬ items.Pairwise fun a b => a.same b = false := by
  rw [fails_check]
  refine ⟨fun h => ?_, fun h => .uniqueItems h.1 h.2⟩
  generalize hkeyword : "uniqueItems" = keyword at h
  cases h with
  | uniqueItems h hequal => exact ⟨h, hequal⟩
  | minItems | maxItems => simp at hkeyword

theorem ArrayKeywords.fails_uniqueItems_canonical {keywords : ArrayKeywords} {items : List Json}
    (hitems : ∀ item ∈ items, item.isWellFormed = true) :
    Fails (keywords.check items) "uniqueItems" ↔
      keywords.uniqueItems = true ∧ ¬ (items.map Json.canonical).Nodup := by
  rw [fails_uniqueItems, Json.pairwise_differ_iff hitems]

/-- Equality of values is equality of their canonical forms, so that it is an equivalence, that
equal values are of one kind, and that the report of equal items does not depend on their order. -/
theorem same_is_equality_of_canonical_forms {v w : Json} (hv : v.isWellFormed = true)
    (hw : w.isWellFormed = true) (u : Json) {items others : List Json}
    (hitems : ∀ item ∈ items, item.isWellFormed = true) (hperm : items.Perm others)
    (keywords : ArrayKeywords) :
    v.same v = true ∧ (v.same w = true → w.same v = true) ∧
      (v.same w = true → w.same u = true → v.same u = true) ∧
      (v.same w = true ↔ v.canonical = w.canonical) ∧
      (v.same w = true → v.kind = w.kind ∧ ∀ kind, v.hasKind kind = w.hasKind kind) ∧
      (Fails (keywords.check items) "uniqueItems" ↔
        keywords.uniqueItems = true ∧ ¬ (items.map Json.canonical).Nodup) ∧
      (Fails (keywords.check items) "uniqueItems" ↔ Fails (keywords.check others) "uniqueItems") := by
  have hothers : ∀ item ∈ others, item.isWellFormed = true :=
    fun item hmem => hitems item (hperm.mem_iff.mpr hmem)
  refine ⟨Json.same_refl hv, Json.same_symm hv hw, Json.same_trans, Json.same_iff_canonical hv hw,
    fun h => ⟨Json.kind_of_same h, Json.hasKind_of_same h⟩,
    ArrayKeywords.fails_uniqueItems_canonical hitems, ?_⟩
  rw [ArrayKeywords.fails_uniqueItems_canonical hitems,
    ArrayKeywords.fails_uniqueItems_canonical hothers, (hperm.map Json.canonical).nodup_iff]

/-- The integer `2 ^ 53` as a binary64 number, next to an integer that no such number is. -/
def largeRow : List Json :=
  [.obj [("a", .int 9007199254740992), ("b", .bool true)], .int 9007199254740993,
    .obj [("b", .bool true),
      ("a", .float ⟨false, 4503599627370496, 1075, by decide, by decide, by decide⟩)]]

theorem large_rows_have_equal_items :
    Fails (ArrayKeywords.check { uniqueItems := true } largeRow.reverse) "uniqueItems" := by
  have hrow : ∀ item ∈ largeRow, item.isWellFormed = true := by decide +kernel
  have hfirst : largeRow[0].isWellFormed = true := hrow _ (List.getElem_mem _)
  have hlast : largeRow[2].isWellFormed = true := hrow _ (List.getElem_mem _)
  obtain ⟨-, -, -, hsame, -, hfails, hreverse⟩ := same_is_equality_of_canonical_forms hfirst hlast
    largeRow[1] hrow largeRow.reverse_perm.symm { uniqueItems := true }
  have hform : largeRow[0].canonical = largeRow[2].canonical := hsame.mp (by decide +kernel)
  refine hreverse.mp (hfails.mpr ⟨rfl, fun hnodup => ?_⟩)
  simp_all [largeRow]

end JsonSchema
