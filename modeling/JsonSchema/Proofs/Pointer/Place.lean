import JsonSchema.Proofs.Json.Members
import JsonSchema.Proofs.Outcome
import JsonSchema.Proofs.Pointer.Text
import Mathlib.Data.Nat.Digits.Defs

/-!
# Places of a document

Where the values of a document stand. A compilation meets values on two ways, through the keywords
of schemas and along the pointers of references, and both lead to places.
-/

namespace JsonSchema

/-! ## Indices -/

def Pointer.index? (token : String) : Option Nat :=
  if token.isEmpty then none else decimalNumeral? token.toList

theorem decimalValue?_digitChar {d : Nat} (h : d < 10) :
    decimalValue? (Nat.digitChar d) = some d := by
  match d with
  | 0 | 1 | 2 | 3 | 4 | 5 | 6 | 7 | 8 | 9 => rfl

theorem decimalNumeral?_concat (digits : List Char) (digit : Char) :
    decimalNumeral? (digits ++ [digit]) =
      (decimalNumeral? digits).bind fun n => (decimalValue? digit).map (10 * n + ·) := by
  rw [decimalNumeral?, List.foldlM_append]
  simp [decimalNumeral?]

theorem decimalNumeral?_toDigits (n : Nat) : decimalNumeral? (Nat.toDigits 10 n) = some n := by
  induction n using Nat.strongRecOn with
  | ind n ih =>
    rw [Nat.toDigits_eq_if (by omega)]
    split
    case isTrue hlt =>
      have := decimalNumeral?_concat [] n.digitChar
      rw [List.nil_append] at this
      rw [this, decimalValue?_digitChar hlt]
      simp [decimalNumeral?]
    case isFalse hge =>
      rw [decimalNumeral?_concat, ih (n / 10) (by omega),
        decimalValue?_digitChar (Nat.mod_lt n (by omega))]
      simp only [Option.bind_some, Option.map_some, Option.some.injEq]
      omega

theorem Pointer.index?_natText (n : Nat) : Pointer.index? (natText n) = some n := by
  have hne : (natText n).isEmpty = false := by
    rw [natText, ← Bool.not_eq_true, String.isEmpty_iff, ← String.toList_inj,
      String.toList_ofList]
    exact Nat.toDigits_ne_nil
  rw [index?, hne, natText, String.toList_ofList]
  exact decimalNumeral?_toDigits n

theorem natText_inj {m n : Nat} (h : natText m = natText n) : m = n := by
  have hindex := Pointer.index?_natText m
  rw [h, Pointer.index?_natText] at hindex
  exact (Option.some.inj hindex).symm

theorem Pointer.index?_of_index {token : String} {i : Nat} (h : Pointer.index token = .ok i) :
    Pointer.index? token = some i := by
  unfold Pointer.index at h
  simp only at h
  split at h
  case isTrue => cases h
  case isFalse hcs =>
    simp only [Bool.or_eq_true, not_or] at hcs
    have hne : token.isEmpty = false := by
      rw [← Bool.not_eq_true, String.isEmpty_iff, ← String.toList_inj]
      simpa using hcs.1.1
    rw [index?, hne]
    split at h
    case h_1 => cases h
    case h_2 n hn =>
      split at h
      · cases h
      · rw [← Except.ok.inj h]
        exact hn

theorem exists_digit_of_mem_toDigits {n : Nat} {digit : Char} (h : digit ∈ Nat.toDigits 10 n) :
    ∃ d < 10, digit = Nat.digitChar d := by
  induction n using Nat.strongRecOn with
  | ind n ih =>
    rw [Nat.toDigits_eq_if (by omega)] at h
    split at h
    case isTrue hlt => exact ⟨n, hlt, List.mem_singleton.mp h⟩
    case isFalse hge =>
      rcases List.mem_append.mp h with h | h
      · exact ih (n / 10) (by omega) h
      · exact ⟨n % 10, Nat.mod_lt n (by omega), List.mem_singleton.mp h⟩

theorem eq_zero_of_head?_toDigits {n : Nat} (h : (Nat.toDigits 10 n).head? = some '0') : n = 0 := by
  induction n using Nat.strongRecOn with
  | ind n ih =>
    rw [Nat.toDigits_eq_if (by omega)] at h
    split at h
    case isTrue hlt =>
      match n with
      | 0 => rfl
      | 1 | 2 | 3 | 4 | 5 | 6 | 7 | 8 | 9 => cases h
    case isFalse hge =>
      rw [List.head?_append_of_ne_nil _ Nat.toDigits_ne_nil] at h
      have := ih (n / 10) (by omega) h
      omega

theorem isDigitCharacter_of_mem_toDigits {n : Nat} {digit : Char}
    (h : digit ∈ Nat.toDigits 10 n) : isDigitCharacter digit = true := by
  obtain ⟨d, hd, rfl⟩ := exists_digit_of_mem_toDigits h
  match d with
  | 0 | 1 | 2 | 3 | 4 | 5 | 6 | 7 | 8 | 9 => rfl

theorem Pointer.index_natText {n : Nat} (h : n < 10 ^ maxIntegerDigits) :
    Pointer.index (natText n) = .ok n := by
  have hdigits : (Nat.toDigits 10 n).all isDigitCharacter = true :=
    List.all_eq_true.mpr fun _ => isDigitCharacter_of_mem_toDigits
  have hlength := Nat.toDigits_length 10 n maxIntegerDigits (by decide) h
  have hzero : ((Nat.toDigits 10 n).head? == some '0' &&
      decide (1 < (Nat.toDigits 10 n).length)) = false := by
    rw [Bool.and_eq_false_imp, beq_iff_eq]
    intro hhead
    rw [eq_zero_of_head?_toDigits hhead]
    rfl
  unfold index
  simp only [natText, String.toList_ofList, hdigits, hzero, decimalNumeral?_toDigits, Bool.not_true,
    Bool.or_false, List.isEmpty_iff, Nat.toDigits_ne_nil, if_false, Nat.not_lt.mpr hlength]

/-! ## Places -/

namespace Json

/-- The tokens lead from the root of a document to this value. -/
inductive At (document : Json) : List String → Json → Prop where
  | root : At document [] document
  | member {tokens : List String} {members : Members Json} {name : String} {value : Json}
      (hparent : At document tokens (.obj members)) (hvalue : (name, value) ∈ members) :
      At document (tokens ++ [name]) value
  | item {tokens : List String} {items : List Json} {token : String} {index : Nat} {value : Json}
      (hparent : At document tokens (.arr items)) (hindex : Pointer.index? token = some index)
      (hvalue : items[index]? = some value) : At document (tokens ++ [token]) value

variable {document value value' : Json} {tokens more : List String}

theorem At.append (h : document.At tokens value) (h' : value.At more value') :
    document.At (tokens ++ more) value' := by
  induction h' with
  | root => rwa [List.append_nil]
  | member _ hvalue ih =>
    rw [← List.append_assoc]
    exact ih.member hvalue
  | item _ hindex hvalue ih =>
    rw [← List.append_assoc]
    exact ih.item hindex hvalue

/-- The tokens lead to this value, and every index in them is written the usual way. -/
inductive Leads (document : Json) : List String → Json → Prop where
  | root : Leads document [] document
  | member {tokens : List String} {members : Members Json} {name : String} {value : Json}
      (hparent : Leads document tokens (.obj members)) (hvalue : (name, value) ∈ members) :
      Leads document (tokens ++ [name]) value
  | item {tokens : List String} {items : List Json} {index : Nat} {value : Json}
      (hparent : Leads document tokens (.arr items)) (hvalue : items[index]? = some value) :
      Leads document (tokens ++ [natText index]) value

theorem Leads.at (h : document.Leads tokens value) : document.At tokens value := by
  induction h with
  | root => exact .root
  | member _ hvalue ih => exact ih.member hvalue
  | item _ hvalue ih => exact ih.item (Pointer.index?_natText _) hvalue

theorem Leads.append (h : document.Leads tokens value) (h' : value.Leads more value') :
    document.Leads (tokens ++ more) value' := by
  induction h' with
  | root => rwa [List.append_nil]
  | member _ hvalue ih =>
    rw [← List.append_assoc]
    exact ih.member hvalue
  | item _ hvalue ih =>
    rw [← List.append_assoc]
    exact ih.item hvalue

theorem At.isWellFormed (h : document.At tokens value) (hdocument : document.isWellFormed = true) :
    value.isWellFormed = true := by
  induction h with
  | root => exact hdocument
  | member _ hvalue ih => exact isWellFormed_member ih hvalue
  | item _ _ hvalue ih => exact isWellFormed_item ih (List.mem_of_getElem? hvalue)

def step? (value : Json) (token : String) : Option Json :=
  match value with
  | .obj members => Members.get? members token
  | .arr items => (Pointer.index? token).bind fun index => items[index]?
  | _ => none

def walk? (value : Json) (tokens : List String) : Option Json := tokens.foldlM step? value

theorem At.walk? (h : document.At tokens value) (hdocument : document.isWellFormed = true) :
    document.walk? tokens = some value := by
  induction h with
  | root => rfl
  | member hparent hvalue ih =>
    have hnames := isWellFormed_names (hparent.isWellFormed hdocument)
    rw [Json.walk?] at ih
    simp [Json.walk?, List.foldlM_append, ih, step?, Members.get?_of_mem hnames hvalue]
  | item hparent hindex hvalue ih =>
    rw [Json.walk?] at ih
    simp [Json.walk?, List.foldlM_append, ih, step?, hindex, hvalue]

theorem At.unique (hdocument : document.isWellFormed = true) (h : document.At tokens value)
    (h' : document.At tokens value') : value = value' :=
  Option.some.inj ((h.walk? hdocument).symm.trans (h'.walk? hdocument))

end Json

/-! ## Pointers lead to places -/

namespace Pointer

variable {document value : Json} {tokens : List String}

theorem descend_at {token : String} (h : descend document token = .ok value) :
    document.At [token] value := by
  unfold descend at h
  split at h
  case h_1 members =>
    split at h
    case h_1 member hget =>
      rw [← Except.ok.inj h]
      exact Json.At.root.member (Members.mem_of_get? hget)
    case h_2 => cases h
  case h_2 items =>
    obtain ⟨i, hi, hitem⟩ := Except.bind_eq_ok.mp h
    split at hitem
    case h_1 item hget =>
      rw [← Except.ok.inj hitem]
      exact Json.At.root.item (index?_of_index hi) hget
    case h_2 => cases hitem
  case h_3 => cases h

theorem resolve_at (h : resolve document tokens = .ok value) : document.At tokens value := by
  induction tokens generalizing document with
  | nil =>
    rw [← Except.pure_eq_ok.mp h]
    exact Json.At.root
  | cons token rest ih =>
    rw [resolve, List.foldlM_cons, Except.bind_eq_ok] at h
    obtain ⟨next, hnext, hrest⟩ := h
    exact (descend_at hnext).append (ih hrest)

theorem resolve_append (tokens : List String) (token : String) :
    resolve document (tokens ++ [token]) = resolve document tokens >>= (descend · token) := by
  rw [resolve, List.foldlM_append]
  exact bind_congr fun value => List.foldlM_cons.trans (bind_pure _)

/-- What leads to a place by plain indices is resolved, where no array is too long for them. -/
theorem resolve_of_leads (hdocument : document.isWellFormed = true)
    (hindices : ∀ tokens items, document.Leads tokens (.arr items) →
      items.length ≤ 10 ^ maxIntegerDigits)
    (h : document.Leads tokens value) : resolve document tokens = .ok value := by
  induction h with
  | root => rfl
  | member hparent hvalue ih =>
    have hnames := Json.isWellFormed_names (hparent.at.isWellFormed hdocument)
    rw [resolve_append, ih]
    simp [bind, Except.bind, descend, Members.get?_of_mem hnames hvalue]
  | @item tokens items index value hparent hvalue ih =>
    have hlt : index < items.length := (List.getElem?_eq_some_iff.mp hvalue).1
    have hindex := index_natText (Nat.lt_of_lt_of_le hlt (hindices _ _ hparent))
    rw [resolve_append, ih]
    simp [bind, Except.bind, descend, hindex, hvalue]

end Pointer

end JsonSchema
