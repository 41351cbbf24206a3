import JsonSchema.Proofs.Uri.Fragment

/-!
# References that name no other document

A reference of a document without a base that leads to the document itself is nothing but delimiters
and a fragment. Behind a key that is spelled as it comes out of joining it leads to the document
with this key.
-/

namespace JsonSchema.Uri

variable {base key reference fragment : String} {origin given : Parts}

/-! ## References without a base -/

theorem cutScheme_cases (cs : Chars) :
    (∃ scheme rest, scheme ≠ "" ∧ ∀ base, cutScheme base cs = (scheme, rest)) ∨
      ∀ base, cutScheme base cs = (base, cs) := by
  cases hcut : cutChars? ':' cs with
  | none => exact .inr fun base => by rw [cutScheme, hcut]
  | some cut =>
    obtain ⟨before, rest⟩ := cut
    cases before with
    | nil => exact .inr fun base => by rw [cutScheme, hcut]
    | cons c scheme =>
      by_cases hscheme : (isAsciiLetter c && scheme.all isSchemeChar) = true
      · refine .inl ⟨lowerAscii (String.ofList (c :: scheme)), rest, ?_, fun base => ?_⟩
        · simp [lowerAscii, ← String.toList_inj]
        · simp only [cutScheme, hcut, if_pos hscheme]
      · exact .inr fun base => by simp only [cutScheme, hcut, if_neg hscheme]

theorem split_of_scheme_empty (scheme : String) {cs : Chars} (h : split "" cs = .ok given)
    (hscheme : given.scheme = "") : split scheme cs = .ok { given with scheme } := by
  obtain ⟨rfl, hfault⟩ := split_eq_ok.mp h
  refine split_eq_ok.mpr ⟨?_, hfault⟩
  rcases cutScheme_cases (cleaned cs) with ⟨own, rest, hown, hcut⟩ | hcut
  · rw [cutParts, hcut ""] at hscheme
    exact absurd hscheme hown
  · simp only [cutParts, hcut]

theorem visible_fragment {scheme : String} {cs : Chars} (h : split scheme cs = .ok given) :
    visible (String.ofList given.fragment) = given.fragment := by
  obtain ⟨rfl, -⟩ := split_eq_ok.mp h
  rw [visible, String.toList_ofList, List.filter_eq_self]
  intro c hc
  have hrest := (cutAt_subset '#' (cutAuthority (cutScheme scheme (cleaned cs)).2).2).2 hc
  have hmem := cutScheme_subset _ _ ((cutAuthority_subset _).2.1 hrest)
  exact (List.mem_filter.mp hmem).2

theorem marked_eq_nil {mark : Char} {cs : Chars} : marked mark cs = [] ↔ cs = [] := by
  cases cs <;> simp [marked]

theorem chars_eq_nil (h : given.chars = []) :
    given.scheme = "" ∧ given.authority = [] ∧ given.path = [] ∧ given.query = [] := by
  unfold Parts.chars at h
  simp only [List.append_eq_nil_iff, marked_eq_nil] at h
  obtain ⟨⟨⟨hscheme, hpath⟩, hquery⟩, -⟩ := h
  have hnone : given.scheme = "" := by
    split at hscheme
    case isTrue hempty => exact eq_of_beq hempty
    case isFalse => simp at hscheme
  split at hpath
  case isTrue => simp at hpath
  case isFalse hauthority =>
    simp only [Bool.or_eq_true, Bool.not_eq_true', not_or, Bool.not_eq_false,
      List.isEmpty_iff] at hauthority
    exact ⟨hnone, hauthority.1.1, hpath, hquery⟩

/-- Only a semicolon is a path of which nothing remains without its parameters. -/
theorem path_of_cutParameters_nil {scheme : String} {path : Chars}
    (h : (cutParameters scheme path).chars = []) : path = [] ∨ path = [';'] := by
  simp only [ParameterPath.chars, List.append_eq_nil_iff, marked_eq_nil] at h
  unfold cutParameters at h
  split at h
  case isFalse => exact .inl h.1
  case isTrue hsemicolon =>
    simp only [Bool.and_eq_true, List.contains_iff_mem] at hsemicolon
    split at h
    case h_1 before last hcut =>
      split at h
      · simp at h
      · exact .inl h.1
    case h_2 =>
      obtain ⟨before, after, rfl, hbefore⟩ := List.eq_append_cons_of_mem hsemicolon.2
      rw [cutAt_append hbefore] at h
      obtain ⟨rfl, rfl⟩ := h
      exact .inr rfl

/-- What the parts of a reference are that leads to its own document where there is no base. -/
structure Parts.Own (given : Parts) : Prop where
  scheme : given.scheme = ""
  authority : given.authority = []
  path : given.path = [] ∨ given.path = [';']
  query : given.query = []

theorem own_of_withoutFragment (h : given.withoutFragment = "") : given.Own := by
  rw [Parts.withoutFragment, ← String.toList_inj, String.toList_ofList] at h
  obtain ⟨hscheme, hauthority, hpath, hquery⟩ := chars_eq_nil h
  exact ⟨hscheme, hauthority, path_of_cutParameters_nil hpath, hquery⟩

/-! ## The same references behind a key -/

/-- The key of a document comes back when it is cut and put together again. -/
def Spelled (key : String) : Prop :=
  ∃ parts, split "" key.toList = .ok parts ∧ parts.withoutFragment = key

instance : DecidablePred Spelled := fun key =>
  match h : split "" key.toList with
  | .ok parts => decidable_of_iff (parts.withoutFragment = key) (by simp [Spelled, h])
  | .error _ => .isFalse (by simp [Spelled, h])

/-- A reference whose path is a lone semicolon keeps to its document only behind a scheme whose
paths have parameters, or whose references are never relative. -/
def KeepsTo (key reference : String) : Prop :=
  ∀ origin given, split "" key.toList = .ok origin → split "" reference.toList = .ok given →
    given.path = [';'] → origin.scheme ∈ parameterSchemes ∨ origin.scheme ∉ relativeSchemes

theorem spelled_empty : Spelled "" := ⟨_, split_empty "", rfl⟩

theorem keepsTo_of_parameters (hsplit : split "" key.toList = .ok origin)
    (hscheme : origin.scheme ∈ parameterSchemes) (reference : String) : KeepsTo key reference := by
  intro other given hother _ _
  obtain rfl := Except.ok.inj (hsplit.symm.trans hother)
  exact .inl hscheme

theorem Spelled.hash (h : Spelled key) : '#' ∉ key.toList := by
  obtain ⟨parts, hsplit, hspelled⟩ := h
  exact hspelled ▸ (split_plain List.not_mem_nil hsplit).withoutFragment

theorem locate_empty (reference : String) : locate "" reference = defragment reference := rfl

theorem locate_key (fragment : String) (h : Spelled key) :
    locate "" (key ++ "#" ++ fragment) = .ok (key, String.ofList (visible fragment)) := by
  have hhash := h.hash
  obtain ⟨parts, hsplit, hspelled⟩ := h
  have htext : (key ++ "#" ++ fragment).toList = key.toList ++ '#' :: fragment.toList := by
    rw [String.toList_append, String.toList_append]
    simp
  rw [locate_empty, defragment_of_hash htext hhash hsplit, hspelled]
  rfl

theorem ne_of_not_spelled {uri rest : String} (hhash : '#' ∉ key.toList) (hspelled : ¬ Spelled key)
    (h : locate "" (key ++ "#" ++ fragment) = .ok (uri, rest)) : uri ≠ key := by
  rintro rfl
  have htext : (uri ++ "#" ++ fragment).toList = uri.toList ++ '#' :: fragment.toList := by
    rw [String.toList_append, String.toList_append]
    simp
  rw [locate_empty] at h
  cases hsplit : split "" uri.toList with
  | ok parts =>
    rw [defragment_of_hash htext hhash hsplit, Except.ok.injEq, Prod.mk.injEq] at h
    exact hspelled ⟨parts, hsplit, h.1⟩
  | error fault =>
    rw [defragment, if_pos (by simp [htext]), htext] at h
    obtain ⟨parts, hparts, -⟩ := Except.bind_eq_ok.mp h
    obtain ⟨rfl, hfault⟩ := split_eq_ok.mp hparts
    rw [cleaned_hash, cutParts_hash _ _ fun hmem => hhash (cleaned_subset _ hmem)] at hfault
    have hok := split_eq_ok.mpr ⟨rfl, hfault⟩
    rw [hsplit] at hok
    cases hok

theorem cutParameters_semicolon {scheme : String} (h : scheme ∈ parameterSchemes) :
    cutParameters scheme [';'] = ⟨[], []⟩ := by
  have hscheme : parameterSchemes.contains scheme = true := by simpa using h
  rw [cutParameters, hscheme]
  rfl

theorem join_own (hkey : key ≠ "") (hsplit : split "" key.toList = .ok origin)
    (hreference : split "" reference.toList = .ok given) (hne : reference ≠ "") (hown : given.Own)
    (hkeeps : given.path = [';'] → origin.scheme ∈ parameterSchemes ∨ origin.scheme ∉ relativeSchemes) :
    join key reference = .ok (if origin.scheme ∈ relativeSchemes
      then behind origin.withoutFragment given.fragment else reference) := by
  have hgiven := split_of_scheme_empty origin.scheme hreference hown.scheme
  simp only [join, beq_false_of_ne hkey, beq_false_of_ne hne, hsplit, hgiven, bind, Except.bind,
    pure, Except.pure, hown.authority, hown.query]
  by_cases hscheme : origin.scheme ∈ relativeSchemes
  · have hrelative : relativeSchemes.contains origin.scheme = true := by simpa using hscheme
    have hauthority := relative_has_authority _ hscheme
    have hpath : cutParameters origin.scheme given.path = ⟨[], []⟩ := by
      rcases hown.path with hnil | hsemicolon
      · rw [hnil, cutParameters_nil]
      · rw [hsemicolon, cutParameters_semicolon ((hkeeps hsemicolon).resolve_right (by simpa))]
    have hjoined := ofList_chars origin _ given.fragment rfl
    simpa [hscheme, hrelative, hauthority, hpath] using hjoined
  · simp [hscheme]

/-- A reference that leads to its own document where there is no base does so behind a key. -/
theorem locate_own (hspelled : Spelled key) (hkey : key ≠ "") (hkeeps : KeepsTo key reference)
    (h : locate "" reference = .ok ("", fragment)) :
    ∃ uri, locate key reference = .ok (uri, fragment) ∧ (uri = "" ∨ uri = key) := by
  have hhash := hspelled.hash
  obtain ⟨origin, hsplit, horigin⟩ := hspelled
  by_cases hne : reference = ""
  · subst hne
    cases h
    refine ⟨key, ?_, .inr rfl⟩
    simp [locate, join, beq_false_of_ne hkey, bind, Except.bind, pure, Except.pure,
      defragment_of_notMem hhash]
  have hcut := h
  rw [locate_empty, defragment] at hcut
  split at hcut
  case isFalse =>
    cases hcut
    exact absurd rfl hne
  case isTrue =>
    obtain ⟨given, hgiven, hcut⟩ := Except.bind_eq_ok.mp hcut
    obtain ⟨hnone, hfragment⟩ := Prod.mk.inj (Except.pure_eq_ok.mp hcut)
    have hown := own_of_withoutFragment hnone
    simp only [locate, join_own hkey hsplit hgiven hne hown (hkeeps origin given hsplit hgiven), bind,
      Except.bind]
    split
    case isTrue =>
      have hvisible := visible_fragment hgiven
      refine ⟨key, ?_, .inr rfl⟩
      rw [horigin, ← hvisible, defragment_behind _ hhash hsplit horigin, hvisible, hfragment]
    case isFalse => exact ⟨"", h, .inl rfl⟩

end JsonSchema.Uri
