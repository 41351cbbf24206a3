import JsonSchema.Proofs.Uri.Parts

/-!
# References that are a fragment only

Such a reference is put behind its base, and what comes out is cut again. The base comes back
when cutting it and putting it together leaves its spelling alone.
-/

namespace JsonSchema.Uri

variable {base fragment : String} {origin : Parts}

/-- The base is spelled as it comes out when its parts are put together, or nothing is joined. -/
def Stable (base : String) : Prop :=
  base = "" ∨ ∃ parts, split "" base.toList = .ok parts ∧
    (parts.scheme ∉ relativeSchemes ∨ parts.withoutFragment = base ∨ parts.withoutFragment = "")

instance : DecidablePred Stable := fun base =>
  match h : split "" base.toList with
  | .ok parts =>
    decidable_of_iff (base = "" ∨ parts.scheme ∉ relativeSchemes ∨ parts.withoutFragment = base ∨
      parts.withoutFragment = "") (by simp [Stable, h])
  | .error _ => decidable_of_iff (base = "") (by simp [Stable, h])

/-- What remains of a fragment when tabs and line ends are dropped. -/
def visible (fragment : String) : Chars := fragment.toList.filter (!isRemoved ·)

theorem toList_reference (fragment : String) : ("#" ++ fragment).toList = '#' :: fragment.toList :=
  String.toList_append ..

theorem relative_has_authority : ∀ scheme ∈ relativeSchemes, scheme ∈ authoritySchemes := by
  decide

/-! ## Cutting the reference -/

theorem split_empty (scheme : String) :
    split scheme [] = .ok { scheme, authority := [], path := [], query := [], fragment := [] } :=
  rfl

theorem split_reference (scheme fragment : String) :
    split scheme ("#" ++ fragment).toList =
      .ok { scheme, authority := [], path := [], query := [], fragment := visible fragment } := by
  have hreference : ("#" ++ fragment).toList = [] ++ '#' :: fragment.toList :=
    toList_reference fragment
  rw [hreference, split_hash fragment.toList List.not_mem_nil (split_empty scheme)]
  rfl

theorem defragment_of_hash {uri : String} {cs tail : Chars} {parts : Parts}
    (huri : uri.toList = cs ++ '#' :: tail) (h : '#' ∉ cs) (hsplit : split "" cs = .ok parts) :
    defragment uri =
      .ok (parts.withoutFragment, String.ofList (tail.filter (!isRemoved ·))) := by
  have hmem : uri.toList.contains '#' = true := by simp [huri]
  rw [defragment, if_pos hmem, huri, split_hash tail h hsplit]
  rfl

theorem defragment_of_notMem {uri : String} (h : '#' ∉ uri.toList) :
    defragment uri = .ok (uri, "") := by
  rw [defragment, if_neg (by simpa using h)]

theorem defragment_reference (fragment : String) :
    defragment ("#" ++ fragment) = .ok ("", String.ofList (visible fragment)) :=
  defragment_of_hash (toList_reference fragment) List.not_mem_nil (split_empty "")

/-! ## Joining the reference -/

def behind (text : String) (fragment : Chars) : String :=
  String.ofList (text.toList ++ marked '#' fragment)

theorem cutParameters_nil (scheme : String) : cutParameters scheme [] = ⟨[], []⟩ := by
  simp [cutParameters]

theorem chars_fragment (parts : Parts) :
    parts.chars = { parts with fragment := [] }.chars ++ marked '#' parts.fragment := by
  simp [Parts.chars, marked]

theorem ofList_chars (parts : Parts) (path fragment : Chars)
    (hpath : path = (cutParameters parts.scheme parts.path).chars) :
    String.ofList { parts with path, fragment }.chars = behind parts.withoutFragment fragment := by
  rw [behind, Parts.withoutFragment, String.toList_ofList, chars_fragment, hpath]

theorem join_reference (hbase : base ≠ "") (hsplit : split "" base.toList = .ok origin) :
    join base ("#" ++ fragment) = .ok (if origin.scheme ∈ relativeSchemes
      then behind origin.withoutFragment (visible fragment) else "#" ++ fragment) := by
  have hreference : (("#" ++ fragment) == "") = false := by
    rw [beq_eq_false_iff_ne, ne_eq, ← String.toList_inj, toList_reference]
    simp
  have hne : (base == "") = false := beq_false_of_ne hbase
  simp only [join, hne, hreference, hsplit, split_reference, bind, Except.bind, pure, Except.pure,
    cutParameters_nil]
  by_cases hscheme : origin.scheme ∈ relativeSchemes
  · have hrelative : relativeSchemes.contains origin.scheme = true := by simpa using hscheme
    have hauthority := relative_has_authority _ hscheme
    have hjoined := ofList_chars origin _ (visible fragment) rfl
    simpa [hscheme, hrelative, hauthority] using hjoined
  · simp [hscheme]

/-! ## The document that the reference means -/

theorem visible_empty : visible "" = [] := rfl

theorem filter_visible (fragment : String) :
    (visible fragment).filter (!isRemoved ·) = visible fragment := by
  simp [visible, List.filter_filter]

theorem defragment_behind {text : String} {parts : Parts} (fragment : String)
    (h : '#' ∉ text.toList) (hsplit : split "" text.toList = .ok parts)
    (hspelled : parts.withoutFragment = text) :
    defragment (behind text (visible fragment)) = .ok (text, String.ofList (visible fragment)) := by
  by_cases hvisible : visible fragment = []
  · have hbehind : behind text [] = text := by simp [behind, marked]
    rw [hvisible, hbehind]
    exact defragment_of_notMem h
  · have hbehind : (behind text (visible fragment)).toList =
        text.toList ++ '#' :: visible fragment := by
      simp [behind, marked, hvisible]
    rw [defragment_of_hash hbehind h hsplit, hspelled, filter_visible]

theorem locate_stable (fragment : String) (h : Stable base) :
    ∃ uri, locate base ("#" ++ fragment) = .ok (uri, String.ofList (visible fragment)) ∧
      (uri = "" ∨ uri = base) := by
  have hown := defragment_reference fragment
  by_cases hbase : base = ""
  · exact ⟨"", by simp [locate, join, hbase, bind, Except.bind, pure, Except.pure, hown], .inl rfl⟩
  obtain ⟨parts, hsplit, hspelled⟩ := h.resolve_left hbase
  have hplain := split_plain List.not_mem_nil hsplit
  simp only [locate, join_reference hbase hsplit, bind, Except.bind]
  by_cases hscheme : parts.scheme ∈ relativeSchemes
  · rw [if_pos hscheme]
    -- A base of nothing but delimiters comes out as the empty text.
    rcases hspelled.resolve_left (not_not_intro hscheme) with hsame | hempty
    · refine ⟨base, ?_, .inr rfl⟩
      rw [hsame]
      exact defragment_behind fragment (hsame ▸ hplain.withoutFragment) hsplit hsame
    · refine ⟨"", ?_, .inl rfl⟩
      rw [hempty]
      exact defragment_behind fragment List.not_mem_nil (split_empty "") rfl
  · rw [if_neg hscheme]
    exact ⟨"", hown, .inl rfl⟩

theorem stable_of_locate {uri rest : String} (h : locate base "#" = .ok (uri, rest))
    (hown : uri = "" ∨ uri = base) : Stable base := by
  by_cases hbase : base = ""
  · exact .inl hbase
  obtain ⟨joined, hjoin, hcut⟩ := Except.bind_eq_ok.mp h
  cases hsplit : split "" base.toList with
  | error fault =>
    have hne : (base == "") = false := beq_false_of_ne hbase
    simp [join, hne, hsplit, bind, Except.bind] at hjoin
  | ok parts =>
    refine .inr ⟨parts, hsplit, ?_⟩
    by_cases hscheme : parts.scheme ∈ relativeSchemes
    · have hjoined := @join_reference base "" parts hbase hsplit
      have hbehind : behind parts.withoutFragment [] = parts.withoutFragment := by
        simp [behind, marked]
      rw [visible_empty, if_pos hscheme, hbehind] at hjoined
      have hplain := split_plain List.not_mem_nil hsplit
      rw [show "#" ++ "" = "#" from rfl, hjoin, Except.ok.injEq] at hjoined
      rw [hjoined, defragment_of_notMem hplain.withoutFragment] at hcut
      cases hcut
      exact .inr hown.symm
    · exact .inl hscheme

end JsonSchema.Uri
