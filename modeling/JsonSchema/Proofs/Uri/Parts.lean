import JsonSchema.Proofs.Outcome
import JsonSchema.Proofs.Text.Split
import JsonSchema.Uri.Join

/-!
# Where the parts of a URI end

Only the fragment holds a hash mark, so a fragment behind a URI leaves all other parts alone.
-/

namespace JsonSchema.Uri

/-! ## Cutting at a mark -/

section

variable {mark : Char} {cs before after : Chars}

theorem cutAt_append (h : mark ∉ before) : cutAt mark (before ++ mark :: after) = (before, after) := by
  rw [cutAt, cutChars?_append h]
  rfl

theorem cutAt_of_notMem (h : mark ∉ cs) : cutAt mark cs = (cs, []) := by
  rw [cutAt, cutChars?_eq_none h]
  rfl

theorem notMem_cutAt (mark : Char) (cs : Chars) : mark ∉ (cutAt mark cs).1 := by
  by_cases h : mark ∈ cs
  · obtain ⟨before, after, rfl, hbefore⟩ := List.eq_append_cons_of_mem h
    rwa [cutAt_append hbefore]
  · rwa [cutAt_of_notMem h]

theorem cutAt_subset (mark : Char) (cs : Chars) :
    (cutAt mark cs).1 ⊆ cs ∧ (cutAt mark cs).2 ⊆ cs := by
  by_cases h : mark ∈ cs
  · obtain ⟨before, after, rfl, hbefore⟩ := List.eq_append_cons_of_mem h
    rw [cutAt_append hbefore]
    simp
  · rw [cutAt_of_notMem h]
    simp

end

/-! ## Schemes -/

theorem toLower_ne_hash {c : Char} (h : c ≠ '#') : c.toLower ≠ '#' := by
  intro heq
  unfold Char.toLower at heq
  split at heq
  case isTrue hupper =>
    have hval := congrArg (fun c : Char => c.val.toNat) heq
    have hlow := UInt32.le_iff_toNat_le.mp hupper.1
    have hhigh := UInt32.le_iff_toNat_le.mp hupper.2
    simp at hval hlow hhigh
    omega
  case isFalse => exact h heq

theorem hash_notMem_cutScheme {base : String} {cs : Chars} (hbase : '#' ∉ base.toList) :
    '#' ∉ (cutScheme base cs).1.toList := by
  unfold cutScheme
  split
  case h_1 c scheme rest hcut =>
    split
    case isTrue hscheme =>
      rw [Bool.and_eq_true, List.all_eq_true] at hscheme
      rw [lowerAscii, String.toList_ofList, String.toList_ofList, List.mem_map]
      rintro ⟨x, hx, hlower⟩
      refine toLower_ne_hash ?_ hlower
      rintro rfl
      rcases List.mem_cons.mp hx with rfl | hx
      · exact absurd hscheme.1 (by decide)
      · exact absurd (hscheme.2 _ hx) (by decide)
    case isFalse => exact hbase
  case h_2 => exact hbase

theorem cutScheme_of_hash (base : String) {before : Chars} (after : Chars) (h : '#' ∈ before)
    (hcolon : ':' ∉ before) :
    cutScheme base (before ++ ':' :: after) = (base, before ++ ':' :: after) := by
  rw [cutScheme, cutChars?_append hcolon]
  cases before with
  | nil => rfl
  | cons c scheme =>
    have hbad : ¬ (isAsciiLetter c && scheme.all isSchemeChar) = true := by
      rw [Bool.and_eq_true, List.all_eq_true]
      rintro ⟨hletter, hscheme⟩
      rcases List.mem_cons.mp h with rfl | hmem
      · exact absurd hletter (by decide)
      · exact absurd (hscheme _ hmem) (by decide)
    simp only [if_neg hbad]

theorem cutScheme_hash (base : String) {cs : Chars} (fragment : Chars) (h : '#' ∉ cs) :
    cutScheme base (cs ++ '#' :: fragment) =
      ((cutScheme base cs).1, (cutScheme base cs).2 ++ '#' :: fragment) := by
  by_cases hcolon : ':' ∈ cs
  · obtain ⟨before, after, rfl, hbefore⟩ := List.eq_append_cons_of_mem hcolon
    rw [cutScheme, cutScheme, cutChars?_append hbefore, List.append_assoc, List.cons_append,
      cutChars?_append hbefore]
    cases before with
    | nil => rfl
    | cons c scheme =>
      simp only
      split <;> simp
  · have hnone : cutScheme base cs = (base, cs) := by rw [cutScheme, cutChars?_eq_none hcolon]
    rw [hnone]
    by_cases hmem : ':' ∈ fragment
    · obtain ⟨before, after, rfl, hbefore⟩ := List.eq_append_cons_of_mem hmem
      have hsplit : cs ++ '#' :: (before ++ ':' :: after) =
          (cs ++ '#' :: before) ++ ':' :: after := by simp
      rw [hsplit]
      exact cutScheme_of_hash base after (by simp) (by simp [hcolon, hbefore])
    · rw [cutScheme, cutChars?_eq_none (by simp [hcolon, hmem])]

theorem cutScheme_subset (base : String) (cs : Chars) : (cutScheme base cs).2 ⊆ cs := by
  by_cases hcolon : ':' ∈ cs
  · obtain ⟨before, after, rfl, hbefore⟩ := List.eq_append_cons_of_mem hcolon
    rw [cutScheme, cutChars?_append hbefore]
    cases before with
    | nil => exact List.Subset.refl _
    | cons c scheme =>
      simp only
      split
      · exact List.Subset.trans (List.subset_cons_self ..) (List.subset_append_right ..)
      · exact List.Subset.refl _
  · rw [cutScheme, cutChars?_eq_none hcolon]
    exact List.Subset.refl _

/-! ## Authorities -/

section

variable {α : Type} {p : α → Bool} {stop : α}

theorem takeWhile_stop (h : p stop = false) (before after : List α) :
    (before ++ stop :: after).takeWhile p = before.takeWhile p := by
  induction before with
  | nil => simp [h]
  | cons a before ih => rw [List.cons_append, List.takeWhile_cons, List.takeWhile_cons, ih]

theorem dropWhile_stop (h : p stop = false) (before after : List α) :
    (before ++ stop :: after).dropWhile p = before.dropWhile p ++ stop :: after := by
  induction before with
  | nil => simp [h]
  | cons a before ih =>
    rw [List.cons_append, List.dropWhile_cons, List.dropWhile_cons, ih]
    split <;> rfl

end

theorem cutAuthority_slashes (rest : Chars) : cutAuthority ('/' :: '/' :: rest) =
    (rest.takeWhile (!isAuthorityEnd ·), rest.dropWhile (!isAuthorityEnd ·)) := rfl

theorem cutAuthority_other {cs : Chars} (h : ∀ rest, cs ≠ '/' :: '/' :: rest) :
    cutAuthority cs = ([], cs) := by
  unfold cutAuthority
  split
  case h_1 rest => exact absurd rfl (h rest)
  case h_2 => rfl

theorem cutAuthority_hash (cs fragment : Chars) :
    cutAuthority (cs ++ '#' :: fragment) =
      ((cutAuthority cs).1, (cutAuthority cs).2 ++ '#' :: fragment) := by
  have hstop : (!isAuthorityEnd '#') = false := rfl
  by_cases h : ∃ rest, cs = '/' :: '/' :: rest
  · obtain ⟨rest, rfl⟩ := h
    rw [List.cons_append, List.cons_append, cutAuthority_slashes, cutAuthority_slashes,
      takeWhile_stop (p := fun c => !isAuthorityEnd c) hstop,
      dropWhile_stop (p := fun c => !isAuthorityEnd c) hstop]
  · rw [not_exists] at h
    rw [cutAuthority_other h, cutAuthority_other]
    rintro rest heq
    match cs with
    | [] => simp at heq
    | [c] => simp at heq
    | c :: d :: rest' =>
      rw [List.cons_append, List.cons_append, List.cons.injEq, List.cons.injEq] at heq
      exact h rest' (by rw [heq.1, heq.2.1])

theorem cutAuthority_subset (cs : Chars) :
    (cutAuthority cs).1 ⊆ cs ∧ (cutAuthority cs).2 ⊆ cs ∧ '#' ∉ (cutAuthority cs).1 := by
  unfold cutAuthority
  split
  case h_1 rest =>
    refine ⟨fun c hc => ?_, fun c hc => ?_, fun hc => ?_⟩
    · exact List.mem_cons_of_mem _ (List.mem_cons_of_mem _ (List.takeWhile_subset _ hc))
    · exact List.mem_cons_of_mem _ (List.mem_cons_of_mem _ (List.dropWhile_subset _ hc))
    · have hall := List.all_takeWhile (p := fun c => !isAuthorityEnd c) (l := rest)
      rw [List.all_eq_true] at hall
      exact absurd (hall _ hc) (by decide)
  case h_2 => simp

/-! ## Whole URIs -/

/-- No part but the fragment holds a hash mark. -/
structure Parts.Plain (parts : Parts) : Prop where
  scheme : '#' ∉ parts.scheme.toList
  authority : '#' ∉ parts.authority
  path : '#' ∉ parts.path
  query : '#' ∉ parts.query

theorem split_eq_ok {scheme : String} {cs : Chars} {parts : Parts} :
    split scheme cs = .ok parts ↔
      cutParts scheme (cleaned cs) = parts ∧ authorityFault? parts.authority = none := by
  unfold split
  simp only
  split
  case h_1 fault hfault =>
    constructor
    · exact fun h => nomatch h
    · rintro ⟨rfl, hnone⟩
      rw [hfault] at hnone
      cases hnone
  case h_2 hnone =>
    rw [Except.ok.injEq]
    constructor
    · rintro rfl
      exact ⟨rfl, hnone⟩
    · exact And.left

theorem cutParts_plain {scheme : String} (hscheme : '#' ∉ scheme.toList) (cs : Chars) :
    (cutParts scheme cs).Plain := by
  have hrest := notMem_cutAt '#' (cutAuthority (cutScheme scheme cs).2).2
  have hcut := cutAt_subset '?' (cutAt '#' (cutAuthority (cutScheme scheme cs).2).2).1
  exact {
    scheme := hash_notMem_cutScheme hscheme
    authority := (cutAuthority_subset _).2.2
    path := fun hmem => hrest (hcut.1 hmem)
    query := fun hmem => hrest (hcut.2 hmem) }

theorem split_plain {scheme : String} {cs : Chars} {parts : Parts} (hscheme : '#' ∉ scheme.toList)
    (h : split scheme cs = .ok parts) : parts.Plain := by
  obtain ⟨rfl, -⟩ := split_eq_ok.mp h
  exact cutParts_plain hscheme _

theorem cutParts_hash (scheme : String) {cs : Chars} (fragment : Chars) (h : '#' ∉ cs) :
    cutParts scheme (cs ++ '#' :: fragment) = { cutParts scheme cs with fragment } := by
  have hrest : '#' ∉ (cutAuthority (cutScheme scheme cs).2).2 := fun hmem =>
    h (cutScheme_subset _ _ ((cutAuthority_subset _).2.1 hmem))
  simp only [cutParts, cutScheme_hash scheme fragment h, cutAuthority_hash, cutAt_append hrest,
    cutAt_of_notMem hrest]

theorem cleaned_hash (cs fragment : Chars) :
    cleaned (cs ++ '#' :: fragment) = cleaned cs ++ '#' :: fragment.filter (!isRemoved ·) := by
  have hstop : isLeadingJunk '#' = false := rfl
  have hkeep : (!isRemoved '#') = true := rfl
  rw [cleaned, cleaned, dropWhile_stop hstop, List.filter_append,
    List.filter_cons_of_pos (p := fun c => !isRemoved c) hkeep]

theorem cleaned_subset (cs : Chars) : cleaned cs ⊆ cs :=
  fun _ hc => List.dropWhile_subset _ (List.mem_filter.mp hc).1

theorem split_hash {scheme : String} {cs : Chars} (fragment : Chars) {parts : Parts}
    (h : '#' ∉ cs) (hsplit : split scheme cs = .ok parts) :
    split scheme (cs ++ '#' :: fragment) =
      .ok { parts with fragment := fragment.filter (!isRemoved ·) } := by
  obtain ⟨rfl, hfault⟩ := split_eq_ok.mp hsplit
  refine split_eq_ok.mpr ⟨?_, hfault⟩
  rw [cleaned_hash, cutParts_hash _ _ fun hmem => h (cleaned_subset cs hmem)]

/-! ## Without the fragment -/

theorem hash_notMem_marked {mark : Char} {cs : Chars} (h : '#' ∉ cs) (hmark : mark ≠ '#') :
    '#' ∉ marked mark cs := by
  unfold marked
  split <;> simp [h, hmark.symm]

theorem hash_notMem_cutParameters {scheme : String} {path : Chars} (h : '#' ∉ path) :
    '#' ∉ (cutParameters scheme path).chars := by
  have hmark : ∀ {cs : Chars}, '#' ∉ cs → '#' ∉ marked ';' cs := fun h =>
    hash_notMem_marked h (by decide)
  have hself : '#' ∉ (⟨path, []⟩ : ParameterPath).chars := by
    simpa [ParameterPath.chars, marked] using h
  unfold cutParameters
  split
  case isFalse => exact hself
  case isTrue =>
    split
    case h_1 before last hcut =>
      obtain ⟨hbefore, hlast⟩ := cutLastChars?_subset hcut
      split
      case h_1 name parameters hname =>
        have hsubset := cutAt_subset ';' last
        rw [cutAt, hname] at hsubset
        have hparts : '#' ∉ name ∧ '#' ∉ parameters :=
          ⟨fun hc => h (hlast (hsubset.1 hc)), fun hc => h (hlast (hsubset.2 hc))⟩
        have hfront : '#' ∉ before := fun hc => h (hbefore hc)
        simp [ParameterPath.chars, hfront, hparts.1, hmark hparts.2]
      case h_2 => exact hself
    case h_2 =>
      have hsubset := cutAt_subset ';' path
      have hname : '#' ∉ (cutAt ';' path).1 := fun hc => h (hsubset.1 hc)
      have hparameters : '#' ∉ (cutAt ';' path).2 := fun hc => h (hsubset.2 hc)
      simp [ParameterPath.chars, hname, hmark hparameters]

theorem Parts.Plain.chars {parts : Parts} (h : parts.Plain) (hfragment : parts.fragment = []) :
    '#' ∉ parts.chars := by
  have hquery : '#' ∉ marked '?' parts.query := hash_notMem_marked h.query (by decide)
  rw [Parts.chars, hfragment]
  simp only [List.mem_append, not_or]
  refine ⟨⟨⟨?_, ?_⟩, hquery⟩, by simp [marked]⟩
  · split <;> simp [h.scheme]
  · split
    · simp only [List.cons_append, List.mem_cons, List.mem_append, not_or]
      refine ⟨by decide, by decide, h.authority, ?_⟩
      split <;> simp [h.path]
    · exact h.path

theorem Parts.Plain.withoutFragment {parts : Parts} (h : parts.Plain) :
    '#' ∉ parts.withoutFragment.toList := by
  rw [Parts.withoutFragment, String.toList_ofList]
  exact Parts.Plain.chars ⟨h.scheme, h.authority, hash_notMem_cutParameters h.path, h.query⟩ rfl

theorem hash_notMem_of_defragment {uri : String} {result : String × String}
    (h : defragment uri = .ok result) : '#' ∉ result.1.toList := by
  unfold defragment at h
  split at h
  case isTrue =>
    obtain ⟨parts, hsplit, h⟩ := Except.bind_eq_ok.mp h
    rw [← Except.pure_eq_ok.mp h]
    exact (split_plain List.not_mem_nil hsplit).withoutFragment
  case isFalse hhash =>
    cases h
    simpa using hhash

theorem hash_notMem_of_locate {base reference : String} {result : String × String}
    (h : locate base reference = .ok result) : '#' ∉ result.1.toList := by
  obtain ⟨uri, -, h⟩ := Except.bind_eq_ok.mp h
  exact hash_notMem_of_defragment h

end JsonSchema.Uri
