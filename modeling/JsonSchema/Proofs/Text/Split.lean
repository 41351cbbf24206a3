import JsonSchema.Proofs.Pointer.Text

/-!
# The parts of a text

What becomes of the parts between the occurrences of a mark when characters of the text are
dropped or changed, or when more text follows; and what stands before and after the first mark and
the last one.
-/

namespace JsonSchema

variable {mark c : Char} {cs rest part before after : List Char} {parts : List (List Char)}

theorem splitChars_mark (mark : Char) (rest : List Char) :
    splitChars mark (mark :: rest) = [] :: splitChars mark rest :=
  splitChars_append List.not_mem_nil

theorem splitChars_cons (hc : c ≠ mark) (h : splitChars mark rest = part :: parts) :
    splitChars mark (c :: rest) = (c :: part) :: parts := by
  simp [splitChars, h, hc]

theorem exists_splitChars (mark : Char) (cs : List Char) :
    ∃ part parts, splitChars mark cs = part :: parts := by
  induction cs with
  | nil => exact ⟨[], [], rfl⟩
  | cons c rest ih =>
    obtain ⟨part, parts, h⟩ := ih
    by_cases hc : c = mark
    · subst hc
      exact ⟨_, _, splitChars_mark c rest⟩
    · exact ⟨_, _, splitChars_cons hc h⟩

theorem length_splitChars (mark : Char) (cs : List Char) :
    (splitChars mark cs).length = cs.count mark + 1 := by
  induction cs with
  | nil => rfl
  | cons c rest ih =>
    obtain ⟨part, parts, h⟩ := exists_splitChars mark rest
    by_cases hc : c = mark
    · rw [hc, splitChars_mark, List.length_cons, ih, List.count_cons_self]
    · rw [List.count_cons_of_ne hc, ← ih, h, splitChars_cons hc h]
      rfl

theorem sublist_of_mem_splitChars (h : part ∈ splitChars mark cs) : part.Sublist cs := by
  induction cs generalizing part with
  | nil => simp_all [splitChars]
  | cons c rest ih =>
    obtain ⟨first, parts, hsplit⟩ := exists_splitChars mark rest
    by_cases hc : c = mark
    · rw [hc, splitChars_mark] at h
      rcases List.mem_cons.mp h with rfl | h
      · exact List.nil_sublist _
      · exact (ih h).cons c
    · rw [splitChars_cons hc hsplit] at h
      rcases List.mem_cons.mp h with rfl | h
      · exact (ih (hsplit ▸ List.mem_cons_self)).cons_cons c
      · exact (ih (hsplit ▸ List.mem_cons_of_mem _ h)).cons c

theorem mark_notMem_of_mem_splitChars (h : part ∈ splitChars mark cs) : mark ∉ part := by
  induction cs generalizing part with
  | nil => simp_all [splitChars]
  | cons c rest ih =>
    obtain ⟨first, parts, hsplit⟩ := exists_splitChars mark rest
    by_cases hc : c = mark
    · rw [hc, splitChars_mark] at h
      rcases List.mem_cons.mp h with rfl | h
      · exact List.not_mem_nil
      · exact ih h
    · rw [splitChars_cons hc hsplit] at h
      rcases List.mem_cons.mp h with rfl | h
      · rw [List.mem_cons, not_or]
        exact ⟨Ne.symm hc, ih (hsplit ▸ List.mem_cons_self)⟩
      · exact ih (hsplit ▸ List.mem_cons_of_mem _ h)

theorem splitChars_filter {keep : Char → Bool} (h : keep mark = true) (cs : List Char) :
    splitChars mark (cs.filter keep) = (splitChars mark cs).map (List.filter keep) := by
  induction cs with
  | nil => rfl
  | cons c rest ih =>
    obtain ⟨part, parts, hsplit⟩ := exists_splitChars mark rest
    by_cases hc : c = mark
    · subst hc
      rw [List.filter_cons_of_pos h, splitChars_mark, splitChars_mark, ih]
      rfl
    rw [hsplit] at ih
    by_cases hkeep : keep c = true
    · rw [List.filter_cons_of_pos hkeep, splitChars_cons hc ih, splitChars_cons hc hsplit,
        List.map_cons, List.filter_cons_of_pos hkeep]
    · rw [List.filter_cons_of_neg hkeep, ih, splitChars_cons hc hsplit, List.map_cons, List.map_cons,
        List.filter_cons_of_neg hkeep]

theorem splitChars_map {change : Char → Char} (hmark : change mark = mark)
    (h : ∀ c ∈ cs, change c = mark → c = mark) :
    splitChars mark (cs.map change) = (splitChars mark cs).map (List.map change) := by
  induction cs with
  | nil => rfl
  | cons c rest ih =>
    obtain ⟨part, parts, hsplit⟩ := exists_splitChars mark rest
    have ih := ih fun c hc => h c (List.mem_cons_of_mem _ hc)
    by_cases hc : c = mark
    · subst hc
      rw [List.map_cons, hmark, splitChars_mark, splitChars_mark, ih]
      rfl
    · have hchanged : change c ≠ mark := fun hchanged => hc (h c List.mem_cons_self hchanged)
      rw [hsplit] at ih
      rw [List.map_cons, splitChars_cons hchanged ih, splitChars_cons hc hsplit]
      rfl

theorem splitChars_append_last {more : List Char} (hmore : mark ∉ more) (cs : List Char) :
    ∃ front last, splitChars mark cs = front ++ [last] ∧
      splitChars mark (cs ++ more) = front ++ [last ++ more] := by
  induction cs with
  | nil => exact ⟨[], [], rfl, splitChars_of_not_mem hmore⟩
  | cons c rest ih =>
    obtain ⟨front, last, hsplit, happend⟩ := ih
    rw [List.cons_append]
    by_cases hc : c = mark
    · subst hc
      rw [splitChars_mark, splitChars_mark, hsplit, happend]
      exact ⟨[] :: front, last, rfl, rfl⟩
    · cases front with
      | nil => exact ⟨[], c :: last, splitChars_cons hc hsplit, splitChars_cons hc happend⟩
      | cons first front =>
        exact ⟨(c :: first) :: front, last, splitChars_cons hc hsplit, splitChars_cons hc happend⟩

/-! ## Before and after a mark -/

theorem ne_of_notMem (h : mark ∉ cs) : ∀ c ∈ cs, (c != mark) = true :=
  fun _ hc => bne_iff_ne.mpr fun heq => h (heq ▸ hc)

theorem cutChars?_append (h : mark ∉ before) :
    cutChars? mark (before ++ mark :: after) = some (before, after) := by
  rw [cutChars?, List.dropWhile_append_of_pos (ne_of_notMem h),
    List.takeWhile_append_of_pos (ne_of_notMem h)]
  simp

theorem cutChars?_eq_none (h : mark ∉ cs) : cutChars? mark cs = none := by
  have hdrop : (cs ++ []).dropWhile (· != mark) = [] :=
    List.dropWhile_append_of_pos (ne_of_notMem h)
  rw [List.append_nil] at hdrop
  rw [cutChars?, hdrop]

theorem eq_of_cutChars? (h : cutChars? mark cs = some (before, after)) :
    cs = before ++ mark :: after := by
  by_cases hmark : mark ∈ cs
  · obtain ⟨front, back, rfl, hfront⟩ := List.eq_append_cons_of_mem hmark
    rw [cutChars?_append hfront] at h
    obtain ⟨rfl, rfl⟩ := Prod.mk.inj (Option.some.inj h)
    rfl
  · rw [cutChars?_eq_none hmark] at h
    cases h

theorem exists_last_mark (h : mark ∈ cs) :
    ∃ before after, cs = before ++ mark :: after ∧ mark ∉ after := by
  obtain ⟨after, before, hcs, hafter⟩ := List.eq_append_cons_of_mem (List.mem_reverse.mpr h)
  refine ⟨before.reverse, after.reverse, ?_, by simpa using hafter⟩
  rw [← List.reverse_reverse cs, hcs]
  simp

theorem cutLastChars?_append (h : mark ∉ after) :
    cutLastChars? mark (before ++ mark :: after) = some (before, after) := by
  have hreverse : (before ++ mark :: after).reverse = after.reverse ++ mark :: before.reverse := by
    simp
  rw [cutLastChars?, hreverse, cutChars?_append (by simpa using h)]
  simp

theorem cutLastChars?_eq_none (h : mark ∉ cs) : cutLastChars? mark cs = none := by
  rw [cutLastChars?, cutChars?_eq_none (by simpa using h)]
  rfl

theorem cutLastChars?_subset (h : cutLastChars? mark cs = some (before, after)) :
    before ⊆ cs ∧ after ⊆ cs := by
  by_cases hmark : mark ∈ cs
  · obtain ⟨front, back, rfl, hback⟩ := exists_last_mark hmark
    rw [cutLastChars?_append hback] at h
    obtain ⟨rfl, rfl⟩ := Prod.mk.inj (Option.some.inj h)
    simp
  · rw [cutLastChars?_eq_none hmark] at h
    cases h

end JsonSchema
