import JsonSchema.Text.Case

/-!
# Small letters

Up to the second block of letters only the capitals of ASCII have another lower case, and nothing
but a colon becomes a colon.
-/

namespace JsonSchema

variable {c : Char} {code : Nat} {cs : List Char}

theorem lowerRuns_bounds : ∀ run ∈ lowerRuns.toList,
    65 ≤ run.first ∧ (run.last ≤ 90 ∨ 192 ≤ run.first) ∧ 96 < run.first + run.shift := by
  decide +kernel

theorem lowerCode_cases (code : Nat) : lowerCode code = code ∨
    ∃ run ∈ lowerRuns.toList, run.first ≤ code ∧ code ≤ run.last ∧
      lowerCode code = (code + run.shift).toNat := by
  unfold lowerCode
  split
  · rename_i run hfind
    have hholds := Array.find?_some hfind
    simp only [LowerRun.holds, Bool.and_eq_true, decide_eq_true_eq] at hholds
    exact .inr ⟨run, Array.mem_toList_iff.mpr (Array.mem_of_find?_eq_some hfind), hholds.1.1,
      hholds.1.2, rfl⟩
  · exact .inl rfl

theorem lowerChar_eq_self (h : c.toNat < 65 ∨ 90 < c.toNat ∧ c.toNat < 192) : lowerChar c = c := by
  have hcode : lowerCode c.toNat = c.toNat := by
    rcases lowerCode_cases c.toNat with hsame | ⟨run, hrun, hfirst, hlast, -⟩
    · exact hsame
    · have := lowerRuns_bounds run hrun
      omega
  rw [lowerChar, hcode, Char.ofNat_toNat]

theorem lowerChar_ascii (h : c.toNat < 128) : lowerChar c = c.toLower := by
  have hcapital : ∀ code < 91, 65 ≤ code →
      lowerChar (Char.ofNat code) = (Char.ofNat code).toLower := by decide +kernel
  by_cases hc : 65 ≤ c.toNat ∧ c.toNat < 91
  · have := hcapital c.toNat hc.2 hc.1
    rwa [Char.ofNat_toNat] at this
  · have hother : ¬ (c.val ≥ 'A'.val ∧ c.val ≤ 'Z'.val) := by
      rintro ⟨hge, hle⟩
      exact hc ⟨hge, Nat.lt_succ_of_le hle⟩
    have hlower : c.toLower = c := dif_neg hother
    rw [lowerChar_eq_self (by omega), hlower]

theorem map_lowerChar_small (h : ∀ c ∈ cs, c.toNat < 65) : cs.map lowerChar = cs :=
  (List.map_congr_left fun c hc => lowerChar_eq_self (.inl (h c hc))).trans (List.map_id _)

theorem lowerCode_eq_colon (h : lowerCode code = ':'.toNat) : code = ':'.toNat := by
  rcases lowerCode_cases code with hsame | ⟨run, hrun, hfirst, -, hcode⟩
  · exact hsame.symm.trans h
  · have hbounds := lowerRuns_bounds run hrun
    have hcolon : ':'.toNat = 58 := rfl
    omega

theorem toNat_ofNat_of_valid (h : code.isValidChar) : (Char.ofNat code).toNat = code := by
  rw [Char.ofNat, dif_pos h]
  rfl

theorem eq_colon_of_lowerChar (h : lowerChar c = ':') : c = ':' := by
  have hcode : lowerCode c.toNat = ':'.toNat := by
    by_cases hvalid : (lowerCode c.toNat).isValidChar
    · rw [← toNat_ofNat_of_valid hvalid, ← lowerChar, h]
    · rw [lowerChar, Char.ofNat, dif_neg hvalid] at h
      exact absurd h (by decide)
  rw [← Char.ofNat_toNat c, lowerCode_eq_colon hcode, Char.ofNat_toNat]

end JsonSchema
