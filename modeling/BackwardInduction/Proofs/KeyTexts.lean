import BackwardInduction.Proofs.JsonNumbers

/-!
The texts of keys as keys. A key that names a stage still does so as a text, and a key that names
none has a text that names none: the text of a negative number begins with a sign, that of a
double has a point, an exponent or a letter in it, and the other keys are words.
-/

namespace BackwardInduction

section Marks

theorem Text.mem_strip {p : Char → Bool} {cs : List Char} {c : Char} (hc : c ∈ cs)
    (h : p c = false) : c ∈ strip p cs := by
  have front {cs : List Char} (hc : c ∈ cs) : c ∈ cs.dropWhile p := by
    rw [← List.takeWhile_append_dropWhile (p := p) (l := cs)] at hc
    rcases List.mem_append.mp hc with hc | hc
    · rw [List.mem_takeWhile_imp hc] at h
      cases h
    · exact hc
  exact List.mem_reverse.mpr (front (List.mem_reverse.mpr (front hc)))

/-- A text with anything but digits between its blanks names no stage. -/
theorem stageOfText_of_mem {s : String} {c : Char} (hc : c ∈ s.toList)
    (blank : Text.isBlank c = false) (digit : Text.isDigit c = false) :
    stageOfText s = .ok none := by
  have inside := Text.mem_strip hc blank
  have other : (Text.strip Text.isBlank s.toList).all Text.isDigit = false :=
    List.all_eq_false.mpr ⟨c, inside, by simp [digit]⟩
  rw [stageOfText]
  simp only [other, Bool.not_false, Bool.or_true, if_true]

end Marks

namespace Decimal

/-- A decimal is written with a point or with an exponent. -/
theorem point_or_exponent_mem_written (n : Nat) (k : Int) :
    '.' ∈ (written n k).toList ∨ 'e' ∈ (written n k).toList := by
  have exponent (cs : List Char) (e : Int) : 'e' ∈ (String.ofList cs ++ exponentText e).toList := by
    obtain ⟨sign, ds, heq, _⟩ := exponentText_spelled e
    simp [String.toList_append, heq]
  unfold written
  dsimp only
  split
  · split
    · rename_i hnil
      rw [toList_toString] at hnil
      exact absurd hnil Nat.toDigits_ne_nil
    · exact .inr (exponent _ _)
    · exact .inr (exponent _ _)
  · refine .inl ?_
    split
    · simp
    · split <;> simp

end Decimal

namespace Binary64

theorem point_or_exponent_mem_sizeText (x : Float) :
    '.' ∈ (sizeText x).toList ∨ 'e' ∈ (sizeText x).toList := by
  unfold sizeText
  dsimp only
  split
  · exact .inl (by decide)
  · exact Decimal.point_or_exponent_mem_written _ _

/-- The text of a double names no stage. -/
theorem stageOfText_text (x : Float) : stageOfText (text x) = .ok none := by
  by_cases hnan : x.isNaN
  · rw [text, if_pos hnan]
    exact stageOfText_of_mem (c := 'n') (by decide) rfl rfl
  · rw [text, if_neg hnan]
    have behind {c : Char} {size : String} (hc : c ∈ size.toList) :
        c ∈ ((if isNegative x then "-" else "") ++ size).toList := by
      rw [String.toList_append]
      exact List.mem_append_right _ hc
    by_cases hfinite : x.isFinite
    · rw [if_pos hfinite]
      rcases point_or_exponent_mem_sizeText x with point | exponent
      · exact stageOfText_of_mem (behind point) rfl rfl
      · exact stageOfText_of_mem (behind exponent) rfl rfl
    · rw [if_neg hfinite]
      exact stageOfText_of_mem (c := 'n') (behind (by decide)) rfl rfl

end Binary64

section Numbers

theorem stageOfText_toString_ne (n : Nat) : stageOfText (toString n) ≠ .ok none := by
  have digits : (Nat.toDigits 10 n).all Text.isDigit = true :=
    List.all_eq_true.mpr fun _ => isDigit_of_mem_toDigits
  simp only [stageOfText, strip_toString, digits, List.isEmpty_eq_false_iff.mpr Nat.toDigits_ne_nil,
    Bool.not_true, Bool.or_false, Bool.false_eq_true, if_false]
  split
  · rintro ⟨⟩
  · rintro ⟨⟩

theorem stageOfText_int_iff (i : Int) : stageOfText (toString i) = .ok none ↔ i < 0 := by
  cases i with
  | ofNat n => exact iff_of_false (stageOfText_toString_ne n) (Int.not_lt.mpr (Int.natCast_nonneg n))
  | negSucc n =>
      refine iff_of_true (stageOfText_of_mem (c := '-') ?_ rfl rfl) (Int.negSucc_lt_zero n)
      have sign : toString (Int.negSucc n) = "-" ++ toString (n + 1) := rfl
      rw [sign, String.toList_append]
      exact List.mem_append_left _ (by decide)

end Numbers

/-- A key names a stage exactly if its text does. -/
theorem stageOfText_display_iff (k : Key Float) :
    stageOfText k.display = .ok none ↔ k.stage = .ok none := by
  cases k with
  | null => exact iff_of_true (by decide +kernel) rfl
  | bool b => cases b <;> exact iff_of_true (by decide +kernel) rfl
  | text s => rfl
  | number n =>
      cases n with
      | real x => exact iff_of_true (Binary64.stageOfText_text x) rfl
      | whole i =>
          refine (stageOfText_int_iff i).trans ?_
          rw [Key.stage]
          split <;> simp <;> omega

end BackwardInduction
