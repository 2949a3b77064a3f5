import Mathlib.Algebra.Order.Ring.Rat
import BackwardInduction.Proofs.NormalizedModels
import BackwardInduction.Proofs.RationalRows

/-!
Where the weight of a row goes, in exact fractions. Every row that the recursion can
meet has the total one, so what an expectation does not see of it lies on next states
that are not declared.
-/

namespace BackwardInduction

namespace Row

/-- The entries of next states that are not declared. -/
def outside (row : Row ℚ) (states : List String) : List (String × ℚ) :=
  row.entries.filter fun e => e.1 ∉ states

theorem total_eq_sum (row : Row ℚ) : row.total = row.values.sum := by
  rw [total, Scalar.sum, List.sum_eq_foldl]

theorem values_eq_map_getD (row : Row ℚ) : row.values = row.keys.map fun x => row.getD x 0 := by
  rw [Dict.values, Dict.keys, List.map_map]
  exact List.map_congr_left fun e he => (Dict.getD_of_mem he 0).symm

/-- Names that are no next states add nothing. -/
theorem sum_getD_filter (row : Row ℚ) (names : List String) :
    ((names.filter (· ∈ row.keys)).map fun x => row.getD x 0).sum =
      (names.map fun x => row.getD x 0).sum := by
  induction names with
  | nil => rfl
  | cons x names ih =>
      rw [List.filter_cons, List.map_cons, List.sum_cons, ← ih]
      split
      · rfl
      · rename_i hx
        rw [Dict.getD_of_not_mem (by simpa using hx), zero_add]

/-- The total of a row lies on declared next states and on others. -/
theorem total_eq_inside_add_outside (row : Row ℚ) {states : List String}
    (hnodup : states.Nodup) :
    row.total = expectedValue row states (fun _ => 1) +
      ((row.outside states).map Prod.snd).sum := by
  have inside : (row.keys.filter (· ∈ states)).Perm (states.filter (· ∈ row.keys)) := by
    rw [List.perm_ext_iff_of_nodup (row.nodup_keys.filter _) (hnodup.filter _)]
    intro x
    simp [and_comm]
  have outside : (row.outside states).map Prod.snd =
      (row.keys.filter (· ∉ states)).map fun x => row.getD x 0 := by
    rw [outside, Dict.keys, List.filter_map, List.map_map]
    exact List.map_congr_left fun e he =>
      (Dict.getD_of_mem (List.mem_of_mem_filter he) 0).symm
  have parts : (row.keys.filter (· ∈ states) ++ row.keys.filter (· ∉ states)).Perm row.keys := by
    simpa only [decide_not] using List.filter_append_perm (· ∈ states) row.keys
  calc row.total
      = (row.keys.map fun x => row.getD x 0).sum := by rw [total_eq_sum, values_eq_map_getD]
    _ = ((row.keys.filter (· ∈ states)).map fun x => row.getD x 0).sum +
          ((row.keys.filter (· ∉ states)).map fun x => row.getD x 0).sum := by
        rw [← (parts.map _).sum_eq, List.map_append, List.sum_append]
    _ = (states.map fun x => row.getD x 0).sum + ((row.outside states).map Prod.snd).sum := by
        rw [(inside.map _).sum_eq, sum_getD_filter, outside]
    _ = _ := by simp only [expectedValue_eq_sum, mul_one]

theorem total_uniform {row : Row ℚ} (hne : Dict.isEmpty row = false) :
    row.uniform.total = 1 := by
  have size : (row.entries.length : ℚ) ≠ 0 := by
    rw [Nat.cast_ne_zero, ne_eq, List.length_eq_zero_iff]
    exact List.isEmpty_eq_false_iff.mp hne
  rw [total_eq_sum]
  simp only [uniform, Dict.values, Dict.entries_mapValues, List.map_map, Function.comp_def,
    List.map_const', List.sum_replicate, nsmul_eq_mul, Dict.size]
  exact mul_one_div_cancel size

theorem total_proportional {row : Row ℚ} (htotal : row.total ≠ 0) :
    row.proportional.total = 1 := by
  rw [total_eq_sum]
  simp only [proportional, Dict.values, Dict.entries_mapValues, List.map_map,
    Function.comp_def, div_eq_mul_inv, List.sum_map_mul_right]
  change (row.values).sum * (row.total)⁻¹ = 1
  rw [← total_eq_sum, mul_inv_cancel₀ htotal]

/-- A distribution has the total one. -/
theorem total_distribution {row : Row ℚ} (hne : Dict.isEmpty row = false) :
    row.distribution.total = 1 := by
  unfold distribution
  split
  · exact total_uniform hne
  · rename_i htotal
    exact total_proportional (ne_of_gt (not_le.mp htotal))

theorem keys_distribution {α : Type} [Scalar α] (row : Row α) :
    Dict.keys row.distribution = Dict.keys row := by
  unfold distribution
  split <;> exact Dict.keys_mapValues _ _

theorem total_identityRow {x : String} {states : List String} (hx : x ∈ states)
    (hnodup : states.Nodup) : (identityRow x states : Row ℚ).total = 1 := by
  rw [total_eq_sum, identityRow, Dict.values, Dict.entries_ofKeys hnodup, List.map_map]
  simp [Function.comp_def, List.sum_map_ite_eq, List.count_eq_one_of_mem hnodup hx]

/-- What an expectation sees of a row with the total one. -/
theorem expectedValue_one {row : Row ℚ} (htotal : row.total = 1) {states : List String}
    (hnodup : states.Nodup) :
    expectedValue row states (fun _ => 1) = 1 - ((row.outside states).map Prod.snd).sum := by
  rw [eq_sub_iff_add_eq, ← row.total_eq_inside_add_outside hnodup, htotal]

/-- No weight is lost if all next states are declared. -/
theorem expectedValue_one_of_keys {row : Row ℚ} (htotal : row.total = 1) {states : List String}
    (hnodup : states.Nodup) (inside : ∀ y ∈ row.keys, y ∈ states) :
    expectedValue row states (fun _ => 1) = 1 := by
  have outside : row.outside states = [] := by
    refine List.filter_eq_nil_iff.mpr fun e he => ?_
    simpa using inside e.1 (List.mem_map_of_mem he)
  rw [expectedValue_one htotal hnodup, outside]
  simp

/-- Weight is lost on next states that are not declared, and nowhere else. -/
theorem any_of_expectedValue_lt {row : Row ℚ} (htotal : row.total = 1) {states : List String}
    (hnodup : states.Nodup) (hlt : expectedValue row states (fun _ => 1) < 1) :
    row.keys.any (· ∉ states) = true := by
  by_contra hany
  have inside : ∀ y ∈ row.keys, y ∈ states := by simpa using hany
  exact absurd (expectedValue_one_of_keys htotal hnodup inside) (ne_of_lt hlt)

/-- An expectation sees no more of a distribution than there is. -/
theorem expectedValue_one_le {row : Row ℚ} (hrow : row.Nonnegative) (htotal : row.total = 1)
    {states : List String} (hnodup : states.Nodup) :
    expectedValue row states (fun _ => 1) ≤ 1 := by
  have outside : 0 ≤ ((row.outside states).map Prod.snd).sum := by
    refine List.sum_nonneg fun weight hweight => ?_
    obtain ⟨e, he, rfl⟩ := List.mem_map.mp hweight
    exact hrow e (List.mem_of_mem_filter he)
  rw [expectedValue_one htotal hnodup]
  exact sub_le_self 1 outside

end Row

/-- Every row that the recursion can meet has the total one. -/
theorem Model.Normalizes.total_row {m m' : TransitionModel ℚ} (h : m.Normalizes m')
    {states : List String} (hnodup : states.Nodup) {x : String} (hx : x ∈ states) (stage : Nat)
    (action : String) : (m'.row stage x action states).total = 1 := by
  rcases h.row_cases stage x action states with ⟨row, _, hne, heq⟩ | ⟨_, heq⟩
  · rw [heq, Row.total_distribution hne]
  · rw [heq, Row.total_identityRow hx hnodup]

end BackwardInduction
