import Mathlib.Algebra.BigOperators.Ring.List
import Mathlib.Algebra.Field.Rat
import Mathlib.Algebra.Order.BigOperators.Group.List
import Mathlib.Algebra.Order.Ring.Rat
import Mathlib.Tactic.Ring
import BackwardInduction.Proofs.AcceptedInstances
import BackwardInduction.Proofs.NormalizedModels
import BackwardInduction.Scalar.Rational

/-!
Rows and expectations in exact fractions. No row that the recursion can meet has a
negative weight: not one that was read, not one that was normalized, and not the row
of a state that is never left. An expectation is a sum of products and grows with
the values it is taken of.
-/

namespace BackwardInduction

theorem foldl_add_eq_sum (f : String → ℚ) (names : List String) (start : ℚ) :
    names.foldl (fun total x => total + f x) start = start + (names.map f).sum := by
  induction names generalizing start with
  | nil => simp
  | cons x names ih => rw [List.foldl_cons, ih, List.map_cons, List.sum_cons, add_assoc]

theorem expectedValue_eq_sum (row : Row ℚ) (states : List String) (next : String → ℚ) :
    expectedValue row states next = (states.map fun x => row.getD x 0 * next x).sum :=
  (foldl_add_eq_sum (fun x => row.getD x 0 * next x) states 0).trans (zero_add _)

/-- An expectation is linear; of a constant it passes on what weight it sees. -/
theorem expectedValue_mul_add (row : Row ℚ) (states : List String) (next : String → ℚ)
    (c k : ℚ) :
    expectedValue row states (fun x => c * next x + k) =
      c * expectedValue row states next + k * expectedValue row states (fun _ => 1) := by
  simp only [expectedValue_eq_sum, mul_add, mul_one, List.sum_map_add, List.sum_map_mul_right,
    mul_left_comm _ c, List.sum_map_mul_left]
  ring

namespace Row

/-- No weight of the row is negative. -/
def Nonnegative (row : Row ℚ) : Prop :=
  row.All fun weight => (0 : ℚ) ≤ weight

theorem getD_nonneg {row : Row ℚ} (h : row.Nonnegative) (x : String) :
    (0 : ℚ) ≤ row.getD x 0 := by
  rcases row.getD_cases x 0 with hm | h0
  · exact h _ hm
  · exact le_of_eq h0.symm

theorem nonnegative_distribution (row : Row ℚ) (h : row.Nonnegative) :
    row.distribution.Nonnegative := by
  unfold distribution
  split
  · refine Dict.all_mapValues fun _ _ => ?_
    exact div_nonneg zero_le_one (Nat.cast_nonneg' row.size)
  · rename_i htotal
    refine Dict.all_mapValues fun e he => ?_
    exact div_nonneg (h e he) (le_of_lt (not_le.mp htotal))

theorem nonnegative_identityRow (x : String) (states : List String) :
    (identityRow x states : Row ℚ).Nonnegative := by
  intro e he
  have hget : (identityRow x states : Row ℚ).get? e.1 = some e.2 :=
    (Dict.get?_eq_some_iff _ e.1 e.2).mpr he
  rw [identityRow, Dict.get?_ofKeys] at hget
  split at hget
  · rw [← Option.some.inj hget]
    split
    · exact zero_le_one
    · exact le_refl _
  · cases hget

end Row

theorem readWeight_nonneg (place : Place) (v : Value ℚ) (x : ℚ)
    (h : readWeight place v = .ok x) : 0 ≤ x :=
  not_lt.mp ((readWeight_eq_ok_iff place v x).mp h).2.2

theorem nonnegative_read {v : Value ℚ} {states : List String} {layout : Layout}
    {m : TransitionModel ℚ} (h : (readTransitions v states layout).result = .ok m) :
    m.All Row.Nonnegative :=
  CellReader.all_model (all_readDict readWeight_nonneg) h

theorem nonnegative_normalize {m m' : TransitionModel ℚ} {states : List String}
    (hm : m.All Row.Nonnegative) (h : (m.normalize states).result = .ok m') :
    m'.All Row.Nonnegative :=
  (Model.normalizes_of_normalize h).all (fun row => row.nonnegative_distribution) hm

theorem Model.nonnegative_row {m : TransitionModel ℚ} (h : m.All Row.Nonnegative)
    (stage : Nat) (state action : String) (states : List String) :
    (m.row stage state action states).Nonnegative := by
  unfold Model.row
  cases hrow : m.find? (!·.isEmpty) stage state action with
  | none => exact Row.nonnegative_identityRow state states
  | some row => exact Model.all_find? h hrow

theorem expectedValue_mono {row : Row ℚ} (hrow : row.Nonnegative) {states : List String}
    {next next' : String → ℚ} (h : ∀ x ∈ states, next x ≤ next' x) :
    expectedValue row states next ≤ expectedValue row states next' := by
  rw [expectedValue_eq_sum, expectedValue_eq_sum]
  refine List.sum_le_sum fun x hx => ?_
  exact mul_le_mul_of_nonneg_left (h x hx) (Row.getD_nonneg hrow x)

namespace Solution

/-- What the recursion of a solution relies on. -/
theorem nonnegative_of_prepares {inst : Instance ℚ} {p : Process ℚ} {horizon : Nat}
    {final : Values ℚ} (h : Prepares inst p horizon final) :
    p.transitions.All Row.Nonnegative ∧ (0 : ℚ) ≤ p.discount := by
  obtain ⟨raw, hraw, hm⟩ := h.transitions_eq
  obtain ⟨_, _, _, _, hpos, _⟩ := (checkDiscount_eq_ok_iff _ _).mp h.discount_eq
  exact ⟨nonnegative_normalize (nonnegative_read hraw) hm, hpos⟩

end Solution
end BackwardInduction
