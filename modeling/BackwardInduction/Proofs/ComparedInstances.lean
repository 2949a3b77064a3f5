import Mathlib.Algebra.Order.Group.Abs
import Mathlib.Algebra.Order.Ring.Rat
import Mathlib.Algebra.Ring.GeomSum
import BackwardInduction.Proofs.AgreeingStages
import BackwardInduction.Proofs.Optimality
import BackwardInduction.Proofs.RowMass

/-!
Compared instances, in exact fractions. With more actions and with lower costs no value gets
higher; and where costs change by no more than a bound, values change by no more than that
bound at each stage that is left, discounted. An expectation passes on no more than what it
is given, as no row has a negative weight or a total beyond one, whatever part of it lies on
states that are not declared.
-/

namespace BackwardInduction

section Bounds

/-- What differences add up to of which there is one at every stage that is left, and another
at the end. -/
def discountedGap (discount each atEnd : ℚ) (left : Nat) : ℚ :=
  each * (∑ i ∈ Finset.range left, discount ^ i) + discount ^ left * atEnd

variable {g e d : ℚ}

theorem discountedGap_zero : discountedGap g e d 0 = d := by
  simp [discountedGap]

theorem discountedGap_succ (left : Nat) :
    discountedGap g e d (left + 1) = e + g * discountedGap g e d left := by
  rw [discountedGap, discountedGap, geom_sum_succ]
  ring

theorem discountedGap_nonneg (hg : 0 ≤ g) (he : 0 ≤ e) (hd : 0 ≤ d) (left : Nat) :
    0 ≤ discountedGap g e d left := by
  induction left with
  | zero => rwa [discountedGap_zero]
  | succ left ih =>
      rw [discountedGap_succ]
      exact add_nonneg he (mul_nonneg hg ih)

/-- An expectation of values that are all higher by the same is higher by no more. -/
theorem expectedValue_add_le {row : Row ℚ} (hrow : row.Nonnegative) (htotal : row.total = 1)
    {states : List String} (hnodup : states.Nodup) {next next' : String → ℚ} {c : ℚ}
    (hc : 0 ≤ c) (h : ∀ x ∈ states, next' x ≤ next x + c) :
    expectedValue row states next' ≤ expectedValue row states next + c := by
  have split : expectedValue row states (fun x => next x + c) =
      expectedValue row states next + c * expectedValue row states (fun _ => 1) := by
    simpa only [one_mul] using expectedValue_mul_add row states next 1 c
  have seen := Row.expectedValue_one_le hrow htotal hnodup
  calc expectedValue row states next'
      ≤ expectedValue row states fun x => next x + c := expectedValue_mono hrow h
    _ = expectedValue row states next + c * expectedValue row states (fun _ => 1) := split
    _ ≤ expectedValue row states next + c * 1 :=
        add_le_add (le_refl _) (mul_le_mul_of_nonneg_left seen hc)
    _ = expectedValue row states next + c := by rw [mul_one]

end Bounds

namespace Solution

/-- The other solution is of the same states, horizon and discount; it has all the actions of
the one, and these lead to declared states with the same weights. -/
@[mk_iff coveredBy_iff]
structure CoveredBy (s s' : Solution ℚ) : Prop where
  states_eq : s'.states = s.states
  horizon_eq : s'.horizon = s.horizon
  discount_eq : s'.discount = s.discount
  actions_sub : ∀ a ∈ s.actions, a ∈ s'.actions
  weight_eq : ∀ t < s.horizon, ∀ x ∈ s.states, ∀ a ∈ s.actions, ∀ y ∈ s.states,
    (s'.transitions.row t x a s'.states).getD y 0 = (s.transitions.row t x a s.states).getD y 0

instance (s s' : Solution ℚ) : Decidable (s.CoveredBy s') :=
  decidable_of_iff _ (coveredBy_iff s s').symm

variable {inst inst' : Instance ℚ} {s s' : Solution ℚ}

theorem CoveredBy.symm (h : s.CoveredBy s') (hactions : ∀ a ∈ s'.actions, a ∈ s.actions) :
    s'.CoveredBy s where
  states_eq := h.states_eq.symm
  horizon_eq := h.horizon_eq.symm
  discount_eq := h.discount_eq.symm
  actions_sub := hactions
  weight_eq t ht x hx a ha y hy := by
    rw [h.states_eq] at hx hy
    exact (h.weight_eq t (h.horizon_eq ▸ ht) x hx a (hactions a ha) y hy).symm

theorem value_horizon (hs : (solve inst).result = .ok s) {x : String} (hx : x ∈ s.states) :
    s.value s.horizon x = inst.salvageOf x := by
  obtain ⟨final, prepares, tabulates⟩ := solve_spec hs
  rw [value, tabulates.values_horizon, prepares.final_getD hx]

section Step

variable (h : s.CoveredBy s') (hs : (solve inst).result = .ok s)
  (hs' : (solve inst').result = .ok s')
include h hs hs'

/-- One step back: what is too much of the values of the next stage is discounted, and what
is too much of the cost comes on top. -/
theorem value_le_of_next {stage : Nat} (ht : stage < s.horizon) {e c : ℚ} (hc : 0 ≤ c)
    {x : String} (hx : x ∈ s.states)
    (cost : ∀ a ∈ s.actions, s'.costs.cost stage x a ≤ s.costs.cost stage x a + e)
    (next : ∀ y ∈ s.states, s'.value (stage + 1) y ≤ s.value (stage + 1) y + c) :
    s'.value stage x ≤ s.value stage x + (e + s.discount * c) := by
  obtain ⟨_, prepares, tabulates⟩ := solve_spec hs
  obtain ⟨_, prepares', tabulates'⟩ := solve_spec hs'
  obtain ⟨_, _, normalized⟩ := prepares.transitions_eq
  obtain ⟨rows, discount⟩ := nonnegative_of_prepares prepares
  -- the action that is best in the one is there in the other as well
  obtain ⟨ha, attained, _⟩ :=
    s.choice_rational prepares.actions_ne stage x (s.values.getD (stage + 1) ∅)
  obtain ⟨_, _, least⟩ :=
    s'.choice_rational prepares'.actions_ne stage x (s'.values.getD (stage + 1) ∅)
  rw [← tabulates.value_eq_choice ht hx] at attained
  rw [← tabulates'.value_eq_choice (h.horizon_eq ▸ ht) (h.states_eq ▸ hx)] at least
  generalize (s.choice stage x (s.values.getD (stage + 1) ∅)).1 = a at ha attained
  let row := s.transitions.row stage x a s.states
  have total : row.total = 1 :=
    (Model.normalizes_of_normalize normalized).total_row prepares.states_nodup hx stage a
  have weights : expectedValue (s'.transitions.row stage x a s'.states) s.states
      (s'.value (stage + 1)) = expectedValue row s.states (s'.value (stage + 1)) :=
    expectedValue_congr_row (h.weight_eq stage ht x hx a ha) _
  have expected := expectedValue_add_le (Model.nonnegative_row rows stage x a s.states) total
    prepares.states_nodup hc next
  calc s'.value stage x
      ≤ s'.actionValue stage x a (s'.values.getD (stage + 1) ∅) := least a (h.actions_sub a ha)
    _ = s'.costs.cost stage x a +
          s.discount * expectedValue row s.states (s'.value (stage + 1)) := by
        rw [actionValue_eq, h.discount_eq, ← weights, h.states_eq]
    _ ≤ (s.costs.cost stage x a + e) +
          s.discount * (expectedValue row s.states (s.value (stage + 1)) + c) :=
        add_le_add (cost a ha) (mul_le_mul_of_nonneg_left expected discount)
    _ = s.value stage x + (e + s.discount * c) := by
        rw [attained, actionValue_eq]
        ring

/-- All steps back: differences of costs and of terminal values add up, discounted. -/
theorem value_le_add_gap {e d : ℚ} (he : 0 ≤ e) (hd : 0 ≤ d)
    (cost : ∀ t < s.horizon, ∀ x ∈ s.states, ∀ a ∈ s.actions,
      s'.costs.cost t x a ≤ s.costs.cost t x a + e)
    (salvage : ∀ x ∈ s.states, inst'.salvageOf x ≤ inst.salvageOf x + d) (left stage : Nat)
    (hstage : stage + left = s.horizon) :
    ∀ x ∈ s.states, s'.value stage x ≤ s.value stage x + discountedGap s.discount e d left := by
  induction left generalizing stage with
  | zero =>
      intro x hx
      obtain rfl : stage = s.horizon := hstage
      have ends := salvage x hx
      rw [← value_horizon hs hx, ← value_horizon hs' (h.states_eq ▸ hx), h.horizon_eq] at ends
      rwa [discountedGap_zero]
  | succ left ih =>
      intro x hx
      obtain ⟨_, prepares, _⟩ := solve_spec hs
      have gap := discountedGap_nonneg (nonnegative_of_prepares prepares).2 he hd left
      rw [discountedGap_succ]
      have ht : stage < s.horizon := by omega
      exact value_le_of_next h hs hs' ht gap hx (cost stage ht x hx) (ih (stage + 1) (by omega))

end Step

end Solution

/-- With more actions that are as they were, and with costs and terminal values that are no
higher, no value is higher. With the same actions, and with costs and terminal values that
differ by no more than a bound each, the values of a stage differ by no more than these bounds
add up to over the stages that are left, discounted. -/
theorem solve_compared (inst inst' : Instance ℚ) (s s' : Solution ℚ)
    (hs : (Solution.solve inst).result = .ok s) (hs' : (Solution.solve inst').result = .ok s')
    (h : s.CoveredBy s') :
    ((∀ t < s.horizon, ∀ x ∈ s.states, ∀ a ∈ s.actions,
        s'.costs.cost t x a ≤ s.costs.cost t x a) →
      (∀ x ∈ s.states, inst'.salvageOf x ≤ inst.salvageOf x) →
        ∀ t ≤ s.horizon, ∀ x ∈ s.states, s'.value t x ≤ s.value t x) ∧
    ∀ e d : ℚ, (∀ a ∈ s'.actions, a ∈ s.actions) →
      (∀ t < s.horizon, ∀ x ∈ s.states, ∀ a ∈ s.actions,
        |s'.costs.cost t x a - s.costs.cost t x a| ≤ e) →
      (∀ x ∈ s.states, |inst'.salvageOf x - inst.salvageOf x| ≤ d) →
        ∀ t ≤ s.horizon, ∀ x ∈ s.states, |s'.value t x - s.value t x| ≤
          e * (∑ i ∈ Finset.range (s.horizon - t), s.discount ^ i) +
            s.discount ^ (s.horizon - t) * d := by
  constructor
  · intro cost salvage t ht x hx
    have bound := Solution.value_le_add_gap h hs hs' (le_refl 0) (le_refl 0)
      (by simpa only [add_zero] using cost) (by simpa only [add_zero] using salvage)
      (s.horizon - t) t (by omega) x hx
    simpa [discountedGap] using bound
  · intro e d hactions cost salvage t ht x hx
    obtain ⟨_, prepares, _⟩ := Solution.solve_spec hs
    obtain ⟨a, ha⟩ := List.exists_mem_of_ne_nil _ prepares.actions_ne
    have he : 0 ≤ e := (abs_nonneg _).trans (cost 0 prepares.horizon_pos x hx a ha)
    have hd : 0 ≤ d := (abs_nonneg _).trans (salvage x hx)
    have above := Solution.value_le_add_gap h hs hs' he hd
      (fun t ht x hx a ha => sub_le_iff_le_add'.mp (abs_sub_le_iff.mp (cost t ht x hx a ha)).1)
      (fun x hx => sub_le_iff_le_add'.mp (abs_sub_le_iff.mp (salvage x hx)).1)
      (s.horizon - t) t (by omega) x hx
    have cost' : ∀ t < s'.horizon, ∀ x ∈ s'.states, ∀ a ∈ s'.actions,
        s.costs.cost t x a ≤ s'.costs.cost t x a + e := by
      rw [h.states_eq, h.horizon_eq]
      intro t ht x hx a ha
      exact sub_le_iff_le_add'.mp (abs_sub_le_iff.mp (cost t ht x hx a (hactions a ha))).2
    have salvage' : ∀ x ∈ s'.states, inst.salvageOf x ≤ inst'.salvageOf x + d := by
      rw [h.states_eq]
      exact fun x hx => sub_le_iff_le_add'.mp (abs_sub_le_iff.mp (salvage x hx)).2
    have below := Solution.value_le_add_gap (h.symm hactions) hs' hs he hd cost' salvage'
      (s.horizon - t) t (by rw [h.horizon_eq]; omega) x (h.states_eq ▸ hx)
    rw [h.discount_eq] at below
    exact abs_sub_le_iff.mpr ⟨sub_le_iff_le_add'.mpr above, sub_le_iff_le_add'.mpr below⟩

/-- One more action, which stays in `A` at half the cost of staying there. -/
def roomierInstance : Instance ℚ :=
  { leakingInstance with
    actions := ["go", "wait", "stay"]
    costs := .stationary (.map
      [ Value.entry "A" (.map
          [ Value.entry "stay" (.number (.whole 2)), Value.entry "wait" (.number (.whole 1)),
            Value.entry "go" (.number (.whole 1)) ]) ]) }

/-- Costs that are higher or lower by no more than one, and terminal values by no more than
three. -/
def shiftedInstance : Instance ℚ :=
  { leakingInstance with
    costs := .stationary (.map
      [ Value.entry "A" (.map
          [ Value.entry "stay" (.number (.whole 3)), Value.entry "go" (.number (.whole 2)) ]),
        Value.entry "B" (.map [ Value.entry "stay" (.number (.whole 1)) ]) ])
    salvage := .map
      [ Value.entry "A" (.number (.whole 5)), Value.entry "B" (.number (.whole 2)) ] }

theorem leakingInstance_compared :
    ∃ s s' s'', (Solution.solve leakingInstance).result = .ok s ∧
      (Solution.solve roomierInstance).result = .ok s' ∧
      (Solution.solve shiftedInstance).result = .ok s'' ∧
      (∀ t ≤ s.horizon, ∀ x ∈ s.states, s'.value t x ≤ s.value t x) ∧
      s'.value 0 "A" < s.value 0 "A" ∧
      ∀ x ∈ s.states, |s''.value 0 x - s.value 0 x| ≤ 9 / 4 := by
  obtain ⟨⟨s, s', s''⟩, solved, facts⟩ := exists_ok_of_map_toOption
    (x := do
      let s ← (Solution.solve leakingInstance).result
      let s' ← (Solution.solve roomierInstance).result
      let s'' ← (Solution.solve shiftedInstance).result
      return (s, s', s''))
    (f := fun p => decide
      ((p.1.states = ["A", "B"] ∧ p.1.horizon = 2 ∧ p.1.discount = 1 / 2) ∧
        (p.1.CoveredBy p.2.1 ∧ ∀ t < p.1.horizon, ∀ x ∈ p.1.states, ∀ a ∈ p.1.actions,
          p.2.1.costs.cost t x a ≤ p.1.costs.cost t x a) ∧
        (p.1.CoveredBy p.2.2 ∧ (∀ a ∈ p.2.2.actions, a ∈ p.1.actions) ∧
          ∀ t < p.1.horizon, ∀ x ∈ p.1.states, ∀ a ∈ p.1.actions,
            |p.2.2.costs.cost t x a - p.1.costs.cost t x a| ≤ 1) ∧
        p.2.1.value 0 "A" < p.1.value 0 "A"))
    (c := true) (by decide +kernel)
  obtain ⟨s, hs, solved⟩ := bind_eq_ok_iff.mp solved
  obtain ⟨s', hs', solved⟩ := bind_eq_ok_iff.mp solved
  obtain ⟨s'', hs'', ⟨⟩⟩ := bind_eq_ok_iff.mp solved
  obtain ⟨⟨states, horizon, discount⟩, ⟨covered', cost'⟩, ⟨covered'', actions'', cost''⟩, lower⟩ :=
    of_decide_eq_true facts
  have salvage' : ∀ x ∈ s.states, roomierInstance.salvageOf x ≤ leakingInstance.salvageOf x :=
    fun _ _ => le_refl _
  have salvage'' : ∀ x ∈ s.states,
      |shiftedInstance.salvageOf x - leakingInstance.salvageOf x| ≤ 3 := by
    rw [states]
    decide +kernel
  refine ⟨s, s', s'', hs, hs', hs'', ?_, lower, fun x hx => ?_⟩
  · exact (solve_compared leakingInstance roomierInstance s s' hs hs' covered').1 cost' salvage'
  · have bound := (solve_compared leakingInstance shiftedInstance s s'' hs hs'' covered'').2 1 3
      actions'' cost'' salvage'' 0 (Nat.zero_le _) x hx
    rw [horizon, discount] at bound
    exact bound.trans (by decide +kernel)

end BackwardInduction
