import BackwardInduction.Proofs.LeastCandidates
import BackwardInduction.Proofs.RationalRows
import BackwardInduction.Proofs.StageTables

/-!
Backward induction is optimal, in exact fractions. A strategy may look at all that
has happened, yet none costs less than the values of the solution, from no stage and
after no history; the policy of the solution costs just as much as they say. Weight
on states that are not declared counts for nothing, on either side.
-/

namespace BackwardInduction

/-- Earlier states, each with the action taken there, the latest one last. -/
abbrev History := List (String × String)

/-- An action for each stage, history and state. -/
abbrev Strategy := Nat → History → String → String

namespace Solution

/-- Wherever something is to be decided, the strategy takes one of the actions. -/
def Admits {α : Type} (s : Solution α) (σ : Strategy) : Prop :=
  ∀ stage past x, stage < s.horizon → x ∈ s.states → σ stage past x ∈ s.actions

variable {α : Type} [Scalar α]

/-- The strategy that follows the policy of the solution, whatever has happened. -/
def followed (s : Solution α) : Strategy := fun stage _ x =>
  s.decision stage x

/-- The expected cost of a strategy from a stage on, with so many stages left. -/
def costToGo (s : Solution α) (σ : Strategy) : (left stage : Nat) → History → String → α
  | 0, stage, _, x => s.value stage x
  | left + 1, stage, past, x =>
      let a := σ stage past x
      s.costs.cost stage x a + s.discount *
        (s.states.map fun y => (s.transitions.row stage x a s.states).getD y 0 *
          s.costToGo σ left (stage + 1) (past ++ [(x, a)]) y).sum

end Solution

namespace Process

/-- The choice of a stage attains the least of the action values. -/
theorem choice_rational (p : Process ℚ) (hne : p.actions ≠ []) (stage : Nat) (x : String)
    (next : Values ℚ) :
    (p.choice stage x next).1 ∈ p.actions ∧
      (p.choice stage x next).2 = p.actionValue stage x (p.choice stage x next).1 next ∧
      ∀ a ∈ p.actions, (p.choice stage x next).2 ≤ p.actionValue stage x a next := by
  have found := find?_isLeast_of_no_infinity (p.candidates_ne_nil hne stage x next) rfl
  obtain ⟨_, least⟩ := (isLeast_iff _ _).mp (List.find?_some found)
  obtain ⟨a, ha, heq⟩ := List.mem_map.mp (List.mem_of_find?_eq_some found)
  have choice : p.choice stage x next = (a, p.actionValue stage x a next) := heq.symm
  rw [choice]
  refine ⟨ha, rfl, fun a' ha' => not_lt.mp ?_⟩
  have := least _ (List.mem_map_of_mem ha')
  rwa [← heq] at this

end Process

namespace Solution

/-- One step of the cost of a strategy, as the solver expects it. -/
theorem costToGo_succ (s : Solution ℚ) (σ : Strategy) (left stage : Nat) (past : History)
    (x : String) :
    s.costToGo σ (left + 1) stage past x =
      s.costs.cost stage x (σ stage past x) + s.discount *
        expectedValue (s.transitions.row stage x (σ stage past x) s.states) s.states
          (s.costToGo σ left (stage + 1) (past ++ [(x, σ stage past x)])) := by
  rw [expectedValue_eq_sum]
  rfl

/-- The value of an action, in terms of the values of the stage after. -/
theorem actionValue_eq (s : Solution ℚ) (stage : Nat) (x a : String) :
    s.actionValue stage x a (s.values.getD (stage + 1) ∅) =
      s.costs.cost stage x a + s.discount *
        expectedValue (s.transitions.row stage x a s.states) s.states (s.value (stage + 1)) :=
  rfl

variable {s : Solution ℚ} {final : Values ℚ} (h : s.Tabulates final)
  (hactions : s.actions ≠ [])
include h hactions

theorem value_le_costToGo (hrows : s.transitions.All Row.Nonnegative)
    (hdiscount : (0 : ℚ) ≤ s.discount) {σ : Strategy} (hσ : s.Admits σ) (left stage : Nat)
    (hstage : stage + left = s.horizon) (past : History) {x : String} (hx : x ∈ s.states) :
    s.value stage x ≤ s.costToGo σ left stage past x := by
  induction left generalizing stage past x with
  | zero => exact le_refl _
  | succ left ih =>
      have ht : stage < s.horizon := by omega
      have ha : σ stage past x ∈ s.actions := hσ stage past x ht hx
      have least := (s.choice_rational hactions stage x (s.values.getD (stage + 1) ∅)).2.2 _ ha
      have rest : expectedValue (s.transitions.row stage x (σ stage past x) s.states) s.states
            (s.value (stage + 1)) ≤
          expectedValue (s.transitions.row stage x (σ stage past x) s.states) s.states
            (s.costToGo σ left (stage + 1) (past ++ [(x, σ stage past x)])) :=
        expectedValue_mono (Model.nonnegative_row hrows _ _ _ _) fun y hy =>
          ih (stage + 1) (by omega) _ hy
      calc s.value stage x
          ≤ s.actionValue stage x (σ stage past x) (s.values.getD (stage + 1) ∅) := by
            rw [h.value_eq_choice ht hx]
            exact least
        _ = _ := s.actionValue_eq stage x _
        _ ≤ _ := add_le_add (le_refl _) (mul_le_mul_of_nonneg_left rest hdiscount)
        _ = s.costToGo σ (left + 1) stage past x := (s.costToGo_succ σ left stage past x).symm

theorem admits_followed : s.Admits s.followed := by
  intro stage past x ht hx
  rw [followed, h.decision_eq_choice ht hx]
  exact (s.choice_rational hactions stage x _).1

theorem costToGo_followed (left stage : Nat) (hstage : stage + left = s.horizon)
    (past : History) {x : String} (hx : x ∈ s.states) :
    s.costToGo s.followed left stage past x = s.value stage x := by
  induction left generalizing stage past x with
  | zero => rfl
  | succ left ih =>
      have ht : stage < s.horizon := by omega
      have attained := (s.choice_rational hactions stage x (s.values.getD (stage + 1) ∅)).2.1
      rw [h.value_eq_choice ht hx, attained, ← h.decision_eq_choice ht hx, actionValue_eq,
        costToGo_succ]
      congr 2
      exact expectedValue_congr fun y hy => ih (stage + 1) (by omega) _ hy

end Solution

/-- No strategy costs less than the values of a solution, and its policy costs no more. -/
theorem solve_optimal (inst : Instance ℚ) (s : Solution ℚ)
    (h : (Solution.solve inst).result = .ok s) :
    (s.states = inst.states ∧ s.actions = inst.actions ∧
      inst.horizon = .number (.whole s.horizon)) ∧
    (∀ σ, s.Admits σ → ∀ t ≤ s.horizon, ∀ past, ∀ x ∈ s.states,
      s.value t x ≤ s.costToGo σ (s.horizon - t) t past x) ∧
    s.Admits s.followed ∧
    ∀ t ≤ s.horizon, ∀ past, ∀ x ∈ s.states,
      s.costToGo s.followed (s.horizon - t) t past x = s.value t x := by
  obtain ⟨final, prepares, tabulates⟩ := Solution.solve_spec h
  obtain ⟨rows, discount⟩ := Solution.nonnegative_of_prepares prepares
  refine ⟨⟨prepares.states_eq, prepares.actions_eq, prepares.horizon_eq⟩,
    fun σ hσ t ht past x hx => ?_, ?_, fun t ht past x hx => ?_⟩
  · exact Solution.value_le_costToGo tabulates prepares.actions_ne rows discount hσ _ t
      (by omega) past hx
  · exact Solution.admits_followed tabulates prepares.actions_ne
  · exact Solution.costToGo_followed tabulates prepares.actions_ne _ t (by omega) past hx

/-- Two stages in which going from `A` loses three quarters of the weight to the undeclared
state `C`, but at the first stage only. -/
def leakingInstance : Instance ℚ where
  states := ["A", "B"]
  actions := ["stay", "go"]
  horizon := .number (.whole 2)
  discount := .number (.real (1 / 2))
  costs := .stationary (.map
    [ Value.entry "A" (.map
        [ Value.entry "stay" (.number (.whole 2)), Value.entry "go" (.number (.whole 3)) ]) ])
  transitions := .timeVarying
    (.map
      [ (.number (.whole 0), .map [ Value.entry "A" (.map [ Value.entry "go" (.map
          [ Value.entry "B" (.number (.whole 1)),
            Value.entry "C" (.number (.whole 3)) ]) ]) ]) ])
    (.map [])
  salvage := .map
    [ Value.entry "A" (.number (.whole 8)), Value.entry "B" (.number (.whole 1)) ]

theorem leakingInstance_optimal :
    ∃ s, (Solution.solve leakingInstance).result = .ok s ∧ s.value 0 "A" = 49 / 16 ∧
      (∀ σ, s.Admits σ → 49 / 16 ≤ s.costToGo σ 2 0 [] "A") ∧
      s.costToGo s.followed 2 0 [] "A" = 49 / 16 := by
  obtain ⟨s, hs, facts⟩ := exists_ok_of_map_toOption
    (x := (Solution.solve leakingInstance).result)
    (f := fun s => (s.value 0 "A", s.horizon, s.states)) (c := (49 / 16, 2, ["A", "B"]))
    (by decide +kernel)
  simp only [Prod.mk.injEq] at facts
  obtain ⟨value, horizon, states⟩ := facts
  obtain ⟨_, lower, _, attained⟩ := solve_optimal leakingInstance s hs
  have hA : "A" ∈ s.states := by simp [states]
  refine ⟨s, hs, value, fun σ hσ => ?_, ?_⟩
  · simpa only [horizon, value] using lower σ hσ 0 (Nat.zero_le _) [] "A" hA
  · simpa only [horizon, value] using attained 0 (Nat.zero_le _) [] "A" hA

end BackwardInduction
