import Mathlib.Algebra.BigOperators.Intervals
import Mathlib.Algebra.Order.Ring.Rat
import Mathlib.Order.Interval.Finset.Nat
import BackwardInduction.Proofs.ComparedInstances

/-!
Costs in other units, in exact fractions. Where every cost is scaled by one positive factor
and moved by a constant of its stage, every value is scaled and moved with it, as long as all
the weight of the rows lies on declared states: only then does an expectation pass on the
whole of a constant. The order of the candidates is then what it was, so that the policy is
the same, ties included.
-/

namespace BackwardInduction

section Shift

/-- What the values of a stage are moved by when each cost of a stage is moved by what `b`
gives for it and the terminal values are moved by `d`. -/
def shiftFrom (discount : ℚ) (b : Nat → ℚ) (d : ℚ) : (left stage : Nat) → ℚ
  | 0, _ => d
  | left + 1, stage => b stage + discount * shiftFrom discount b d left (stage + 1)

theorem shiftFrom_eq_sum (g : ℚ) (b : Nat → ℚ) (d : ℚ) (left stage : Nat) :
    shiftFrom g b d left stage =
      (∑ i ∈ Finset.range left, g ^ i * b (stage + i)) + g ^ left * d := by
  induction left generalizing stage with
  | zero => simp [shiftFrom]
  | succ left ih =>
      have rest : ∑ i ∈ Finset.range left, g ^ (i + 1) * b (stage + (i + 1)) =
          g * ∑ i ∈ Finset.range left, g ^ i * b (stage + 1 + i) := by
        rw [Finset.mul_sum]
        refine Finset.sum_congr rfl fun i _ => ?_
        rw [pow_succ', Nat.add_comm i 1, ← Nat.add_assoc, mul_assoc]
      rw [shiftFrom, ih, Finset.sum_range_succ', rest, pow_zero, one_mul, add_zero]
      ring

end Shift

section Least

/-- A candidate with its value replaced. -/
def rescaled (f : ℚ → ℚ) (c : String × ℚ) : String × ℚ :=
  (c.1, f c.2)

variable {f : ℚ → ℚ} (hf : StrictMono f)
include hf

theorem leastFrom_map_rescaled (best : Option (String × ℚ)) (cs : List (String × ℚ)) :
    leastFrom (best.map (rescaled f)) (cs.map (rescaled f)) =
      (leastFrom best cs).map (rescaled f) := by
  induction cs generalizing best with
  | nil => rfl
  | cons c cs ih =>
      rw [List.map_cons, leastFrom_cons, leastFrom_cons, ← ih]
      congr 1
      cases best with
      | none => rfl
      | some b =>
          have order : (rescaled f c).2 < (rescaled f b).2 ↔ c.2 < b.2 := hf.lt_iff_lt
          simp only [Option.map_some, keep, order]
          split <;> rfl

/-- The choice among candidates is the same on any scale that keeps their order. -/
theorem least_map_rescaled {cs : List (String × ℚ)} (hne : cs ≠ []) :
    least (cs.map (rescaled f)) = rescaled f (least cs) := by
  have found {cs : List (String × ℚ)} (hne : cs ≠ []) : leastFrom none cs = some (least cs) := by
    rw [leastFrom_eq_find?, find?_isLeast_of_no_infinity hne rfl]
  have scaled := leastFrom_map_rescaled hf none cs
  rw [Option.map_none, found (by simpa using hne), found hne, Option.map_some] at scaled
  exact Option.some.inj scaled

end Least

namespace Process

/-- A stage of the second process is that of the first in other units: costs are scaled and
moved, the weights of declared states are the same, and they add up to one. -/
structure RescalesAt (p q : Process ℚ) (scale shift : ℚ) (stage : Nat) : Prop where
  cost_eq : ∀ x ∈ p.states, ∀ a ∈ p.actions,
    q.costs.cost stage x a = scale * p.costs.cost stage x a + shift
  weight_eq : ∀ x ∈ p.states, ∀ a ∈ p.actions, ∀ y ∈ p.states,
    (q.transitions.row stage x a q.states).getD y 0 =
      (p.transitions.row stage x a p.states).getD y 0
  conserved : ∀ x ∈ p.states, ∀ a ∈ p.actions,
    expectedValue (p.transitions.row stage x a p.states) p.states (fun _ => 1) = 1

variable {p q : Process ℚ} (frame : p.SharesFrame q) {c : ℚ} (hc : 0 < c)
include frame

theorem RescalesAt.actionValue_eq {e k : ℚ} {stage : Nat} (h : p.RescalesAt q c e stage)
    {next next' : Values ℚ} (hnext : ∀ y ∈ p.states, next'.getD y 0 = c * next.getD y 0 + k)
    {x a : String} (hx : x ∈ p.states) (ha : a ∈ p.actions) :
    q.actionValue stage x a next' =
      c * p.actionValue stage x a next + (e + p.discount * k) := by
  let row := p.transitions.row stage x a p.states
  have expected : expectedValue (q.transitions.row stage x a q.states) p.states
      (fun y => next'.getD y 0) = c * expectedValue row p.states (fun y => next.getD y 0) + k :=
    calc _ = expectedValue row p.states fun y => next'.getD y 0 :=
          expectedValue_congr_row (h.weight_eq x hx a ha) _
      _ = expectedValue row p.states fun y => c * next.getD y 0 + k := expectedValue_congr hnext
      _ = c * expectedValue row p.states (fun y => next.getD y 0) + k := by
          rw [expectedValue_mul_add, h.conserved x hx a ha, mul_one]
  rw [← frame.states_eq] at expected
  rw [actionValue, actionValue, h.cost_eq x hx a ha, frame.discount_eq, expected,
    frame.states_eq]
  ring

include hc

/-- One step back: the choice is the same, and its value is scaled and moved. -/
theorem RescalesAt.choice_eq {e k : ℚ} {stage : Nat} (h : p.RescalesAt q c e stage)
    (hactions : p.actions ≠ []) {next next' : Values ℚ}
    (hnext : ∀ y ∈ p.states, next'.getD y 0 = c * next.getD y 0 + k) {x : String}
    (hx : x ∈ p.states) :
    q.choice stage x next' =
      rescaled (fun v => c * v + (e + p.discount * k)) (p.choice stage x next) := by
  have order : StrictMono fun v : ℚ => c * v + (e + p.discount * k) := fun v w hvw =>
    add_lt_add_of_lt_of_le (mul_lt_mul_of_pos_left hvw hc) (le_refl _)
  have candidates : q.candidates stage x next' = (p.candidates stage x next).map
      (rescaled fun v => c * v + (e + p.discount * k)) := by
    rw [Process.candidates, Process.candidates, frame.actions_eq, List.map_map]
    refine List.map_congr_left fun a ha => ?_
    exact congrArg (Prod.mk a) (h.actionValue_eq frame hnext hx ha)
  rw [choice, choice, candidates, least_map_rescaled order]
  simpa [Process.candidates] using hactions

variable (hactions : p.actions ≠ []) {b : Nat → ℚ} {d : ℚ} {horizon : Nat}
  (h : ∀ t < horizon, p.RescalesAt q c (b t) t) {final final' : Values ℚ}
  (hfinal : ∀ y ∈ p.states, final'.getD y 0 = c * final.getD y 0 + d)
include hactions h hfinal

/-- All steps back: constants add up, discounted. -/
theorem valuesFrom_rescaled (left stage : Nat) (hstage : stage + left ≤ horizon) :
    ∀ x ∈ p.states, (q.valuesFrom final' left stage).getD x 0 =
      c * (p.valuesFrom final left stage).getD x 0 + shiftFrom p.discount b d left stage := by
  induction left generalizing stage with
  | zero => exact hfinal
  | succ left ih =>
      intro x hx
      have next := ih (stage + 1) (by omega)
      have choice := (h stage (by omega)).choice_eq frame hc hactions next hx
      rw [valuesFrom, valuesFrom, backup_values, backup_values, frame.states_eq,
        Dict.getD_ofKeys_of_mem hx, Dict.getD_ofKeys_of_mem hx, choice]
      rfl

theorem policyFrom_rescaled (left stage : Nat) (hstage : stage + left < horizon) :
    q.policyFrom final' left stage = p.policyFrom final left stage := by
  have next := valuesFrom_rescaled frame hc hactions h hfinal left (stage + 1) (by omega)
  rw [policyFrom, policyFrom, backup_policy, backup_policy, frame.states_eq]
  refine Dict.ofKeys_congr fun x hx => ?_
  rw [(h stage (by omega)).choice_eq frame hc hactions next hx]
  rfl

end Process

/-- With costs in other units, at each stage moved by a constant of it, the values of a stage
are in these units and moved by the constants that are left, discounted; the policy is the
same. No row of a declared state may lead to a state that is not declared. -/
theorem solve_rescaled (inst inst' : Instance ℚ) (s s' : Solution ℚ)
    (hs : (Solution.solve inst).result = .ok s) (hs' : (Solution.solve inst').result = .ok s')
    (h : s.CoveredBy s') (hactions : s'.actions = s.actions)
    (inside : ∀ t < s.horizon, ∀ x ∈ s.states, ∀ a ∈ s.actions,
      ∀ y ∈ (s.transitions.row t x a s.states).keys, y ∈ s.states)
    (c : ℚ) (hc : 0 < c) (b : Nat → ℚ) (d : ℚ)
    (cost : ∀ t < s.horizon, ∀ x ∈ s.states, ∀ a ∈ s.actions,
      s'.costs.cost t x a = c * s.costs.cost t x a + b t)
    (salvage : ∀ x ∈ s.states, inst'.salvageOf x = c * inst.salvageOf x + d) :
    (∀ t ≤ s.horizon, ∀ x ∈ s.states, s'.value t x = c * s.value t x +
      ((∑ k ∈ Finset.Ico t s.horizon, s.discount ^ (k - t) * b k) +
        s.discount ^ (s.horizon - t) * d)) ∧
    s'.policy = s.policy := by
  obtain ⟨final, prepares, tabulates⟩ := Solution.solve_spec hs
  obtain ⟨final', prepares', tabulates'⟩ := Solution.solve_spec hs'
  obtain ⟨_, _, normalized⟩ := prepares.transitions_eq
  have frame : s.SharesFrame s'.toProcess := ⟨h.states_eq, hactions, h.discount_eq⟩
  have stages (t : Nat) (ht : t < s.horizon) : s.RescalesAt s'.toProcess c (b t) t := by
    refine ⟨cost t ht, h.weight_eq t ht, fun x hx a ha => ?_⟩
    have total := (Model.normalizes_of_normalize normalized).total_row prepares.states_nodup hx t a
    exact Row.expectedValue_one_of_keys total prepares.states_nodup (inside t ht x hx a ha)
  have ends : ∀ x ∈ s.states, final'.getD x 0 = c * final.getD x 0 + d := fun x hx => by
    rw [prepares.final_getD hx, prepares'.final_getD (h.states_eq ▸ hx), salvage x hx]
  have hne := prepares.actions_ne
  constructor
  · intro t ht x hx
    have values := Process.valuesFrom_rescaled frame hc hne stages ends (s.horizon - t) t
      (by omega) x hx
    rw [Solution.value, Solution.value, tabulates.values_getD ht,
      tabulates'.values_getD (h.horizon_eq ▸ ht), h.horizon_eq, values, shiftFrom_eq_sum,
      Finset.sum_Ico_eq_sum_range]
    simp only [Nat.add_sub_cancel_left]
  · rw [tabulates.policy_eq, tabulates'.policy_eq, h.horizon_eq]
    refine List.map_congr_left fun t ht => ?_
    have := List.mem_range.mp ht
    exact Process.policyFrom_rescaled frame hc hne stages ends (s.horizon - t - 1) t (by omega)

/-- Two stages whose rows lead to declared states only; one has no weight and is made uniform. -/
def closedInstance : Instance ℚ :=
  { leakingInstance with
    transitions := .timeVarying
      (.map
        [ (.number (.whole 0), .map [ Value.entry "A" (.map
            [ Value.entry "stay" (.map
                [ Value.entry "A" (.number (.whole 0)), Value.entry "B" (.number (.whole 0)) ]),
              Value.entry "go" (.map
                [ Value.entry "B" (.number (.whole 1)),
                  Value.entry "A" (.number (.whole 3)) ]) ]) ]) ])
      (.map []) }

/-- Twice the costs, one more at the first stage and three less at the second, and one more at
the end. -/
def rescaledInstance : Instance ℚ :=
  { closedInstance with
    costs := .timeVarying
      (.map
        [ (.number (.whole 0), .map
            [ Value.entry "A" (.map
                [ Value.entry "stay" (.number (.whole 5)),
                  Value.entry "go" (.number (.whole 7)) ]),
              Value.entry "B" (.map
                [ Value.entry "stay" (.number (.whole 1)),
                  Value.entry "go" (.number (.whole 1)) ]) ]) ])
      (.map
        [ Value.entry "A" (.map
            [ Value.entry "stay" (.number (.whole 1)), Value.entry "go" (.number (.whole 3)) ]),
          Value.entry "B" (.map
            [ Value.entry "stay" (.number (.whole (-3))),
              Value.entry "go" (.number (.whole (-3))) ]) ])
    salvage := .map
      [ Value.entry "A" (.number (.whole 17)), Value.entry "B" (.number (.whole 3)) ] }

theorem closedInstance_rescaled :
    ∃ s s', (Solution.solve closedInstance).result = .ok s ∧
      (Solution.solve rescaledInstance).result = .ok s' ∧
      s'.value 0 "A" = 2 * s.value 0 "A" + (1 + 1 / 2 * -3 + 1 / 4 * 1) ∧
      s'.policy = s.policy := by
  let b : Nat → ℚ := fun t => if t = 0 then 1 else -3
  obtain ⟨⟨s, s'⟩, solved, facts⟩ := exists_ok_of_map_toOption
    (x := do
      let s ← (Solution.solve closedInstance).result
      let s' ← (Solution.solve rescaledInstance).result
      return (s, s'))
    (f := fun p => decide
      ((p.1.states = ["A", "B"] ∧ p.1.horizon = 2 ∧ p.1.discount = 1 / 2) ∧
        (p.1.CoveredBy p.2 ∧ p.2.actions = p.1.actions) ∧
        (∀ t < p.1.horizon, ∀ x ∈ p.1.states, ∀ a ∈ p.1.actions,
          ∀ y ∈ Dict.keys (p.1.transitions.row t x a p.1.states), y ∈ p.1.states) ∧
        ∀ t < p.1.horizon, ∀ x ∈ p.1.states, ∀ a ∈ p.1.actions,
          p.2.costs.cost t x a = 2 * p.1.costs.cost t x a + b t))
    (c := true) (by decide +kernel)
  obtain ⟨s, hs, solved⟩ := bind_eq_ok_iff.mp solved
  obtain ⟨s', hs', ⟨⟩⟩ := bind_eq_ok_iff.mp solved
  obtain ⟨⟨states, horizon, discount⟩, ⟨covered, actions⟩, inside, cost⟩ :=
    of_decide_eq_true facts
  have salvage : ∀ x ∈ s.states,
      rescaledInstance.salvageOf x = 2 * closedInstance.salvageOf x + 1 := by
    rw [states]
    decide +kernel
  obtain ⟨values, policy⟩ := solve_rescaled closedInstance rescaledInstance s s' hs hs' covered
    actions inside 2 (by decide +kernel) b 1 cost salvage
  have hA : "A" ∈ s.states := by
    rw [states]
    decide
  refine ⟨s, s', hs, hs', ?_, policy⟩
  rw [values 0 (Nat.zero_le _) "A" hA, horizon, discount]
  congr 1
  decide +kernel

end BackwardInduction
