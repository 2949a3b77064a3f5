import BackwardInduction.Proofs.LeastCandidates
import BackwardInduction.Proofs.StageTables

/-!
The tables of a solution agree with themselves: the values of actions that are
computed from a finished solution give back its values and its policy, ties and
infinities included. Only the order of the numbers is used, so that this holds of
doubles as they round.
-/

namespace BackwardInduction

variable {α : Type} [Scalar α]

namespace Process

variable (p : Process α)

theorem keys_valuesFrom {final : Values α} (hfinal : final.keys = p.states)
    (hnodup : p.states.Nodup) (left stage : Nat) :
    (p.valuesFrom final left stage).keys = p.states := by
  cases left with
  | zero => exact hfinal
  | succ left => rw [valuesFrom, backup_values, Dict.keys_ofKeys hnodup]

theorem keys_policyFrom (hnodup : p.states.Nodup) (final : Values α) (left stage : Nat) :
    (p.policyFrom final left stage).keys = p.states := by
  rw [policyFrom, backup_policy, Dict.keys_ofKeys hnodup]

theorem choice_mem [OrderedScalar α] (hne : p.actions ≠ []) (stage : Nat) (x : String)
    (next : Values α) : (p.choice stage x next).1 ∈ p.actions := by
  have names : (p.candidates stage x next).map Prod.fst = p.actions := by
    simp [candidates, Function.comp_def]
  rcases least_cases (p.candidates_ne_nil hne stage x next) with found | ⟨_, first, _⟩
  · rw [← names]
    exact List.mem_map_of_mem (List.mem_of_find?_eq_some found)
  · rw [← List.head?_map, names] at first
    exact List.mem_of_mem_head? first

theorem policyFrom_mem [OrderedScalar α] (hne : p.actions ≠ []) (hnodup : p.states.Nodup)
    (final : Values α) (left stage : Nat) :
    ∀ e ∈ (p.policyFrom final left stage).entries, e.2 ∈ p.actions := by
  intro e he
  rw [policyFrom, backup_policy, Dict.entries_ofKeys hnodup] at he
  obtain ⟨x, _, rfl⟩ := List.mem_map.mp he
  exact p.choice_mem hne stage x _

end Process

namespace Solution

theorem actionValues_outside (s : Solution α) {t : Int} (ht : t < 0 ∨ s.horizon ≤ t)
    (x : String) : s.actionValues t x = .error (.noDecision t s.horizon) := by
  have outside : (decide (t < 0) || decide (s.horizon ≤ t.toNat)) = true := by
    rw [Bool.or_eq_true, decide_eq_true_eq, decide_eq_true_eq]
    omega
  rw [actionValues, if_pos outside]

omit [Scalar α] in
theorem inside (s : Solution α) {t : Nat} (ht : t < s.horizon) :
    ¬ (decide ((t : Int) < 0) || decide (s.horizon ≤ (t : Int).toNat)) = true := by
  rw [Bool.or_eq_true, decide_eq_true_eq, decide_eq_true_eq]
  omega

theorem actionValues_undeclared (s : Solution α) {t : Nat} (ht : t < s.horizon) {x : String}
    (hx : x ∉ s.states) : s.actionValues t x = .error (.missingKey x) := by
  rw [actionValues, if_neg (s.inside ht), if_pos (by simpa using hx)]

theorem actionValues_eq (s : Solution α) {t : Nat} (ht : t < s.horizon) {x : String}
    (hx : x ∈ s.states) :
    s.actionValues t x =
      .ok (Dict.ofList (s.candidates t x (s.values.getD (t + 1) ∅))) := by
  rw [actionValues, if_neg (s.inside ht), if_neg (by simpa using hx)]
  rfl

theorem entries_actionValues {s : Solution α} (hnodup : s.actions.Nodup) (t : Nat)
    (x : String) :
    (Dict.ofList (s.candidates t x (s.values.getD (t + 1) ∅))).entries =
      s.candidates t x (s.values.getD (t + 1) ∅) :=
  Dict.entries_ofList (by simpa [Process.candidates, Function.comp_def] using hnodup)

/-- How the value and the decision of a state come of the values of its actions: the first
least one is taken, or infinity and the first action if none is below infinity. -/
structure Decides (actions : List String) (q : Dict String α) (value : α)
    (decision : String) : Prop where
  keys_eq : q.keys = actions
  least : (∃ e ∈ q.entries, Scalar.belowInfinity e.2 = true) →
    q.entries.find? (isLeast q.entries) = some (decision, value) ∧
      Scalar.isNaN value = false
  infinite : (∀ e ∈ q.entries, Scalar.belowInfinity e.2 = false) →
    actions.head? = some decision ∧ Scalar.infinity? = some value

theorem decides_choice [OrderedScalar α] {s : Solution α} (hne : s.actions ≠ [])
    (hnodup : s.actions.Nodup) (t : Nat) (x : String) :
    Decides s.actions (Dict.ofList (s.candidates t x (s.values.getD (t + 1) ∅)))
      (s.choice t x (s.values.getD (t + 1) ∅)).2
      (s.choice t x (s.values.getD (t + 1) ∅)).1 := by
  have names : (s.candidates t x (s.values.getD (t + 1) ∅)).map Prod.fst = s.actions := by
    simp [Process.candidates, Function.comp_def]
  have cases := least_cases (s.candidates_ne_nil hne t x (s.values.getD (t + 1) ∅))
  refine ⟨?_, ?_, ?_⟩
  · rw [Dict.keys, entries_actionValues hnodup, names]
  · rw [entries_actionValues hnodup]
    rintro ⟨e, he, below⟩
    rcases cases with found | ⟨above, _⟩
    · obtain ⟨finite, _⟩ := (isLeast_iff _ _).mp (List.find?_some found)
      exact ⟨found, Scalar.not_isNaN_of_belowInfinity finite⟩
    · rw [above e he] at below
      cases below
  · rw [entries_actionValues hnodup]
    intro above
    rcases cases with found | ⟨_, first, top⟩
    · obtain ⟨finite, _⟩ := (isLeast_iff _ _).mp (List.find?_some found)
      rw [above _ (List.mem_of_find?_eq_some found)] at finite
      cases finite
    · rw [← List.head?_map, names] at first
      exact ⟨first, top⟩

end Solution

/-- Every solution has the shape of its instance and is consistent with the values of actions
that are computed from it. -/
theorem solve_consistent [OrderedScalar α] (inst : Instance α) (s : Solution α)
    (h : (Solution.solve inst).result = .ok s) :
    (s.states = inst.states ∧ s.actions = inst.actions ∧
      inst.horizon = .number (.whole s.horizon)) ∧
    (s.values.length = s.horizon + 1 ∧ ∀ v ∈ s.values, v.keys = s.states) ∧
    (s.policy.length = s.horizon ∧
      ∀ d ∈ s.policy, d.keys = s.states ∧ ∀ e ∈ d.entries, e.2 ∈ s.actions) ∧
    (∃ salvage, readSalvage inst.salvage = .ok salvage ∧
      ∀ x ∈ s.states, s.value s.horizon x = salvage.getD x 0) ∧
    (∀ t < s.horizon, ∀ x ∈ s.states, ∃ q, s.actionValues t x = .ok q ∧
      Solution.Decides s.actions q (s.value t x) (s.decision t x)) ∧
    (∀ t : Int, t < 0 ∨ s.horizon ≤ t →
      ∀ x, s.actionValues t x = .error (.noDecision t s.horizon)) ∧
    ∀ t < s.horizon, ∀ x ∉ s.states, s.actionValues t x = .error (.missingKey x) := by
  obtain ⟨final, prepares, tabulates⟩ := Solution.solve_spec h
  obtain ⟨salvage, hsalvage, hfinal⟩ := prepares.final_eq
  have keys : final.keys = s.states := by
    rw [hfinal, Solution.terminal, ← prepares.states_eq,
      Dict.keys_ofKeys prepares.states_nodup]
  refine ⟨⟨prepares.states_eq, prepares.actions_eq, prepares.horizon_eq⟩, ⟨?_, ?_⟩, ⟨rfl, ?_⟩,
    ⟨salvage, hsalvage, fun x hx => ?_⟩, fun t ht x hx => ?_,
    fun t ht x => s.actionValues_outside ht x, fun t ht x hx => s.actionValues_undeclared ht hx⟩
  · simp [tabulates.values_eq]
  · rw [tabulates.values_eq]
    intro v hv
    obtain ⟨t, _, rfl⟩ := List.mem_map.mp hv
    exact s.keys_valuesFrom keys prepares.states_nodup _ t
  · rw [tabulates.policy_eq]
    intro d hd
    obtain ⟨t, _, rfl⟩ := List.mem_map.mp hd
    exact ⟨s.keys_policyFrom prepares.states_nodup _ _ t,
      s.policyFrom_mem prepares.actions_ne prepares.states_nodup _ _ t⟩
  · rw [Solution.value, tabulates.values_horizon, hfinal, Solution.terminal,
      Dict.getD_ofKeys_of_mem (prepares.states_eq ▸ hx)]
  · refine ⟨_, s.actionValues_eq ht hx, ?_⟩
    rw [tabulates.value_eq_choice ht hx, tabulates.decision_eq_choice ht hx]
    exact Solution.decides_choice prepares.actions_ne prepares.actions_nodup t x

/-- Doubles whose values fall out of range: from two stages before the end on staying in `A` is
worth minus infinity, and leaving it, at weight zero, compares with nothing. -/
def overflowingInstance : Instance Float where
  states := ["A", "B"]
  actions := ["leave", "stay"]
  horizon := .number (.whole 3)
  costs := .stationary (.map
    [ Value.entry "A" (.map [ Value.entry "stay" (.number (.real (-1.7e308))) ]) ])
  transitions := .stationary (.map
    [ Value.entry "A" (.map [ Value.entry "leave" (.map
        [ Value.entry "B" (.number (.whole 1)) ]) ]) ])

theorem overflowingInstance_consistent :
    ∃ s, (Solution.solve overflowingInstance).result = .ok s ∧
      (s.value 0 "A", s.decision 0 "A") = (-Binary64.infinity, "stay") ∧
      (s.value 0 "B", s.decision 0 "B") = (Binary64.infinity, "leave") ∧
      ∃ q, s.actionValues 0 "A" = .ok q ∧
        q.entries.find? (isLeast q.entries) = some ("stay", -Binary64.infinity) ∧
        q.entries.map (fun e => Scalar.isNaN e.2) = [true, false] := by
  obtain ⟨s, hs, shape⟩ := exists_ok_of_map_toOption
    (x := (Solution.solve overflowingInstance).result) (f := fun s => (s.horizon, s.states))
    (c := (3, ["A", "B"])) (by decide +kernel)
  have inA := eq_of_map_toOption hs (f := fun s => (s.value 0 "A", s.decision 0 "A"))
    (c := (-Binary64.infinity, "stay")) (by decide +kernel)
  have inB := eq_of_map_toOption hs (f := fun s => (s.value 0 "B", s.decision 0 "B"))
    (c := (Binary64.infinity, "leave")) (by decide +kernel)
  have flags := eq_of_map_toOption hs
    (f := fun s => (s.actionValues 0 "A").toOption.map fun q =>
      (q.entries.map fun e => Scalar.isNaN e.2, q.entries.any fun e => Scalar.belowInfinity e.2))
    (c := some ([true, false], true)) (by decide +kernel)
  simp only [Prod.mk.injEq] at shape inA
  obtain ⟨_, _, _, _, stages, _⟩ := solve_consistent overflowingInstance s hs
  obtain ⟨q, hq, decides⟩ := stages 0 (by omega) "A" (by simp [shape.2])
  have entries := eq_of_map_toOption hq flags
  obtain ⟨isNaN, below⟩ := Prod.mk.inj entries
  refine ⟨s, hs, by rw [inA.1, inA.2], inB, q, hq, ?_, isNaN⟩
  rw [← inA.1, ← inA.2]
  exact (decides.least (List.any_eq_true.mp below)).1

end BackwardInduction
