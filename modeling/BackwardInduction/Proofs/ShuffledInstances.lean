import Mathlib.Algebra.Order.Ring.Rat
import Mathlib.Data.List.Find
import Mathlib.Data.List.GetD
import BackwardInduction.Proofs.AgreeingStages
import BackwardInduction.Proofs.Optimality
import BackwardInduction.Proofs.RowMass
import BackwardInduction.Proofs.ShuffledModels

/-!
Instances in another order: of the states, of the actions, and of the entries of the models and
of the terminal values, at any level. In exact fractions, where sums depend on no order, the
totals of rows, the expectations and the values stay the same; only which of several minimizing
actions comes first depends on the order of the actions.
-/

namespace BackwardInduction

section Rows

theorem Row.total_of_perm {row row' : Row ℚ} (h : row.entries.Perm row'.entries) :
    row.total = row'.total := by
  rw [total_eq_sum, total_eq_sum]
  exact (h.map Prod.snd).sum_eq

theorem Row.perm_distribution {row row' : Row ℚ} (h : row.entries.Perm row'.entries) :
    row.distribution.entries.Perm row'.distribution.entries := by
  have size : Dict.size row = Dict.size row' := h.length_eq
  unfold distribution
  rw [total_of_perm h]
  split
  · rw [uniform, uniform, size]
    exact h.map _
  · rw [proportional, proportional, total_of_perm h]
    exact h.map _

theorem Row.isEmpty_of_perm {row row' : Row ℚ} (hne : Dict.isEmpty row = false)
    (h : row.entries.Perm row'.entries) : Dict.isEmpty row' = false := by
  rw [Dict.isEmpty, ← h.isEmpty_eq]
  exact hne

theorem identityRow_of_perm {states states' : List String} (h : states.Perm states')
    (state next : String) :
    (identityRow state states' : Row ℚ).get? next = (identityRow state states).get? next := by
  rw [identityRow, identityRow, Dict.get?_ofKeys, Dict.get?_ofKeys]
  simp only [h.mem_iff]

/-- Rows that are found after normalization give the same weights, whatever the order. -/
theorem Model.Alike.get?_row {raw raw' m m' : TransitionModel ℚ}
    (h : raw.Alike (Dict.Alike Eq) raw') (hm : raw.Normalizes m) (hm' : raw'.Normalizes m')
    {states states' : List String} (hstates : states.Perm states') (stage : Nat)
    (state action next : String) :
    (m'.row stage state action states').get? next =
      (m.row stage state action states).get? next := by
  have rows := h.present? stage state action
  rw [hm.row_eq, hm'.row_eq]
  generalize raw.present? stage state action = row at rows
  generalize raw'.present? stage state action = row' at rows
  cases rows with
  | none => exact identityRow_of_perm hstates state next
  | some hrow => exact (Dict.get?_of_perm (Row.perm_distribution hrow.perm) next).symm

theorem Model.Alike.exists_normalize {raw raw' m : TransitionModel ℚ}
    (h : raw.Alike (Dict.Alike Eq) raw') {states : List String}
    (hm : (raw.normalize states).result = .ok m) (states' : List String) :
    ∃ m', (raw'.normalize states').result = .ok m' := by
  have filled := (raw.exists_normalize_iff states).mp ⟨m, hm⟩
  exact (raw'.exists_normalize_iff states').mpr
    (h.all (fun row row' hne hrow => Row.isEmpty_of_perm hne hrow.perm) filled)

theorem expectedValue_of_perm {states states' : List String} (h : states.Perm states')
    {row row' : Row ℚ} (hrow : ∀ x, row'.getD x 0 = row.getD x 0) {next next' : String → ℚ}
    (hnext : ∀ x, next' x = next x) :
    expectedValue row' states' next' = expectedValue row states next := by
  rw [expectedValue_eq_sum, expectedValue_eq_sum]
  simp only [hrow, hnext]
  exact (h.map _).sum_eq.symm

end Rows

namespace Process

variable {p q : Process ℚ}

/-- The processes differ in nothing but the order of their states and actions. -/
structure Reorders (p q : Process ℚ) : Prop where
  states : p.states.Perm q.states
  actions : p.actions.Perm q.actions
  discount_eq : q.discount = p.discount
  cost_eq : ∀ stage state action,
    q.costs.cost stage state action = p.costs.cost stage state action
  weight_eq : ∀ stage state action next,
    (q.transitions.row stage state action q.states).getD next 0 =
      (p.transitions.row stage state action p.states).getD next 0

theorem Reorders.symm (h : p.Reorders q) : q.Reorders p where
  states := h.states.symm
  actions := h.actions.symm
  discount_eq := h.discount_eq.symm
  cost_eq stage state action := (h.cost_eq stage state action).symm
  weight_eq stage state action next := (h.weight_eq stage state action next).symm

/-- The action is one of those of least value, where `next` are the values of the next stage. -/
def Minimizes (p : Process ℚ) (stage : Nat) (state action : String) (next : Values ℚ) : Prop :=
  action ∈ p.actions ∧ ∀ other ∈ p.actions,
    p.actionValue stage state action next ≤ p.actionValue stage state other next

instance (p : Process ℚ) (stage : Nat) (state action : String) (next : Values ℚ) :
    Decidable (p.Minimizes stage state action next) :=
  inferInstanceAs (Decidable (_ ∧ _))

/-- The choice is the first of the minimizing actions. -/
theorem find?_minimizes (hne : p.actions ≠ []) (stage : Nat) (state : String) (next : Values ℚ) :
    p.actions.find? (fun action => decide (p.Minimizes stage state action next)) =
      some (p.choice stage state next).1 := by
  have found := find?_isLeast_of_no_infinity (p.candidates_ne_nil hne stage state next) rfl
  rw [candidates, List.find?_map, Option.map_eq_some_iff] at found
  obtain ⟨action, hfound, hchoice⟩ := found
  have chosen : (p.choice stage state next).1 = action := by
    rw [choice, candidates, ← hchoice]
  rw [chosen, ← hfound]
  refine List.find?_congr fun action haction => Bool.eq_iff_iff.mpr ?_
  rw [decide_eq_true_eq, Function.comp_apply, isLeast_iff, Minimizes, List.forall_mem_map]
  simp only [not_lt, haction, true_and]
  exact (and_iff_right rfl).symm

namespace Reorders

variable (h : p.Reorders q) {next next' : Values ℚ} (hnext : ∀ x, next'.get? x = next.get? x)
include h hnext

theorem actionValue_eq (stage : Nat) (state action : String) :
    q.actionValue stage state action next' = p.actionValue stage state action next := by
  have values (x : String) : next'.getD x 0 = next.getD x 0 := by
    rw [Dict.getD, hnext, Dict.getD]
  rw [actionValue, actionValue, h.cost_eq, h.discount_eq,
    expectedValue_of_perm h.states (h.weight_eq stage state action) values]

theorem minimizes_iff (stage : Nat) (state action : String) :
    q.Minimizes stage state action next' ↔ p.Minimizes stage state action next := by
  simp only [Minimizes, h.actionValue_eq hnext, h.actions.mem_iff]

theorem choice_le (hne : q.actions ≠ []) (hne' : p.actions ≠ []) (stage : Nat) (state : String) :
    (p.choice stage state next).2 ≤ (q.choice stage state next').2 := by
  obtain ⟨hmem, heq, _⟩ := q.choice_rational hne stage state next'
  rw [heq, h.actionValue_eq hnext]
  exact (p.choice_rational hne' stage state next).2.2 _ (h.actions.mem_iff.mpr hmem)

theorem choice_eq (hne : p.actions ≠ []) (stage : Nat) (state : String) :
    (q.choice stage state next').2 = (p.choice stage state next).2 := by
  have hne' : q.actions ≠ [] := fun hnil => hne (List.perm_nil.mp (hnil ▸ h.actions))
  exact le_antisymm (h.symm.choice_le (fun x => (hnext x).symm) hne hne' stage state)
    (h.choice_le hnext hne' hne stage state)

/-- With the actions in the same order it is the same action that is chosen. -/
theorem choice_eq_of_actions (hactions : q.actions = p.actions) (stage : Nat) (state : String) :
    q.choice stage state next' = p.choice stage state next := by
  simp only [choice, candidates, hactions, h.actionValue_eq hnext]

omit hnext in
/-- The values of a stage are the same, if the terminal ones are. -/
theorem valuesFrom_eq (hne : p.actions ≠ []) {final final' : Values ℚ}
    (hfinal : ∀ x, final'.get? x = final.get? x) (left stage : Nat) (state : String) :
    (q.valuesFrom final' left stage).get? state = (p.valuesFrom final left stage).get? state := by
  induction left generalizing stage state with
  | zero => exact hfinal state
  | succ left ih =>
      rw [valuesFrom, valuesFrom, backup_values, backup_values, Dict.get?_ofKeys, Dict.get?_ofKeys]
      simp only [h.states.mem_iff, h.choice_eq (ih (stage + 1)) hne]

omit hnext in
theorem policyFrom_eq (hne : p.actions ≠ []) (hactions : q.actions = p.actions)
    {final final' : Values ℚ} (hfinal : ∀ x, final'.get? x = final.get? x) (left stage : Nat)
    (state : String) :
    (q.policyFrom final' left stage).get? state = (p.policyFrom final left stage).get? state := by
  have next := h.valuesFrom_eq hne hfinal left (stage + 1)
  rw [policyFrom, policyFrom, backup_policy, backup_policy, Dict.get?_ofKeys, Dict.get?_ofKeys]
  simp only [h.states.mem_iff, h.choice_eq_of_actions next hactions]

end Reorders

end Process

section Instances

variable {α : Type} [Scalar α]

/-- The instances differ in nothing but the order of the states, of the actions and of the
entries of models and terminal values. -/
structure Instance.Shuffles (inst inst' : Instance α) : Prop where
  states : inst.states.Perm inst'.states
  actions : inst.actions.Perm inst'.actions
  horizon_eq : inst'.horizon = inst.horizon
  discount_eq : inst'.discount = inst.discount
  layout_eq : inst'.layout = inst.layout
  costs : inst.costs.Shuffles inst'.costs
  transitions : inst.transitions.Shuffles inst'.transitions
  salvage : inst.salvage.Shuffles inst'.salvage

/-- The models and the terminal values have texts for keys. -/
structure Instance.TextKeyed (inst : Instance α) : Prop where
  costs : inst.costs.TextKeyed
  transitions : inst.transitions.TextKeyed
  salvage : inst.salvage.Decoded

theorem Instance.Shuffles.symm {inst inst' : Instance α} (h : inst.Shuffles inst') :
    inst'.Shuffles inst where
  states := h.states.symm
  actions := h.actions.symm
  horizon_eq := h.horizon_eq.symm
  discount_eq := h.discount_eq.symm
  layout_eq := h.layout_eq.symm
  costs := h.costs.symm
  transitions := h.transitions.symm
  salvage := h.salvage.symm

theorem Instance.TextKeyed.of_shuffles {inst inst' : Instance α} (hinst : inst.TextKeyed)
    (h : inst.Shuffles inst') : inst'.TextKeyed where
  costs := hinst.costs.of_shuffles h.costs
  transitions := hinst.transitions.of_shuffles h.transitions
  salvage := hinst.salvage.of_shuffles h.salvage

end Instances

namespace Solution

variable {inst inst' : Instance ℚ} {p q : Process ℚ} {horizon horizon' : Nat}
  {final final' : Values ℚ}

theorem terminal_of_perm {states states' : List String} (hstates : states.Perm states')
    {salvage salvage' : Dict String ℚ} (h : salvage.Alike Eq salvage') (x : String) :
    (terminal states' salvage').get? x = (terminal states salvage).get? x := by
  rw [terminal, terminal, Dict.get?_ofKeys, Dict.get?_ofKeys, Dict.getD, Dict.getD,
    Dict.get?_of_perm h.perm x]
  simp only [hstates.mem_iff]

/-- What is prepared in one order is prepared in another, with the same terminal values. -/
theorem Prepares.exists_reordered (hinst : inst.TextKeyed) (h : inst.Shuffles inst')
    (hp : Prepares inst p horizon final) :
    ∃ q final', Prepares inst' q horizon final' ∧ p.Reorders q ∧
      ∀ x, final'.get? x = final.get? x := by
  obtain ⟨costs, hcosts, sameCosts⟩ := CellReader.exists_model_of_shuffles readsAs_costCells
    transfers_amount placeless_costCells hinst.costs h.costs h.states hp.costs_eq
  obtain ⟨raw, hraw, hnormal⟩ := hp.transitions_eq
  obtain ⟨raw', hraw', sameRaw⟩ := CellReader.exists_model_of_shuffles readsAs_transitionCells
    transfers_weight.holds placeless_transitionCells hinst.transitions h.transitions h.states hraw
  obtain ⟨m, hnormal'⟩ := sameRaw.exists_normalize hnormal inst'.states
  obtain ⟨salvage, hsalvage, rfl⟩ := hp.final_eq
  obtain ⟨salvage', hsalvage', sameSalvage⟩ :=
    exists_salvage_of_shuffles hinst.salvage h.salvage hsalvage
  let q : Process ℚ := ⟨inst'.states, inst'.actions, p.discount, costs, m⟩
  have states : p.states.Perm q.states := hp.states_eq ▸ h.states
  have actions : p.actions.Perm q.actions := hp.actions_eq ▸ h.actions
  have prepared : Prepares inst' q horizon (terminal inst'.states salvage') :=
    { states_eq := rfl
      actions_eq := rfl
      states_ne := fun hnil => hp.states_ne (List.perm_nil.mp (hnil ▸ states))
      actions_ne := fun hnil => hp.actions_ne (List.perm_nil.mp (hnil ▸ actions))
      states_nodup := states.nodup_iff.mp hp.states_nodup
      actions_nodup := actions.nodup_iff.mp hp.actions_nodup
      horizon_eq := h.horizon_eq ▸ hp.horizon_eq
      horizon_pos := hp.horizon_pos
      discount_eq := h.discount_eq ▸ hp.discount_eq
      costs_eq := h.layout_eq ▸ hcosts
      transitions_eq := ⟨raw', h.layout_eq ▸ hraw', hnormal'⟩
      final_eq := ⟨salvage', hsalvage', rfl⟩ }
  have reorders : p.Reorders q :=
    { states, actions
      discount_eq := rfl
      cost_eq := fun stage state action => by
        have cells := eq_of_rel (sameCosts.present? stage state action)
        exact congrArg (Option.getD · 0) cells.symm
      weight_eq := fun stage state action next => by
        have row := sameRaw.get?_row (Model.normalizes_of_normalize hnormal)
          (Model.normalizes_of_normalize hnormal') states stage state action next
        rw [Dict.getD, row, Dict.getD] }
  exact ⟨q, _, prepared, reorders, terminal_of_perm h.states sameSalvage⟩

theorem exists_solution_of_shuffles (hinst : inst.TextKeyed) (h : inst.Shuffles inst')
    (hs : ∃ s, (solve inst).result = .ok s) : ∃ s', (solve inst').result = .ok s' := by
  obtain ⟨s, hs⟩ := hs
  obtain ⟨final, prepares, _⟩ := solve_spec hs
  obtain ⟨q, final', prepares', _⟩ := prepares.exists_reordered hinst h
  obtain ⟨s', hs', _⟩ := prepares'.exists_solution
  exact ⟨s', hs'⟩

/-- Solutions of an instance in two orders have as many stages, and differ in nothing but
the order of states and actions; so do the terminal values they start from. -/
theorem reorders_of_shuffles (hinst : inst.TextKeyed) (h : inst.Shuffles inst')
    {s s' : Solution ℚ} (hs : (solve inst).result = .ok s) (hs' : (solve inst').result = .ok s') :
    s'.horizon = s.horizon ∧ s.Reorders s'.toProcess ∧
      ∃ final final', s.Tabulates final ∧ s'.Tabulates final' ∧
        ∀ x, final'.get? x = final.get? x := by
  obtain ⟨final, prepares, tabulates⟩ := solve_spec hs
  obtain ⟨q, final', prepares', reorders, sameFinal⟩ := prepares.exists_reordered hinst h
  -- what is prepared in the other order has a solution, and there is only one
  obtain ⟨s'', hs'', rfl, horizon, tabulates'⟩ := prepares'.exists_solution
  rw [hs', Except.ok.injEq] at hs''
  subst hs''
  exact ⟨horizon, reorders, final, final', tabulates, tabulates', sameFinal⟩

end Solution

/-- The order of the states, of the actions, and of the entries at any level decides nothing
but ties: not whether there is a solution, nor its values; the policy is that of the first
minimizing actions, and so the same where the actions are in the same order. -/
theorem solve_shuffled {inst inst' : Instance ℚ} (hinst : inst.TextKeyed)
    (h : inst.Shuffles inst') :
    ((∃ s', (Solution.solve inst').result = .ok s') ↔
      ∃ s, (Solution.solve inst).result = .ok s) ∧
    ∀ s s', (Solution.solve inst).result = .ok s → (Solution.solve inst').result = .ok s' →
      (s'.values.length = s.values.length ∧ s'.policy.length = s.policy.length) ∧
      (∀ t x, (s'.values.getD t ∅).get? x = (s.values.getD t ∅).get? x) ∧
      (inst'.actions = inst.actions →
        ∀ t x, (s'.policy.getD t ∅).get? x = (s.policy.getD t ∅).get? x) ∧
      ∀ t < s.horizon, ∀ x ∈ inst.states,
        (∀ a, s'.Minimizes t x a (s'.values.getD (t + 1) ∅) ↔
          s.Minimizes t x a (s.values.getD (t + 1) ∅)) ∧
        (s'.policy.getD t ∅).get? x =
          inst'.actions.find?
            fun a => decide (s'.Minimizes t x a (s'.values.getD (t + 1) ∅)) := by
  refine ⟨⟨Solution.exists_solution_of_shuffles (hinst.of_shuffles h) h.symm,
    Solution.exists_solution_of_shuffles hinst h⟩, fun s s' hs hs' => ?_⟩
  obtain ⟨horizon, reorders, final, final', tabulates, tabulates', sameFinal⟩ :=
    Solution.reorders_of_shuffles hinst h hs hs'
  obtain ⟨_, prepares, _⟩ := Solution.solve_spec hs
  obtain ⟨_, prepares', _⟩ := Solution.solve_spec hs'
  have lengths : s'.values.length = s.values.length := by
    rw [tabulates.length_values, tabulates'.length_values, horizon]
  -- beyond the last stage there are no values in either
  have values (t : Nat) (x : String) :
      (s'.values.getD t ∅).get? x = (s.values.getD t ∅).get? x := by
    by_cases ht : t ≤ s.horizon
    · rw [tabulates.values_getD ht, tabulates'.values_getD (horizon ▸ ht), horizon]
      exact reorders.valuesFrom_eq prepares.actions_ne sameFinal _ t x
    · have beyond : s.values.length ≤ t := by
        rw [tabulates.length_values]
        omega
      rw [List.getD_eq_default _ _ beyond, List.getD_eq_default _ _ (lengths ▸ beyond)]
  refine ⟨⟨lengths, horizon⟩, values, fun hactions t x => ?_, fun t ht x hx => ⟨fun a => ?_, ?_⟩⟩
  · by_cases ht : t < s.horizon
    · have sameActions : s'.actions = s.actions := by
        rw [prepares'.actions_eq, hactions, prepares.actions_eq]
      rw [tabulates.policy_getD ht, tabulates'.policy_getD (horizon ▸ ht), horizon]
      exact reorders.policyFrom_eq prepares.actions_ne sameActions sameFinal _ t x
    · have beyond : s.policy.length ≤ t := Nat.not_lt.mp ht
      have beyond' : s'.policy.length ≤ t := Nat.le_trans (Nat.le_of_eq horizon) beyond
      rw [List.getD_eq_default _ _ beyond, List.getD_eq_default _ _ beyond']
  · exact reorders.minimizes_iff (values (t + 1)) t x a
  · have state : x ∈ s'.states := reorders.states.mem_iff.mp (prepares.states_eq ▸ hx)
    rw [tabulates'.policy_eq_backup (horizon ▸ ht), Process.backup_policy, Dict.get?_ofKeys,
      if_pos state, ← prepares'.actions_eq]
    exact (Process.find?_minimizes prepares'.actions_ne t x _).symm

/-- Going costs as much as staying in `A` at the last stage: two, and then one of the three that
staying ends with, as `A` has a third of the weight. -/
def tiedInstance : Instance ℚ where
  states := ["A", "B"]
  actions := ["go", "stay"]
  horizon := .number (.whole 2)
  costs := .map
    [ Value.entry "1" (.map [ Value.entry "A" (.map [ Value.entry "go" (.number (.whole 2)) ]) ]),
      Value.entry "B" (.map [ Value.entry "go" (.number (.whole 1)) ]) ]
  transitions := .timeVarying
    (.map [ (.number (.whole 1), .map [ Value.entry "A" (.map [ Value.entry "go" (.map
      [ Value.entry "A" (.number (.whole 1)), Value.entry "B" (.number (.whole 2)) ]) ]) ]) ])
    (.map [])
  salvage := .map [ Value.entry "A" (.number (.whole 3)), Value.entry "B" (.text "0") ]

/-- The same in the reverse order: the states, the actions, the costs with their stage, the
weights of the row, and the terminal values. -/
def turnedInstance : Instance ℚ where
  states := ["B", "A"]
  actions := ["stay", "go"]
  horizon := .number (.whole 2)
  costs := .map
    [ Value.entry "B" (.map [ Value.entry "go" (.number (.whole 1)) ]),
      Value.entry "1" (.map [ Value.entry "A" (.map [ Value.entry "go" (.number (.whole 2)) ]) ]) ]
  transitions := .timeVarying
    (.map [ (.number (.whole 1), .map [ Value.entry "A" (.map [ Value.entry "go" (.map
      [ Value.entry "B" (.number (.whole 2)), Value.entry "A" (.number (.whole 1)) ]) ]) ]) ])
    (.map [])
  salvage := .map [ Value.entry "B" (.text "0"), Value.entry "A" (.number (.whole 3)) ]

theorem tiedInstance_textKeyed : tiedInstance.TextKeyed where
  costs := .plain <| Value.decoded_pair "1" "B"
    (Value.decoded_single "A" (Value.decoded_single "go" (.number _)))
    (Value.decoded_single "go" (.number _))
  transitions := by
    have none : (Value.map [] : Value ℚ).Decoded := .map (d := ∅) (Dict.all_empty _)
    refine .timeVarying ?_ none
    rintro _ ⟨⟩
    exact List.forall_mem_singleton.mpr (Value.decoded_single "A" (Value.decoded_single "go"
      (Value.decoded_pair "A" "B" (.number _) (.number _))))
  salvage := Value.decoded_pair "A" "B" (.number _) (.text _)

theorem tiedInstance_shuffles : tiedInstance.Shuffles turnedInstance where
  states := .swap _ _ _
  actions := .swap _ _ _
  horizon_eq := rfl
  discount_eq := rfl
  layout_eq := rfl
  costs := .perm (.swap _ _ _)
  transitions := .stages _ (.inside [] [] _ (.inside [] [] _ (.inside [] [] _
    (.perm (.swap _ _ _)))))
  salvage := .perm (.swap _ _ _)

/-- The values are the same in both orders, and so are the minimizing actions, of which another
one comes first. -/
theorem tiedInstance_shuffled :
    (tiedInstance.TextKeyed ∧ tiedInstance.Shuffles turnedInstance) ∧
    ∃ s s', (Solution.solve tiedInstance).result = .ok s ∧
      (Solution.solve turnedInstance).result = .ok s' ∧
      (s.value 1 "A", s.decision 1 "A") = (3, "go") ∧
      (∀ t x, (s'.values.getD t ∅).get? x = (s.values.getD t ∅).get? x) ∧
      (s'.policy.getD 1 ∅).get? "A" = some "stay" ∧
      s.Minimizes 1 "A" "stay" (s.values.getD 2 ∅) := by
  obtain ⟨s, hs, shape⟩ := exists_ok_of_map_toOption
    (x := (Solution.solve tiedInstance).result) (f := fun s => s.horizon) (c := 2)
    (by decide +kernel)
  have inA := eq_of_map_toOption hs (f := fun s => (s.value 1 "A", s.decision 1 "A"))
    (c := (3, "go")) (by decide +kernel)
  obtain ⟨solved, same⟩ := solve_shuffled tiedInstance_textKeyed tiedInstance_shuffles
  obtain ⟨s', hs'⟩ := solved.mpr ⟨s, hs⟩
  have decision := eq_of_map_toOption hs' (f := fun s => (s.policy.getD 1 ∅).get? "A")
    (c := some "stay") (by decide +kernel)
  obtain ⟨_, values, _, choices⟩ := same s s' hs hs'
  obtain ⟨minimizes, first⟩ := choices 1 (by omega) "A" (by decide)
  have stays := List.find?_some (first.symm.trans decision)
  rw [decide_eq_true_eq] at stays
  exact ⟨⟨tiedInstance_textKeyed, tiedInstance_shuffles⟩, s, s', hs, hs', inA, values, decision,
    (minimizes "stay").mp stays⟩

end BackwardInduction
