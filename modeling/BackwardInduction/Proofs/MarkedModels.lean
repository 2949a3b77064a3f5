import BackwardInduction.Proofs.FlattenedModels
import BackwardInduction.Proofs.Notices
import BackwardInduction.Proofs.StageTables
import BackwardInduction.Scalar.Rational

/-!
Models that are marked with their layout. The mark alone says what is a stage, so that
neither the states nor the layout given beside it are looked at. What was read is read
again as itself, in the same order, and an instance may as well be given its models as
they were read.
-/

namespace BackwardInduction

variable {α β : Type} [Scalar α]

namespace CellReader

variable {r : CellReader α β} {write : β → Value α}

omit [Scalar α] in
theorem stage_whole (n : Nat) : (Key.number (.whole n) : Key α).stage = .ok (some n) := by
  simp [Key.stage]

/-- Every stage of a marked model becomes a layer. -/
theorem markedLayers_stagesValue (r : CellReader α β) (write : β → Value α)
    (stages : Dict Nat (Table β)) :
    r.markedLayers (Model.stagesValue write stages) = .ok (flatLayers write stages) := by
  have layers := (r.addLayers_eq_ok_iff
    (stages.entries.map fun e => (e.1, .number (.whole e.1), Table.toValue write e.2)) ∅
    (flatLayers write stages)).mpr
    ⟨by simpa [Dict.keys, Function.comp_def] using stages.nodup,
      by simp [flatLayers, Function.comp_def]⟩
  rw [List.foldlM_map] at layers
  rw [← layers, markedLayers, Model.stagesValue, entriesOf]
  change List.foldlM _ _ _ = _
  rw [List.foldlM_map]
  simp only [stage_whole]
  rfl

theorem silent_model_toValue (m : Model β) (states : List String) (layout : Layout) :
    (r.model (m.toValue write) states layout).Notes fun _ => False := by
  cases m with
  | stationary table => exact (Traced.notes_liftM _).bind fun _ => Traced.notes_pure _
  | timeVarying stages fallback =>
      refine (Traced.notes_liftM _).bind fun layers => (Traced.notes_liftM _).bind fun tables => ?_
      exact (Traced.notes_liftM _).bind fun _ => Traced.notes_pure _

/-- A model whose cells are read back is read as itself, and nothing is noted. -/
theorem model_toValue {m : Model β} (hcells : m.All (ReadsBack r.read write))
    (states : List String) (layout : Layout) :
    r.model (m.toValue write) states layout = pure m := by
  have result : (r.model (m.toValue write) states layout).result = .ok m := by
    rw [model_eq_ok_iff]
    cases m with
    | stationary table => exact .stationary (readsBack_table hcells _)
    | timeVarying stages fallback =>
        exact .timeVarying (r.markedLayers_stagesValue write stages)
          (stageTables_flatLayers hcells.1) (readsBack_table hcells.2 _)
  rw [Traced.eq_ofResult (silent_model_toValue m states layout), result]
  rfl

theorem model_toValue_layout (m : Model β) (states : List String) (layout layout' : Layout) :
    r.model (m.toValue write) states layout = r.model (m.toValue write) states layout' := by
  cases m <;> rfl

end CellReader

section Reading

variable {v : Value α} {states : List String} {layout : Layout}

theorem readCosts_toValue {m : CostModel α} (h : (readCosts v states layout).result = .ok m)
    (states' : List String) (layout' : Layout) :
    readCosts (CostModel.toValue m) states' layout' = pure m :=
  CellReader.model_toValue (CellReader.all_model recovers_cost h) states' layout'

theorem readTransitions_toValue {m : TransitionModel α}
    (h : (readTransitions v states layout).result = .ok m) (states' : List String)
    (layout' : Layout) :
    readTransitions (TransitionModel.toValue m) states' layout' = pure m :=
  CellReader.model_toValue (CellReader.all_model recovers_transition h) states' layout'

end Reading

theorem Problem.solve_layout (p : Problem α) (layout layout' : Layout) :
    p.solve layout = p.solve layout' := by
  have costs : readCosts (CostModel.toValue p.costs) p.states layout =
      readCosts (CostModel.toValue p.costs) p.states layout' :=
    CellReader.model_toValue_layout p.costs p.states layout layout'
  have transitions : readTransitions (TransitionModel.toValue p.transitions) p.states layout =
      readTransitions (TransitionModel.toValue p.transitions) p.states layout' :=
    CellReader.model_toValue_layout p.transitions p.states layout layout'
  simp only [Problem.solve, Solution.solve, Solution.prepare, toInstance, costs, transitions]

/-- What a solution is depends on the raw models through what is read of them. -/
theorem Solution.result_solve_congr {inst : Instance α} {costs transitions : Value α}
    {layout : Layout}
    (hcosts : (readCosts costs inst.states layout).result =
      (readCosts inst.costs inst.states inst.layout).result)
    (htransitions : (readTransitions transitions inst.states layout).result =
      (readTransitions inst.transitions inst.states inst.layout).result) :
    (solve { inst with costs, transitions, layout }).result = (solve inst).result := by
  simp only [solve, prepare, Traced.result_bind, Traced.result_liftM, hcosts, htransitions]

/-- Models that were read are read again as themselves, whatever states and layout go with
them. No layout makes a difference to a problem, and an instance has the same outcome with
its models as they were read. -/
theorem marked_models_fixed :
    (∀ (v : Value α) states layout (m : CostModel α),
      (readCosts v states layout).result = .ok m →
        ∀ states' layout', readCosts (CostModel.toValue m) states' layout' = pure m) ∧
    (∀ (v : Value α) states layout (m : TransitionModel α),
      (readTransitions v states layout).result = .ok m →
        ∀ states' layout', readTransitions (TransitionModel.toValue m) states' layout' = pure m) ∧
    (∀ (p : Problem α) layout layout', p.solve layout = p.solve layout') ∧
    ∀ (inst : Instance α) costs transitions,
      (readCosts inst.costs inst.states inst.layout).result = .ok costs →
      (readTransitions inst.transitions inst.states inst.layout).result = .ok transitions →
        ∀ layout,
          (Solution.solve
            { inst with
              costs := CostModel.toValue costs,
              transitions := TransitionModel.toValue transitions,
              layout }).result = (Solution.solve inst).result := by
  refine ⟨fun v states layout m h => readCosts_toValue h,
    fun v states layout m h => readTransitions_toValue h, Problem.solve_layout,
    fun inst costs transitions hcosts htransitions layout => ?_⟩
  apply Solution.result_solve_congr
  · rw [readCosts_toValue hcosts, hcosts]
    rfl
  · rw [readTransitions_toValue htransitions, htransitions]
    rfl

/-- Costs under keys of all kinds, with stages out of order, and transitions that are marked
as time-varying, with a stage that is spelt with a zero in front. -/
def mixedInstance : Instance Rat where
  states := ["A", "True"]
  actions := ["go", "None"]
  horizon := .number (.whole 3)
  discount := .number (.real (1 / 2))
  costs := .map
    [ (.number (.whole 2), .map [ (.text "A", .map
        [ (.null, .number (.whole 7)), (.text "go", .number (.whole 3)) ]) ]),
      (.text " 01 ", .map [ (.text "A", .map [ (.text "go", .text " 2.5 ") ]) ]),
      (.bool true, .map [ (.text "go", .null) ]) ]
  transitions := .timeVarying
    (.map
      [ (.text "02 ", .map [ (.text "A", .map [ (.text "go", .map
          [ (.bool true, .number (.whole 1)) ]) ]) ]) ])
    (.map [ (.text "A", .map [ (.null, .map [ (.text "A", .null), (.null, .null) ]) ]) ])
  salvage := .map [ (.text "A", .number (.whole 4)), (.bool true, .number (.whole 2)) ]

theorem mixedInstance_fixed :
    ∃ costs transitions s,
      (readCosts mixedInstance.costs mixedInstance.states .auto).result = .ok costs ∧
      (readTransitions mixedInstance.transitions mixedInstance.states .auto).result =
        .ok transitions ∧
      (Solution.solve mixedInstance).result = .ok s ∧ s.value 0 "A" = 1 / 4 ∧
      readCosts (CostModel.toValue costs) ["1", "2"] .stationary = pure costs ∧
      readTransitions (TransitionModel.toValue transitions) ["0"] .timeVarying =
        pure transitions ∧
      (Solution.solve
        { mixedInstance with
          costs := CostModel.toValue costs,
          transitions := TransitionModel.toValue transitions,
          layout := .stationary }).result = .ok s := by
  obtain ⟨s, hs, value⟩ := exists_ok_of_map_toOption
    (x := (Solution.solve mixedInstance).result) (f := fun s => s.value 0 "A") (c := 1 / 4)
    (by decide +kernel)
  obtain ⟨final, prepares, _⟩ := Solution.solve_spec hs
  obtain ⟨transitions, htransitions, _⟩ := prepares.transitions_eq
  have hcosts := prepares.costs_eq
  obtain ⟨cost, transition, _, instances⟩ := marked_models_fixed (α := Rat)
  refine ⟨s.costs, transitions, s, hcosts, htransitions, hs, value, cost _ _ _ _ hcosts _ _,
    transition _ _ _ _ htransitions _ _, ?_⟩
  rw [instances mixedInstance s.costs transitions hcosts htransitions .stationary, hs]

end BackwardInduction
