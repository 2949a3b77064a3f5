import Mathlib.Data.List.GetD
import Mathlib.Logic.Equiv.Basic
import BackwardInduction.Proofs.AgreeingStages
import BackwardInduction.Proofs.LeastCandidates
import BackwardInduction.Proofs.RenamedModels
import BackwardInduction.Scalar.Rational

/-!
Instances under other names. Where the layout of both models is fixed, no name says more than
which state or action it is, whatever it looks like: the instance with all its states and
actions renamed, no two into one, is solved exactly if it was before, and its solution is the
one before under the new names.
-/

namespace BackwardInduction

section Lookup

variable {β β' : Type} (f g : String ↪ String) (h : β → β')

theorem Table.cell?_rename (t : Table β) (state action : String) :
    Table.cell? (t.rename f g h) (f state) (g action) = (t.cell? state action).map h := by
  rw [Table.cell?, Table.cell?, Table.rename, Dict.get?_rename]
  cases t.get? state with
  | none => rfl
  | some cells => exact cells.get?_rename g h action

theorem Model.stageTable?_rename (m : Model β) (stage : Nat) :
    (m.rename f g h).stageTable? stage = (m.stageTable? stage).map (Table.rename f g h) := by
  cases m with
  | stationary table => rfl
  | timeVarying stages fallback => exact stages.get?_rename (.refl Nat) _ stage

theorem Model.commonTable_rename (m : Model β) :
    (m.rename f g h).commonTable = m.commonTable.rename f g h := by
  cases m <;> rfl

/-- An item is found under the new names where it was found under the old ones. -/
theorem Model.find?_rename (counts : β → Bool) (counts' : β' → Bool)
    (hcounts : ∀ b, counts' (h b) = counts b) (m : Model β) (stage : Nat)
    (state action : String) :
    (m.rename f g h).find? counts' stage (f state) (g action) =
      (m.find? counts stage state action).map h := by
  have filter (x : Option β) : (x.map h).filter counts' = (x.filter counts).map h := by
    cases x with
    | none => rfl
    | some b =>
        rw [Option.map_some, Option.filter_some, Option.filter_some, hcounts]
        split <;> rfl
  have staged : ((m.stageTable? stage).map (Table.rename f g h)).bind
      (fun t => Table.cell? t (f state) (g action)) =
        ((m.stageTable? stage).bind fun t => Table.cell? t state action).map h := by
    cases m.stageTable? stage with
    | none => rfl
    | some t => exact t.cell?_rename f g h state action
  rw [find?, find?, stageTable?_rename, commonTable_rename, Table.cell?_rename, staged, filter,
    filter, Option.map_or]

variable {α : Type} [Scalar α]

theorem Model.cost_rename (m : CostModel α) (stage : Nat) (state action : String) :
    (Model.rename f g id m).cost stage (f state) (g action) = m.cost stage state action := by
  rw [cost, cost, find?_rename f g id (fun _ => true) _ (fun _ => rfl), Option.map_id]
  rfl

theorem Model.row_rename (m : TransitionModel α) (stage : Nat) (state action : String)
    (states : List String) :
    (Model.rename f g (Row.rename f) m).row stage (f state) (g action) (states.map f) =
      (m.row stage state action states).rename f := by
  have filled (row : Row α) : (!Dict.isEmpty (row.rename f)) = !Dict.isEmpty row := by
    rw [Row.rename, Dict.isEmpty_rename]
  have staying : identityRow (f state) (states.map f) =
      (identityRow state states : Row α).rename f := by
    refine (Dict.rename_ofKeys f id states fun next => ?_).symm
    simp only [f.injective.eq_iff, id_eq]
  have found := find?_rename f g (Row.rename f) (fun row => !Dict.isEmpty row)
    (fun row => !Dict.isEmpty row) filled m stage state action
  rw [row, row, found, staying, Option.getD_map]

theorem expectedValue_rename (row : Row α) (states : List String) (next next' : String → α)
    (hnext : ∀ x, next' (f x) = next x) :
    expectedValue (row.rename f) (states.map f) next' = expectedValue row states next := by
  have weight (x : String) : (row.rename f).getD (f x) 0 = row.getD x 0 :=
    row.getD_rename f id x 0
  simp only [expectedValue, List.foldl_map, weight, hnext]

theorem least_map {candidates : List (String × α)} (hne : candidates ≠ []) :
    least (candidates.map fun c => (g c.1, c.2)) =
      (g (least candidates).1, (least candidates).2) := by
  have kept (best : Option (String × α)) (cs : List (String × α)) :
      leastFrom (best.map fun c => (g c.1, c.2)) (cs.map fun c => (g c.1, c.2)) =
        (leastFrom best cs).map fun c => (g c.1, c.2) := by
    induction cs generalizing best with
    | nil => rfl
    | cons c cs ih =>
        rw [List.map_cons, leastFrom_cons, leastFrom_cons, ← ih]
        congr 1
        cases best with
        | none => by_cases hc : Scalar.belowInfinity c.2 = true <;> simp [keep, hc]
        | some b => by_cases hc : c.2 < b.2 <;> simp [keep, hc]
  have found := kept none candidates
  rw [Option.map_none] at found
  rw [least, least, found]
  cases leastFrom none candidates with
  | some b => rfl
  | none =>
      obtain ⟨c, cs, rfl⟩ := List.exists_cons_of_ne_nil hne
      rfl

end Lookup

variable {α : Type} [Scalar α] (f g : String ↪ String)

namespace Process

/-- The process with its states and actions under other names. -/
def rename (p : Process α) : Process α where
  states := p.states.map f
  actions := p.actions.map g
  discount := p.discount
  costs := p.costs.rename f g id
  transitions := p.transitions.rename f g (Row.rename f)

variable (p : Process α)

theorem actionValue_rename (stage : Nat) (state action : String) (next : Values α) :
    (p.rename f g).actionValue stage (f state) (g action) (next.rename f id) =
      p.actionValue stage state action next := by
  have value (x : String) : (next.rename f id).getD (f x) 0 = next.getD x 0 :=
    next.getD_rename f id x 0
  have expected := expectedValue_rename f (p.transitions.row stage state action p.states)
    p.states (fun x => next.getD x 0) (fun x => (next.rename f id).getD x 0) value
  rw [actionValue, actionValue, ← expected]
  simp only [rename, Model.cost_rename, Model.row_rename]

variable (hne : p.actions ≠ [])
include hne

theorem choice_rename (stage : Nat) (state : String) (next : Values α) :
    (p.rename f g).choice stage (f state) (next.rename f id) =
      (g (p.choice stage state next).1, (p.choice stage state next).2) := by
  have candidates : (p.rename f g).candidates stage (f state) (next.rename f id) =
      (p.candidates stage state next).map fun c => (g c.1, c.2) := by
    simp only [Process.candidates, rename, List.map_map, Function.comp_def]
    exact List.map_congr_left fun action _ =>
      Prod.ext rfl (p.actionValue_rename f g stage state action next)
  rw [choice, choice, candidates, least_map g (p.candidates_ne_nil hne stage state next)]

/-- One step back, under the new names as under the old ones. -/
theorem backup_rename (stage : Nat) (next : Values α) :
    (p.rename f g).backup stage (next.rename f id) =
      ((p.backup stage next).1.rename f id, (p.backup stage next).2.rename f g) := by
  have choice (state : String) := p.choice_rename f g hne stage state next
  refine Prod.ext ?_ ?_
  · rw [backup_values, backup_values]
    exact (Dict.rename_ofKeys f id p.states fun x => by rw [choice]; rfl).symm
  · rw [backup_policy, backup_policy]
    exact (Dict.rename_ofKeys f g p.states fun x => by rw [choice]).symm

/-- All steps back. -/
theorem sweep_rename (stage : Nat) (next : Values α) (values : List (Values α))
    (policy : List Policy) :
    (p.rename f g).sweep stage (next.rename f id) (values.map (·.rename f id))
        (policy.map (·.rename f g)) =
      ((p.sweep stage next values policy).1.map (·.rename f id),
        (p.sweep stage next values policy).2.map (·.rename f g)) := by
  induction stage generalizing next values policy with
  | zero => rfl
  | succ stage ih =>
      rw [sweep, sweep, backup_rename f g p hne]
      exact ih _ (_ :: values) (_ :: policy)

end Process

/-- The instance with its states and actions under other names, wherever they occur. -/
def Instance.rename (inst : Instance α) : Instance α :=
  { inst with
    states := inst.states.map f
    actions := inst.actions.map g
    costs := inst.costs.renameCosts f g
    transitions := inst.transitions.renameTransitions f g
    salvage := inst.salvage.rename f id }

namespace Solution

/-- The solution with its states and actions under other names. -/
def rename (s : Solution α) : Solution α where
  toProcess := s.toProcess.rename f g
  values := s.values.map (·.rename f id)
  policy := s.policy.map (·.rename f g)

omit [Scalar α] in
theorem mirrors_checkNames (what : String) (names : List String) :
    Mirrors id (checkNames what names) (checkNames what (names.map f)) := by
  have same : checkNames what (names.map f) = .ok () ↔ checkNames what names = .ok () := by
    rw [checkNames_eq_ok_iff, checkNames_eq_ok_iff, List.nodup_map_iff f.injective, ne_eq,
      List.map_eq_nil_iff]
  exact .of_imp (fun _ => same.mpr) fun _ h => ⟨(), same.mp h⟩

theorem terminal_rename (states : List String) (salvage : Dict String α) :
    terminal (states.map f) (salvage.rename f id) = (terminal states salvage).rename f id :=
  (Dict.rename_ofKeys f id states fun x => salvage.getD_rename f id x 0).symm

theorem mirrors_prepare (inst : Instance α)
    (hcosts : inst.costs.IsMarked ∨ inst.layout = .stationary)
    (htransitions : inst.transitions.IsMarked ∨ inst.layout = .stationary) :
    Mirrors (fun prepared : Process α × Nat × Values α =>
        (prepared.1.rename f g, prepared.2.1, prepared.2.2.rename f id))
      (prepare inst).result (prepare (inst.rename f g)).result := by
  have same {β : Type} (x : Except Fault β) : Mirrors id x x := by
    cases x with
    | ok b => exact .ok b
    | error e => exact .error e e
  simp only [prepare, Traced.result_bind, Traced.result_liftM, Traced.result_pure]
  refine (mirrors_checkNames f "States" inst.states).bind fun _ _ => ?_
  refine (mirrors_checkNames g "Actions" inst.actions).bind fun _ _ => ?_
  refine (same (checkHorizon inst.horizon)).bind fun horizon _ => ?_
  refine (same (checkDiscount inst.discount)).bind fun discount _ => ?_
  refine (mirrors_readCosts f g hcosts inst.states _).bind fun costs _ => ?_
  refine (mirrors_readTransitions f g htransitions inst.states _).bind fun raw _ => ?_
  refine (mirrors_normalize f g raw inst.states _).bind fun transitions _ => ?_
  refine (mirrors_readSalvage f inst.salvage).bind fun salvage _ => ?_
  rw [Instance.rename, terminal_rename]
  let p : Process α := ⟨inst.states, inst.actions, discount, costs, transitions⟩
  exact .ok (p, horizon, terminal inst.states salvage)

/-- An instance is solved under other names as it is under its own. -/
theorem mirrors_solve (inst : Instance α)
    (hcosts : inst.costs.IsMarked ∨ inst.layout = .stationary)
    (htransitions : inst.transitions.IsMarked ∨ inst.layout = .stationary) :
    Mirrors (rename f g) (solve inst).result (solve (inst.rename f g)).result := by
  simp only [solve, Traced.result_bind, Traced.result_note, Traced.result_pure]
  refine (mirrors_prepare f g inst hcosts htransitions).bind fun prepared hp => ?_
  obtain ⟨p, horizon, final⟩ := prepared
  have prepares := (prepare_eq_ok_iff inst p horizon final).mp hp
  have tables : (p.rename f g).tables horizon (final.rename f id) =
      ((p.tables horizon final).1.map (·.rename f id),
        (p.tables horizon final).2.map (·.rename f g)) :=
    p.sweep_rename f g prepares.actions_ne horizon final [final] []
  simp only [tables]
  let s : Solution α :=
    { p with values := (p.tables horizon final).1, policy := (p.tables horizon final).2 }
  exact .ok s

/-- No name is special where the layout of the models is fixed: under other names, no two into one,
an instance is solved exactly if it is under its own, and whatever the tables hold for a state
they then hold for its new name, the decisions under the new names of the actions. -/
theorem solve_renamed (inst : Instance α)
    (hcosts : inst.costs.IsMarked ∨ inst.layout = .stationary)
    (htransitions : inst.transitions.IsMarked ∨ inst.layout = .stationary) :
    ((∃ s', (solve (inst.rename f g)).result = .ok s') ↔
      ∃ s, (solve inst).result = .ok s) ∧
    ∀ s s', (solve inst).result = .ok s → (solve (inst.rename f g)).result = .ok s' →
      s' = s.rename f g ∧
      ∀ stage state,
        (s'.values.getD stage ∅).get? (f state) = (s.values.getD stage ∅).get? state ∧
        (s'.policy.getD stage ∅).get? (f state) = ((s.policy.getD stage ∅).get? state).map g := by
  have mirrors := mirrors_solve f g inst hcosts htransitions
  refine ⟨mirrors.exists_ok_iff, fun s s' hs hs' => ?_⟩
  have image := mirrors.image_eq hs
  rw [hs', Except.ok.injEq] at image
  subst image
  refine ⟨rfl, fun stage state => ⟨?_, ?_⟩⟩
  · have table : (s.values.map (·.rename f id)).getD stage ∅ =
        (s.values.getD stage ∅).rename f id :=
      List.getD_map _ ∅ (Dict.rename f id)
    rw [rename, table, Dict.get?_rename, Option.map_id_fun, id]
  · have table : (s.policy.map (·.rename f g)).getD stage ∅ =
        (s.policy.getD stage ∅).rename f g :=
      List.getD_map _ ∅ (Dict.rename f g)
    rw [rename, table, Dict.get?_rename]

/-- Plain costs and marked transitions, which under the layout of states alone are read alike
whatever the states are called. -/
def plainInstance : Instance Rat where
  states := ["A", "B"]
  actions := ["go", "stay"]
  horizon := .number (.whole 2)
  costs := .map
    [ Value.entry "A" (.map
        [Value.entry "go" (.number (.whole 2)), Value.entry "stay" (.number (.whole 1))]) ]
  transitions := .timeVarying
    (.map [(.text " 01 ", .map [Value.entry "A" (.map
      [Value.entry "go" (.map [Value.entry "B" .null, Value.entry "elsewhere" .null])])])])
    (.map [])
  layout := .stationary

/-- The state `A` and the action `stay` are called by a numeral and by nothing at all. -/
theorem plainInstance_renamed :
    ∃ s s', (solve plainInstance).result = .ok s ∧
      (solve (plainInstance.rename (Equiv.swap "A" " 01 ").toEmbedding
        (Equiv.swap "stay" "").toEmbedding)).result = .ok s' ∧
      (s'.policy.getD 0 ∅).get? " 01 " = some "" ∧
      (s'.values.getD 0 ∅).get? " 01 " = some 2 := by
  obtain ⟨s, hs, facts⟩ := exists_ok_of_map_toOption (x := (solve plainInstance).result)
    (f := fun s => ((s.policy.getD 0 ∅).get? "A", (s.values.getD 0 ∅).get? "A"))
    (c := (some "stay", some 2)) (by decide +kernel)
  simp only [Prod.mk.injEq] at facts
  have renamed := solve_renamed (Equiv.swap "A" " 01 ").toEmbedding
    (Equiv.swap "stay" "").toEmbedding plainInstance (.inr rfl) (.inl trivial)
  obtain ⟨s', hs'⟩ := renamed.1.mpr ⟨s, hs⟩
  obtain ⟨values, policy⟩ := (renamed.2 s s' hs hs').2 0 "A"
  have state : (Equiv.swap "A" " 01 ").toEmbedding "A" = " 01 " := Equiv.swap_apply_left _ _
  have action : (Equiv.swap "stay" "").toEmbedding "stay" = "" := Equiv.swap_apply_left _ _
  rw [state, facts.1, Option.map_some, action] at policy
  rw [state, facts.2] at values
  exact ⟨s, s', hs, hs', policy, values⟩

end Solution

end BackwardInduction
