import BackwardInduction.Proofs.AgreeingStages
import BackwardInduction.Proofs.DrawnProblems
import BackwardInduction.Proofs.MarkedModels
import BackwardInduction.Proofs.NormalizationOrder
import BackwardInduction.Proofs.SolveNotices

/-!
What becomes of a problem that was drawn. Its document describes it again: the numbered states
begin with a letter and so are no stages, and the stages stand in ascending order. It is solved
without a fault and without a warning once it has states and actions, because every row of a
drawn model has all states and no other next states.
-/

namespace BackwardInduction

variable {α β : Type} [Scalar α]

namespace Draft

/-- The numbers that a draft asks for are there to be drawn and are read again. -/
structure Sound (d : Draft α) : Prop where
  weights : Spans α d.weightLow d.weightHigh
  costs : Spans α d.costLow d.costHigh
  weight_again : ∀ x, Between d.weightLow d.weightHigh x →
    ReadsBack readWeight (scalarValue (α := α)) x
  cost_again : ∀ x, Between d.costLow d.costHigh x →
    ReadsBack readNumber (scalarValue (α := α)) x

section Names

variable {letter : String} {c : Char} (hletter : letter.toList = [c]) {count : Int}
include hletter

theorem toList_numbered (i : Nat) : (letter ++ toString i).toList = c :: Nat.toDigits 10 i := by
  rw [String.toList_append, toList_toString, hletter, List.singleton_append]

theorem isName_numbered (hc : Text.isBlank c = false) {name : String}
    (h : name ∈ numbered letter count) : Text.IsName name := by
  obtain ⟨i, rfl⟩ := mem_numbered h
  have chars := toList_numbered hletter i
  have plain : ∀ d ∈ c :: Nat.toDigits 10 i, Text.isBlank d = false :=
    List.forall_mem_cons.mpr ⟨hc, fun d hd => isBlank_of_isDigit (isDigit_of_mem_toDigits hd)⟩
  refine ⟨?_, ?_⟩
  · rw [Text.trim, chars, Text.strip_eq_self plain, ← chars, String.ofList_toList]
  · rw [← Bool.not_eq_true, String.isEmpty_iff]
    intro hempty
    rw [hempty] at chars
    cases chars

/-- The text of a stage begins with a digit, and a numbered name does not. -/
theorem toString_not_mem_numbered (hc : Text.isDigit c = false) (stage : Nat) :
    toString stage ∉ numbered letter count := by
  intro h
  obtain ⟨i, heq⟩ := mem_numbered h
  have chars := congrArg String.toList heq
  rw [toList_numbered hletter, toList_toString] at chars
  have digit : Text.isDigit c = true :=
    isDigit_of_mem_toDigits (n := stage) (chars ▸ List.mem_cons_self)
  rw [hc] at digit
  cases digit

end Names

/-- The layout under which the document of a drawn problem is read. -/
def writtenLayout (d : Draft α) : Layout :=
  if d.timeVarying then .auto else .stationary

section Models

variable {d : Draft α} {P : β → Prop} {m : Model β} (h : d.IsModel P m)
include h

theorem IsModel.imp {Q : β → Prop} (hPQ : ∀ b, P b → Q b) : d.IsModel Q m := by
  have table {t : Table β} (ht : d.IsTable P t) : d.IsTable Q t :=
    Dict.Covers.imp ht fun _ hcells => hcells.imp hPQ
  cases m with
  | stationary t => exact ⟨h.1, table h.2⟩
  | timeVarying stages fallback => exact ⟨h.1, h.2.1.imp fun _ => table, h.2.2⟩

theorem IsModel.all : m.All P := by
  have table {t : Table β} (ht : d.IsTable P t) : t.All P := fun e he => (ht.all e he).all
  cases m with
  | stationary t => exact table h.2
  | timeVarying stages fallback =>
      obtain ⟨_, hstages, rfl⟩ := h
      exact ⟨fun e he => table (hstages.all e he), Dict.all_empty _⟩

theorem IsModel.ascends : m.Ascends := by
  cases m with
  | stationary t => trivial
  | timeVarying stages fallback =>
      obtain ⟨_, hstages, _⟩ := h
      have keys := List.pairwise_lt_range (n := d.horizon.toNat)
      rw [← hstages.keys_eq, Dict.keys, List.pairwise_map] at keys
      exact keys

theorem IsModel.not_namesState : ¬m.NamesState d.states := by
  cases m with
  | stationary t => exact id
  | timeVarying stages fallback =>
      rintro ⟨stage, _, hstate⟩
      exact toString_not_mem_numbered (c := 'S') rfl rfl stage hstate

theorem IsModel.fitsLayout (hpos : 1 ≤ d.horizon) (hbound : d.horizon ≤ stageBound) :
    CellReader.FitsLayout d.writtenLayout m := by
  cases m with
  | stationary t =>
      refine .inl ⟨?_, t, rfl⟩
      rw [writtenLayout, h.1, if_neg Bool.false_ne_true]
  | timeVarying stages fallback =>
      obtain ⟨htime, hstages, rfl⟩ := h
      refine .inr ⟨by rw [writtenLayout, htime, if_pos rfl], ?_, ?_, nofun⟩
      · intro hempty
        have keys := hstages.keys_eq
        rw [Dict.keys, hempty, List.map_nil, eq_comm, List.range_eq_nil] at keys
        omega
      · rw [hstages.keys_eq]
        intro stage hstage
        have := List.mem_range.mp hstage
        omega

/-- A drawn model is read again from its flat form. -/
theorem IsModel.result_again {r : CellReader α β} {write : β → Value α}
    (hcell : ∀ b, P b → ReadsBack r.read write b) (hpos : 1 ≤ d.horizon)
    (hbound : d.horizon ≤ stageBound) :
    (r.model (Problem.flatValue (m.flatten write)) d.states d.writtenLayout).result = .ok m := by
  rw [CellReader.result_model_again (h.fitsLayout hpos hbound) (h.imp hcell).all h.not_namesState,
    Model.sorted_of_ascends h.ascends]

end Models

theorem Sound.row_again {d : Draft α} (hd : d.Sound) {row : Row α}
    (hrow : row.Covers d.states (Between d.weightLow d.weightHigh)) :
    ReadsBack (transitionCells : CellReader α (Row α)).read Row.toValue row :=
  readsBack_dict fun e he => hd.weight_again e.2 (hrow.all e he)

section Documents

variable {d : Draft α} {p : Problem α} (h : d.IsProblem p) (hd : d.Sound)
include h

theorem IsProblem.writtenLayout_eq : p.writtenLayout = d.writtenLayout := by
  obtain ⟨states, actions, horizon, discount, costs, transitions, salvage⟩ := p
  cases costs with
  | stationary costs =>
      cases transitions with
      | stationary transitions =>
          rw [writtenLayout, h.costs.1, if_neg Bool.false_ne_true]
          rfl
      | timeVarying stages fallback => exact absurd (h.costs.1.symm.trans h.transitions.1) nofun
  | timeVarying stages fallback =>
      rw [writtenLayout, h.costs.1, if_pos rfl]
      rfl

include hd

theorem IsProblem.readSalvage_again :
    readSalvage (Dict.toValue scalarValue p.salvage) = .ok p.salvage :=
  readsBack_dict (fun e he => hd.cost_again e.2 (h.salvage.all e he)) _

/-- The document of a drawn problem describes it, whatever the document is named. -/
theorem IsProblem.result_toDocument (hpos : 1 ≤ d.horizon) (hbound : d.horizon ≤ stageBound)
    {g : α} (hg : d.discount = .real g) (source : String) :
    (Problem.ofDocument p.toDocument source).result = .ok p := by
  have states : ∀ name ∈ p.states, Text.IsName name := by
    rw [h.states_eq]
    exact fun name => isName_numbered (c := 'S') rfl rfl
  have actions : ∀ name ∈ p.actions, Text.IsName name := by
    rw [h.actions_eq]
    exact fun name => isName_numbered (c := 'A') rfl rfl
  have costs : (readCosts (Problem.flatValue (p.costs.flatten scalarValue)) p.states
      p.writtenLayout).result = .ok p.costs := by
    rw [h.states_eq, h.writtenLayout_eq]
    exact h.costs.result_again hd.cost_again hpos hbound
  have transitions : (readTransitions (Problem.flatValue (p.transitions.flatten Row.toValue))
      p.states p.writtenLayout).result = .ok p.transitions := by
    rw [h.states_eq, h.writtenLayout_eq]
    exact h.transitions.result_again (fun _ => hd.row_again) hpos hbound
  rw [Problem.result_toDocument_named source states actions (h.discount_eq.trans hg)
    (h.readSalvage_again hd), costs, transitions]
  rfl

end Documents

end Draft

section Solving

omit [Scalar α] in
/-- A table warns of nothing if all next states are declared. -/
theorem Table.undeclared_eq_nil {states : List String} {t : Table (Row α)}
    (h : t.All fun row => ∀ x ∈ row.keys, x ∈ states) (stage : Option Nat) :
    t.undeclared states stage = [] := by
  refine List.flatMap_eq_nil_iff.mpr fun e he => ?_
  rw [List.map_eq_nil_iff, List.filter_eq_nil_iff]
  intro cell hcell hany
  obtain ⟨x, hx, hout⟩ := List.any_eq_true.mp hany
  exact of_decide_eq_true hout (h e he cell hcell x hx)

/-- Normalization warns of nothing if all next states are declared. -/
theorem Model.warnings_normalize_eq_nil {states : List String} (hstates : states ≠ [])
    {m m' : TransitionModel α} (h : (m.normalize states).result = .ok m')
    (hkeys : m.All fun row => ∀ x ∈ row.keys, x ∈ states) :
    (m.normalize states).warnings = [] := by
  obtain ⟨tables, _, htables, warnings⟩ := warnings_normalize hstates h
  obtain ⟨staged, common⟩ := m.all_iff.mp hkeys
  have silent : (tables.flatMap fun e => e.2.undeclared states (some e.1)) = [] := by
    refine List.flatMap_eq_nil_iff.mpr fun e he => ?_
    exact Table.undeclared_eq_nil (staged e.1 e.2 ((htables e.1 e.2).mp he)) _
  rw [warnings, silent, Table.undeclared_eq_nil common, List.append_nil]

/-- Terminal values that are given for just the states are kept as they are. -/
theorem Solution.terminal_eq_self {states : List String} {salvage : Dict String α}
    (h : salvage.keys = states) : terminal states salvage = salvage := by
  subst h
  refine Dict.ext ?_
  have given (e : String × α) (he : e ∈ salvage.entries) : (e.1, salvage.getD e.1 0) = e := by
    rw [Dict.getD_of_mem he]
  rw [terminal, Dict.entries_ofKeys salvage.nodup_keys, Dict.keys, List.map_map]
  exact (List.map_congr_left given).trans (List.map_id _)

namespace Draft

variable {d : Draft α} {p : Problem α}

theorem states_ne_nil (h : 1 ≤ d.stateCount) : d.states ≠ [] := by
  rw [states, numbered, ne_eq, List.map_eq_nil_iff, List.range_eq_nil]
  omega

theorem actions_ne_nil (h : 1 ≤ d.actionCount) : d.actions ≠ [] := by
  rw [actions, numbered, ne_eq, List.map_eq_nil_iff, List.range_eq_nil]
  omega

/-- A drawn problem with states and actions is solved without a warning, and its terminal
values are those that were drawn. -/
theorem IsProblem.exists_solution (h : d.IsProblem p) (hd : d.Sound) (hstates : 1 ≤ d.stateCount)
    (hactions : 1 ≤ d.actionCount) (hhorizon : 1 ≤ d.horizon) {g : α}
    (hg : checkDiscount (.number d.discount) = .ok g) (layout : Layout) :
    ∃ s : Solution α, (p.solve layout).result = .ok s ∧ (p.solve layout).warnings = [] ∧
      (s.horizon : Int) = p.horizon ∧ s.values.getD s.horizon ∅ = p.salvage := by
  have some_states : p.states ≠ [] := h.states_eq ▸ states_ne_nil hstates
  have some_actions : p.actions ≠ [] := h.actions_eq ▸ actions_ne_nil hactions
  have states_nodup : p.states.Nodup := h.states_eq ▸ nodup_numbered _ _
  have actions_nodup : p.actions.Nodup := h.actions_eq ▸ nodup_numbered _ _
  have filled : p.transitions.All (·.isEmpty = false) := by
    refine (h.transitions.imp fun row hrow => ?_).all
    rw [Dict.isEmpty, List.isEmpty_eq_false_iff]
    intro hempty
    refine states_ne_nil hstates ?_
    rw [← hrow.keys_eq, Dict.keys, hempty, List.map_nil]
  have declared : p.transitions.All fun row => ∀ x ∈ row.keys, x ∈ p.states :=
    (h.transitions.imp fun row hrow x hx => by rwa [h.states_eq, ← hrow.keys_eq]).all
  obtain ⟨m, normalized⟩ := (p.transitions.exists_normalize_iff p.states).mpr filled
  have costs : (readCosts (CostModel.toValue p.costs) p.states layout).result = .ok p.costs :=
    congrArg Traced.result
      (CellReader.model_toValue (h.costs.imp hd.cost_again).all p.states layout)
  have transitions : (readTransitions (TransitionModel.toValue p.transitions) p.states
      layout).result = .ok p.transitions :=
    congrArg Traced.result
      (CellReader.model_toValue (h.transitions.imp fun _ => hd.row_again).all p.states layout)
  have horizon : p.horizon = (d.horizon.toNat : Int) := by
    rw [h.horizon_eq]
    omega
  let q : Process α :=
    { states := p.states, actions := p.actions, discount := g, costs := p.costs, transitions := m }
  have prepared : Solution.Prepares (p.toInstance layout) q d.horizon.toNat p.salvage :=
    { states_eq := rfl
      actions_eq := rfl
      states_ne := some_states
      actions_ne := some_actions
      states_nodup
      actions_nodup
      horizon_eq := congrArg (fun i => Value.number (.whole i)) horizon
      horizon_pos := by omega
      discount_eq := by rw [← hg, ← h.discount_eq]; rfl
      costs_eq := costs
      transitions_eq := ⟨p.transitions, transitions, normalized⟩
      final_eq := ⟨p.salvage, h.readSalvage_again hd, (Solution.terminal_eq_self
        (h.salvage.keys_eq.trans h.states_eq.symm)).symm⟩ }
  obtain ⟨s, solved, _, length, tabulates⟩ := prepared.exists_solution
  refine ⟨s, solved, ?_, by rw [length, horizon], tabulates.values_horizon⟩
  exact (warnings_solve solved transitions).trans
    (Model.warnings_normalize_eq_nil some_states normalized declared)

end Draft

end Solving

end BackwardInduction
