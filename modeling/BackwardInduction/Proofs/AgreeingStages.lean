import BackwardInduction.Proofs.NormalizedModels
import BackwardInduction.Proofs.StageTables

/-!
Processes that agree on stages. The recursion sees of a stage the costs of the declared
actions in the declared states, and the weights that their rows give to declared states.
Where two processes agree on these from a stage of each on, and end with the same terminal
values, their values and decisions there are the same, whatever the stages are numbered.
-/

namespace BackwardInduction

variable {α : Type} [Scalar α]

/-- An expectation sees no weights but those of the states it is taken over. -/
theorem expectedValue_congr_row {row row' : Row α} {states : List String}
    (h : ∀ y ∈ states, row.getD y 0 = row'.getD y 0) (next : String → α) :
    expectedValue row states next = expectedValue row' states next :=
  List.foldl_ext _ _ _ fun total y hy => by rw [h y hy]

namespace Process

/-- The processes have the same domain and the same discount. -/
structure SharesFrame (p q : Process α) : Prop where
  states_eq : q.states = p.states
  actions_eq : q.actions = p.actions
  discount_eq : q.discount = p.discount

/-- To the recursion a stage of the one process looks like a stage of the other: declared
states and actions have the same costs there, and rows that give the same weights to declared
states. -/
structure AgreesAt (p q : Process α) (stage stage' : Nat) : Prop where
  cost_eq : ∀ x ∈ p.states, ∀ a ∈ p.actions,
    q.costs.cost stage' x a = p.costs.cost stage x a
  weight_eq : ∀ x ∈ p.states, ∀ a ∈ p.actions, ∀ y ∈ p.states,
    (q.transitions.row stage' x a q.states).getD y 0 =
      (p.transitions.row stage x a p.states).getD y 0

/-- So many stages look the same, each to the one that is as far behind. -/
def AgreesFor (p q : Process α) (left stage stage' : Nat) : Prop :=
  ∀ i < left, p.AgreesAt q (stage + i) (stage' + i)

section Agreement

variable {p q : Process α} {left stage stage' : Nat}

theorem AgreesFor.head (h : p.AgreesFor q (left + 1) stage stage') :
    p.AgreesAt q stage stage' :=
  h 0 (Nat.succ_pos left)

theorem AgreesFor.drop {n k : Nat} (h : p.AgreesFor q n stage stage')
    (hk : k + left ≤ n) : p.AgreesFor q left (stage + k) (stage' + k) := by
  intro i hi
  rw [Nat.add_assoc, Nat.add_assoc]
  exact h (k + i) (by omega)

variable (frame : p.SharesFrame q)
include frame

theorem SharesFrame.choice_eq (h : p.AgreesAt q stage stage') {x : String}
    (hx : x ∈ p.states) (next : Values α) :
    q.choice stage' x next = p.choice stage x next := by
  have values : ∀ a ∈ p.actions,
      q.actionValue stage' x a next = p.actionValue stage x a next := by
    intro a ha
    have weights := expectedValue_congr_row (h.weight_eq x hx a ha) fun y => next.getD y 0
    rw [actionValue, actionValue, h.cost_eq x hx a ha, frame.discount_eq, ← weights,
      frame.states_eq]
  rw [choice, choice, candidates, candidates, frame.actions_eq]
  exact congrArg least (List.map_congr_left fun a ha => by rw [values a ha])

/-- One step back, through stages that agree. -/
theorem SharesFrame.backup_eq (h : p.AgreesAt q stage stage') (next : Values α) :
    q.backup stage' next = p.backup stage next := by
  have choices : q.states.map (fun x => (x, q.choice stage' x next)) =
      p.states.map fun x => (x, p.choice stage x next) := by
    rw [frame.states_eq]
    exact List.map_congr_left fun x hx => by rw [frame.choice_eq h hx]
  rw [backup, backup, choices]

/-- All steps back from the same terminal values. -/
theorem SharesFrame.valuesFrom_eq (final : Values α) (h : p.AgreesFor q left stage stage') :
    q.valuesFrom final left stage' = p.valuesFrom final left stage := by
  induction left generalizing stage stage' with
  | zero => rfl
  | succ left ih =>
      have next := ih (h.drop (k := 1) (by omega))
      rw [valuesFrom, valuesFrom, next, frame.backup_eq h.head]

theorem SharesFrame.policyFrom_eq (final : Values α)
    (h : p.AgreesFor q (left + 1) stage stage') :
    q.policyFrom final left stage' = p.policyFrom final left stage := by
  have rest : p.AgreesFor q left (stage + 1) (stage' + 1) := h.drop (by omega)
  have next := frame.valuesFrom_eq final rest
  rw [policyFrom, policyFrom, next, frame.backup_eq h.head]

/-- Stages agree if the models hold the same for declared states and actions, the rows before
they are normalized. -/
theorem SharesFrame.agreesAt_of_present {m m' : TransitionModel α}
    (hm : m.Normalizes p.transitions) (hm' : m'.Normalizes q.transitions)
    (costs : ∀ x ∈ p.states, ∀ a ∈ p.actions,
      q.costs.present? stage' x a = p.costs.present? stage x a)
    (rows : ∀ x ∈ p.states, ∀ a ∈ p.actions,
      m'.present? stage' x a = m.present? stage x a) : p.AgreesAt q stage stage' := by
  refine ⟨fun x hx a ha => ?_, fun x hx a ha y _ => ?_⟩
  · exact congrArg (Option.getD · 0) (costs x hx a ha)
  · rw [hm.row_eq, hm'.row_eq, rows x hx a ha, frame.states_eq]

end Agreement

end Process

namespace Solution

theorem drop_map_range {β : Type} (f : Nat → β) (n k : Nat) :
    ((List.range n).map f).drop k = (List.range (n - k)).map fun i => f (k + i) := by
  rw [← List.map_drop, List.range_eq_range', List.drop_range', List.range'_eq_map_range,
    List.map_map]
  simp [Function.comp_def]

variable {s s' : Solution α} {final : Values α}

/-- Solutions with as many stages left have the same tables from there on, if all these stages
agree. -/
theorem drop_eq_of_agrees (hs : s.Tabulates final) (hs' : s'.Tabulates final)
    (frame : s.SharesFrame s'.toProcess) {k k' : Nat} (hk : k ≤ s.horizon)
    (hk' : k' ≤ s'.horizon) (left : s'.horizon - k' = s.horizon - k)
    (h : s.AgreesFor s'.toProcess (s.horizon - k) k k') :
    s'.values.drop k' = s.values.drop k ∧ s'.policy.drop k' = s.policy.drop k := by
  have lengths : s'.horizon + 1 - k' = s.horizon + 1 - k := by omega
  have rest (i : Nat) : s'.horizon - (k' + i) = s.horizon - (k + i) := by omega
  rw [hs.values_eq, hs'.values_eq, hs.policy_eq, hs'.policy_eq]
  simp only [drop_map_range, lengths, left, rest]
  constructor
  · refine List.map_congr_left fun i hi => frame.valuesFrom_eq final (h.drop ?_)
    have := List.mem_range.mp hi
    omega
  · refine List.map_congr_left fun i hi => frame.policyFrom_eq final (h.drop ?_)
    have := List.mem_range.mp hi
    omega

end Solution

section Salvage

/-- What is given for a state at the end, and zero where nothing is. -/
def Instance.salvageOf (inst : Instance α) (x : String) : α :=
  match readSalvage inst.salvage with
  | .ok salvage => salvage.getD x 0
  | .error _ => 0

theorem Dict.ofKeys_congr {ν : Type} {ks : List String} {f g : String → ν}
    (h : ∀ k ∈ ks, f k = g k) : Dict.ofKeys ks f = Dict.ofKeys ks g := by
  rw [Dict.ofKeys, Dict.ofKeys, List.map_congr_left fun k hk => by rw [h k hk]]

namespace Solution

variable {inst inst' : Instance α} {p q : Process α} {horizon horizon' : Nat}
  {final final' : Values α}

theorem Prepares.final_eq_ofKeys (h : Prepares inst p horizon final) :
    final = Dict.ofKeys p.states inst.salvageOf := by
  obtain ⟨salvage, hsalvage, rfl⟩ := h.final_eq
  have given : inst.salvageOf = fun x => salvage.getD x 0 := by
    funext x
    rw [Instance.salvageOf, hsalvage]
  rw [terminal, given, h.states_eq]

theorem Prepares.final_getD (h : Prepares inst p horizon final) {x : String}
    (hx : x ∈ p.states) : final.getD x 0 = inst.salvageOf x := by
  rw [h.final_eq_ofKeys, Dict.getD_ofKeys_of_mem hx]

/-- Terminal values are the same if the declared states are given the same. -/
theorem Prepares.final_eq_of_salvageOf (h : Prepares inst p horizon final)
    (h' : Prepares inst' q horizon' final') (states : q.states = p.states)
    (salvage : ∀ x ∈ p.states, inst'.salvageOf x = inst.salvageOf x) : final' = final := by
  rw [h.final_eq_ofKeys, h'.final_eq_ofKeys, states]
  exact Dict.ofKeys_congr salvage

/-- Whatever is prepared is solved. -/
theorem Prepares.exists_solution (h : Prepares inst p horizon final) :
    ∃ s : Solution α, (solve inst).result = .ok s ∧ s.toProcess = p ∧ s.horizon = horizon ∧
      s.Tabulates final := by
  let s : Solution α :=
    { p with values := (p.tables horizon final).1, policy := (p.tables horizon final).2 }
  have tables : s.toProcess.tables horizon final = (s.values, s.policy) := rfl
  have solved := (solve_eq_ok_iff inst s).mpr ⟨horizon, final, h, tables⟩
  exact ⟨s, solved, rfl, tabulates_of_tables tables⟩

/-- Models without empty rows, read in place of those of the instance, are solved over as many
stages as are asked for. -/
theorem Prepares.solve_models (h : Prepares inst p horizon final) {n : Nat} (hpos : 1 ≤ n)
    {costs transitions : Value α} {c : CostModel α} {raw : TransitionModel α}
    (hcosts : (readCosts costs inst.states inst.layout).result = .ok c)
    (hraw : (readTransitions transitions inst.states inst.layout).result = .ok raw)
    (filled : raw.All (·.isEmpty = false)) :
    ∃ s : Solution α,
      (solve { inst with horizon := .number (.whole n), costs, transitions }).result = .ok s ∧
      s.horizon = n ∧ s.Tabulates final ∧ p.SharesFrame s.toProcess ∧ s.costs = c ∧
      raw.Normalizes s.transitions := by
  obtain ⟨m, normalized⟩ := (raw.exists_normalize_iff inst.states).mpr filled
  let q : Process α := { p with costs := c, transitions := m }
  have prepared : Prepares { inst with horizon := .number (.whole n), costs, transitions } q n
      final :=
    { h with
      horizon_eq := rfl
      horizon_pos := hpos
      costs_eq := hcosts
      transitions_eq := ⟨raw, hraw, normalized⟩ }
  obtain ⟨s, hs, hq, length, tabulates⟩ := prepared.exists_solution
  refine ⟨s, hs, length, tabulates, ?_⟩
  rw [hq]
  exact ⟨⟨rfl, rfl, rfl⟩, rfl, Model.normalizes_of_normalize normalized⟩

end Solution

end Salvage

end BackwardInduction
