import BackwardInduction.Proofs.ModelContents
import BackwardInduction.Proofs.NormalizedModels
import BackwardInduction.Proofs.StageTables
import BackwardInduction.Scalar.Rational

/-!
Backward induction on raw mappings. Here nothing is read, parted or normalized
beforehand: what applies at a stage is looked up where it stands, and its leaves become
numbers only then. The solver gives the same values and the same policy, whatever the
arithmetic.
-/

namespace BackwardInduction

variable {α β : Type} [Scalar α]

namespace Value

/-- What a mapping holds under a key. -/
def get? (v : Value α) (key : String) : Option (Value α) :=
  match v with
  | .map entries => Entries.get? entries key
  | _ => none

/-- The number that a leaf denotes. -/
def amount : Value α → α
  | .number (.real x) => x
  | .number (.whole i) => (Scalar.ofInt? i).getD 0
  | .text s => (Scalar.ofText? s).getD 0
  | _ => 0

/-- The numbers that the leaves of a mapping denote. -/
def weights : Value α → Row α
  | .map entries => Dict.ofList (entries.map fun e => (e.1.display, e.2.amount))
  | _ => ∅

end Value

/-- What a raw mapping holds for an action in a state at a stage: what is under the key that
names the stage, or else under the state itself, if that is no key that names a stage. -/
def rawCell? (layout : Layout) (raw : Dict String (Value α)) (stage : Nat)
    (state action : String) : Option (Value α) :=
  let own := raw.entries.find? fun e => layout.stage? e.1 == some stage
  let common := if layout.stage? state = none then raw.get? state else none
  (own.bind fun e => (e.2.get? state).bind (·.get? action)).or (common.bind (·.get? action))

/-- What backward induction needs, with the models as they were given. -/
structure RawProcess (α : Type) where
  states : List String
  actions : List String
  discount : α
  layout : Layout
  costs : Dict String (Value α)
  transitions : Dict String (Value α)

namespace RawProcess

variable (p : RawProcess α)

def cost (stage : Nat) (state action : String) : α :=
  ((rawCell? p.layout p.costs stage state action).map Value.amount).getD 0

def row (stage : Nat) (state action : String) : Row α :=
  ((rawCell? p.layout p.transitions stage state action).map
    fun v => v.weights.distribution).getD (identityRow state p.states)

def choice (stage : Nat) (state : String) (next : String → α) : String × α :=
  least (p.actions.map fun action =>
    (action, p.cost stage state action +
      p.discount * expectedValue (p.row stage state action) p.states next))

/-- The value of a state at a stage with so many stages left before the terminal values. -/
def valueFrom (final : String → α) : (left stage : Nat) → String → α
  | 0, _ => final
  | left + 1, stage => fun state => (p.choice stage state (valueFrom final left (stage + 1))).2

/-- The decision in a state at a stage after which so many stages are left. -/
def decisionFrom (final : String → α) (left stage : Nat) (state : String) : String :=
  (p.choice stage state (p.valueFrom final left (stage + 1))).1

end RawProcess

section Lookups

theorem Entries.get?_toEntries (d : Dict String (Value α)) (name : String) :
    Entries.get? d.toEntries name = d.get? name := by
  have found (es : List (String × Value α)) :
      Entries.get? (es.map fun e => (Key.text e.1, e.2)) name = es.lookup name := by
    induction es with
    | nil => rfl
    | cons e es ih =>
        rw [List.map_cons, Entries.get?_cons, Key.same_text, Dict.lookup_cons_eq_ite, ih]
        by_cases h : name = e.1
        · simp [h]
        · simp [h, Ne.symm h]
  exact found d.entries

theorem Dict.get?_restrict {ν : Type} (d : Dict String ν) (p : String → Bool) (k : String) :
    (d.restrict p).get? k = if p k then d.get? k else none := by
  refine Option.ext fun v => ?_
  rw [Dict.get?_eq_some_iff, Dict.restrict, List.mem_filter, ← Dict.get?_eq_some_iff]
  cases p k <;> simp

omit [Scalar α] in
theorem lookup_stagedValues (layout : Layout) (raw : Dict String (Value α)) (stage : Nat) :
    (stagedValues layout raw).lookup stage =
      (raw.entries.find? fun e => layout.stage? e.1 == some stage).map Prod.snd := by
  rw [stagedValues]
  induction raw.entries with
  | nil => rfl
  | cons e es ih =>
      rw [List.filterMap_cons, List.find?_cons]
      cases hstage : layout.stage? e.1 with
      | none => exact ih
      | some n =>
          rw [Option.map_some, Dict.lookup_cons_eq_ite, ih]
          by_cases h : stage = n
          · simp [h]
          · simp [h, beq_eq_false_iff_ne.mpr (Ne.symm h)]

theorem rawCell?_eq (layout : Layout) (raw : Dict String (Value α)) (stage : Nat)
    (state action : String) :
    rawCell? layout raw stage state action =
      (((stagedValues layout raw).lookup stage).bind fun table =>
        (table.get? state).bind (·.get? action)).or
      (((unstagedValues layout raw).get? state).bind (·.get? action)) := by
  rw [rawCell?, lookup_stagedValues, Option.bind_map, unstagedValues, Dict.get?_restrict]
  simp only [Option.isNone_iff_eq_none]
  rfl

variable {R : Value α → β → Prop}

theorem Value.Holds.get? {v : Value α} {d : Dict String β} (h : v.Holds R d) (key : String) :
    Option.Rel R (v.get? key) (d.get? key) := by
  obtain ⟨raw, rfl, hraw⟩ := h
  rw [Value.get?, Entries.get?_toEntries]
  exact hraw.get? key

/-- What a raw mapping holds for an action is what its model has there. -/
theorem rel_rawCell? {layout : Layout} {raw : Dict String (Value α)} {m : Model β}
    (h : Contents layout raw R m) (stage : Nat) (state action : String) :
    Option.Rel R (rawCell? layout raw stage state action)
      (m.present? stage state action) := by
  have cell {raw : Dict String (Value α)} {table : Table β}
      (htable : raw.Matches (Value.Holds R) table) :
      Option.Rel R ((raw.get? state).bind (·.get? action)) (table.cell? state action) :=
    rel_bind (htable.get? state) fun _ _ hcells => hcells.get? action
  rw [rawCell?_eq, Model.present?_eq]
  cases h with
  | whole hnone htable =>
      rw [stagedValues_eq_nil hnone, unstagedValues_eq_self hnone]
      exact cell htable
  | layered hsome hstages hfallback =>
      refine rel_or (rel_bind (Dict.lookup_of_pairs hstages stage) fun v table htable => ?_)
        (cell hfallback)
      exact rel_bind (htable.get? state) fun _ _ hcells => hcells.get? action

end Lookups

section Leaves

theorem Value.Denotes.amount_eq {v : Value α} {x : α} (h : v.Denotes x) : v.amount = x := by
  cases h with
  | null | real => rfl
  | whole h | text h => rw [amount, h, Option.getD_some]

theorem Value.Holds.weights_eq {v : Value α} {row : Row α} (h : v.Holds Value.Weight row) :
    v.weights = row := by
  obtain ⟨raw, rfl, hraw⟩ := h
  have entries : raw.entries.map (fun e => (e.1, e.2.amount)) = row.entries := by
    rw [← List.map_id row.entries, ← List.forall₂_eq_eq_eq, List.forall₂_map_left_iff,
      List.forall₂_map_right_iff]
    refine hraw.imp fun e e' he => ?_
    exact Prod.ext he.1 he.2.1.amount_eq
  rw [weights, Dict.toEntries, List.map_map, ← Dict.ofList_entries row, ← entries]
  rfl

end Leaves

namespace RawProcess

/-- The process has the models that the raw mappings are. -/
structure Describes (p : RawProcess α) (q : Process α) : Prop where
  states_eq : q.states = p.states
  actions_eq : q.actions = p.actions
  discount_eq : q.discount = p.discount
  costs : Contents p.layout p.costs Value.Amount q.costs
  transitions : ∃ m, Contents p.layout p.transitions (Value.Holds Value.Weight) m ∧
    m.Normalizes q.transitions

namespace Describes

variable {p : RawProcess α} {q : Process α} (h : p.Describes q)
include h

theorem cost_eq (stage : Nat) (state action : String) :
    q.costs.cost stage state action = p.cost stage state action := by
  have numbers := map_eq_of_rel (g := id) (rel_rawCell? h.costs stage state action)
    fun v x hv => hv.1.amount_eq
  rw [Option.map_id] at numbers
  exact congrArg (Option.getD · 0) numbers.symm

theorem row_eq (stage : Nat) (state action : String) :
    q.transitions.row stage state action q.states = p.row stage state action := by
  obtain ⟨m, contents, normalizes⟩ := h.transitions
  have rows := map_eq_of_rel (g := Row.distribution) (rel_rawCell? contents stage state action)
    fun v row hv => congrArg Row.distribution hv.weights_eq
  rw [normalizes.row_eq, RawProcess.row, ← rows, h.states_eq]

theorem choice_eq {next : Values α} {f : String → α}
    (hnext : ∀ x ∈ p.states, next.getD x 0 = f x) (stage : Nat) (state : String) :
    q.choice stage state next = p.choice stage state f := by
  rw [Process.choice, Process.candidates, RawProcess.choice, h.actions_eq]
  refine congrArg least (List.map_congr_left fun action _ => congrArg _ ?_)
  rw [Process.actionValue, h.cost_eq, h.row_eq, h.discount_eq, h.states_eq,
    expectedValue_congr hnext]

/-- The values of a stage are those of the raw process, for all its states. -/
theorem valuesFrom_eq (final : String → α) (left stage : Nat) :
    q.valuesFrom (Dict.ofKeys p.states final) left stage =
      Dict.ofKeys p.states (p.valueFrom final left stage) := by
  induction left generalizing stage with
  | zero => rfl
  | succ left ih =>
      rw [Process.valuesFrom, ih, Process.backup_values, h.states_eq]
      refine congrArg _ (funext fun state => ?_)
      rw [valueFrom, h.choice_eq fun x hx => Dict.getD_ofKeys_of_mem hx _ _]

theorem policyFrom_eq (final : String → α) (left stage : Nat) :
    q.policyFrom (Dict.ofKeys p.states final) left stage =
      Dict.ofKeys p.states (p.decisionFrom final left stage) := by
  rw [Process.policyFrom, h.valuesFrom_eq, Process.backup_policy, h.states_eq]
  refine congrArg _ (funext fun state => ?_)
  rw [decisionFrom, h.choice_eq fun x hx => Dict.getD_ofKeys_of_mem hx _ _]

end Describes

/-- The raw process of an instance with these models. -/
def ofInstance (inst : Instance α) (costs transitions : Dict String (Value α)) :
    RawProcess α where
  states := inst.states
  actions := inst.actions
  discount := inst.discount.amount
  layout := inst.layout
  costs := costs
  transitions := transitions

theorem describes_of_prepares {inst : Instance α} {q : Process α} {horizon : Nat}
    {final : Values α} (h : Solution.Prepares inst q horizon final)
    {costs transitions : Dict String (Value α)}
    (hcosts : PlainEntries inst.costs costs.toEntries) (hc : costs.All Value.Decoded)
    (htransitions : PlainEntries inst.transitions transitions.toEntries)
    (ht : transitions.All Value.Decoded) : (ofInstance inst costs transitions).Describes q := by
  obtain ⟨m, hm, normalized⟩ := h.transitions_eq
  obtain ⟨n, hn, taken, _⟩ := (checkDiscount_eq_ok_iff _ _).mp h.discount_eq
  refine ⟨h.states_eq, h.actions_eq, ?_, ?_, m, ?_, Model.normalizes_of_normalize normalized⟩
  · rw [ofInstance, hn]
    cases n with
    | real x => exact taken.symm
    | whole i => exact (congrArg (Option.getD · 0) taken).symm
  · exact (CellReader.contents_of_model hcosts hc readsAs_costCells h.costs_eq).2
  · exact (CellReader.contents_of_model htransitions ht readsAs_transitionCells hm).2

end RawProcess

/-- A row looked up in a normalized model is the row of the model, normalized. So a solution
has the values and the policy that come of looking up what applies in the raw mappings. What is
told apart here is the lookup alone: the recursion on the raw mappings takes the expectation of
a row by `expectedValue` and the action by `least`, as the solver does. Which action that is and
what its value is stands in `BellmanConsistency`, as `Solution.Decides`. -/
theorem solve_direct :
    (∀ (m m' : TransitionModel α) known, (m.normalize known).result = .ok m' →
      ∀ (t : Int) x a states,
        (∀ row, m.presentAt? t x a = some row →
          row.normalize none "" "" = .ok (m'.rowAt t x a states)) ∧
        (m.presentAt? t x a = none → m'.rowAt t x a states = identityRow x states)) ∧
    ∀ (inst : Instance α) (costs transitions : Dict String (Value α)) (s : Solution α),
      PlainEntries inst.costs costs.toEntries → costs.All Value.Decoded →
      PlainEntries inst.transitions transitions.toEntries → transitions.All Value.Decoded →
      (Solution.solve inst).result = .ok s →
        inst.horizon = .number (.whole s.horizon) ∧
        ∃ salvage, readSalvage inst.salvage = .ok salvage ∧
          s.values = (List.range (s.horizon + 1)).map (fun t => Dict.ofKeys inst.states
            ((RawProcess.ofInstance inst costs transitions).valueFrom (salvage.getD · 0)
              (s.horizon - t) t)) ∧
          s.policy = (List.range s.horizon).map fun t => Dict.ofKeys inst.states
            ((RawProcess.ofInstance inst costs transitions).decisionFrom (salvage.getD · 0)
              (s.horizon - t - 1) t) := by
  refine ⟨fun m m' known h t x a states => ?_, ?_⟩
  · rcases (Model.normalizes_of_normalize h).rowAt_cases t x a states with
      ⟨row, there, hne, heq⟩ | ⟨absent, heq⟩
    · rw [there]
      refine ⟨?_, nofun⟩
      rintro _ ⟨⟩
      exact (Row.normalize_eq_ok_iff _ _ _ _ _).mpr ⟨hne, heq⟩
    · rw [absent]
      exact ⟨nofun, fun _ => heq⟩
  · intro inst costs transitions s hcosts hc htransitions ht h
    obtain ⟨final, prepares, tabulates⟩ := Solution.solve_spec h
    obtain ⟨salvage, hsalvage, rfl⟩ := prepares.final_eq
    have describes := RawProcess.describes_of_prepares prepares hcosts hc htransitions ht
    refine ⟨prepares.horizon_eq, salvage, hsalvage, ?_, ?_⟩
    · rw [tabulates.values_eq]
      exact List.map_congr_left fun t _ => describes.valuesFrom_eq _ _ _
    · rw [tabulates.policy_eq]
      exact List.map_congr_left fun t _ => describes.policyFrom_eq _ _ _

/-- Costs of two stages, spelt with and without blanks and zeros, and of all. -/
def spacedCosts : Dict String (Value Rat) :=
  .ofList
    [ (" 00 ", .map <| Dict.toEntries <| .ofList
        [ ("A", .map <| Dict.toEntries <| .ofList [ ("go", .text " 2.5 ") ]) ]),
      ("1", .map <| Dict.toEntries <| .ofList
        [ ("A", .map <| Dict.toEntries <| .ofList [ ("go", .number (.whole 1)) ]) ]),
      ("A", .map <| Dict.toEntries <| .ofList
        [ ("go", .number (.whole 3)), ("stay", .number (.whole 4)) ]) ]

/-- Transitions of the last stage, which lose weight, and of all, which have none. -/
def spacedTransitions : Dict String (Value Rat) :=
  .ofList
    [ ("01 ", .map <| Dict.toEntries <| .ofList
        [ ("A", .map <| Dict.toEntries <| .ofList
          [ ("go", .map <| Dict.toEntries <| .ofList
            [ ("B", .number (.whole 1)), ("C", .number (.whole 3)) ]) ]) ]),
      ("A", .map <| Dict.toEntries <| .ofList
        [ ("go", .map <| Dict.toEntries <| .ofList [ ("A", .null), ("B", .null) ]) ]) ]

def spacedInstance : Instance Rat where
  states := ["A", "B"]
  actions := ["go", "stay"]
  horizon := .number (.whole 2)
  discount := .number (.real (1 / 2))
  costs := .map spacedCosts.toEntries
  transitions := .map spacedTransitions.toEntries
  salvage := .map [ Value.entry "B" (.number (.whole 8)) ]

theorem decoded_spaced : spacedCosts.All Value.Decoded ∧ spacedTransitions.All Value.Decoded := by
  have last := Value.decoded_pair "B" "C" (.number (.whole (α := Rat) 1)) (.number (.whole 3))
  have always := Value.decoded_pair "A" "B" (.null (α := Rat)) .null
  constructor
  · refine Dict.all_ofList (List.forall_mem_cons.mpr ⟨?_, List.forall_mem_cons.mpr ⟨?_, ?_⟩⟩)
    · exact Value.decoded_single _ (Value.decoded_single _ (.text _))
    · exact Value.decoded_single _ (Value.decoded_single _ (.number _))
    · exact List.forall_mem_singleton.mpr (Value.decoded_pair _ _ (.number _) (.number _))
  · refine Dict.all_ofList (List.forall_mem_cons.mpr ⟨?_, List.forall_mem_singleton.mpr ?_⟩)
    · exact Value.decoded_single _ (Value.decoded_single _ last)
    · exact Value.decoded_single _ always

theorem spacedInstance_direct :
    (∃ m m', (readTransitions spacedInstance.transitions ["A", "B"] .auto).result = .ok m ∧
      (m.normalize ["A", "B"]).result = .ok m' ∧
      ∃ row, m.presentAt? (-1) "A" "go" = some row ∧
        row.normalize none "" "" = .ok (m'.rowAt (-1) "A" "go" [])) ∧
    ∃ s, (Solution.solve spacedInstance).result = .ok s ∧ s.value 0 "A" = 4 ∧
      ∃ salvage, readSalvage spacedInstance.salvage = .ok salvage ∧
        s.values = (List.range 3).map fun t => Dict.ofKeys ["A", "B"]
          ((RawProcess.ofInstance spacedInstance spacedCosts spacedTransitions).valueFrom
            (salvage.getD · 0) (2 - t) t) := by
  obtain ⟨rows, solutions⟩ := solve_direct (α := Rat)
  obtain ⟨s, hs, facts⟩ := exists_ok_of_map_toOption
    (x := (Solution.solve spacedInstance).result) (f := fun s => (s.value 0 "A", s.horizon))
    (c := (4, 2)) (by decide +kernel)
  obtain ⟨value, horizon⟩ := Prod.mk.inj facts
  constructor
  · obtain ⟨final, prepares, _⟩ := Solution.solve_spec hs
    obtain ⟨m, hm, normalized⟩ := prepares.transitions_eq
    have there := eq_of_map_toOption hm (f := fun m => (m.presentAt? (-1) "A" "go").isSome)
      (c := true) (by decide +kernel)
    obtain ⟨row, hrow⟩ := Option.isSome_iff_exists.mp there
    exact ⟨m, _, hm, normalized, row, hrow, (rows _ _ _ normalized (-1) "A" "go" []).1 row hrow⟩
  · obtain ⟨_, salvage, hsalvage, values, _⟩ := solutions spacedInstance spacedCosts
      spacedTransitions s (.map _) decoded_spaced.1 (.map _) decoded_spaced.2 hs
    rw [horizon] at values
    exact ⟨s, hs, value, salvage, hsalvage, values⟩

end BackwardInduction
