import BackwardInduction.Proofs.AgreeingStages
import BackwardInduction.Proofs.MarkedTables
import BackwardInduction.Scalar.Rational

/-!
Locality of stages. What is solved from a stage on depends on nothing but what the declared
states and actions find at the stages from there to the horizon. Entries under other names or
at other stages never show, nor does it show in which of its forms a model holds a table that
applies at every stage. Nothing is assumed of the arithmetic.
-/

namespace BackwardInduction

variable {α β : Type}

section Cells

/-- The models hold the same for these states and actions, in the tables of the stages from
the first to before the last, and in the common tables. -/
structure Model.SharesCells (m m' : Model β) (states actions : List String)
    (first last : Nat) : Prop where
  staged : ∀ t, first ≤ t → t < last → ∀ x ∈ states, ∀ a ∈ actions,
    (m'.stageTable? t).bind (·.cell? x a) = (m.stageTable? t).bind (·.cell? x a)
  common : ∀ x ∈ states, ∀ a ∈ actions, m'.commonTable.cell? x a = m.commonTable.cell? x a

theorem Model.SharesCells.present?_eq {m m' : Model β} {states actions : List String}
    {first last : Nat} (h : m.SharesCells m' states actions first last) {t : Nat}
    (hfirst : first ≤ t) (hlast : t < last) :
    ∀ x ∈ states, ∀ a ∈ actions, m'.present? t x a = m.present? t x a := by
  intro x hx a ha
  rw [m'.present?_eq, m.present?_eq, h.staged t hfirst hlast x hx a ha, h.common x hx a ha]

end Cells

section Forms

/-- The forms of a model in which a table applies at every stage before the horizon: as the
only table, at each of the stages, or behind them all. -/
inductive Model.Spreads (horizon : Nat) (t : Table β) : Model β → Prop
  | whole : Spreads horizon t (.stationary t)
  | staged {stages : Dict Nat (Table β)}
      (h : ∀ n, stages.get? n = if n < horizon then some t else none) :
      Spreads horizon t (.timeVarying stages ∅)
  | behind : Spreads horizon t (.timeVarying ∅ t)

/-- The raw value of a marked model that holds a raw table in one of these forms; the stages
come in any order, under any keys that name them. -/
inductive Value.Spreads [Scalar α] (horizon : Nat) : Value α → Value α → Prop
  | whole {table : Value α} : Spreads horizon (.stationary table) table
  | staged {table : Value α} {entries : Entries α} {order : List Nat}
      (horder : order.Perm (List.range horizon))
      (h : List.Forall₂ (fun e n => e.1.stage = .ok (some n) ∧ e.2 = table) entries order) :
      Spreads horizon (.timeVarying (.map entries) (.map [])) table
  | behind {table : Value α} : Spreads horizon (.timeVarying (.map []) table) table

namespace Model.Spreads

variable {m : Model β} {horizon : Nat} {t : Table β}

theorem present?_eq (h : m.Spreads horizon t) {n : Nat} (hn : n < horizon)
    (state action : String) : m.present? n state action = t.cell? state action := by
  rw [m.present?_eq]
  cases h with
  | whole | behind => rfl
  | @staged stages h =>
      have own : (Model.timeVarying stages ∅).stageTable? n = some t := by
        rw [stageTable?, h n, if_pos hn]
      rw [own]
      exact Option.or_none

theorem all_iff (h : m.Spreads horizon t) (hpos : 1 ≤ horizon) (P : β → Prop) :
    m.All P ↔ t.All P := by
  cases h with
  | whole => rfl
  | behind => exact and_iff_right (Dict.all_empty _)
  | @staged stages h =>
      have entry (n : Nat) (t' : Table β) : (n, t') ∈ stages.entries ↔ n < horizon ∧ t' = t := by
        rw [← Dict.get?_eq_some_iff, h n]
        split <;> simp [*, eq_comm]
      constructor
      · intro hall
        exact hall.1 (0, t) ((entry 0 t).mpr ⟨hpos, rfl⟩)
      · intro ht
        refine ⟨fun e he => ?_, Dict.all_empty _⟩
        rw [((entry e.1 e.2).mp he).2]
        exact ht

end Model.Spreads

end Forms

variable [Scalar α]

namespace CellReader

variable {r : CellReader α β} (hr : Placeless r.read) {horizon : Nat} {raw v : Value α}
  (states : List String) (layout : Layout)
include hr

/-- Every form of a table that can be read is read as that form of what is read. -/
theorem exists_model_spreads (hv : v.Spreads horizon raw) {t : Table β}
    (ht : r.table r.place raw = .ok t) :
    ∃ m, (r.model v states layout).result = .ok m ∧ m.Spreads horizon t := by
  cases hv with
  | whole => exact ⟨_, (r.model_eq_ok_iff _ _ _ _).mpr (.stationary ht), .whole⟩
  | behind =>
      refine ⟨.timeVarying ∅ t, ?_, .behind⟩
      exact (model_timeVarying_eq_ok_iff hr _ _ _ _ _).mpr ⟨[], ∅, t, rfl, .nil, ht, rfl⟩
  | @staged _ entries order horder h =>
      have keys : (order.map fun n => (n, t)).map Prod.fst = order := by
        rw [List.map_map]
        exact List.map_id order
      have nodup : ((order.map fun n => (n, t)).map Prod.fst).Nodup := by
        rw [keys]
        exact horder.nodup_iff.mpr List.nodup_range
      let stages : Dict Nat (Table β) := ⟨order.map fun n => (n, t), nodup⟩
      have tables : List.Forall₂ r.ReadsStage entries stages.entries :=
        List.forall₂_map_right_iff.mpr (h.imp fun e n he => ⟨he.1, he.2 ▸ ht⟩)
      have found (n : Nat) : stages.get? n = if n < horizon then some t else none := by
        have named : n ∈ order ↔ n < horizon := by rw [horder.mem_iff, List.mem_range]
        refine Option.ext fun t' => ?_
        rw [Dict.get?_eq_some_iff, List.mem_map]
        split <;> simp [*]
      refine ⟨.timeVarying stages ∅, ?_, .staged found⟩
      exact (model_timeVarying_eq_ok_iff hr _ _ _ _ _).mpr
        ⟨entries, stages, ∅, rfl, tables, rfl, rfl⟩

/-- In whichever form it is given, the table itself can be read. -/
theorem exists_table_of_model (hv : v.Spreads horizon raw) (hpos : 1 ≤ horizon) {m : Model β}
    (hm : (r.model v states layout).result = .ok m) : ∃ t, r.table r.place raw = .ok t := by
  cases hv with
  | whole =>
      cases (r.model_eq_ok_iff _ _ _ _).mp hm with
      | stationary ht => exact ⟨_, ht⟩
      | whole hv | parted hv => cases hv
  | behind =>
      obtain ⟨_, _, t, _, _, ht, _⟩ := (model_timeVarying_eq_ok_iff hr _ _ _ _ _).mp hm
      exact ⟨t, ht⟩
  | @staged _ _ order horder h =>
      obtain ⟨_, _, _, ⟨⟩, hstages, _⟩ := (model_timeVarying_eq_ok_iff hr _ _ _ _ _).mp hm
      have first : 0 ∈ order := horder.mem_iff.mpr (List.mem_range.mpr hpos)
      cases h with
      | nil => cases first
      | cons he _ =>
          obtain ⟨stage, _, hstage, _⟩ := List.forall₂_cons_left_iff.mp hstages
          exact ⟨stage.2, he.2 ▸ hstage.2⟩

theorem model_spreads (hv : v.Spreads horizon raw) (hpos : 1 ≤ horizon) {m : Model β}
    (hm : (r.model v states layout).result = .ok m) :
    ∃ t, r.table r.place raw = .ok t ∧ m.Spreads horizon t := by
  obtain ⟨t, ht⟩ := exists_table_of_model hr states layout hv hpos hm
  obtain ⟨m', hm', spreads⟩ := exists_model_spreads hr states layout hv ht
  cases hm.symm.trans hm'
  exact ⟨t, ht, spreads⟩

end CellReader

namespace Solution

/-- Solutions of instances that have the same domain, discount and horizon, and that are given
the same for the declared states at the end. -/
structure Parallel (inst inst' : Instance α) (s s' : Solution α) : Prop where
  solves : (solve inst).result = .ok s
  solves' : (solve inst').result = .ok s'
  frame : s.SharesFrame s'.toProcess
  horizon_eq : s'.horizon = s.horizon
  salvage_eq : ∀ x ∈ s.states, inst'.salvageOf x = inst.salvageOf x

variable {inst inst' : Instance α} {s s' : Solution α}

/-- Solutions are the same from a stage on if all stages from there on agree. -/
theorem Parallel.drop_eq (h : Parallel inst inst' s s') {k : Nat} (hk : k ≤ s.horizon)
    (agree : ∀ t, k ≤ t → t < s.horizon → s.AgreesAt s'.toProcess t t) :
    s'.values.drop k = s.values.drop k ∧ s'.policy.drop k = s.policy.drop k := by
  obtain ⟨final, prepares, tabulates⟩ := solve_spec h.solves
  obtain ⟨final', prepares', tabulates'⟩ := solve_spec h.solves'
  have final_eq : final' = final :=
    prepares.final_eq_of_salvageOf prepares' h.frame.states_eq h.salvage_eq
  subst final_eq
  refine drop_eq_of_agrees tabulates tabulates' h.frame hk (h.horizon_eq ▸ hk)
    (by rw [h.horizon_eq]) fun i hi => ?_
  exact agree (k + i) (by omega) (by omega)

/-- Stages agree where the models hold the same for declared states and actions. -/
theorem Parallel.agreesAt_of_sharesCells (h : Parallel inst inst' s s') {k t : Nat}
    {raw raw' : TransitionModel α}
    (hraw : (readTransitions inst.transitions inst.states inst.layout).result = .ok raw)
    (hraw' : (readTransitions inst'.transitions inst'.states inst'.layout).result = .ok raw')
    (costs : s.costs.SharesCells s'.costs s.states s.actions k s.horizon)
    (rows : raw.SharesCells raw' s.states s.actions k s.horizon) (hk : k ≤ t)
    (ht : t < s.horizon) : s.AgreesAt s'.toProcess t t := by
  obtain ⟨_, prepares, _⟩ := solve_spec h.solves
  obtain ⟨_, prepares', _⟩ := solve_spec h.solves'
  obtain ⟨_, hread, normalized⟩ := prepares.transitions_eq
  obtain ⟨_, hread', normalized'⟩ := prepares'.transitions_eq
  cases hraw.symm.trans hread
  cases hraw'.symm.trans hread'
  exact h.frame.agreesAt_of_present (Model.normalizes_of_normalize normalized)
    (Model.normalizes_of_normalize normalized') (costs.present?_eq hk ht) (rows.present?_eq hk ht)

/-- In whichever form tables are given that apply at every stage, the solution is the same. -/
theorem solve_spreads (h : (solve inst).result = .ok s) {costs transitions : Value α}
    (hcosts : inst.costs.Spreads s.horizon costs)
    (htransitions : inst.transitions.Spreads s.horizon transitions) {costs' transitions' : Value α}
    (hcosts' : costs'.Spreads s.horizon costs)
    (htransitions' : transitions'.Spreads s.horizon transitions) :
    ∃ s', (solve { inst with costs := costs', transitions := transitions' }).result = .ok s' ∧
      s'.values = s.values ∧ s'.policy = s.policy := by
  obtain ⟨final, prepares, tabulates⟩ := solve_spec h
  obtain ⟨raw, hraw, normalized⟩ := prepares.transitions_eq
  have hpos := prepares.horizon_pos
  obtain ⟨t, ht, spread⟩ := CellReader.model_spreads placeless_costCells _ _ hcosts hpos
    prepares.costs_eq
  obtain ⟨u, hu, spread_raw⟩ := CellReader.model_spreads placeless_transitionCells _ _
    htransitions hpos hraw
  obtain ⟨m, hm, spread'⟩ := CellReader.exists_model_spreads placeless_costCells inst.states
    inst.layout hcosts' ht
  obtain ⟨raw', hraw', spread_raw'⟩ := CellReader.exists_model_spreads placeless_transitionCells
    inst.states inst.layout htransitions' hu
  -- the rows of every form are those of the one table, so that none of them is empty
  have filled := (raw.exists_normalize_iff inst.states).mp ⟨_, normalized⟩
  rw [spread_raw.all_iff hpos, ← spread_raw'.all_iff hpos] at filled
  obtain ⟨s', hs', horizon, tabulates', frame, costs_eq, normalizes'⟩ :=
    prepares.solve_models hpos hm hraw' filled
  rw [← prepares.horizon_eq] at hs'
  have agree : s.AgreesFor s'.toProcess s.horizon 0 0 := by
    intro i hi
    rw [Nat.zero_add]
    refine frame.agreesAt_of_present (Model.normalizes_of_normalize normalized) normalizes'
      (fun x _ a _ => ?_) fun x _ a _ => ?_
    · rw [costs_eq, spread'.present?_eq hi, spread.present?_eq hi]
    · rw [spread_raw'.present?_eq hi, spread_raw.present?_eq hi]
  have tables := drop_eq_of_agrees tabulates tabulates' frame (Nat.zero_le _) (Nat.zero_le _)
    (by rw [horizon]) agree
  exact ⟨s', hs', tables⟩

end Solution

/-- What is solved from a stage on depends only on what the stages from there on hold for
declared states and actions: on the costs they have, and the weights that their rows give to
declared states. So entries for other states and actions, at earlier stages or from the
horizon on make no difference, and neither does the form in which tables are given that apply
at every stage. -/
theorem solve_local (inst : Instance α) (s : Solution α)
    (h : (Solution.solve inst).result = .ok s) :
    (∀ inst' s', Solution.Parallel inst inst' s s' → ∀ k ≤ s.horizon,
      ((∀ t, k ≤ t → t < s.horizon → s.AgreesAt s'.toProcess t t) →
        s'.values.drop k = s.values.drop k ∧ s'.policy.drop k = s.policy.drop k) ∧
      ∀ raw raw',
        (readTransitions inst.transitions inst.states inst.layout).result = .ok raw →
        (readTransitions inst'.transitions inst'.states inst'.layout).result = .ok raw' →
        s.costs.SharesCells s'.costs s.states s.actions k s.horizon →
        raw.SharesCells raw' s.states s.actions k s.horizon →
          s'.values.drop k = s.values.drop k ∧ s'.policy.drop k = s.policy.drop k) ∧
    ∀ costs transitions costs' transitions',
      inst.costs.Spreads s.horizon costs → inst.transitions.Spreads s.horizon transitions →
      costs'.Spreads s.horizon costs → transitions'.Spreads s.horizon transitions →
        ∃ s', (Solution.solve
            { inst with costs := costs', transitions := transitions' }).result = .ok s' ∧
          s'.values = s.values ∧ s'.policy = s.policy := by
  constructor
  · intro inst' s' parallel k hk
    refine ⟨parallel.drop_eq hk, fun raw raw' hraw hraw' costs rows => ?_⟩
    exact parallel.drop_eq hk fun t hfirst hlast =>
      parallel.agreesAt_of_sharesCells hraw hraw' costs rows hfirst hlast
  · intro costs transitions costs' transitions' hcosts htransitions hcosts' htransitions'
    exact Solution.solve_spreads h hcosts htransitions hcosts' htransitions'

/-- Two stages that are alike. Half of the weight goes to a state that is not declared. -/
def evenCosts : Value Rat :=
  .map [ Value.entry "A" (.map [ Value.entry "wait" (.number (.whole 2)) ]) ]

def evenTransitions : Value Rat :=
  .map [ Value.entry "A" (.map [ Value.entry "wait" (.map
    [ Value.entry "A" (.number (.whole 1)), Value.entry "C" (.number (.whole 1)) ]) ]) ]

def evenInstance : Instance Rat where
  states := ["A"]
  actions := ["wait"]
  horizon := .number (.whole 2)
  discount := .number (.real (1 / 2))
  costs := .stationary evenCosts
  transitions := .stationary evenTransitions
  salvage := .map [ Value.entry "A" (.number (.whole 8)) ]

/-- The costs of the first stage are others, and there are more under other names and at other
stages. -/
def strayCosts : Value Rat :=
  .timeVarying
    (.map
      [ (.number (.whole 0), .map
          [ Value.entry "A" (.map [ Value.entry "wait" (.number (.whole 5)) ]) ]),
        (.number (.whole 2), .map
          [ Value.entry "A" (.map [ Value.entry "wait" (.number (.whole 7)) ]) ]) ])
    (.map
      [ Value.entry "A" (.map
          [ Value.entry "wait" (.number (.whole 2)), Value.entry "go" (.number (.whole 1)) ]),
        Value.entry "Z" (.map [ Value.entry "wait" (.number (.whole 9)) ]) ])

/-- The same half of the weight is lost, but elsewhere. -/
def strayInstance : Instance Rat :=
  { evenInstance with
    costs := strayCosts
    transitions := .stationary (.map [ Value.entry "A" (.map [ Value.entry "wait" (.map
      [ Value.entry "D" (.number (.whole 3)), Value.entry "A" (.number (.whole 3)) ]) ]) ])
    salvage := .map [ Value.entry "Z" (.number (.whole 4)), Value.entry "A" (.number (.whole 8)) ] }

/-- The second stage is as it is for all these instances: what the recursion sees of it, and
the cells in which it finds the cost. -/
@[mk_iff evenStage_iff]
structure Process.EvenStage (p : Process Rat) : Prop where
  states : p.states = ["A"]
  actions : p.actions = ["wait"]
  discount : p.discount = 1 / 2
  cost : p.costs.cost 1 "A" "wait" = 2
  weight : (p.transitions.row 1 "A" "wait" ["A"]).getD "A" 0 = 1 / 2
  own : (p.costs.stageTable? 1).bind (·.cell? "A" "wait") = none
  common : p.costs.commonTable.cell? "A" "wait" = some 2

instance (p : Process Rat) : Decidable p.EvenStage :=
  decidable_of_iff _ (Process.evenStage_iff p).symm

theorem Process.EvenStage.agrees {p q : Process Rat} (hp : p.EvenStage) (hq : q.EvenStage) :
    p.SharesFrame q ∧ p.AgreesAt q 1 1 ∧
      p.costs.SharesCells q.costs p.states p.actions 1 2 := by
  refine ⟨⟨by rw [hp.states, hq.states], by rw [hp.actions, hq.actions],
    by rw [hp.discount, hq.discount]⟩, ⟨?_, ?_⟩, ⟨fun t _ _ => ?_, ?_⟩⟩ <;>
    simp only [hp.states, hq.states, hp.actions, List.forall_mem_singleton]
  · rw [hp.cost, hq.cost]
  · rw [hp.weight, hq.weight]
  · obtain rfl : t = 1 := by omega
    rw [hp.own, hq.own]
  · rw [hp.common, hq.common]

theorem evenInstance_local :
    ∃ s s₁ s₂ s₃, (Solution.solve evenInstance).result = .ok s ∧ s.value 0 "A" = 3 ∧
      (Solution.solve strayInstance).result = .ok s₁ ∧ s₁.value 0 "A" = 6 ∧
      s₁.values.drop 1 = s.values.drop 1 ∧ s₁.policy.drop 1 = s.policy.drop 1 ∧
      (Solution.solve { evenInstance with costs := strayCosts }).result = .ok s₂ ∧
      s₂.value 0 "A" = 6 ∧
      s₂.values.drop 1 = s.values.drop 1 ∧ s₂.policy.drop 1 = s.policy.drop 1 ∧
      (Solution.solve { evenInstance with
        costs := .timeVarying
          (.map [ (.text "01", evenCosts), (.number (.whole 0), evenCosts) ]) (.map [])
        transitions := .timeVarying (.map []) evenTransitions }).result = .ok s₃ ∧
      s₃.values = s.values ∧ s₃.policy = s.policy := by
  let glance (s : Solution Rat) := (decide s.EvenStage, s.horizon, s.value 0 "A")
  obtain ⟨s, hs, facts⟩ := exists_ok_of_map_toOption (x := (Solution.solve evenInstance).result)
    (f := glance) (c := (true, 2, 3)) (by decide +kernel)
  obtain ⟨s₁, hs₁, facts₁⟩ := exists_ok_of_map_toOption
    (x := (Solution.solve strayInstance).result) (f := glance) (c := (true, 2, 6))
    (by decide +kernel)
  obtain ⟨s₂, hs₂, facts₂⟩ := exists_ok_of_map_toOption
    (x := (Solution.solve { evenInstance with costs := strayCosts }).result)
    (f := glance) (c := (true, 2, 6)) (by decide +kernel)
  obtain ⟨raw, hraw, _⟩ := exists_ok_of_map_toOption
    (x := (readTransitions evenInstance.transitions ["A"] .auto).result) (f := Model.commonTable)
    (c := Dict.ofList [("A", Dict.ofList [("wait", Dict.ofList [("A", 1), ("C", 1)])])])
    (by decide +kernel)
  simp only [glance, Prod.mk.injEq, decide_eq_true_eq] at facts facts₁ facts₂
  obtain ⟨stage, horizon, value⟩ := facts
  obtain ⟨stage₁, horizon₁, value₁⟩ := facts₁
  obtain ⟨stage₂, horizon₂, value₂⟩ := facts₂
  have hstates : s.states = ["A"] := stage.states
  obtain ⟨frame₁, agree₁, _⟩ := stage.agrees stage₁
  obtain ⟨frame₂, _, cells₂⟩ := stage.agrees stage₂
  obtain ⟨later, forms⟩ := solve_local evenInstance s hs
  have parallel₁ : Solution.Parallel evenInstance strayInstance s s₁ :=
    ⟨hs, hs₁, frame₁, by rw [horizon, horizon₁], by rw [hstates]; decide +kernel⟩
  have parallel₂ : Solution.Parallel evenInstance { evenInstance with costs := strayCosts } s s₂ :=
    ⟨hs, hs₂, frame₂, by rw [horizon, horizon₂], fun _ _ => rfl⟩
  obtain ⟨values₁, policy₁⟩ := (later _ s₁ parallel₁ 1 (by omega)).1 fun t _ _ => by
    obtain rfl : t = 1 := by omega
    exact agree₁
  rw [← horizon] at cells₂
  obtain ⟨values₂, policy₂⟩ := (later _ s₂ parallel₂ 1 (by omega)).2 raw raw hraw hraw cells₂
    ⟨fun _ _ _ _ _ _ _ => rfl, fun _ _ _ _ => rfl⟩
  have order : [1, 0].Perm (List.range s.horizon) := by
    rw [horizon]
    decide
  obtain ⟨s₃, hs₃, same⟩ := forms evenCosts evenTransitions
    (.timeVarying (.map [ (.text "01", evenCosts), (.number (.whole 0), evenCosts) ]) (.map []))
    (.timeVarying (.map []) evenTransitions) .whole .whole
    (.staged order (.cons ⟨by decide +kernel, rfl⟩ (.cons ⟨rfl, rfl⟩ .nil))) .behind
  exact ⟨s, s₁, s₂, s₃, hs, value, hs₁, value₁, values₁, policy₁, hs₂, value₂, values₂, policy₂,
    hs₃, same⟩

end BackwardInduction
