import Mathlib.Algebra.Order.Ring.Rat
import Mathlib.Data.List.Zip
import BackwardInduction.Proofs.AgreeingStages
import BackwardInduction.Proofs.CarriedModels
import BackwardInduction.Proofs.CutHorizons
import BackwardInduction.Proofs.MarkedModels
import BackwardInduction.Proofs.RescaledRows

/-!
Solutions know nothing of the scale of weights, in exact fractions. The raw weights of each row
may be multiplied by a positive factor of their own, in whatever way they are written: the
rows that are read are rescaled, and normalize to the same. And as what was normalized is
normalized to itself, the models and terminal values of a solution have that solution again.
-/

namespace BackwardInduction

section Weights

namespace Value

/-- Both values denote numbers, of which the second is `c` times the first. -/
def Times (c : ℚ) (v w : Value ℚ) : Prop :=
  ∃ x : ℚ, v.Denotes x ∧ w.Denotes (c * x)

/-- The weights of each row, which is a mapping to numbers at any depth, are multiplied by a
positive factor of its own; keys and everything else stay the same. -/
inductive RowScaled : Value ℚ → Value ℚ → Prop
  | null : RowScaled .null .null
  | row {es fs : Entries ℚ} (c : ℚ) (hc : 0 < c)
      (h : List.Forall₂ (Dict.Pairs (Times c)) es fs) : RowScaled (.map es) (.map fs)
  | nested {es fs : Entries ℚ} (hkeys : es.map Prod.fst = fs.map Prod.fst)
      (h : ∀ x y, (x, y) ∈ es.zip fs → RowScaled x.2 y.2) : RowScaled (.map es) (.map fs)
  | stationary {v w : Value ℚ} (h : RowScaled v w) : RowScaled (.stationary v) (.stationary w)
  | timeVarying {s s' f f' : Value ℚ} (hs : RowScaled s s') (hf : RowScaled f f') :
      RowScaled (.timeVarying s f) (.timeVarying s' f')

theorem Times.symm {c : ℚ} (hc : 0 < c) {v w : Value ℚ} (h : Times c v w) : Times c⁻¹ w v := by
  obtain ⟨x, hv, hw⟩ := h
  refine ⟨c * x, hw, ?_⟩
  rwa [inv_mul_cancel_left₀ (ne_of_gt hc)]

theorem RowScaled.symm {v w : Value ℚ} (h : v.RowScaled w) : w.RowScaled v := by
  induction h with
  | null => exact .null
  | row c hc h =>
      exact .row c⁻¹ (inv_pos.mpr hc) (h.flip.imp fun _ _ hxy => ⟨hxy.1.symm, hxy.2.symm hc⟩)
  | nested hkeys _ ih =>
      refine .nested hkeys.symm fun y x hyx => ih x y ?_
      rw [← List.zip_swap]
      exact List.mem_map.mpr ⟨(y, x), hyx, rfl⟩
  | stationary _ ih => exact .stationary ih
  | timeVarying _ _ ihs ihf => exact .timeVarying ihs ihf

/-- What is under the same key of rescaled mappings: numbers, or again rescaled. -/
def Rescaled (v w : Value ℚ) : Prop :=
  v.RowScaled w ∨ ∃ c : ℚ, 0 < c ∧ Times c v w

theorem RowScaled.pairs {es fs : Entries ℚ} (hkeys : es.map Prod.fst = fs.map Prod.fst)
    (h : ∀ x y, (x, y) ∈ es.zip fs → RowScaled x.2 y.2) :
    List.Forall₂ (Dict.Pairs RowScaled) es fs := by
  have lengths : es.length = fs.length := by simpa using congrArg List.length hkeys
  have same : List.Forall₂ (fun x y => x.1 = y.1) es fs := by
    rw [← List.forall₂_eq_eq_eq, List.forall₂_map_left_iff, List.forall₂_map_right_iff] at hkeys
    exact hkeys
  refine List.forall₂_iff_zip.mpr ⟨lengths, fun hxy => ⟨?_, h _ _ hxy⟩⟩
  exact (List.forall₂_iff_zip.mp same).2 hxy

theorem RowScaled.exists_pairs {es : Entries ℚ} {w : Value ℚ} (h : (Value.map es).RowScaled w) :
    ∃ fs, w = .map fs ∧ List.Forall₂ (Dict.Pairs Rescaled) es fs := by
  cases h with
  | row c hc h => exact ⟨_, rfl, h.imp fun _ _ hxy => ⟨hxy.1, .inr ⟨c, hc, hxy.2⟩⟩⟩
  | nested hkeys h =>
      exact ⟨_, rfl, (RowScaled.pairs hkeys h).imp fun _ _ hxy => ⟨hxy.1, .inl hxy.2⟩⟩

theorem Denotes.unique {v : Value ℚ} {x y : ℚ} (hx : v.Denotes x) (hy : v.Denotes y) : x = y := by
  cases hx with
  | null => cases hy; rfl
  | real => cases hy; rfl
  | whole hx =>
      cases hy with
      | whole hy => exact Option.some.inj (hx.symm.trans hy)
  | text hx =>
      cases hy with
      | text hy => exact Option.some.inj (hx.symm.trans hy)

end Value

open Value

theorem carries_times {c : ℚ} (hc : 0 < c) :
    Carries (Times c) readWeight fun x y => y = c * x := by
  rintro place v w x ⟨y, hv, hw⟩ hx
  obtain ⟨hvx, _, nonneg⟩ := (readWeight_eq_ok_iff place v x).mp hx
  obtain rfl := hvx.unique hv
  refine ⟨c * x, (readWeight_eq_ok_iff place w _).mpr ⟨hw, rfl, ?_⟩, rfl⟩
  exact not_lt.mpr (mul_nonneg (le_of_lt hc) (not_lt.mp nonneg))

/-- What is read as a weight is no mapping, so there is nothing to rescale in it. -/
theorem carries_weight : Carries RowScaled readWeight fun x y => y = 1 * x := by
  intro place v w x h hx
  obtain ⟨hv, _⟩ := (readWeight_eq_ok_iff place v x).mp hx
  cases hv with
  | null =>
      cases h
      exact ⟨_, hx, (one_mul _).symm⟩
  | real | whole | text => cases h

/-- The rows that are read of rescaled values are rescaled. -/
theorem carries_row : Carries RowScaled (readDict readWeight) Row.Rescaled := by
  intro place v w row h hrow
  obtain ⟨es, rfl, _⟩ := (readDict_eq_ok_iff _ _ _ _).mp hrow
  cases h with
  | row c hc h =>
      obtain ⟨row', hrow', matched⟩ := (carries_times hc).exists_dict h hrow
      exact ⟨row', hrow', c, hc, matched⟩
  | nested hkeys h =>
      obtain ⟨row', hrow', matched⟩ := carries_weight.exists_dict (RowScaled.pairs hkeys h) hrow
      exact ⟨row', hrow', 1, zero_lt_one, matched⟩

section Mappings

variable {β : Type} {item : Place → Value ℚ → Except Fault β}

/-- A reader of mappings reads no numbers. -/
theorem carries_rescaled {S : Dict String β → Dict String β → Prop}
    (h : Carries RowScaled (readDict item) S) : Carries Rescaled (readDict item) S := by
  rintro place v w d (scaled | ⟨c, hc, x, hv, hw⟩) hd
  · exact h place v w d scaled hd
  · obtain ⟨es, rfl, _⟩ := (readDict_eq_ok_iff _ _ _ _).mp hd
    cases hv

theorem carries_dict {S : β → β → Prop} (h : Carries Rescaled item S) :
    Carries RowScaled (readDict item) (Dict.Matches S) := by
  intro place v w d scaled hd
  obtain ⟨es, rfl, _⟩ := (readDict_eq_ok_iff _ _ _ _).mp hd
  obtain ⟨fs, rfl, related⟩ := scaled.exists_pairs
  exact h.exists_dict related hd

end Mappings

theorem carries_rowCells :
    Carries Rescaled (readDict transitionCells.read) (Dict.Matches Row.Rescaled) :=
  carries_rescaled (carries_dict (carries_rescaled carries_row))

theorem carries_rowTable :
    Carries RowScaled transitionCells.table (Dict.Matches (Dict.Matches Row.Rescaled)) :=
  carries_dict carries_rowCells

/-- The models that are read of rescaled values are rescaled, row by row. -/
theorem exists_transitions_rescaled {v w : Value ℚ} (h : v.RowScaled w) {states : List String}
    {layout : Layout} {m : TransitionModel ℚ}
    (hm : (readTransitions v states layout).result = .ok m) :
    ∃ m', (readTransitions w states layout).result = .ok m' ∧ m.Matches Row.Rescaled m' := by
  have plain {es fs : Entries ℚ} {v w : Value ℚ} (hv : PlainEntries v es)
      (hw : PlainEntries w fs) (hes : List.Forall₂ (Dict.Pairs Rescaled) es fs)
      (hm : (readTransitions v states layout).result = .ok m) :
      ∃ m', (readTransitions w states layout).result = .ok m' ∧ m.Matches Row.Rescaled m' :=
    CellReader.exists_model_of_entries carries_rowCells (carries_rescaled carries_rowTable) hv hw
      hes hm
  cases v with
  | null =>
      cases h
      exact plain .null .null .nil hm
  | map es =>
      obtain ⟨fs, rfl, hes⟩ := h.exists_pairs
      exact plain (.map es) (.map fs) hes hm
  | stationary v =>
      cases h with
      | stationary hv =>
          cases (transitionCells.model_eq_ok_iff _ states layout m).mp hm with
          | stationary htable =>
              obtain ⟨t', ht', matched⟩ := carries_rowTable _ _ _ _ hv htable
              exact ⟨_, (transitionCells.model_eq_ok_iff _ states layout _).mpr (.stationary ht'),
                .stationary matched⟩
          | whole hentries | parted hentries => cases hentries
  | timeVarying stages fallback =>
      cases h with
      | timeVarying hs hf =>
          obtain ⟨es, tables, t, rfl, hes, htable, rfl⟩ :=
            (CellReader.model_timeVarying_eq_ok_iff placeless_transitionCells _ _ _ _ m).mp hm
          obtain ⟨fs, rfl, hfs⟩ := hs.exists_pairs
          obtain ⟨t', ht', matched⟩ := carries_rowTable _ _ _ _ hf htable
          have staged {es fs : Entries ℚ} {ts : List (Nat × Table (Row ℚ))}
              (hfs : List.Forall₂ (Dict.Pairs Rescaled) es fs)
              (hes : List.Forall₂ transitionCells.ReadsStage es ts) :
              ∃ us, List.Forall₂ transitionCells.ReadsStage fs us ∧
                List.Forall₂ (Dict.Pairs (Dict.Matches (Dict.Matches Row.Rescaled))) ts us := by
            induction hfs generalizing ts with
            | nil =>
                cases hes
                exact ⟨[], .nil, .nil⟩
            | cons hxy _ ih =>
                cases hes with
                | @cons _ t _ _ hx hes =>
                    obtain ⟨u, hu, htu⟩ :=
                      carries_rescaled carries_rowTable _ _ _ _ hxy.2 hx.2
                    obtain ⟨us, hus, related⟩ := ih hes
                    exact ⟨(t.1, u) :: us, .cons ⟨hxy.1 ▸ hx.1, hu⟩ hus,
                      .cons ⟨rfl, htu⟩ related⟩
          obtain ⟨us, hus, stages⟩ := staged hfs hes
          let tables' : Dict Nat (Table (Row ℚ)) :=
            ⟨us, (Dict.keys_of_pairs stages).symm ▸ tables.nodup⟩
          exact ⟨.timeVarying tables' t',
            (CellReader.model_timeVarying_eq_ok_iff placeless_transitionCells _ _ _ _ _).mpr
              ⟨fs, tables', t', rfl, hus, ht', rfl⟩, .timeVarying stages matched⟩
  | bool _ | number _ | text _ | list _ => cases h

end Weights

namespace Solution

variable {inst : Instance ℚ} {s : Solution ℚ}

theorem solve_of_rowScaled {transitions : Value ℚ} (h : inst.transitions.RowScaled transitions)
    (hs : (solve inst).result = .ok s) : (solve { inst with transitions }).result = .ok s := by
  obtain ⟨horizon, final, prepares, tables⟩ := (solve_eq_ok_iff inst s).mp hs
  obtain ⟨raw, hraw, hm⟩ := prepares.transitions_eq
  obtain ⟨raw', hraw', rescaled⟩ := exists_transitions_rescaled h hraw
  have normalized := (Model.normalize_rescaled rescaled inst.states).trans hm
  exact (solve_eq_ok_iff _ s).mpr
    ⟨horizon, final, { prepares with transitions_eq := ⟨raw', hraw', normalized⟩ }, tables⟩

/-- The instance that a solution is of, as the solution tells it. -/
def again {α : Type} [Scalar α] (s : Solution α) (layout : Layout) : Instance α where
  states := s.states
  actions := s.actions
  horizon := .number (.whole s.horizon)
  discount := .number (.real s.discount)
  costs := CostModel.toValue s.costs
  transitions := TransitionModel.toValue s.transitions
  salvage := Dict.toValue scalarValue (s.values.getD s.horizon ∅)
  layout

/-- What a solution tells of its instance has the solution again. -/
theorem solve_again (hs : (solve inst).result = .ok s) (layout : Layout) :
    (solve (s.again layout)).result = .ok s := by
  obtain ⟨horizon, final, prepares, tables⟩ := (solve_eq_ok_iff inst s).mp hs
  obtain ⟨rfl, tabulates⟩ := tabulates_of_tables tables
  obtain ⟨raw, hraw, hm⟩ := prepares.transitions_eq
  obtain ⟨g, hg, taken, discount⟩ := (checkDiscount_eq_ok_iff _ _).mp prepares.discount_eq
  have weights : s.transitions.All (ReadsBack transitionCells.read Row.toValue) := by
    have nonneg := nonnegative_normalize (nonnegative_read hraw) hm
    rw [Model.all_iff_placedRows] at nonneg ⊢
    intro p hp
    refine readsBack_dict fun e he place => ?_
    exact (readWeight_eq_ok_iff _ _ _).mpr ⟨.real e.2, rfl, not_lt.mpr (nonneg p hp e he)⟩
  have transitions : readTransitions (TransitionModel.toValue s.transitions) s.states layout =
      pure s.transitions :=
    CellReader.model_toValue weights s.states layout
  have salvage : readSalvage (Dict.toValue scalarValue (s.values.getD s.horizon ∅)) = .ok final := by
    rw [tabulates.values_horizon]
    refine readsBack_dict (fun e _ place => ?_) _
    exact (readNumber_eq_ok_iff _ _ _).mpr ⟨.real e.2, rfl⟩
  refine (solve_eq_ok_iff _ s).mpr ⟨s.horizon, final, ?_, tables⟩
  exact
    { prepares with
      states_eq := rfl
      actions_eq := rfl
      horizon_eq := rfl
      discount_eq := (checkDiscount_eq_ok_iff _ _).mpr ⟨.real s.discount, rfl, rfl, discount⟩
      costs_eq := congrArg Traced.result (readCosts_toValue prepares.costs_eq s.states layout)
      transitions_eq :=
        ⟨s.transitions, congrArg Traced.result transitions, Model.normalize_again hm s.states⟩
      final_eq := ⟨final, salvage, by
        change final = terminal s.states final
        rw [prepares.final_eq_ofKeys, terminal_ofKeys]⟩ }

end Solution

/-- Normalization is a projection that takes no notice of a positive factor for each row. So a
solution is had again from what it tells of its instance, and from the same instance with other
raw weights in the same proportions. -/
theorem normalization_projects :
    (∀ (m m' : TransitionModel ℚ) (states states' : List String),
      (m.normalize states).result = .ok m' → (m'.normalize states').result = .ok m') ∧
    (∀ (m m' : TransitionModel ℚ) (states : List String), m.Matches Row.Rescaled m' →
      (m'.normalize states).result = (m.normalize states).result) ∧
    (∀ (inst : Instance ℚ) (s : Solution ℚ), (Solution.solve inst).result = .ok s →
      ∀ layout, (Solution.solve (s.again layout)).result = .ok s) ∧
    ∀ (inst : Instance ℚ) (transitions : Value ℚ), inst.transitions.RowScaled transitions →
      ∀ s, (Solution.solve { inst with transitions }).result = .ok s ↔
        (Solution.solve inst).result = .ok s := by
  refine ⟨fun m m' states states' h => Model.normalize_again h states',
    fun m m' states h => Model.normalize_rescaled h states,
    fun inst s hs layout => Solution.solve_again hs layout, fun inst transitions h s => ?_⟩
  exact ⟨Solution.solve_of_rowScaled h.symm, Solution.solve_of_rowScaled h⟩

/-- Two states with a row each: at the last stage one without weight, and one to three else. -/
def rowsOf (idle idle' left right : Value ℚ) : Value ℚ :=
  .map
    [ Value.entry "1" (.map [ Value.entry "A" (.map
        [ Value.entry "go" (.map [ Value.entry "A" idle, Value.entry "B" idle' ]) ]) ]),
      Value.entry "B" (.map
        [ Value.entry "go" (.map [ Value.entry "A" left, Value.entry "B" right ]) ]) ]

def thirdsInstance : Instance ℚ where
  states := ["A", "B"]
  actions := ["go", "stay"]
  horizon := .number (.whole 2)
  costs := .map [ Value.entry "B" (.map [ Value.entry "stay" (.number (.whole 5)) ]) ]
  transitions := rowsOf .null (.text "0") (.number (.whole 1)) (.text "3")
  salvage := .map [ Value.entry "A" (.number (.whole 4)) ]

theorem rowScaled_rowsOf {idle idle' left right v v' w w' : Value ℚ} {c d : ℚ} (hc : 0 < c)
    (hd : 0 < d) (h : idle.Times c v) (h' : idle'.Times c v') (hl : left.Times d w)
    (hr : right.Times d w') :
    (rowsOf idle idle' left right).RowScaled (rowsOf v v' w w') := by
  have row {c : ℚ} (hc : 0 < c) {u u' x x' : Value ℚ} (hu : u.Times c x) (hu' : u'.Times c x') :
      (Value.map [ Value.entry "A" u, Value.entry "B" u' ]).RowScaled
        (.map [ Value.entry "A" x, Value.entry "B" x' ]) :=
    .row c hc (.cons ⟨rfl, hu⟩ (.cons ⟨rfl, hu'⟩ .nil))
  have single (name : String) {u x : Value ℚ} (hu : u.RowScaled x) :
      (Value.map [ Value.entry name u ]).RowScaled (.map [ Value.entry name x ]) :=
    .nested rfl fun _ _ hxy => by
      cases List.mem_singleton.mp hxy
      exact hu
  refine .nested rfl fun x y hxy => ?_
  rcases List.mem_cons.mp hxy with heq | hxy
  · cases heq
    exact single "A" (single "go" (row hc h h'))
  · cases List.mem_singleton.mp hxy
    exact single "go" (row hd hl hr)

/-- The same weights twice, and those of the other row in fifths. -/
def fifthRows : Value ℚ :=
  rowsOf (.number (.whole 0)) .null (.text "0.2") (.number (.real (3 / 5)))

theorem fifthRows_rowScaled : thirdsInstance.transitions.RowScaled fifthRows := by
  have nothing : (Value.null : Value ℚ).Denotes (2 * 0) := by
    rw [mul_zero]
    exact .null
  have fifth : (Value.text "0.2" : Value ℚ).Denotes (1 / 5 * 1) :=
    .text (by decide +kernel)
  have three : (Value.text "3" : Value ℚ).Denotes 3 := .text (by decide +kernel)
  have threeFifths : (Value.number (.real (3 / 5)) : Value ℚ).Denotes (1 / 5 * 3) := by
    rw [one_div_mul_eq_div]
    exact .real _
  exact rowScaled_rowsOf (c := 2) (d := 1 / 5) (by decide) (by decide +kernel)
    ⟨0, .null, .whole (by decide +kernel)⟩ ⟨0, .text (by decide +kernel), nothing⟩ ⟨1, .whole rfl, fifth⟩
    ⟨3, three, threeFifths⟩

/-- The instance has one solution with either weights, and so has what the solution tells. -/
theorem normalization_projects_thirds :
    thirdsInstance.transitions.RowScaled fifthRows ∧
    ∃ s, (Solution.solve thirdsInstance).result = .ok s ∧
      (s.value 0 "B", s.decision 0 "B") = (5 / 4, "go") ∧
      (Solution.solve { thirdsInstance with transitions := fifthRows }).result = .ok s ∧
      (Solution.solve (s.again .stationary)).result = .ok s ∧
      (s.transitions.normalize []).result = .ok s.transitions := by
  obtain ⟨s, hs, value⟩ := exists_ok_of_map_toOption
    (x := (Solution.solve thirdsInstance).result)
    (f := fun s => (s.value 0 "B", s.decision 0 "B")) (c := (5 / 4, "go")) (by decide +kernel)
  obtain ⟨projects, _, again, rescaled⟩ := normalization_projects
  obtain ⟨_, prepares, _⟩ := Solution.solve_spec hs
  obtain ⟨raw, _, hm⟩ := prepares.transitions_eq
  exact ⟨fifthRows_rowScaled, s, hs, value,
    (rescaled thirdsInstance fifthRows fifthRows_rowScaled s).mpr hs, again _ s hs .stationary,
    projects raw s.transitions _ [] hm⟩

end BackwardInduction
