import BackwardInduction.Proofs.DocumentParts
import BackwardInduction.Proofs.MarkedModels
import BackwardInduction.Scalar.Binary64

/-!
Documents as instances. A problem that a document describes is read before it is solved, and an
instance with the parts of the document as they stand is read as it is solved. Both have the same
solution, but where a model or the terminal values hold a value that counts as nothing without
being null or an empty mapping: such a document has nothing there, and such an instance is
refused.
-/

namespace BackwardInduction

variable {α : Type} [Scalar α]

/-- The value holds nothing in the way of mappings: it counts as nothing only if it is null or
the empty mapping. -/
def Value.IsPlain (v : Value α) : Prop :=
  v.isNothing = true → v = .null ∨ v = .map []

section Reading

variable {v : Value α}

theorem CellReader.isPlain_of_model {β : Type} {r : CellReader α β} {states : List String}
    {layout : Layout} {m : Model β} (h : (r.model v states layout).result = .ok m) :
    v.IsPlain := by
  intro hnothing
  cases (r.model_eq_ok_iff v states layout m).mp h with
  | stationary | timeVarying => cases hnothing
  | whole hv | parted hv =>
      cases hv with
      | null => exact .inl rfl
      | map entries => exact .inr (congrArg Value.map (List.isEmpty_iff.mp hnothing))

theorem isPlain_of_readSalvage {salvage : Dict String α} (h : readSalvage v = .ok salvage) :
    v.IsPlain := by
  intro hnothing
  unfold readSalvage at h
  split at h
  · exact .inl rfl
  · obtain ⟨entries, rfl, _⟩ := (readDict_eq_ok_iff _ _ _ _).mp h
    exact .inr (congrArg Value.map (List.isEmpty_iff.mp hnothing))

/-- Null and the empty mapping are read as the same model. -/
theorem CellReader.result_model_null {β : Type} (r : CellReader α β) (states : List String)
    (layout : Layout) :
    (r.model .null states layout).result = (r.model (.map []) states layout).result := by
  rw [r.result_model_plain .null, r.result_model_plain (.map [])]

theorem readSalvage_empty : readSalvage (.map [] : Value α) = .ok ∅ :=
  rfl

end Reading

namespace Problem

section Parts

variable (entries : Entries α)

/-- What the document has under the name, as it stands; what it has not is left out. -/
def rawEntry (name : String) : Value α :=
  (entries.get? name).getD .null

/-- The parts of a document, as they stand, as an instance. -/
def rawInstance (states actions : List String) (layout : Layout) : Instance α where
  states
  actions
  horizon := horizonEntry entries
  discount := (entries.get? "discount").getD (.number (.real 1))
  costs := rawEntry entries "costs"
  transitions := rawEntry entries "transitions"
  salvage := rawEntry entries "salvage"
  layout

/-- A document read and solved. -/
def solveDocument (document : Value α) : Traced α (Solution α) := do
  let p ← ofDocument document
  p.solve

/-- The document has lists of names, a whole number, and if any, a number of the arithmetic and
the name of a layout for these parts. -/
structure StatesOutright (states actions : List String) (layout : Layout) : Prop where
  states_eq : entries.get? "states" = some (namesValue states)
  actions_eq : entries.get? "actions" = some (namesValue actions)
  states_names : ∀ name ∈ states, Text.IsName name
  actions_names : ∀ name ∈ actions, Text.IsName name
  horizon_eq : ∃ i, horizonEntry entries = .number (.whole i)
  discount_eq : ∀ v, entries.get? "discount" = some v → ∃ g, v = .number (.real g)
  layout_eq : givenLayout entries = .text layout.name
  layout_known : layout.isKnown = true

end Parts

variable {entries : Entries α} {states actions : List String} {layout : Layout}

theorem tableEntry_eq {name : String} (h : (rawEntry entries name).IsPlain) :
    tableEntry entries name = rawEntry entries name ∨
      rawEntry entries name = .null ∧ tableEntry entries name = .map [] := by
  rw [tableEntry, rawEntry] at *
  cases hentry : entries.get? name with
  | none => exact .inr ⟨rfl, rfl⟩
  | some v =>
      rw [hentry, Option.getD_some] at h
      dsimp only [Option.getD_some]
      split
      · rename_i hnothing
        rcases h hnothing with rfl | rfl
        · exact .inr ⟨rfl, rfl⟩
        · exact .inl rfl
      · exact .inl rfl

theorem result_model_tableEntry {β : Type} (r : CellReader α β) {name : String}
    (h : (rawEntry entries name).IsPlain) (states : List String) (layout : Layout) :
    (r.model (tableEntry entries name) states layout).result =
      (r.model (rawEntry entries name) states layout).result := by
  rcases tableEntry_eq h with heq | ⟨hraw, htable⟩
  · rw [heq]
  · rw [hraw, htable, r.result_model_null]

theorem readSalvage_tableEntry {name : String} (h : (rawEntry entries name).IsPlain) :
    readSalvage (tableEntry entries name) = readSalvage (rawEntry entries name) := by
  rcases tableEntry_eq h with heq | ⟨hraw, htable⟩
  · rw [heq]
  · rw [hraw, htable, readSalvage_empty]
    rfl

/-- An instance has the same outcome with everything of it as it was read. -/
theorem result_solve_read (inst : Instance α) {costs : CostModel α}
    {transitions : TransitionModel α} {salvage : Dict String α}
    (hcosts : (readCosts inst.costs inst.states inst.layout).result = .ok costs)
    (htransitions : (readTransitions inst.transitions inst.states inst.layout).result =
      .ok transitions)
    (hsalvage : readSalvage inst.salvage = .ok salvage) (layout : Layout) :
    (Solution.solve
      { inst with
        costs := CostModel.toValue costs,
        transitions := TransitionModel.toValue transitions,
        salvage := Dict.toValue scalarValue salvage,
        layout }).result = (Solution.solve inst).result := by
  simp only [Solution.solve, Solution.prepare, Traced.result_bind, Traced.result_liftM,
    readCosts_toValue hcosts, readTransitions_toValue htransitions,
    readSalvage_toValue hsalvage, Traced.result_pure, hcosts, htransitions, hsalvage]

theorem layoutOf_name {source : String}
    (hlayout : givenLayout entries = .text layout.name) (hknown : layout.isKnown = true) :
    layoutOf source none entries = .ok layout := by
  have named : Layout.ofName layout.name = layout := by
    cases layout with
    | auto | stationary | timeVarying => rfl
    | unknown name => cases hknown
  rw [givenLayout] at hlayout
  simp only [layoutOf, Option.filter_none, hlayout, textOf?, Option.map_some, named]
  cases layout with
  | auto | stationary | timeVarying => rfl
  | unknown name => cases hknown

namespace StatesOutright

variable (h : StatesOutright entries states actions layout)
include h

theorem missing_eq : missing entries = [] := by
  obtain ⟨i, hi⟩ := h.horizon_eq
  rw [missing_eq_nil_iff, h.states_eq, h.actions_eq]
  refine ⟨rfl, rfl, ?_⟩
  by_contra hmissing
  rw [not_or, Option.not_isSome_iff_eq_none, Option.not_isSome_iff_eq_none] at hmissing
  rw [horizonEntry, hmissing.1, hmissing.2] at hi
  cases hi

/-- A document is solved by reading its models and terminal values, and then as an instance
with what was read. -/
theorem result_solve {costs : CostModel α} {transitions : TransitionModel α}
    {salvage : Dict String α}
    (hcosts : (readCosts (tableEntry entries "costs") states layout).result = .ok costs)
    (htransitions : (readTransitions (tableEntry entries "transitions") states layout).result =
      .ok transitions)
    (hsalvage : readSalvage (tableEntry entries "salvage") = .ok salvage) :
    (solveDocument (.map entries)).result =
      (Solution.solve
        { rawInstance entries states actions layout with
          costs := CostModel.toValue costs,
          transitions := TransitionModel.toValue transitions,
          salvage := Dict.toValue scalarValue salvage,
          layout := .auto }).result := by
  obtain ⟨i, hi⟩ := h.horizon_eq
  obtain ⟨g, hg⟩ : ∃ g, (entries.get? "discount").getD (.number (.real 1)) = .number (.real g) := by
    cases hdiscount : entries.get? "discount" with
    | none => exact ⟨1, rfl⟩
    | some v => exact h.discount_eq v hdiscount
  have read : (ofDocument (.map entries)).result =
      .ok ⟨states, actions, i, .real g, costs, transitions, salvage⟩ := by
    change (ofEntries defaultSource none entries).result = _
    simp only [result_ofEntries h.missing_eq, h.states_eq, h.actions_eq, Option.getD_some,
      namesOf_namesValue _ _ h.states_names, namesOf_namesValue _ _ h.actions_names, hi, hg,
      horizonOf, discountOf, layoutOf_name h.layout_eq h.layout_known, bind, Except.bind,
      hcosts, htransitions, hsalvage]
  rw [solveDocument, Traced.result_bind, read]
  change (Problem.solve _).result = _
  rw [Problem.solve, toInstance, rawInstance, hi, hg]

end StatesOutright

/-- A document that states its domain outright is solved as its parts are, as long as what counts
as nothing in place of a model or of the terminal values is null or the empty mapping; with
anything else there the parts are not solved. -/
theorem solve_rawInstance_iff (h : StatesOutright entries states actions layout)
    (s : Solution α) :
    (Solution.solve (rawInstance entries states actions layout)).result = .ok s ↔
      (∀ name ∈ ["costs", "transitions", "salvage"], (rawEntry entries name).IsPlain) ∧
      (solveDocument (.map entries)).result =
        .ok s := by
  -- what is read of the parts is what is read of the entries, if these are plain
  have solved (plain : ∀ name ∈ ["costs", "transitions", "salvage"],
        (rawEntry entries name).IsPlain) {costs : CostModel α} {transitions : TransitionModel α}
      {salvage : Dict String α}
      (hcosts : (readCosts (rawEntry entries "costs") states layout).result = .ok costs)
      (htransitions : (readTransitions (rawEntry entries "transitions") states layout).result =
        .ok transitions)
      (hsalvage : readSalvage (rawEntry entries "salvage") = .ok salvage) :
      (solveDocument (.map entries)).result =
        (Solution.solve (rawInstance entries states actions layout)).result := by
    rw [h.result_solve ((result_model_tableEntry _ (plain _ (by simp)) _ _).trans hcosts)
      ((result_model_tableEntry _ (plain _ (by simp)) _ _).trans htransitions)
      ((readSalvage_tableEntry (plain _ (by simp))).trans hsalvage)]
    exact result_solve_read (rawInstance entries states actions layout) hcosts htransitions
      hsalvage .auto
  constructor
  · intro hs
    obtain ⟨_, _, prepares, _⟩ := (Solution.solve_eq_ok_iff _ s).mp hs
    obtain ⟨raw, hraw, _⟩ := prepares.transitions_eq
    obtain ⟨salvage, hsalvage, _⟩ := prepares.final_eq
    have plain : ∀ name ∈ ["costs", "transitions", "salvage"],
        (rawEntry entries name).IsPlain := by
      simp only [List.forall_mem_cons, List.not_mem_nil, false_imp_iff, implies_true, and_true]
      exact ⟨CellReader.isPlain_of_model prepares.costs_eq, CellReader.isPlain_of_model hraw,
        isPlain_of_readSalvage hsalvage⟩
    exact ⟨plain, (solved plain prepares.costs_eq hraw hsalvage).trans hs⟩
  · rintro ⟨plain, hs⟩
    obtain ⟨p, hp, _⟩ := bind_eq_ok_iff.mp ((Traced.result_bind _ _).symm.trans hs)
    have described := (ofEntries_eq_ok_iff defaultSource none entries p).mp hp
    obtain ⟨layout', hlayout, hcosts, htransitions⟩ := described.models_eq
    have hsalvage := described.salvage_eq
    have hstates := described.states_eq
    rw [h.states_eq, Option.getD_some, namesOf_namesValue _ _ h.states_names,
      Except.ok.injEq] at hstates
    rw [layoutOf_name h.layout_eq h.layout_known, Except.ok.injEq] at hlayout
    subst hstates hlayout
    rw [readCosts, result_model_tableEntry _ (plain _ (by simp))] at hcosts
    rw [readTransitions, result_model_tableEntry _ (plain _ (by simp))] at htransitions
    rw [readSalvage_tableEntry (plain _ (by simp))] at hsalvage
    rw [← solved plain hcosts htransitions hsalvage]
    exact hs

/-- A document of one state and one action that has this for its costs. -/
def costsDocument (α : Type) (costs : Value α) : Entries α :=
  [ Value.entry "states" (namesValue ["A"]),
    Value.entry "actions" (namesValue ["a"]),
    Value.entry "horizon" (.number (.whole 1)),
    Value.entry "costs" costs ]

theorem statesOutright_costsDocument (costs : Value α) :
    StatesOutright (costsDocument α costs) ["A"] ["a"] .auto where
  states_eq := by simp [costsDocument, get?_entry_cons]
  actions_eq := by simp [costsDocument, get?_entry_cons]
  states_names := List.forall_mem_singleton.mpr ⟨by decide +kernel, by decide⟩
  actions_names := List.forall_mem_singleton.mpr ⟨by decide +kernel, by decide⟩
  horizon_eq := ⟨1, by simp [horizonEntry, costsDocument, get?_entry_cons]⟩
  discount_eq := by simp [costsDocument, get?_entry_cons, get?_nil]
  layout_eq := by simp [givenLayout, costsDocument, get?_entry_cons, get?_nil]
  layout_known := rfl

/-- Costs that are an empty list are none in a document, and are refused in an instance. -/
theorem solve_emptyList_costs :
    StatesOutright (costsDocument Float (.list [])) ["A"] ["a"] .auto ∧
    (∃ s, (solveDocument (.map (costsDocument Float (.list [])))).result = .ok s) ∧
    (Solution.solve (rawInstance (costsDocument Float (.list [])) ["A"] ["a"] .auto)).result =
      .error (.notMapping (.ofRoot "costs") "list") := by
  refine ⟨statesOutright_costsDocument _, ?_, ?_⟩
  · obtain ⟨s, hs, _⟩ := exists_ok_of_map_toOption
      (x := (solveDocument (.map (costsDocument Float (.list [])))).result)
      (f := fun _ => ()) (c := ()) (by decide +kernel)
    exact ⟨s, hs⟩
  · rfl

/-- Costs that are a mapping count in a document as in an instance. -/
theorem solve_mapping_costs :
    ∃ costs : Value Float,
      StatesOutright (costsDocument Float costs) ["A"] ["a"] .auto ∧
      ∃ s, (Solution.solve (rawInstance (costsDocument Float costs) ["A"] ["a"] .auto)).result =
          .ok s ∧ s.value 0 "A" = 2.5 ∧
        (solveDocument (.map (costsDocument Float costs))).result = .ok s := by
  let costs : Value Float := .map [ Value.entry "A" (.map [ Value.entry "a" (.text "2.5") ]) ]
  have outright := statesOutright_costsDocument costs
  obtain ⟨s, hs, value⟩ := exists_ok_of_map_toOption
    (x := (Solution.solve (rawInstance (costsDocument Float costs) ["A"] ["a"] .auto)).result)
    (f := fun s => s.value 0 "A") (c := 2.5) (by decide +kernel)
  exact ⟨costs, outright, s, hs, value, ((solve_rawInstance_iff outright s).mp hs).2⟩

end Problem

end BackwardInduction
