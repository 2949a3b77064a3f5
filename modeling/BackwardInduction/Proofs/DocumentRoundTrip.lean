import BackwardInduction.Proofs.ProblemDocuments
import BackwardInduction.Scalar.Rational

/-!
The round trip of problem documents. A problem that a document describes is written
and read as itself, with its stages in ascending order. A single layout entry serves
both models, so it is written only if both are stationary; a stage whose text is the
name of a state then has nothing to tell it from that state, and is refused.
-/

namespace BackwardInduction

variable {α β : Type}

/-- Models that differ in the order of their stages at most. -/
inductive Model.Agrees : Model β → Model β → Prop
  | stationary (table : Table β) : Agrees (.stationary table) (.stationary table)
  | timeVarying {stages stages' : Dict Nat (Table β)}
      (h : stages.entries.Perm stages'.entries) (fallback : Table β) :
      Agrees (.timeVarying stages fallback) (.timeVarying stages' fallback)

theorem Model.agrees_sorted (m : Model β) : m.sorted.Agrees m := by
  cases m with
  | stationary table => exact .stationary table
  | timeVarying stages fallback => exact .timeVarying (perm_sortedStages stages) fallback

namespace CellReader

variable [Scalar α] {r : CellReader α β} {write : β → Value α}

theorem plainEntries_of_decoded {v : Value α} (hv : v.Decoded) {states : List String}
    {layout : Layout} {m : Model β} (h : (r.model v states layout).result = .ok m) :
    ∃ entries, PlainEntries v entries ∧ ∀ e ∈ entries, e.1.KeepsStage := by
  cases hv with
  | null => exact ⟨[], .null, nofun⟩
  | bool _ | number _ | text _ | list _ => cases h
  | @map d _ =>
      refine ⟨d.toEntries, .map _, fun e he => ?_⟩
      obtain ⟨e', _, rfl⟩ := List.mem_map.mp he
      exact Key.keepsStage_text e'.1

/-- The layout under which a flat model can be read again. -/
def FitsLayout (layout : Layout) (m : Model β) : Prop :=
  (layout = .stationary ∧ ∃ table, m = .stationary table) ∨
    (layout = .auto ∧ m.Separable)

theorem result_model_again {m : Model β} {layout : Layout} (hfits : FitsLayout layout m)
    (hcells : m.All (ReadsBack r.read write)) {states : List String}
    (hclash : ¬m.NamesState states) :
    (r.model (Problem.flatValue (m.flatten write)) states layout).result = .ok m.sorted := by
  rcases hfits with ⟨rfl, table, rfl⟩ | ⟨rfl, hm⟩
  · exact result_model_flatten_stationary hcells states
  · exact result_model_flatten hm hcells hclash

theorem result_model_again_ambiguous {m : Model β} {layout : Layout}
    (hfits : FitsLayout layout m) {states : List String} (hclash : m.NamesState states) :
    ∃ keys, (r.model (Problem.flatValue (m.flatten write)) states layout).result =
      .error (.ambiguousKeys r.family keys) := by
  rcases hfits with ⟨rfl, table, rfl⟩ | ⟨rfl, hm⟩
  · cases hclash
  · exact result_model_flatten_ambiguous hm hclash

end CellReader

namespace Problem

/-- Problems that differ in the order of the stages of their models at most. -/
structure Agrees (p q : Problem α) : Prop where
  states_eq : p.states = q.states
  actions_eq : p.actions = q.actions
  horizon_eq : p.horizon = q.horizon
  discount_eq : p.discount = q.discount
  costs : p.costs.Agrees q.costs
  transitions : p.transitions.Agrees q.transitions
  salvage_eq : p.salvage = q.salvage

/-- Some stage of a model has the name of a state for its text. -/
def StageNamesState (p : Problem α) : Prop :=
  p.costs.NamesState p.states ∨ p.transitions.NamesState p.states

instance (p : Problem α) : Decidable p.StageNamesState :=
  inferInstanceAs (Decidable (_ ∨ _))

variable [Scalar α]

omit [Scalar α] in
theorem writtenLayout_cases (p : Problem α) :
    (p.writtenLayout = .stationary ∧ (∃ table, p.costs = .stationary table) ∧
      ∃ table, p.transitions = .stationary table) ∨ p.writtenLayout = .auto := by
  obtain ⟨states, actions, horizon, discount, costs, transitions, salvage⟩ := p
  cases costs with
  | timeVarying stages fallback => exact .inr rfl
  | stationary costs =>
      cases transitions with
      | timeVarying stages fallback => exact .inr rfl
      | stationary transitions => exact .inl ⟨rfl, ⟨costs, rfl⟩, ⟨transitions, rfl⟩⟩

/-- Both models of a described problem fit the layout under which it is written. -/
theorem fits_writtenLayout {source : String} {override : Option String}
    {d : Dict String (Value α)} (hd : ∀ e ∈ d.entries, e.2.Decoded) {p : Problem α}
    (h : Describes source override d.toEntries p) :
    CellReader.FitsLayout p.writtenLayout p.costs ∧
      CellReader.FitsLayout p.writtenLayout p.transitions := by
  obtain ⟨layout, _, hcosts, htransitions⟩ := h.models_eq
  have decoded := Dict.forall_toEntries hd
  obtain ⟨ce, hce, ckeys⟩ :=
    CellReader.plainEntries_of_decoded (decoded_tableEntry decoded "costs") hcosts
  obtain ⟨te, hte, tkeys⟩ :=
    CellReader.plainEntries_of_decoded (decoded_tableEntry decoded "transitions") htransitions
  have costs := CellReader.separable_of_model hce ckeys hcosts
  have transitions := CellReader.separable_of_model hte tkeys htransitions
  rcases p.writtenLayout_cases with ⟨written, stationary, stationary'⟩ | written
  · exact ⟨.inl ⟨written, stationary⟩, .inl ⟨written, stationary'⟩⟩
  -- a layout fixed as stationary makes both models stationary, which is written down
  · have fixed : layout ≠ .stationary := by
      intro hlayout
      rcases costs with ⟨_, _, hc⟩ | ⟨hne, _⟩
      · rcases transitions with ⟨_, _, ht⟩ | ⟨hne, _⟩
        · rw [writtenLayout, hc, ht] at written
          cases written
        · exact hne hlayout
      · exact hne hlayout
    have separable := (costs.resolve_left fun h => fixed h.1).2
    have separable' := (transitions.resolve_left fun h => fixed h.1).2
    exact ⟨.inr ⟨written, separable⟩, .inr ⟨written, separable'⟩⟩

section Again

variable {source : String} {override : Option String} {d : Dict String (Value α)}
  (hd : ∀ e ∈ d.entries, e.2.Decoded) {p : Problem α}
  (h : Describes source override d.toEntries p)
include hd h

theorem readCosts_again (hclash : ¬p.costs.NamesState p.states) :
    (readCosts (flatValue (p.costs.flatten scalarValue)) p.states p.writtenLayout).result =
      .ok p.costs.sorted := by
  obtain ⟨layout, _, hcosts, _⟩ := h.models_eq
  have fits := (fits_writtenLayout hd h).1
  exact CellReader.result_model_again fits (CellReader.all_model recovers_cost hcosts) hclash

theorem readTransitions_again (hclash : ¬p.transitions.NamesState p.states) :
    (readTransitions (flatValue (p.transitions.flatten Row.toValue)) p.states
      p.writtenLayout).result = .ok p.transitions.sorted := by
  obtain ⟨layout, _, _, htransitions⟩ := h.models_eq
  have fits := (fits_writtenLayout hd h).2
  exact CellReader.result_model_again fits
    (CellReader.all_model recovers_transition htransitions) hclash

theorem readCosts_ambiguous (hclash : p.costs.NamesState p.states) :
    ∃ keys, (readCosts (flatValue (p.costs.flatten scalarValue)) p.states
      p.writtenLayout).result = .error (.ambiguousKeys .cost keys) :=
  CellReader.result_model_again_ambiguous (fits_writtenLayout hd h).1 hclash

theorem readTransitions_ambiguous (hclash : p.transitions.NamesState p.states) :
    ∃ keys, (readTransitions (flatValue (p.transitions.flatten Row.toValue)) p.states
      p.writtenLayout).result = .error (.ambiguousKeys .transition keys) :=
  CellReader.result_model_again_ambiguous (fits_writtenLayout hd h).2 hclash

end Again

/-- A problem that a decoded document describes is described again by the document it is
written as, unless a stage has the name of a state for its text; then that is refused. -/
theorem ofDocument_toDocument {document : Value α} (hdocument : document.Decoded)
    {source : String} {override : Option String} {p : Problem α}
    (h : (ofDocument document source override).result = .ok p) :
    (p.StageNamesState → ∃ family keys,
      (ofDocument p.toDocument).result = .error (.ambiguousKeys family keys)) ∧
    (¬p.StageNamesState → ∃ q, (ofDocument p.toDocument).result = .ok q ∧ q.Agrees p) := by
  cases hdocument with
  | null | bool _ | number _ | text _ | list _ => cases h
  | @map d hd =>
      have described := (ofEntries_eq_ok_iff source override d.toEntries p).mp h
      obtain ⟨g, _, hdiscount⟩ := described.discount_eq
      have again := result_toDocument (isName_of_namesOf described.states_eq)
        (isName_of_namesOf described.actions_eq) hdiscount
        (readSalvage_toValue described.salvage_eq)
      constructor
      · intro hclash
        by_cases hc : p.costs.NamesState p.states
        · obtain ⟨keys, refused⟩ := readCosts_ambiguous hd described hc
          refine ⟨.cost, keys, ?_⟩
          rw [again, refused]
          rfl
        · have ht := hclash.resolve_left hc
          obtain ⟨keys, refused⟩ := readTransitions_ambiguous hd described ht
          refine ⟨.transition, keys, ?_⟩
          rw [again, readCosts_again hd described hc, refused]
          rfl
      · intro hclash
        rw [StageNamesState, not_or] at hclash
        rw [again, readCosts_again hd described hclash.1,
          readTransitions_again hd described hclash.2]
        exact ⟨_, rfl, rfl, rfl, rfl, rfl, p.costs.agrees_sorted, p.transitions.agrees_sorted,
          rfl⟩

section Instances

/-- A document whose costs change at the stage that the text names. -/
def stagedDocument (stage : String) : Value Rat :=
  .map <| Dict.toEntries <| .ofList
    [ ("states", .list [.text "idle", .text "1"]),
      ("actions", .text "wait, move"),
      ("horizon", .number (.whole 3)),
      ("costs", .map <| Dict.toEntries <| .ofList
        [ (stage, .map <| Dict.toEntries <| .ofList
            [("idle", .map <| Dict.toEntries <| .ofList [("move", .number (.whole 2))])]),
          ("idle", .map <| Dict.toEntries <| .ofList [("wait", .null)]) ]) ]

theorem decoded_stagedDocument (stage : String) : (stagedDocument stage).Decoded := by
  have costs := Value.decoded_pair stage "idle"
    (Value.decoded_single "idle" (Value.decoded_single "move" (.number (.whole (α := Rat) 2))))
    (Value.decoded_single "wait" .null)
  refine Value.decoded_ofList ?_
  simp only [List.forall_mem_cons, List.not_mem_nil, false_imp_iff, implies_true, and_true]
  exact ⟨.list (by simp [Value.Decoded.text]), .text _, .number _, costs⟩

/-- A stage with a leading zero is written without it and so becomes the name of a state;
another one comes back. -/
theorem stagedDocument_roundTrip :
    (∃ p, (ofDocument (stagedDocument "01")).result = .ok p ∧
      ∃ family keys, (ofDocument p.toDocument).result = .error (.ambiguousKeys family keys)) ∧
    (∃ p, (ofDocument (stagedDocument " 02 ")).result = .ok p ∧
      ∃ q, (ofDocument p.toDocument).result = .ok q ∧ q.Agrees p) := by
  constructor
  · have computed : (ofDocument (stagedDocument "01")).result.toOption.map
        (fun p => decide p.StageNamesState) = some true := by decide +kernel
    obtain ⟨p, hp, hclash⟩ := exists_ok_of_map_toOption computed
    have trip := ofDocument_toDocument (decoded_stagedDocument "01") hp
    exact ⟨p, hp, trip.1 (of_decide_eq_true hclash)⟩
  · have computed : (ofDocument (stagedDocument " 02 ")).result.toOption.map
        (fun p => decide p.StageNamesState) = some false := by decide +kernel
    obtain ⟨p, hp, hclash⟩ := exists_ok_of_map_toOption computed
    have trip := ofDocument_toDocument (decoded_stagedDocument " 02 ") hp
    exact ⟨p, hp, trip.2 (of_decide_eq_false hclash)⟩

end Instances

end Problem

end BackwardInduction
