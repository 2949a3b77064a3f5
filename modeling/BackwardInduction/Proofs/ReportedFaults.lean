import BackwardInduction.Problem
import BackwardInduction.Proofs.AcceptedInstances
import BackwardInduction.Proofs.JsonValues
import BackwardInduction.Proofs.StageParting

/-!
Which faults the parts of the program can find. Reading, normalizing and solving
report all that is wrong, except for a key of a plain model that would be a stage
beyond the digit limit and for a discount that is a whole number out of range.
-/

namespace BackwardInduction

variable {α β : Type} [Scalar α]

/-- Whatever goes wrong is reported. -/
abbrev Reports {β : Type} (r : Except Fault β) : Prop :=
  Ends (fun e => e.isReported = true) (fun _ => True) r

/-- Whatever goes wrong is a fault of a model. -/
abbrev Malforms {β : Type} (r : Except Fault β) : Prop :=
  Ends (fun e => e.kind = .model) (fun _ => True) r

theorem Fault.isReported_of_kind {e : Fault} (h : e.kind = .model ∨ e.kind = .ambiguity) :
    e.isReported = true := by
  rcases h with h | h <;> simp [isReported, h]

omit [Scalar α] in
theorem Malforms.reports {r : Except Fault α} (h : Malforms r) : Reports r :=
  h.imp (fun _ he => Fault.isReported_of_kind (.inl he)) fun _ => id

section Cells

theorem malforms_readNumber (place : Place) (v : Value α) : Malforms (readNumber place v) := by
  have finite (x : α) :
      Malforms (if Scalar.isFinite x then pure x else throw (.notFinite place) :
        Except Fault α) := by
    split
    · trivial
    · rfl
  unfold readNumber
  dsimp only
  split
  · exact finite 0
  · rfl
  · exact finite _
  · split
    · exact finite _
    · rfl
  · split
    · exact finite _
    · rfl
  · rfl

theorem malforms_readWeight (place : Place) (v : Value α) : Malforms (readWeight place v) := by
  refine (malforms_readNumber place v).bind fun x _ => ?_
  split
  · rfl
  · trivial

theorem malforms_readDict {item : Place → Value α → Except Fault β}
    (hitem : ∀ place v, Malforms (item place v)) (place : Place) (v : Value α) :
    Malforms (readDict item place v) := by
  have entries : Malforms (entriesOf place v) := by
    unfold entriesOf
    split
    · trivial
    · rfl
  refine entries.bind fun es _ => Ends.foldlM trivial fun d _ e _ => ?_
  exact (hitem _ _).bind fun _ _ => trivial

theorem reports_readSalvage (v : Value α) : Reports (readSalvage v) := by
  unfold readSalvage
  split
  · trivial
  · exact (malforms_readDict malforms_readNumber _ _).reports

end Cells

namespace CellReader

variable {r : CellReader α β}

/-- Whatever is wrong with a cell is a fault of the model. -/
def MalformsCells (r : CellReader α β) : Prop :=
  ∀ place v, Malforms (r.read place v)

theorem malforms_table (hr : r.MalformsCells) (place : Place) (v : Value α) :
    Malforms (r.table place v) :=
  malforms_readDict (malforms_readDict hr) place v

theorem malforms_stageTables (hr : r.MalformsCells) (layers : Dict Nat (Value α)) :
    Malforms (r.stageTables layers) :=
  Dict.ends_traverse layers fun _ _ => malforms_table hr _ _

theorem malforms_ofLayers (hr : r.MalformsCells) (entries : Entries α)
    (parts : Option (Dict Nat (Value α) × Entries α)) : Malforms (r.ofLayers entries parts) := by
  cases parts with
  | none => exact (malforms_table hr _ _).bind fun _ _ => trivial
  | some parts =>
      refine (malforms_stageTables hr _).bind fun _ _ => ?_
      exact (malforms_table hr _ _).bind fun _ _ => trivial

/-- What can be wrong with the keys of a plain model: that some of them are malformed, that
with no layout given a stage looks like a state, or that one fails as a stage. -/
inductive KeyFault (states : List String) (layout : Layout) (entries : Entries α) : Fault → Prop
  | malformed {e : Fault} (h : e.kind = .model) : KeyFault states layout entries e
  | ambiguous {e : Fault} {keyed : List (Option Nat × Key α × Value α)}
      (hlayout : layout = .auto) (hkeyed : Keyed entries keyed)
      (hclash : clashes states keyed ≠ []) (h : e.kind = .ambiguity) :
      KeyFault states layout entries e
  | stage {e : Fault} {entry : Key α × Value α} (hentry : entry ∈ entries)
      (h : entry.1.stage = .error e) : KeyFault states layout entries e

theorem ends_stagesOf (states : List String) (layout : Layout) (entries : Entries α) :
    Ends (KeyFault states layout entries) (Keyed entries) (stagesOf entries) := by
  cases h : stagesOf entries with
  | error e =>
      obtain ⟨entry, hentry, he⟩ := exists_stage_error_of_stagesOf h
      exact .stage hentry he
  | ok keyed => exact (stagesOf_eq_ok_iff entries keyed).mp h

omit [Scalar α] in
theorem malforms_addLayer (layers : Dict Nat (Value α)) (stage : Nat) (v : Value α) :
    Malforms (r.addLayer layers stage v) := by
  rw [addLayer]
  split
  · rfl
  · trivial

omit [Scalar α] in
theorem malforms_layersOf (keyed : List (Option Nat × Key α × Value α)) :
    Malforms (r.layersOf keyed) :=
  Ends.foldlM trivial fun layers _ e _ => malforms_addLayer layers e.1 e.2.2

/-- Parting the entries of a plain model fails for their keys alone. -/
theorem ends_layers? (entries : Entries α) (states : List String) {layout : Layout}
    (hlayout : layout.isKnown = true) :
    Ends (KeyFault states layout entries) (fun _ => True)
      (r.layers? entries states layout).result := by
  have layers (keyed : List (Option Nat × Key α × Value α)) :
      Ends (KeyFault states layout entries) (fun _ => True)
        (r.layersOf keyed >>= fun layers => .ok (some (layers, others keyed))) :=
    ((malforms_layersOf keyed).imp (fun _ => .malformed) fun _ => id).bind fun _ _ => trivial
  cases layout with
  | unknown name => cases hlayout
  | stationary => trivial
  | auto =>
      rw [result_layers?_auto]
      refine (ends_stagesOf states .auto entries).bind fun keyed hkeyed => ?_
      split
      · trivial
      · split
        · rename_i hclash
          exact .ambiguous rfl hkeyed (by simpa using hclash) rfl
        · exact layers keyed
  | timeVarying =>
      rw [result_layers?_timeVarying]
      refine (ends_stagesOf states .timeVarying entries).bind fun keyed _ => ?_
      split
      · exact .malformed rfl
      · split
        · trivial
        · exact layers keyed

/-- Reading a plain model fails for its keys or because it is malformed. -/
theorem ends_model_plain (hr : r.MalformsCells) {v : Value α} {entries : Entries α}
    (hv : PlainEntries v entries) (states : List String) {layout : Layout}
    (hlayout : layout.isKnown = true) :
    Ends (fun e => e.kind = .model ∨ KeyFault states layout entries e) (fun _ => True)
      (r.model v states layout).result := by
  rw [r.result_model_plain hv]
  refine Ends.bind (P := fun _ => True) ?_ fun parts _ => ?_
  · exact (ends_layers? entries states hlayout).imp (fun _ => .inr) fun _ => id
  · exact (malforms_ofLayers hr entries parts).imp (fun _ => .inl) fun _ => id

/-- Reading a model that is not marked fails for its keys or because it is malformed. -/
theorem ends_model (hr : r.MalformsCells) {v : Value α} (hv : v.Decoded)
    (states : List String) {layout : Layout} (hlayout : layout.isKnown = true) :
    Ends (fun e => e.kind = .model ∨
        ∃ entries, PlainEntries v entries ∧ KeyFault states layout entries e)
      (fun _ => True) (r.model v states layout).result := by
  have plain {entries : Entries α} (h : PlainEntries v entries) :
      Ends (fun e => e.kind = .model ∨
          ∃ entries, PlainEntries v entries ∧ KeyFault states layout entries e)
        (fun _ => True) (r.model v states layout).result :=
    (ends_model_plain hr h states hlayout).imp
      (fun _ => Or.imp_right fun he => ⟨entries, h, he⟩) fun _ => id
  cases hv with
  | null => exact plain .null
  | bool _ | number _ | text _ | list _ => exact .inl rfl
  | map _ => exact plain (.map _)

theorem malforms_model_stationary (hr : r.MalformsCells) (raw : Value α)
    (states : List String) (layout : Layout) :
    Malforms (r.model (.stationary raw) states layout).result := by
  rw [result_model_stationary]
  exact (malforms_table hr _ _).bind fun _ _ => trivial

theorem malforms_model_timeVarying (hr : r.MalformsCells) {stages : Value α}
    (hstages : Malforms (r.markedLayers stages)) (fallback : Value α) (states : List String)
    (layout : Layout) : Malforms (r.model (.timeVarying stages fallback) states layout).result := by
  rw [result_model_timeVarying]
  refine hstages.bind fun _ _ => (malforms_stageTables hr _).bind fun _ _ => ?_
  exact (malforms_table hr _ _).bind fun _ _ => trivial

/-- Reading a model that was written with its mark fails only if it is malformed. -/
theorem malforms_model_toValue (hr : r.MalformsCells) (write : β → Value α) (m : Model β)
    (states : List String) (layout : Layout) :
    Malforms (r.model (m.toValue write) states layout).result := by
  cases m with
  | stationary table => exact malforms_model_stationary hr _ states layout
  | timeVarying stages fallback =>
      have layers : Malforms (r.markedLayers (Model.stagesValue write stages)) := by
        refine Ends.foldlM trivial fun layers _ e he => ?_
        obtain ⟨e', _, rfl⟩ := List.mem_map.mp he
        exact malforms_addLayer layers e'.1 _
      exact malforms_model_timeVarying hr layers _ states layout

end CellReader

theorem malforms_costCells : (costCells : CellReader α α).MalformsCells :=
  malforms_readNumber

theorem malforms_transitionCells : (transitionCells : CellReader α (Row α)).MalformsCells :=
  malforms_readDict malforms_readWeight

section Solving

/-- Normalizing fails only for rows that are empty. -/
theorem ends_normalize (m : TransitionModel α) (states : List String) :
    Ends (fun e => e.kind = .emptyRow) (fun _ => True) (m.normalize states).result := by
  have row (stage : Option Nat) (state action : String) (row : Row α) :
      Ends (fun e => e.kind = .emptyRow) (fun _ => True)
        (normalizeCell states stage state action row).result := by
    rw [result_normalizeCell, Row.normalize]
    split
    · rfl
    · trivial
  have table (stage : Option Nat) (t : Table (Row α)) :
      Ends (fun e => e.kind = .emptyRow) (fun _ => True)
        (normalizeTable states stage t).result := by
    rw [normalizeTable, Dict.result_traverse]
    refine Dict.ends_traverse t (P := fun _ => True) fun e _ => ?_
    rw [Dict.result_traverse]
    exact Dict.ends_traverse e.2 fun e' _ => row stage e.1 e'.1 e'.2
  cases m with
  | stationary t =>
      simp only [Model.normalize, Traced.result_bind, Traced.result_pure]
      exact (table none t).bind fun _ _ => trivial
  | timeVarying stages fallback =>
      simp only [Model.normalize, Traced.result_bind, Traced.result_pure, Dict.result_traverse]
      refine (Dict.ends_traverse _ fun e _ => table (some e.1) e.2).bind fun _ _ => ?_
      exact (table none fallback).bind fun _ _ => trivial

theorem reports_normalize (m : TransitionModel α) (states : List String) :
    Reports (m.normalize states).result :=
  (ends_normalize m states).imp (fun _ he => by simp [Fault.isReported, he]) fun _ => id

theorem reports_checkNames (what : String) (names : List String) :
    Reports (checkNames what names) := by
  unfold checkNames
  split
  · rfl
  · split
    · rfl
    · trivial

theorem reports_checkHorizon (v : Value α) : Reports (checkHorizon v) := by
  unfold checkHorizon
  split
  · split
    · rfl
    · trivial
  · rfl

/-- The value is a whole number that the arithmetic has no number for. -/
def Value.IsBeyondRange (v : Value α) : Prop :=
  ∃ i : Int, v = .number (.whole i) ∧ (Scalar.ofInt? i : Option α) = none

theorem ends_checkDiscount {v : Value α} (hv : ¬v.IsBeyondRange) :
    Ends (fun e => e.kind = .discount) (fun _ => True) (checkDiscount v) := by
  have range (x : α) (n : Number α) :
      Ends (fun e => e.kind = .discount) (fun _ => True)
        (if Scalar.isNaN x || !(decide (0 ≤ x) && decide (x ≤ 1)) then
          throw (.discountOutside n.text) else pure x : Except Fault α) := by
    split
    · rfl
    · trivial
  unfold checkDiscount
  split
  · rename_i n
    cases n with
    | real x => exact range x (.real x)
    | whole i =>
        cases hi : (Scalar.ofInt? i : Option α) with
        | none => exact absurd ⟨i, rfl, hi⟩ hv
        | some x =>
            simp only [hi]
            exact range x (.whole i)
  · rfl

theorem reports_checkDiscount (g : α) : Reports (checkDiscount (.number (.real g))) := by
  have within : ¬(Value.number (.real g)).IsBeyondRange := by
    rintro ⟨_, h, _⟩
    cases h
  exact (ends_checkDiscount within).imp (fun _ he => by simp [Fault.isReported, he]) fun _ => id

/-- Solving a problem whose discount is a number of the arithmetic reports whatever is
wrong. -/
theorem reports_solve {p : Problem α} {g : α} (hdiscount : p.discount = .real g) :
    Reports p.solve.result := by
  have prepared : Reports (Solution.prepare (p.toInstance .auto)).result := by
    simp only [Solution.prepare, Traced.result_bind, Traced.result_liftM, Traced.result_pure]
    refine (reports_checkNames _ _).bind fun _ _ => ?_
    refine (reports_checkNames _ _).bind fun _ _ => ?_
    refine (reports_checkHorizon _).bind fun _ _ => ?_
    have discount : Reports (checkDiscount (p.toInstance .auto).discount) := by
      rw [Problem.toInstance, hdiscount]
      exact reports_checkDiscount g
    refine discount.bind fun _ _ => ?_
    have costs := CellReader.malforms_model_toValue malforms_costCells scalarValue p.costs
      p.states .auto
    refine costs.reports.bind fun _ _ => ?_
    have transitions := CellReader.malforms_model_toValue malforms_transitionCells Row.toValue
      p.transitions p.states .auto
    refine transitions.reports.bind fun m _ => ?_
    refine (reports_normalize m _).bind fun _ _ => ?_
    exact (reports_readSalvage _).bind fun _ _ => trivial
  simp only [Problem.solve, Solution.solve, Traced.result_bind, Traced.result_note,
    Traced.result_pure]
  exact prepared.bind fun _ _ => trivial

end Solving

end BackwardInduction
