import Mathlib.Algebra.Order.Ring.Rat
import Mathlib.Data.List.Find
import BackwardInduction.Proofs.DocumentRoundTrip
import BackwardInduction.Proofs.UndeclaredNotices

/-!
The order of normalization. The rows of a model are met stage by stage in ascending order, then
those of the common table, each table in the order of its entries. The first of them that is
empty is the one that is reported; if there is none, every row becomes the distribution of its
weights and nothing else of the model changes but the order of the stages.
-/

namespace BackwardInduction

variable {α β γ : Type}

section Faults

variable {κ ν μ ε δ : Type}

/-- The fault that a sequence ends in, if it does. -/
def fault? : Except ε δ → Option ε
  | .error e => some e
  | .ok _ => none

theorem fault?_eq_some_iff {x : Except ε δ} {e : ε} : fault? x = some e ↔ x = .error e := by
  cases x with
  | error e' => simp [fault?]
  | ok b => simp [fault?]

/-- A sequence whose second part does not depend on the first ends in the first fault of both. -/
theorem fault?_bind {x : Except ε μ} {f : μ → Except ε δ} {next : Option ε}
    (h : ∀ b, fault? (f b) = next) : fault? (x >>= f) = (fault? x).or next := by
  cases x with
  | error e => rfl
  | ok b => exact h b

/-- What does not fail adds no fault. -/
theorem fault?_bind_of_none {x : Except ε μ} {f : μ → Except ε δ}
    (h : ∀ b, fault? (f b) = none) : fault? (x >>= f) = fault? x :=
  (fault?_bind h).trans Option.or_none

theorem findSome?_ite (p : κ → Bool) (f : κ → ν) (xs : List κ) :
    (xs.findSome? fun x => if p x then some (f x) else none) = (xs.find? p).map f := by
  induction xs with
  | nil => rfl
  | cons x xs ih =>
      rw [List.findSome?_cons, List.find?_cons]
      cases p x with
      | true => rfl
      | false => exact ih

/-- A traversal ends in the fault of the first entry that has one. -/
theorem Dict.fault?_traverse (f : κ → ν → Except ε μ) (d : Dict κ ν) :
    fault? (d.traverse f) = d.entries.findSome? fun e => fault? (f e.1 e.2) := by
  have entries (es : List (κ × ν)) :
      fault? (traverseEntries f es) = es.findSome? fun e => fault? (f e.1 e.2) := by
    induction es with
    | nil => rfl
    | cons e es ih =>
        obtain ⟨k, v⟩ := e
        have step : fault? (traverseEntries f ((k, v) :: es)) =
            (fault? (f k v)).or (fault? (traverseEntries f es)) :=
          fault?_bind fun _ => fault?_bind_of_none fun _ => rfl
        rw [step, ih, List.findSome?_cons]
        cases fault? (f k v) <;> rfl
  exact (fault?_bind_of_none fun _ => rfl).trans (entries d.entries)

end Faults

section Placed

/-- A row and where it stands: at a stage or in the common table, for a state and an action. -/
structure PlacedRow (α : Type) where
  stage : Option Nat
  state : String
  action : String
  row : Row α

namespace PlacedRow

/-- The fault that tells where an empty row stands. -/
def fault (p : PlacedRow α) : Fault :=
  .emptyRow (p.stage.map Int.ofNat) p.state p.action

end PlacedRow

/-- The rows of a table, in the order of its entries. -/
def Table.placedRows (stage : Option Nat) (t : Table (Row α)) : List (PlacedRow α) :=
  t.entries.flatMap fun e => e.2.entries.map fun cell => ⟨stage, e.1, cell.1, cell.2⟩

namespace Model

/-- The rows of a model: stage by stage, in the order of its stages, then the common table. -/
def placedRows : TransitionModel α → List (PlacedRow α)
  | .stationary table => table.placedRows none
  | .timeVarying stages fallback =>
      (stages.entries.flatMap fun e => e.2.placedRows (some e.1)) ++ fallback.placedRows none

/-- The stages come in ascending order. -/
def Ascends : Model β → Prop
  | .stationary _ => True
  | .timeVarying stages _ => stages.entries.Pairwise fun e e' => e.1 < e'.1

theorem ascends_sorted (m : Model β) : m.sorted.Ascends := by
  cases m with
  | stationary table => trivial
  | timeVarying stages fallback => exact pairwise_sortedStages stages

/-- There is only one ascending order of the stages. -/
theorem eq_sorted_of_ascends {m ordered : Model β} (h : ordered.Agrees m)
    (hascends : ordered.Ascends) : ordered = m.sorted := by
  cases h with
  | stationary table => rfl
  | @timeVarying stages ordered h fallback =>
      have perm := h.trans (perm_sortedStages ordered).symm
      have entries := perm.eq_of_pairwise (fun a b _ _ hab hba => absurd hab (Nat.lt_asymm hba))
        hascends (pairwise_sortedStages ordered)
      rw [Dict.ext entries, sorted]

theorem sorted_of_ascends {m : Model β} (h : m.Ascends) : m.sorted = m := by
  refine (eq_sorted_of_ascends ?_ h).symm
  cases m with
  | stationary table => exact .stationary table
  | timeVarying stages fallback => exact .timeVarying (.refl _) fallback

/-- Models of the same form, with the same stages, states and actions in the same order, and
with cells that correspond. -/
inductive Matches (R : β → γ → Prop) : Model β → Model γ → Prop
  | stationary {t : Table β} {t' : Table γ} (h : Dict.Matches (Dict.Matches R) t t') :
      Matches R (.stationary t) (.stationary t')
  | timeVarying {stages : Dict Nat (Table β)} {stages' : Dict Nat (Table γ)}
      {fallback : Table β} {fallback' : Table γ}
      (hstages : stages.Matches (Dict.Matches (Dict.Matches R)) stages')
      (hfallback : Dict.Matches (Dict.Matches R) fallback fallback') :
      Matches R (.timeVarying stages fallback) (.timeVarying stages' fallback')

end Model

theorem Table.all_iff_placedRows {P : Row α → Prop} (stage : Option Nat) (t : Table (Row α)) :
    t.All P ↔ ∀ p ∈ t.placedRows stage, P p.row := by
  constructor
  · intro h p hp
    obtain ⟨e, he, hp⟩ := List.mem_flatMap.mp hp
    obtain ⟨cell, hcell, rfl⟩ := List.mem_map.mp hp
    exact h e he cell hcell
  · intro h e he cell hcell
    exact h _ (List.mem_flatMap.mpr ⟨e, he, List.mem_map_of_mem hcell⟩)

theorem Model.all_iff_placedRows {P : Row α → Prop} (m : TransitionModel α) :
    m.All P ↔ ∀ p ∈ m.placedRows, P p.row := by
  cases m with
  | stationary table => exact table.all_iff_placedRows none
  | timeVarying stages fallback =>
      rw [placedRows, List.forall_mem_append, ← fallback.all_iff_placedRows]
      refine and_congr_left fun _ => ?_
      constructor
      · intro h p hp
        obtain ⟨e, he, hp⟩ := List.mem_flatMap.mp hp
        exact (e.2.all_iff_placedRows _).mp (h e he) p hp
      · intro h e he
        exact (e.2.all_iff_placedRows (some e.1)).mpr fun p hp =>
          h p (List.mem_flatMap.mpr ⟨e, he, hp⟩)

end Placed

section Order

variable [Scalar α]

theorem Row.fault?_normalize (row : Row α) (stage : Option Int) (state action : String) :
    fault? (row.normalize stage state action) =
      if Dict.isEmpty row then some (.emptyRow stage state action) else none := by
  rw [normalize]
  split <;> rfl

/-- The fault of the first empty row, if there is one. -/
def emptyRow? (rows : List (PlacedRow α)) : Option Fault :=
  (rows.find? (·.row.isEmpty)).map PlacedRow.fault

/-- Normalization of a table ends in the fault of its first empty row. -/
theorem fault?_normalizeTable (states : List String) (stage : Option Nat) (t : Table (Row α)) :
    fault? (normalizeTable states stage t).result = emptyRow? (t.placedRows stage) := by
  simp only [normalizeTable, Dict.result_traverse, Dict.fault?_traverse, result_normalizeCell,
    Row.fault?_normalize, findSome?_ite, emptyRow?, Table.placedRows, List.find?_flatMap,
    List.map_findSome?, List.find?_map, Function.comp_def, Option.map_map]
  rfl

/-- Normalization ends in the fault of the first empty row there is, once the stages are in
ascending order. -/
theorem Model.fault?_normalize (m : TransitionModel α) (states : List String) :
    fault? (m.normalize states).result = emptyRow? m.sorted.placedRows := by
  cases m with
  | stationary table =>
      rw [normalize, Traced.result_bind]
      exact (fault?_bind_of_none fun _ => rfl).trans (fault?_normalizeTable states none table)
  | timeVarying stages fallback =>
      have stageTables : fault? ((sortedStages stages).traverse
            fun stage t => normalizeTable states (some stage) t).result =
          emptyRow? ((sortedStages stages).entries.flatMap fun e => e.2.placedRows (some e.1)) := by
        simp only [Dict.result_traverse, Dict.fault?_traverse, fault?_normalizeTable, emptyRow?,
          List.find?_flatMap, List.map_findSome?, Function.comp_def]
      rw [normalize, Traced.result_bind, sorted, placedRows, emptyRow?, List.find?_append,
        Option.map_or]
      refine (fault?_bind fun stages' => ?_).trans (congrArg (Option.or · _) stageTables)
      rw [Traced.result_bind]
      exact (fault?_bind_of_none fun _ => rfl).trans (fault?_normalizeTable states none fallback)

/-- A model is normalized row by row, with its stages in ascending order. -/
theorem Model.normalize_eq_ok_iff (m m' : TransitionModel α) (states : List String) :
    (m.normalize states).result = .ok m' ↔ m.sorted.Matches Row.Normalizes m' := by
  cases m with
  | stationary table =>
      simp only [normalize, Traced.result_bind, Traced.result_pure, bind_eq_ok_iff,
        normalizeTable_eq_ok_iff]
      constructor
      · rintro ⟨_, htable, ⟨⟩⟩
        exact .stationary htable
      · rintro ⟨htable⟩
        exact ⟨_, htable, rfl⟩
  | timeVarying stages fallback =>
      have stageTables (stages' : Dict Nat (Table (Row α))) :
          ((sortedStages stages).traverse fun stage t =>
            (normalizeTable states (some stage) t).result) = .ok stages' ↔
          (sortedStages stages).Matches (Dict.Matches (Dict.Matches Row.Normalizes)) stages' :=
        Dict.traverse_eq_ok_iff_matches
          (fun e _ t => normalizeTable_eq_ok_iff states (some e.1) e.2 t) stages'
      simp only [normalize, Traced.result_bind, Traced.result_pure, bind_eq_ok_iff,
        Dict.result_traverse, normalizeTable_eq_ok_iff, stageTables]
      constructor
      · rintro ⟨_, hstages, _, hfallback, ⟨⟩⟩
        exact .timeVarying hstages hfallback
      · rintro (_ | ⟨hstages, hfallback⟩)
        exact ⟨_, hstages, _, hfallback, rfl⟩

end Order

section Fractions

namespace Row

instance (row : Row ℚ) : Decidable row.Nonnegative :=
  inferInstanceAs (Decidable (∀ e ∈ row.entries, (0 : ℚ) ≤ e.2))

end Row

end Fractions

end BackwardInduction
