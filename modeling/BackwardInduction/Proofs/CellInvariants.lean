import BackwardInduction.Model.Normal
import BackwardInduction.Proofs.ReadModels

/-!
Properties of every cell of a model. What the reader of cells establishes holds of
all cells that are read, and a look-up finds nothing but cells.
-/

namespace BackwardInduction

variable {α β κ ν μ : Type}

/-- Every value of the map has the property. -/
def Dict.All (P : ν → Prop) (d : Dict κ ν) : Prop :=
  ∀ e ∈ d.entries, P e.2

/-- Every cell of the table has the property. -/
def Table.All (P : β → Prop) (t : Table β) : Prop :=
  Dict.All (Dict.All P) t

/-- Every cell of every table has the property. -/
def Model.All (P : β → Prop) : Model β → Prop
  | .stationary table => table.All P
  | .timeVarying stages fallback => stages.All (Table.All P) ∧ fallback.All P

namespace Dict

theorem all_empty (P : ν → Prop) : (∅ : Dict κ ν).All P := by
  intro e he
  cases he

theorem all_traverse {P : μ → Prop} {f : κ → ν → Except Fault μ} {d : Dict κ ν}
    {e : Dict κ μ} (h : d.traverse f = .ok e)
    (hf : ∀ k v x, (k, v) ∈ d.entries → f k v = .ok x → P x) : e.All P := by
  intro e' he'
  obtain ⟨v, hv, hx⟩ := exists_of_yields ((traverse_eq_ok_iff f d e).mp h) he'
  exact hf _ _ _ hv hx

theorem all_mapValues {P : μ → Prop} {d : Dict κ ν} {f : κ → ν → μ}
    (h : ∀ e ∈ d.entries, P (f e.1 e.2)) : (d.mapValues f).All P := by
  intro e he
  obtain ⟨e', he', rfl⟩ := List.mem_map.mp he
  exact h e' he'

variable [DecidableEq κ]

theorem mem_write {k : κ} {v : ν} {es : List (κ × ν)} {e : κ × ν} (h : e ∈ write k v es) :
    e = (k, v) ∨ e ∈ es := by
  induction es with
  | nil => exact .inl (List.mem_singleton.mp h)
  | cons e' es ih =>
      rw [write] at h
      split at h
      · exact (List.mem_cons.mp h).imp_right (List.mem_cons_of_mem _)
      · rcases List.mem_cons.mp h with rfl | h
        · exact .inr List.mem_cons_self
        · exact (ih h).imp_right (List.mem_cons_of_mem _)

theorem all_insert {P : ν → Prop} {d : Dict κ ν} (h : d.All P) (k : κ) {v : ν} (hv : P v) :
    (d.insert k v).All P := by
  intro e he
  rcases mem_write he with rfl | he
  · exact hv
  · exact h e he

theorem all_foldl_insert {P : ν → Prop} {es : List (κ × ν)} (h : ∀ e ∈ es, P e.2)
    {d : Dict κ ν} (hd : d.All P) :
    (es.foldl (fun d e => d.insert e.1 e.2) d).All P := by
  induction es generalizing d with
  | nil => exact hd
  | cons e es ih =>
      have head := all_insert hd e.1 (h e List.mem_cons_self)
      exact ih (fun e' he' => h e' (List.mem_cons_of_mem _ he')) head

theorem all_ofList {P : ν → Prop} {es : List (κ × ν)} (h : ∀ e ∈ es, P e.2) :
    (ofList es).All P :=
  all_foldl_insert h (all_empty P)

theorem all_ofKeys {P : ν → Prop} {keys : List κ} {f : κ → ν} (h : ∀ k ∈ keys, P (f k)) :
    (ofKeys keys f).All P := by
  refine all_ofList fun e he => ?_
  obtain ⟨k, hk, rfl⟩ := List.mem_map.mp he
  exact h k hk

theorem all_update {P : ν → Prop} {d e : Dict κ ν} (hd : d.All P) (he : e.All P) :
    (d.update e).All P :=
  all_foldl_insert he hd

theorem all_get? {P : ν → Prop} {d : Dict κ ν} (h : d.All P) {k : κ} {v : ν}
    (hv : d.get? k = some v) : P v :=
  h _ ((d.get?_eq_some_iff k v).mp hv)

end Dict

section Reading

variable [Scalar α]

theorem all_readDict {P : β → Prop} {item : Place → Value α → Except Fault β}
    (hitem : ∀ place v b, item place v = .ok b → P b) (place : Place) (v : Value α)
    (d : Dict String β) (h : readDict item place v = .ok d) : d.All P := by
  obtain ⟨entries, _, es, hes, rfl⟩ := (readDict_eq_ok_iff item place v d).mp h
  refine Dict.all_ofList fun e he => ?_
  obtain ⟨_, _, _, hread⟩ := exists_of_forall₂ hes he
  exact hitem _ _ _ hread

theorem all_readSalvage {P : α → Prop} (hread : ∀ place v x, readNumber place v = .ok x → P x)
    {v : Value α} {salvage : Dict String α} (h : readSalvage v = .ok salvage) : salvage.All P := by
  unfold readSalvage at h
  split at h
  · cases h
    exact Dict.all_empty P
  · exact all_readDict hread _ _ _ h

namespace CellReader

variable {r : CellReader α β} {P : β → Prop}
  (hread : ∀ place v b, r.read place v = .ok b → P b)
include hread

theorem all_table (place : Place) (v : Value α) (t : Table β) (h : r.table place v = .ok t) :
    t.All P :=
  all_readDict (all_readDict hread) place v t h

theorem all_stageTables {layers : Dict Nat (Value α)} {tables : Dict Nat (Table β)}
    (h : r.stageTables layers = .ok tables) : tables.All (Table.All P) :=
  Dict.all_traverse h fun _ v t _ => all_table hread _ v t

theorem all_model {v : Value α} {states : List String} {layout : Layout} {m : Model β}
    (h : (r.model v states layout).result = .ok m) : m.All P := by
  cases (r.model_eq_ok_iff v states layout m).mp h with
  | stationary htable => exact all_table hread _ _ _ htable
  | timeVarying _ htables htable =>
      exact ⟨all_stageTables hread htables, all_table hread _ _ _ htable⟩
  | whole _ _ htable => exact all_table hread _ _ _ htable
  | parted _ _ htables htable =>
      exact ⟨all_stageTables hread htables, all_table hread _ _ _ htable⟩

end CellReader

end Reading

section Normalizing

variable [Scalar α]

theorem result_normalizeCell (states : List String) (stage : Option Nat)
    (state action : String) (row : Row α) :
    (normalizeCell states stage state action row).result =
      row.normalize (stage.map Int.ofNat) state action := by
  dsimp only [normalizeCell]
  split
  · rw [Traced.result_bind]
    rfl
  · rfl

theorem perm_sortedStages (stages : Dict Nat (Table β)) :
    (Model.sortedStages stages).entries.Perm stages.entries :=
  List.mergeSort_perm _ _

theorem mem_sortedStages {stages : Dict Nat (Table β)} {e : Nat × Table β}
    (h : e ∈ (Model.sortedStages stages).entries) : e ∈ stages.entries :=
  (perm_sortedStages stages).mem_iff.mp h

end Normalizing

section Lookup

variable {P : β → Prop}

theorem Table.all_cell? {t : Table β} (h : t.All P) {state action : String} {b : β}
    (hb : t.cell? state action = some b) : P b := by
  obtain ⟨cells, hcells, hb⟩ := Option.bind_eq_some_iff.mp hb
  exact Dict.all_get? (Dict.all_get? h hcells) hb

/-- The cells of a model are those of the tables of its stages and of the common table. -/
theorem Model.all_iff (m : Model β) :
    m.All P ↔ (∀ stage t, m.stageTable? stage = some t → t.All P) ∧ m.commonTable.All P := by
  cases m with
  | stationary table =>
      have none_staged : ∀ stage t, (Model.stationary table).stageTable? stage = some t →
          t.All P := by
        rintro _ _ ⟨⟩
      exact ⟨fun h => ⟨none_staged, h⟩, And.right⟩
  | timeVarying stages fallback =>
      refine and_congr_left fun _ => ?_
      constructor
      · exact fun h stage t ht => Dict.all_get? h ht
      · exact fun h e he => h e.1 e.2 ((stages.get?_eq_some_iff e.1 e.2).mpr he)

/-- Every cell that a look-up finds is one of the model. -/
theorem Model.all_find? {m : Model β} (h : m.All P) {counts : β → Bool} {stage : Nat}
    {state action : String} {b : β} (hb : m.find? counts stage state action = some b) :
    P b := by
  obtain ⟨stages, common⟩ := m.all_iff.mp h
  rcases Option.or_eq_some_iff.mp hb with hb | ⟨_, hb⟩
  · obtain ⟨hb, _⟩ := Option.filter_eq_some_iff.mp hb
    obtain ⟨t, ht, hcell⟩ := Option.bind_eq_some_iff.mp hb
    exact Table.all_cell? (stages stage t ht) hcell
  · exact Table.all_cell? common (Option.filter_eq_some_iff.mp hb).1

end Lookup

end BackwardInduction
