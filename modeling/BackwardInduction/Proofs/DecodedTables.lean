import BackwardInduction.Proofs.JsonValues
import BackwardInduction.Proofs.MatchingDicts

/-!
What is read of decoded values. A reader reads as a relation if it gives exactly what the
relation holds of; a mapping that it reads item by item keeps its keys and their order,
whatever the depth. So the tables that can be read, and what they become, are told
without the reader.
-/

namespace BackwardInduction

variable {α β : Type}

theorem Dict.toEntries_inj {d e : Dict String (Value α)} :
    d.toEntries = e.toEntries ↔ d = e := by
  constructor
  · intro h
    have injective : Function.Injective fun e : String × Value α =>
        ((.text e.1, e.2) : Key α × Value α) := by
      rintro ⟨k, v⟩ ⟨k', v'⟩ ⟨⟩
      rfl
    exact Dict.ext (List.map_injective_iff.mpr injective h)
  · exact congrArg _

namespace Value

/-- The value is a mapping that matches the map. -/
def Holds (R : Value α → β → Prop) (v : Value α) (d : Dict String β) : Prop :=
  ∃ raw : Dict String (Value α), v = .map raw.toEntries ∧ raw.Matches R d

/-- The value is a mapping whose values have the property. -/
def IsMapOf (P : Value α → Prop) (v : Value α) : Prop :=
  ∃ raw : Dict String (Value α), v = .map raw.toEntries ∧ raw.All P

theorem holds_map_iff {R : Value α → β → Prop} (raw : Dict String (Value α))
    (d : Dict String β) : (Value.map raw.toEntries).Holds R d ↔ raw.Matches R d := by
  constructor
  · rintro ⟨raw', heq, h⟩
    rw [Value.map.injEq, Dict.toEntries_inj] at heq
    rwa [heq]
  · exact fun h => ⟨raw, rfl, h⟩

/-- A map that is written as a value, item by item, is what this value holds. -/
theorem holds_toValue {R : Value α → β → Prop} {f : β → Value α} (h : ∀ b, R (f b) b)
    (d : Dict String β) : (Dict.toValue f d).Holds R d := by
  rw [Dict.toValue_eq, holds_map_iff, Dict.Matches, Dict.entries_mapValues,
    List.forall₂_map_left_iff, List.forall₂_same]
  exact fun e _ => ⟨rfl, h e.2⟩

theorem exists_holds_iff {R : Value α → β → Prop} {P : Value α → Prop}
    (hP : ∀ v, P v ↔ ∃ b, R v b) (v : Value α) : (∃ d, v.Holds R d) ↔ v.IsMapOf P := by
  constructor
  · rintro ⟨d, raw, hv, h⟩
    exact ⟨raw, hv, fun e he => (hP e.2).mpr ((raw.exists_matches_iff).mp ⟨d, h⟩ e he)⟩
  · rintro ⟨raw, hv, h⟩
    obtain ⟨d, hd⟩ := (raw.exists_matches_iff).mpr fun e he => (hP e.2).mp (h e he)
    exact ⟨d, raw, hv, hd⟩

variable [Scalar α]

/-- The value denotes the finite number. -/
def Amount (v : Value α) (x : α) : Prop :=
  v.Denotes x ∧ Scalar.isFinite x = true

/-- The value denotes the finite number, which is not below zero. -/
def Weight (v : Value α) (x : α) : Prop :=
  v.Denotes x ∧ Scalar.isFinite x = true ∧ ¬x < 0

end Value

variable [Scalar α]

/-- Of decoded values the reader gives exactly what the relation holds of. -/
def ReadsAs (item : Place → Value α → Except Fault β) (R : Value α → β → Prop) : Prop :=
  ∀ place v b, v.Decoded → (item place v = .ok b ↔ R v b)

theorem readsAs_number : ReadsAs (readNumber (α := α)) Value.Amount :=
  fun place v x _ => readNumber_eq_ok_iff place v x

theorem readsAs_weight : ReadsAs (readWeight (α := α)) Value.Weight :=
  fun place v x _ => readWeight_eq_ok_iff place v x

section Maps

variable {item : Place → Value α → Except Fault β} {R : Value α → β → Prop}

/-- Texts over decoded values are read by reading the values. -/
theorem forall₂_readsEntry_iff (hitem : ReadsAs item R) (place : Place)
    {raw : Dict String (Value α)} (hraw : raw.All Value.Decoded) (es : List (String × β)) :
    List.Forall₂ (ReadsEntry item place) raw.toEntries es ↔
      List.Forall₂ (Dict.Pairs R) raw.entries es := by
  rw [Dict.toEntries, List.forall₂_map_left_iff]
  exact forall₂_congr_left fun e he e' => and_congr_right fun _ => hitem _ e.2 e'.2 (hraw e he)

/-- A mapping is read by reading its values. -/
theorem readsAs_dict (hitem : ReadsAs item R) : ReadsAs (readDict item) (Value.Holds R) := by
  intro place v d hv
  rw [readDict_eq_ok_iff]
  cases hv with
  | null | bool _ | number _ | text _ | list _ =>
      constructor
      · rintro ⟨_, ⟨⟩, _⟩
      · rintro ⟨_, ⟨⟩, _⟩
  | @map raw hraw =>
      have written {es : List (String × β)} (hes : List.Forall₂ (Dict.Pairs R) raw.entries es) :
          (Dict.ofList es).entries = es :=
        Dict.entries_ofList ((Dict.keys_of_pairs hes).symm ▸ raw.nodup)
      rw [Value.holds_map_iff, Dict.Matches]
      constructor
      · rintro ⟨_, ⟨⟩, es, hes, rfl⟩
        have values := (forall₂_readsEntry_iff hitem place hraw es).mp hes
        rwa [written values]
      · intro h
        refine ⟨_, rfl, d.entries, (forall₂_readsEntry_iff hitem place hraw _).mpr h, ?_⟩
        exact (Dict.ext (written h)).symm

end Maps

theorem readsAs_costCells : ReadsAs (costCells (α := α)).read Value.Amount :=
  readsAs_number

theorem readsAs_transitionCells :
    ReadsAs (transitionCells (α := α)).read (Value.Holds Value.Weight) :=
  readsAs_dict readsAs_weight

namespace CellReader

variable {r : CellReader α β} {R : Value α → β → Prop}

theorem readsAs_table (hr : ReadsAs r.read R) :
    ReadsAs r.table (Value.Holds (Value.Holds R)) :=
  readsAs_dict (readsAs_dict hr)

theorem table_eq_ok_iff (hr : ReadsAs r.read R) (place : Place)
    {raw : Dict String (Value α)} (hraw : raw.All Value.Decoded) (table : Table β) :
    r.table place (.map raw.toEntries) = .ok table ↔ raw.Matches (Value.Holds R) table := by
  rw [readsAs_table hr place _ table (.map hraw), Value.holds_map_iff]

/-- The tables of layers are read by reading the layers. -/
theorem stageTables_eq_ok_iff (hr : ReadsAs r.read R) {layers : Dict Nat (Value α)}
    (hlayers : layers.All Value.Decoded) (tables : Dict Nat (Table β)) :
    r.stageTables layers = .ok tables ↔
      layers.Matches (Value.Holds (Value.Holds R)) tables := by
  refine Dict.traverse_eq_ok_iff_matches (fun (e : Nat × Value α) he table => ?_) tables
  exact readsAs_table hr (r.place.stage e.1) e.2 table (hlayers e he)

end CellReader

end BackwardInduction
