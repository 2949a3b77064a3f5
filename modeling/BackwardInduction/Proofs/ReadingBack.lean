import BackwardInduction.Proofs.CellInvariants

/-!
What is written as a raw value is read back as it was. A number that was read is
finite, and a weight is not negative, so that reading takes it again; a map whose
items are read back is so itself, and with it a table.
-/

namespace BackwardInduction

variable {α β : Type} [Scalar α]

/-- What `write` makes of the item reads as the item, wherever it stands. -/
def ReadsBack (item : Place → Value α → Except Fault β) (write : β → Value α) (b : β) : Prop :=
  ∀ place, item place (write b) = .ok b

section Numbers

theorem readsBack_number (place : Place) (v : Value α) (x : α)
    (h : readNumber place v = .ok x) : ReadsBack readNumber scalarValue x := by
  have finite := ((readNumber_eq_ok_iff place v x).mp h).2
  intro place'
  exact (readNumber_eq_ok_iff place' _ x).mpr ⟨.real x, finite⟩

theorem readsBack_weight (place : Place) (v : Value α) (x : α)
    (h : readWeight place v = .ok x) : ReadsBack readWeight scalarValue x := by
  have weight := ((readWeight_eq_ok_iff place v x).mp h).2
  intro place'
  exact (readWeight_eq_ok_iff place' _ x).mpr ⟨.real x, weight⟩

end Numbers

section Maps

variable {item : Place → Value α → Except Fault β} {write : β → Value α}

/-- A map is read back if its items are. -/
theorem readsBack_dict {d : Dict String β} (h : d.All (ReadsBack item write)) :
    ReadsBack (readDict item) (Dict.toValue write) d := by
  intro place
  refine (readDict_eq_ok_iff item place _ d).mpr
    ⟨_, rfl, d.entries, ?_, d.ofList_entries.symm⟩
  rw [List.forall₂_map_left_iff, List.forall₂_same]
  exact fun e he => ⟨rfl, h e he _⟩

end Maps

namespace CellReader

variable {r : CellReader α β} {write : β → Value α}

/-- Whatever cells the reader reads are read back from what `write` makes of them. -/
def Recovers (r : CellReader α β) (write : β → Value α) : Prop :=
  ∀ place v b, r.read place v = .ok b → ReadsBack r.read write b

theorem readsBack_table {t : Table β} (h : t.All (ReadsBack r.read write)) :
    ReadsBack r.table (Table.toValue write) t :=
  readsBack_dict fun e he => readsBack_dict (h e he)

end CellReader

theorem recovers_cost : (costCells : CellReader α α).Recovers scalarValue :=
  readsBack_number

theorem recovers_transition : (transitionCells : CellReader α (Row α)).Recovers Row.toValue :=
  fun place v row h => readsBack_dict (all_readDict readsBack_weight place v row h)

/-- Terminal values are read back. -/
theorem readSalvage_toValue {v : Value α} {salvage : Dict String α}
    (h : readSalvage v = .ok salvage) :
    readSalvage (Dict.toValue scalarValue salvage) = .ok salvage := by
  exact readsBack_dict (all_readSalvage readsBack_number h) _

end BackwardInduction
