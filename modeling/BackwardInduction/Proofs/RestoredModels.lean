import BackwardInduction.Proofs.DocumentRoundTrip
import BackwardInduction.Proofs.InstanceRequirements
import BackwardInduction.Proofs.KeptEntries
import BackwardInduction.Proofs.KeyTexts
import BackwardInduction.Proofs.ShuffledModels

/-!
Which models are restored from their flat form when no states are declared. A stationary model
is, under its own layout. Stages are told apart from the table behind them by their texts alone,
so that there must be some, and no state behind them may look like one. What comes of a plain
value is always so, whatever its keys are; a marked model need not be.
-/

namespace BackwardInduction

variable {α β : Type}

namespace Model

/-- The layout a flat model is read under: its own if it is stationary, and else none is given. -/
def flatLayout : Model β → Layout
  | .stationary _ => .stationary
  | .timeVarying _ _ => .auto

/-- If the model has stages, then in fact some, and no state behind them looks like a stage. -/
def Partable : Model β → Prop
  | .stationary _ => True
  | .timeVarying stages fallback =>
      stages.entries ≠ [] ∧ ∀ state ∈ fallback.keys, stageOfText state = .ok none

theorem Agrees.alike {S : β → β → Prop} (hS : ∀ b, S b b) {m m' : Model β} (h : m.Agrees m') :
    m.Alike S m' := by
  have cells (d : Dict String β) : d.Alike S d := .of_perm (fun e => ⟨rfl, hS e.2⟩) (.refl _)
  have table (t : Table β) : Dict.Alike (Dict.Alike S) t t :=
    .of_perm (fun e => ⟨rfl, cells e.2⟩) (.refl _)
  cases h with
  | stationary t => exact .stationary (table t)
  | timeVarying perm fallback =>
      exact .timeVarying (.of_perm (fun e => ⟨rfl, table e.2⟩) perm) (table fallback)

theorem Alike.partable {S : β → β → Prop} {m m' : Model β} (h : m'.Alike S m)
    (hm' : m'.Separable) : m.Partable := by
  cases h with
  | stationary => trivial
  | timeVarying hs hf =>
      obtain ⟨hne, _, hstates⟩ := hm'
      refine ⟨fun hnil => hne ?_, fun state h => hstates state ((hf.mem_keys_iff state).mp h)⟩
      have keys := Dict.perm_keys_of_rearranges hs
      rw [hnil] at keys
      exact List.map_eq_nil_iff.mp keys.eq_nil

end Model

variable [Scalar α]

/-- The model is read again from its flat form, with no states declared, up to the order in its
maps and where `S` compares the cells. -/
def CellReader.Restores (r : CellReader α β) (write : β → Value α) (S : β → β → Prop)
    (m : Model β) : Prop :=
  ∃ m', (r.model (Problem.flatValue (m.flatten write)) [] m.flatLayout).result = .ok m' ∧
    m'.Alike S m

/-- No key that may be one of a stage is a whole number beyond the digit limit: such a number has
no text, and a model with it for a stage cannot be flattened. -/
def Value.NumbersWithin (v : Value α) : Prop :=
  ∀ n : Nat, Key.number (.whole n) ∈ v.stageKeys → n < stageBound

namespace CellReader

variable {r : CellReader α β} {write : β → Value α} {S : β → β → Prop} {m : Model β}

theorem restores_of_fitsLayout (hS : ∀ b, S b b) (hcells : m.All (ReadsBack r.read write))
    (hfits : FitsLayout m.flatLayout m) : r.Restores write S m := by
  have unnamed : ¬m.NamesState [] := by
    cases m with
    | stationary => exact id
    | timeVarying stages _ => exact fun ⟨_, _, hstate⟩ => List.not_mem_nil hstate
  exact ⟨m.sorted, result_model_again hfits hcells unnamed, m.agrees_sorted.alike hS⟩

theorem partable_of_restores (h : r.Restores write S m) : m.Partable := by
  obtain ⟨m', hm', alike⟩ := h
  cases m with
  | stationary => trivial
  | timeVarying stages fallback =>
      have texts : ∀ e ∈ (Model.flatten write (.timeVarying stages fallback)).entries.map
          fun e => ((.text e.1, e.2) : Key α × Value α), e.1.KeepsStage := by
        intro e he
        obtain ⟨e', _, rfl⟩ := List.mem_map.mp he
        exact Key.keepsStage_text e'.1
      rcases separable_of_model (plainEntries_flatValue _) texts hm' with ⟨hlayout, _⟩ | ⟨_, hsep⟩
      · cases hlayout
      · exact alike.partable hsep

end CellReader

section Doubles

theorem Key.keepsStage {k : Key Float} (h : ∀ n : Nat, k = .number (.whole n) → n < stageBound) :
    k.KeepsStage := by
  refine ⟨(stageOfText_display_iff k).mpr, fun stage hstage => ?_⟩
  cases k with
  | null | bool _ => cases hstage
  | text s => exact lt_stageBound hstage
  | number n =>
      cases n with
      | real x => cases hstage
      | whole i =>
          rw [Key.stage] at hstage
          split at hstage
          · rename_i hi
            cases hstage
            exact h i.toNat (by rw [Int.toNat_of_nonneg hi])
          · cases hstage

end Doubles

namespace CellReader

variable {r : CellReader Float β} {write : β → Value Float} {S : β → β → Prop} {v : Value Float}
  {states : List String} {layout : Layout} {m : Model β}

theorem mem_stageKeys_of_laidOut {stages : Entries Float} {common : Value Float}
    (h : v.LaidOut layout stages common) {e : Key Float × Value Float} (he : e ∈ stages) :
    e.1 ∈ v.stageKeys := by
  cases h with
  | stationary => cases he
  | timeVarying => exact List.mem_map_of_mem he
  | plain hv =>
      have hm := List.mem_of_mem_filter he
      cases hv with
      | null => cases hm
      | map => exact List.mem_map_of_mem hm

theorem lt_stageBound_of_model (hr : Placeless r.read) (hv : v.NumbersWithin)
    (h : (r.model v states layout).result = .ok m) {e : Nat × Table β}
    (he : e ∈ m.stageEntries) : e.1 < stageBound := by
  obtain ⟨stages, common, laidOut, hstages, _⟩ := exists_laidOut hr h
  obtain ⟨e', he', hstage, _⟩ := exists_of_forall₂ hstages he
  have key := mem_stageKeys_of_laidOut laidOut he'
  exact (Key.keepsStage fun n hn => hv n (hn ▸ key)).2 e.1 hstage

theorem fitsLayout_of_partable (hm : m.Partable) (hstages : ∀ e ∈ m.stageEntries, e.1 < stageBound) :
    FitsLayout m.flatLayout m := by
  cases m with
  | stationary table => exact .inl ⟨rfl, table, rfl⟩
  | timeVarying stages fallback =>
      exact .inr ⟨rfl, hm.1, List.forall_mem_map.mpr hstages, hm.2⟩

/-- Whatever the keys of a plain value are, what is read of it fits the layout of its flat form. -/
theorem fitsLayout_of_plain (hv : v.NumbersWithin) {entries : Entries Float}
    (plain : PlainEntries v entries) (h : (r.model v states layout).result = .ok m) :
    FitsLayout m.flatLayout m := by
  have keys : ∀ e ∈ entries, e.1.KeepsStage := by
    intro e he
    cases plain with
    | null => cases he
    | map => exact Key.keepsStage fun n hn => hv n (hn ▸ List.mem_map_of_mem he)
  rcases separable_of_model plain keys h with ⟨_, table, rfl⟩ | ⟨_, hm⟩
  · exact .inl ⟨rfl, table, rfl⟩
  · cases m with
    | stationary table => exact .inl ⟨rfl, table, rfl⟩
    | timeVarying => exact .inr ⟨rfl, hm⟩

theorem not_partable_of_marked (hr : Placeless r.read) {stages fallback : Entries Float}
    (h : (r.model (.timeVarying (.map stages) (.map fallback)) states layout).result = .ok m)
    (hkeys : stages = [] ∨ ∃ e ∈ fallback, e.1.stage ≠ .ok none) : ¬m.Partable := by
  obtain ⟨_, tables, table, ⟨⟩, hstages, htable, rfl⟩ :=
    (model_timeVarying_eq_ok_iff hr _ _ states layout m).mp h
  rintro ⟨hne, hunstaged⟩
  rcases hkeys with rfl | ⟨e, he, hstage⟩
  · exact hne (List.forall₂_nil_left_iff.mp hstages)
  · have key := (mem_keys_of_readDict htable e.1.display).mpr ⟨e, he, rfl⟩
    exact hstage ((stageOfText_display_iff e.1).mp (hunstaged _ key))

variable (r write S v m) in
/-- When a model that was read of the value is restored. -/
structure RestoresIf : Prop where
  restores_iff : r.Restores write S m ↔ m.Partable
  of_plain : ∀ entries, PlainEntries v entries → r.Restores write S m
  not_of_marked : ∀ stages fallback, v = .timeVarying (.map stages) (.map fallback) →
    (stages = [] ∨ ∃ e ∈ fallback, e.1.stage ≠ .ok none) → ¬r.Restores write S m

theorem restoresIf (hr : Placeless r.read) (hrecovers : r.Recovers write) (hv : v.NumbersWithin)
    (hS : ∀ b, S b b) (h : (r.model v states layout).result = .ok m) :
    r.RestoresIf write S v m := by
  have cells := all_model hrecovers h
  refine ⟨⟨partable_of_restores, fun hm => ?_⟩, fun entries plain => ?_, ?_⟩
  · have hstages (e : Nat × Table β) (he : e ∈ m.stageEntries) := lt_stageBound_of_model hr hv h he
    exact restores_of_fitsLayout hS cells (fitsLayout_of_partable hm hstages)
  · exact restores_of_fitsLayout hS cells (fitsLayout_of_plain hv plain h)
  · rintro stages fallback rfl hkeys hrestores
    exact not_partable_of_marked hr h hkeys (partable_of_restores hrestores)

end CellReader

/-- A model that was read is restored from its flat form exactly if its stages can be told from
the table behind them; one of a plain value always is, and a marked one without stages or with a
stage for a state never. The cells may be compared by any reflexive relation. -/
theorem read_models_restored {v : Value Float} (hv : v.NumbersWithin) (states : List String)
    (layout : Layout) :
    (∀ m, (readCosts v states layout).result = .ok m →
      ∀ S : Float → Float → Prop, (∀ x, S x x) → costCells.RestoresIf scalarValue S v m) ∧
    ∀ m, (readTransitions v states layout).result = .ok m →
      ∀ S : Row Float → Row Float → Prop, (∀ row, S row row) →
        transitionCells.RestoresIf Row.toValue S v m :=
  ⟨fun _ hm _ hS => CellReader.restoresIf placeless_costCells recovers_cost hv hS hm,
    fun _ hm _ hS => CellReader.restoresIf placeless_transitionCells recovers_transition hv hS hm⟩

/-- Costs with two stages, and with keys of all kinds that are none. -/
def mixedCosts : Value Float :=
  .map
    [ (.number (.whole 2), .map [(.text "A", .map [(.text "a", .number (.whole 5))])]),
      (.text " 01 ", .map []), (.number (.whole (-3)), .map []),
      (.number (.real 1.5), .map []), (.bool true, .map []), (.null, .map []) ]

/-- Marked transitions with a state that looks like a stage. -/
def stagedFallback : Value Float :=
  .timeVarying (.map [(.number (.whole 0), .map [])]) (.map [(.text "7", .map [])])

theorem mixedCosts_restored :
    (∃ m, (readCosts mixedCosts [] .auto).result = .ok m ∧
      (m.stageEntries.map Prod.fst, m.commonTable.keys) =
        ([2, 1], ["-3", "1.5", "True", "None"]) ∧
      costCells.Restores scalarValue Eq m) ∧
    ∃ m, (readTransitions stagedFallback [] .auto).result = .ok m ∧
      ¬transitionCells.Restores Row.toValue Eq m := by
  constructor
  · obtain ⟨m, hm, keys⟩ := exists_ok_of_map_toOption
      (x := (readCosts mixedCosts [] .auto).result)
      (f := fun m => (m.stageEntries.map Prod.fst, m.commonTable.keys))
      (c := ([2, 1], ["-3", "1.5", "True", "None"])) (by decide +kernel)
    have within : mixedCosts.NumbersWithin := by
      intro n hn
      have hn : n = 2 := by simp [mixedCosts, Value.stageKeys] at hn; omega
      rw [hn]
      decide +kernel
    have restored := (read_models_restored within [] .auto).1 m hm Eq fun _ => rfl
    exact ⟨m, hm, keys, restored.of_plain _ (.map _)⟩
  · obtain ⟨m, hm, _⟩ := exists_ok_of_map_toOption
      (x := (readTransitions stagedFallback [] .auto).result) (f := fun _ => ()) (c := ())
      (by decide +kernel)
    have within : stagedFallback.NumbersWithin := by
      intro n hn
      have hn : n = 0 := by simpa [stagedFallback, Value.stageKeys] using hn
      rw [hn]
      decide +kernel
    have restored := (read_models_restored within [] .auto).2 m hm Eq fun _ => rfl
    have named : stageOfText "7" ≠ .ok none := by decide +kernel
    exact ⟨m, hm, restored.not_of_marked _ _ rfl (.inr ⟨_, List.mem_cons_self, named⟩)⟩

end BackwardInduction
