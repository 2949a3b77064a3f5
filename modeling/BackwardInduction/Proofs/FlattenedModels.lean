import BackwardInduction.Problem.Document
import BackwardInduction.Proofs.ReadingBack
import BackwardInduction.Proofs.StageParting
import BackwardInduction.Proofs.StageTexts

/-!
Reading a flattened model again. A model is separable if stages and states can be
told apart by their texts alone, as they can in whatever was read with no layout
given. Flattened, it reads as itself with its stages in order, unless the text of
a stage is the name of a state.
-/

namespace BackwardInduction

variable {α β : Type}

namespace Model

/-- The texts of the keys say which of them are stages. -/
def Separable : Model β → Prop
  | .stationary table => ∀ state ∈ table.keys, stageOfText state = .ok none
  | .timeVarying stages fallback =>
      stages.entries ≠ [] ∧ (∀ stage ∈ stages.keys, stage < stageBound) ∧
        ∀ state ∈ fallback.keys, stageOfText state = .ok none

/-- Some stage has the name of a state for its text. -/
def NamesState (states : List String) : Model β → Prop
  | .stationary _ => False
  | .timeVarying stages _ => ∃ stage ∈ stages.keys, toString stage ∈ states

instance (states : List String) (m : Model β) : Decidable (m.NamesState states) :=
  match m with
  | .stationary _ => inferInstanceAs (Decidable False)
  | .timeVarying stages _ =>
      inferInstanceAs (Decidable (∃ stage ∈ stages.keys, toString stage ∈ states))

/-- The model with its stages in ascending order. -/
def sorted : Model β → Model β
  | .stationary table => .stationary table
  | .timeVarying stages fallback => .timeVarying (sortedStages stages) fallback

theorem mem_keys_sortedStages (stages : Dict Nat (Table β)) (stage : Nat) :
    stage ∈ (sortedStages stages).keys ↔ stage ∈ stages.keys :=
  ((perm_sortedStages stages).map Prod.fst).mem_iff

end Model

variable [Scalar α]

/-- The text of the key says which stage it names, if any: one within the digit limit, or none
where the key names none. -/
def Key.KeepsStage (k : Key α) : Prop :=
  (k.stage = .ok none → stageOfText k.display = .ok none) ∧
    ∀ stage, k.stage = .ok (some stage) → stage < stageBound

theorem Key.keepsStage_text (s : String) : (Key.text s : Key α).KeepsStage :=
  ⟨id, fun _ => lt_stageBound⟩

namespace CellReader

variable {r : CellReader α β}

theorem unstaged_table {entries es : Entries α} (hkeys : ∀ e ∈ entries, e.1.KeepsStage)
    {place : Place} {table : Table β} (htable : r.table place (.map es) = .ok table)
    (hes : ∀ e ∈ es, e ∈ entries ∧ e.1.stage = .ok none) :
    ∀ state ∈ table.keys, stageOfText state = .ok none := by
  intro state hstate
  obtain ⟨e, he, rfl⟩ := (mem_keys_of_readDict htable state).mp hstate
  obtain ⟨hm, hstage⟩ := hes e he
  exact (hkeys e hm).1 hstage

/-- Where the layout does not fix it, a model that was read is separable if the texts of its
keys say which of them are stages. -/
theorem separable_of_model {v : Value α} {entries : Entries α} (hv : PlainEntries v entries)
    (hkeys : ∀ e ∈ entries, e.1.KeepsStage) {states : List String} {layout : Layout}
    {m : Model β} (h : (r.model v states layout).result = .ok m) :
    (layout = .stationary ∧ ∃ table, m = .stationary table) ∨
      (layout ≠ .stationary ∧ m.Separable) := by
  cases (r.model_eq_ok_iff v states layout m).mp h with
  | stationary | timeVarying => cases hv
  | @whole _ entries' table hv' hlayers htable =>
      cases hv.unique hv'
      cases (r.layers?_eq_ok_iff entries states layout none).mp hlayers with
      | stationary => exact .inl ⟨rfl, table, rfl⟩
      | whole hlayout hkeyed _ hstaged =>
          refine .inr ⟨by rcases hlayout with rfl | rfl <;> simp, ?_⟩
          exact unstaged_table hkeys htable fun e he =>
            ⟨he, stage_of_staged_eq_nil hkeyed hstaged he⟩
  | @parted _ entries' others' layers tables table hv' hlayers htables htable =>
      cases hv.unique hv'
      cases (r.layers?_eq_ok_iff entries states layout _).mp hlayers with
      | @parted _ _ keyed _ hlayout hkeyed _ hstaged _ hentries =>
          have keys : tables.keys = (staged keyed).map Prod.fst := by
            have h := Dict.keys_of_yields ((Dict.traverse_eq_ok_iff _ _ _).mp htables)
            rw [hentries, List.map_map] at h
            exact h
          refine .inr ⟨by rcases hlayout with rfl | rfl <;> simp, ?_, ?_, ?_⟩
          · intro hnil
            have hempty : tables.keys = [] := by rw [Dict.keys, hnil]; rfl
            rw [hempty] at keys
            exact hstaged (List.map_eq_nil_iff.mp keys.symm)
          · intro stage hstage
            rw [keys] at hstage
            obtain ⟨e, he, rfl⟩ := List.mem_map.mp hstage
            obtain ⟨hm, hstage⟩ := stage_of_mem_staged hkeyed he
            exact (hkeys e.2 hm).2 e.1 hstage
          · exact unstaged_table hkeys htable fun e he => stage_of_mem_others hkeyed he

section Flattened

variable {write : β → Value α}

omit [Scalar α] in
theorem plainEntries_flatValue (d : Dict String (Value α)) :
    PlainEntries (Problem.flatValue d) (d.entries.map fun e => (.text e.1, e.2)) :=
  .map _

omit [Scalar α] in
theorem flatValue_stationary (table : Table β) :
    Problem.flatValue (Model.flatten write (.stationary table)) = Table.toValue write table := by
  simp [Problem.flatValue, Model.flatten, Table.toValue, Dict.toValue]

/-- A stationary model is read again from its flat form if the layout says so. -/
theorem result_model_flatten_stationary {table : Table β}
    (hcells : table.All (ReadsBack r.read write)) (states : List String) :
    (r.model (Problem.flatValue (Model.flatten write (.stationary table))) states
      .stationary).result = .ok (.stationary table) := by
  rw [flatValue_stationary]
  exact (r.model_eq_ok_iff _ states _ _).mpr
    (.whole (.map _) ((r.layers?_eq_ok_iff _ states _ none).mpr (.stationary _))
      (readsBack_table hcells _))

/-- The entries of a flat model with their stages: those of the stages, then those of the
table behind them. -/
def flatKeyed (write : β → Value α) (stages : Dict Nat (Table β)) (fallback : Table β) :
    List (Option Nat × Key α × Value α) :=
  (stages.entries.map fun e => (some e.1, .text (toString e.1), Table.toValue write e.2)) ++
    fallback.entries.map fun e => (none, .text e.1, Dict.toValue write e.2)

omit [Scalar α] in
theorem staged_flatKeyed (stages : Dict Nat (Table β)) (fallback : Table β) :
    staged (flatKeyed write stages fallback) =
      stages.entries.map fun e => (e.1, .text (toString e.1), Table.toValue write e.2) := by
  simp [staged, flatKeyed]

omit [Scalar α] in
theorem others_flatKeyed (stages : Dict Nat (Table β)) (fallback : Table β) :
    others (flatKeyed write stages fallback) =
      fallback.entries.map fun e => (.text e.1, Dict.toValue write e.2) := by
  simp [others, flatKeyed]

omit [Scalar α] in
theorem keyed_flatKeyed {stages : Dict Nat (Table β)} {fallback : Table β}
    (hstages : ∀ stage ∈ stages.keys, stage < stageBound)
    (hfallback : ∀ state ∈ fallback.keys, stageOfText state = .ok none) :
    Keyed ((flatKeyed write stages fallback).map Prod.snd)
      (flatKeyed write stages fallback) := by
  refine ⟨rfl, ?_⟩
  intro e he
  rcases List.mem_append.mp he with he | he
  · obtain ⟨e', he', rfl⟩ := List.mem_map.mp he
    exact stageOfText_toString (hstages _ (List.mem_map_of_mem he'))
  · obtain ⟨e', he', rfl⟩ := List.mem_map.mp he
    exact hfallback _ (List.mem_map_of_mem he')

omit [Scalar α] in
theorem keyed_sortedStages (write : β → Value α) {stages : Dict Nat (Table β)}
    {fallback : Table β} (hstages : ∀ stage ∈ stages.keys, stage < stageBound)
    (hfallback : ∀ state ∈ fallback.keys, stageOfText state = .ok none) :
    Keyed ((flatKeyed write (Model.sortedStages stages) fallback).map Prod.snd)
      (flatKeyed write (Model.sortedStages stages) fallback) := by
  refine keyed_flatKeyed (fun stage h => hstages stage ?_) hfallback
  exact (Model.mem_keys_sortedStages stages stage).mp h

omit [Scalar α] in
theorem toString_not_mem_keys {stages : Dict Nat (Table β)} {fallback : Table β}
    (hstages : ∀ stage ∈ stages.keys, stage < stageBound)
    (hfallback : ∀ state ∈ fallback.keys, stageOfText state = .ok none)
    {stage : Nat} (h : stage ∈ stages.keys) : toString stage ∉ fallback.keys := by
  intro hk
  have names := stageOfText_toString (hstages stage h)
  rw [hfallback _ hk] at names
  cases names

omit [Scalar α] in
/-- The flat form of a separable model has every entry of its tables, and no other. -/
theorem entries_flatten {stages : Dict Nat (Table β)} {fallback : Table β}
    (hm : (Model.timeVarying stages fallback).Separable) :
    ((Model.flatten write (.timeVarying stages fallback)).entries.map
        fun e => ((.text e.1, e.2) : Key α × Value α)) =
      (flatKeyed write (Model.sortedStages stages) fallback).map Prod.snd := by
  obtain ⟨_, hstages, hfallback⟩ := hm
  have texts : (((Model.sortedStages stages).entries.map fun e =>
      (toString e.1, Table.toValue write e.2)).map Prod.fst).Nodup := by
    have nodup := (Model.sortedStages stages).nodup.map toString_injective
    simpa [List.map_map, Function.comp_def] using nodup
  rw [Model.flatten, Dict.entries_update, Dict.entries_ofList texts]
  · simp [flatKeyed, Function.comp_def]
  · intro k hk
    rw [Dict.keys_mapValues]
    rw [Dict.keys, Dict.entries_ofList texts] at hk
    obtain ⟨e, he, rfl⟩ := List.mem_map.mp hk
    obtain ⟨e', he', rfl⟩ := List.mem_map.mp he
    exact toString_not_mem_keys hstages hfallback (List.mem_map_of_mem (mem_sortedStages he'))

/-- The layers of a flat model. -/
def flatLayers (write : β → Value α) (stages : Dict Nat (Table β)) : Dict Nat (Value α) :=
  stages.mapValues fun _ table => Table.toValue write table

theorem stageTables_flatLayers {stages : Dict Nat (Table β)}
    (hstages : stages.All (Table.All (ReadsBack r.read write))) :
    r.stageTables (flatLayers write stages) = .ok stages := by
  refine (Dict.traverse_eq_ok_iff _ _ _).mpr ?_
  rw [flatLayers, Dict.entries_mapValues, List.forall₂_map_left_iff, List.forall₂_same]
  intro e he
  exact ⟨rfl, readsBack_table (hstages e he) _⟩

theorem clashes_flatKeyed_eq_nil_iff (stages : Dict Nat (Table β)) (fallback : Table β)
    (states : List String) :
    clashes states (flatKeyed write stages fallback) = [] ↔
      ∀ stage ∈ stages.keys, toString stage ∉ states := by
  have shown (stage : Nat) :
      Text.trim (Key.display (.text (toString stage) : Key α)) = toString stage :=
    trim_toString stage
  rw [clashes, staged_flatKeyed, List.filter_eq_nil_iff]
  simp only [List.forall_mem_map, shown, List.contains_iff_mem, Dict.keys]

theorem layers?_flatKeyed {stages : Dict Nat (Table β)} {fallback : Table β}
    (hm : (Model.timeVarying stages fallback).Separable) {states : List String}
    (hclash : ¬(Model.timeVarying stages fallback).NamesState states) :
    (r.layers? ((flatKeyed write (Model.sortedStages stages) fallback).map Prod.snd) states
        .auto).result =
      .ok (some (flatLayers write (Model.sortedStages stages),
        others (flatKeyed write (Model.sortedStages stages) fallback))) := by
  obtain ⟨hne, hstages, hfallback⟩ := hm
  have keyed := keyed_sortedStages write hstages hfallback
  have hsome : staged (flatKeyed write (Model.sortedStages stages) fallback) ≠ [] := by
    rw [staged_flatKeyed, ne_eq, List.map_eq_nil_iff]
    exact fun h => hne (List.Perm.eq_nil ((perm_sortedStages stages).symm.trans (h ▸ .refl _)))
  rw [r.layers?_eq_ok_iff]
  refine .parted (.inl rfl) keyed nofun hsome (fun _ => ?_) ?_
  · rw [clashes_flatKeyed_eq_nil_iff]
    intro stage hstage hstate
    exact hclash ⟨stage, (Model.mem_keys_sortedStages stages stage).mp hstage, hstate⟩
  · rw [staged_flatKeyed, flatLayers, Dict.entries_mapValues, List.map_map]
    rfl

/-- Read with no layout given, a flat model is what it was, with its stages in order. -/
theorem result_model_flatten {m : Model β} (hm : m.Separable)
    (hcells : m.All (ReadsBack r.read write)) {states : List String}
    (hclash : ¬m.NamesState states) :
    (r.model (Problem.flatValue (m.flatten write)) states .auto).result = .ok m.sorted := by
  rw [r.model_eq_ok_iff]
  cases m with
  | stationary table =>
      have keyed : Keyed ((flatKeyed write ∅ table).map Prod.snd) (flatKeyed write ∅ table) :=
        keyed_flatKeyed nofun hm
      have flat : (flatKeyed write ∅ table).map Prod.snd =
          table.entries.map fun e => (.text e.1, Dict.toValue write e.2) := by
        simp [flatKeyed]
      rw [flatValue_stationary]
      refine .whole (.map _) ?_ (readsBack_table hcells _)
      rw [r.layers?_eq_ok_iff]
      rw [flat] at keyed
      exact .whole (.inl rfl) keyed nofun (staged_flatKeyed ∅ table)
  | timeVarying stages fallback =>
      have flat := plainEntries_flatValue
        (Model.flatten write (.timeVarying stages fallback))
      rw [entries_flatten hm] at flat
      refine .parted flat (layers?_flatKeyed hm hclash) (stageTables_flatLayers ?_) ?_
      · exact fun e he => hcells.1 e (mem_sortedStages he)
      · rw [others_flatKeyed]
        exact readsBack_table hcells.2 _

/-- A flat model is refused if some stage has the name of a state for its text. -/
theorem result_model_flatten_ambiguous {m : Model β} (hm : m.Separable) {states : List String}
    (hclash : m.NamesState states) :
    ∃ keys, (r.model (Problem.flatValue (m.flatten write)) states .auto).result =
      .error (.ambiguousKeys r.family keys) := by
  cases m with
  | stationary table => cases hclash
  | timeVarying stages fallback =>
      have flat := plainEntries_flatValue
        (Model.flatten write (.timeVarying stages fallback))
      rw [entries_flatten hm] at flat
      obtain ⟨hne, hstages, hfallback⟩ := hm
      have keyed := keyed_sortedStages write hstages hfallback
      obtain ⟨stage, hstage, hstate⟩ := hclash
      have clash : clashes states (flatKeyed write (Model.sortedStages stages) fallback) ≠ [] := by
        rw [ne_eq, clashes_flatKeyed_eq_nil_iff]
        exact fun h => h stage ((Model.mem_keys_sortedStages stages stage).mpr hstage) hstate
      rw [r.result_model_plain flat, r.layers?_ambiguous keyed clash]
      exact ⟨_, rfl⟩

end Flattened

end CellReader

end BackwardInduction
