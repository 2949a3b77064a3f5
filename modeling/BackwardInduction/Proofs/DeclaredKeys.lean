import BackwardInduction.Proofs.KeptEntries
import BackwardInduction.Proofs.ModelGrammar

/-!
What becomes of declared states among the keys of a plain model when no layout is given. A key
that looks like a stage is refused if it is declared as it stands between its blanks. A key that
is declared together with its blanks is not found that way, and is read as a stage.
-/

namespace BackwardInduction

variable {α β : Type} [Scalar α]

section Texts

variable {item : Place → Value α → Except Fault β}

/-- A mapping with texts for its keys is read entry by entry. -/
theorem matches_of_readDict (hitem : Placeless item) {place : Place}
    {raw : Dict String (Value α)} {d : Dict String β}
    (h : readDict item place (.map raw.toEntries) = .ok d) :
    raw.Matches (fun v b => item place v = .ok b) d := by
  obtain ⟨_, ⟨⟩, es, hes, rfl⟩ := (readDict_eq_ok_iff item place _ d).mp h
  have texts : es.map Prod.fst = raw.keys := by
    rw [texts_of_readsEntry hes, Dict.toEntries, List.map_map]
    rfl
  rw [Dict.Matches, Dict.entries_ofList (texts ▸ raw.nodup_keys)]
  rw [Dict.toEntries, List.forall₂_map_left_iff] at hes
  exact hes.imp fun e e' he => ⟨he.1, hitem _ _ _ _ he.2⟩

end Texts

namespace CellReader

section Statement

variable (r : CellReader α β) (raw : Dict String (Value α)) (states : List String)

/-- The entry is one of the table behind the stages, and its key names no stage. -/
def ReadsState (m : Model β) (e : String × Value α) : Prop :=
  stageOfText e.1 = .ok none ∧
    ∃ cells, m.commonTable.get? e.1 = some cells ∧ readDict r.read r.place e.2 = .ok cells

/-- The entry is the table of the stage that its key names, and there is nothing else under the
key. -/
def ReadsLayer (m : Model β) (e : String × Value α) : Prop :=
  e.1 ∉ m.commonTable.keys ∧ ∃ stage table, stageOfText e.1 = .ok (some stage) ∧
    m.stageTable? stage = some table ∧ r.table r.place e.2 = .ok table

/-- What happens to declared states among the keys when no layout is given. -/
structure HeedsStates : Prop where
  reads : ∀ m, (r.model (.map raw.toEntries) states .auto).result = .ok m →
    ∀ e ∈ raw.entries, r.ReadsState m e ∨ (Text.trim e.1 ∉ states ∧ r.ReadsLayer m e)
  refuses : ∀ key ∈ raw.keys, stageOfText key ≠ .ok none → Text.trim key ∈ states →
    ∃ e, (r.model (.map raw.toEntries) states .auto).result = .error e ∧
      (e.kind = .ambiguity ∨
        ∃ key ∈ raw.keys, ∃ digits, e = .tooManyDigits digits ∧ Text.IsLongStage key digits)

end Statement

variable {r : CellReader α β} {raw : Dict String (Value α)} {states : List String}

/-- Keys are not read at all if one of them is beyond the digit limit. -/
theorem model_error_of_not_keysWithin (h : ¬BackwardInduction.KeysWithin raw) :
    ∃ e, (r.model (.map raw.toEntries) states .auto).result = .error e ∧
      ∃ key ∈ raw.keys, ∃ digits, e = .tooManyDigits digits ∧ Text.IsLongStage key digits := by
  cases hstages : stagesOf raw.toEntries with
  | ok keyed => exact absurd (keysWithin_of_keyed ((stagesOf_eq_ok_iff _ _).mp hstages)) h
  | error e =>
      obtain ⟨entry, hentry, he⟩ := exists_stage_error_of_stagesOf hstages
      obtain ⟨e', he', rfl⟩ := List.mem_map.mp hentry
      obtain ⟨digits, hdigits, hlong⟩ := stageOfText_error he
      refine ⟨e, ?_, e'.1, List.mem_map_of_mem he', digits, hdigits, hlong⟩
      rw [r.result_model_plain (.map _), result_layers?_auto, hstages]
      rfl

theorem keysWithin_of_parts {parts : Option (Dict Nat (Value α) × Entries α)}
    (h : Parts states .auto raw.toEntries parts) : BackwardInduction.KeysWithin raw := by
  cases h with
  | whole _ hkeyed | parted _ hkeyed => exact keysWithin_of_keyed hkeyed

theorem readsState_of_table (hr : Placeless r.read) {kept : Dict String (Value α)} {m : Model β}
    (htable : r.table r.place (.map kept.toEntries) = .ok m.commonTable) {e : String × Value α}
    (he : e ∈ kept.entries) (hstage : stageOfText e.1 = .ok none) : r.ReadsState m e := by
  have cells := (matches_of_readDict (placeless_readDict hr) htable).get? e.1
  rw [(kept.get?_eq_some_iff e.1 e.2).mpr he] at cells
  generalize hcells : m.commonTable.get? e.1 = cells? at cells
  cases cells with
  | some hread => exact ⟨hstage, _, hcells, hread⟩

theorem readsLayer_of_tables (hr : Placeless r.read) {layers : Dict Nat (Value α)}
    {tables : Dict Nat (Table β)} {fallback : Table β}
    (htables : r.stageTables layers = .ok tables)
    (htable : r.table r.place (.map (unstagedValues .auto raw).toEntries) = .ok fallback)
    (hlayers : layers.entries = stagedValues .auto raw) {e : String × Value α}
    (he : e ∈ raw.entries) {stage : Nat} (hstage : Layout.auto.stage? e.1 = some stage)
    (hname : stageOfText e.1 = .ok (some stage)) :
    r.ReadsLayer (.timeVarying tables fallback) e := by
  constructor
  · intro hkey
    have keys : fallback.keys = (unstagedValues .auto raw).keys :=
      Dict.keys_of_pairs (matches_of_readDict (placeless_readDict hr) htable)
    rw [Model.commonTable, keys] at hkey
    obtain ⟨_, hentry⟩ := (Dict.mem_keys _ _).mp hkey
    have unstaged : (Layout.auto.stage? e.1).isNone = true := (List.mem_filter.mp hentry).2
    rw [hstage] at unstaged
    cases unstaged
  · have layer : (stage, e.2) ∈ layers.entries := by
      rw [hlayers]
      exact List.mem_filterMap.mpr ⟨e, he, by rw [hstage]; rfl⟩
    have read : layers.Matches (fun v table => r.table r.place v = .ok table) tables :=
      (Dict.traverse_eq_ok_iff_matches (fun _ _ _ => table_eq_ok_iff_place hr _) tables).mp htables
    have table := read.get? stage
    rw [(layers.get?_eq_some_iff stage e.2).mpr layer] at table
    generalize hget : tables.get? stage = table? at table
    cases table with
    | some hread => exact ⟨stage, _, hname, hget, hread⟩

/-- A key is that of a state unless it names a stage; if it does, it is not declared as it stands
between its blanks. -/
theorem reads_entry (hr : Placeless r.read) {m : Model β}
    (hm : (r.model (.map raw.toEntries) states .auto).result = .ok m) {e : String × Value α}
    (he : e ∈ raw.entries) :
    r.ReadsState m e ∨ (Text.trim e.1 ∉ states ∧ r.ReadsLayer m e) := by
  have fixed : Layout.auto ≠ .stationary := nofun
  have hkey : e.1 ∈ raw.keys := List.mem_map_of_mem he
  have named {stage? : Option Nat} (h : Layout.auto.stage? e.1 = stage?)
      (within : BackwardInduction.KeysWithin raw) : stageOfText e.1 = .ok stage? := by
    rw [within e.1 hkey, ← Layout.stage?_eq fixed, h]
  cases (r.model_eq_ok_iff _ states .auto m).mp hm with
  | whole hv hlayers htable =>
      cases hv
      have parts := (r.layers?_eq_ok_iff _ states .auto _).mp hlayers
      obtain ⟨_, ⟨hnone⟩⟩ := textParts_of_parts parts
      have hstage := named (hnone e.1 hkey) (keysWithin_of_parts parts)
      exact .inl (readsState_of_table hr htable he hstage)
  | parted hv hlayers htables htable =>
      cases hv
      have parts := (r.layers?_eq_ok_iff _ states .auto _).mp hlayers
      have within := keysWithin_of_parts parts
      obtain ⟨allows, textParts⟩ := textParts_of_parts parts
      cases textParts with
      | parted _ hentries =>
          cases hstage : Layout.auto.stage? e.1 with
          | none =>
              have kept : e ∈ (unstagedValues .auto raw).entries :=
                List.mem_filter.mpr ⟨he, Option.isNone_iff_eq_none.mpr hstage⟩
              exact .inl (readsState_of_table hr htable kept (named hstage within))
          | some stage =>
              refine .inr ⟨allows.apart rfl e.1 hkey (hstage ▸ Option.some_ne_none stage), ?_⟩
              exact readsLayer_of_tables hr htables htable hentries he hstage (named hstage within)

theorem heedsStates (hr : Placeless r.read) (raw : Dict String (Value α))
    (states : List String) : r.HeedsStates raw states := by
  have fixed : Layout.auto ≠ .stationary := nofun
  constructor
  · exact fun m hm e he => reads_entry hr hm he
  · intro key hkey hstage hstate
    by_cases within : BackwardInduction.KeysWithin raw
    · have named : Layout.auto.stage? key ≠ none := by
        rw [Layout.stage?_eq fixed]
        exact fun hnone => hstage (hnone ▸ within key hkey)
      obtain ⟨e, he, ambiguous⟩ := model_error_of_clash within hkey named hstate
      exact ⟨e, he, .inl ambiguous⟩
    · obtain ⟨e, he, long⟩ := model_error_of_not_keysWithin within
      exact ⟨e, he, .inr long⟩

end CellReader

/-- With no layout given, a plain model is read with each key either that of a state or that of
a stage, and in the second case it is not declared as it stands between its blanks. A key that
looks like a stage and is declared so is refused. -/
theorem declared_states_heeded (raw : Dict String (Value α)) (states : List String) :
    (costCells (α := α)).HeedsStates raw states ∧
      (transitionCells (α := α)).HeedsStates raw states :=
  ⟨CellReader.heedsStates placeless_costCells raw states,
    CellReader.heedsStates placeless_transitionCells raw states⟩

/-- A table that is meant for a state, though its name looks like a stage. -/
def blankedEntries : Dict String (Value Float) :=
  .ofList [(" 1 ", .map []), ("A", .map [])]

/-- Declared with its blanks the state is read as the stage; declared without them it is
refused. -/
theorem blankedEntries_guessed :
    (∃ m, (readCosts (.map blankedEntries.toEntries) [" 1 ", "A"] .auto).result = .ok m ∧
      (∀ e ∈ blankedEntries.entries, costCells.ReadsState m e ∨
        (Text.trim e.1 ∉ [" 1 ", "A"] ∧ costCells.ReadsLayer m e)) ∧
      (m.stageEntries.map Prod.fst, m.commonTable.keys) = ([1], ["A"])) ∧
    ∃ e, (readTransitions (.map blankedEntries.toEntries) ["1"] .auto).result = .error e ∧
      (e.kind = .ambiguity ∨ ∃ key ∈ blankedEntries.keys, ∃ digits,
        e = .tooManyDigits digits ∧ Text.IsLongStage key digits) := by
  constructor
  · obtain ⟨m, hm, keys⟩ := exists_ok_of_map_toOption
      (x := (readCosts (.map blankedEntries.toEntries) [" 1 ", "A"] .auto).result)
      (f := fun m => (m.stageEntries.map Prod.fst, m.commonTable.keys)) (c := ([1], ["A"]))
      (by decide +kernel)
    exact ⟨m, hm, (declared_states_heeded blankedEntries [" 1 ", "A"]).1.reads m hm, keys⟩
  · exact (declared_states_heeded blankedEntries ["1"]).2.refuses " 1 " (by decide +kernel)
      (by decide +kernel) (by decide +kernel)

end BackwardInduction
