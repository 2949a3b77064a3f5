import BackwardInduction.Proofs.DecodedTables
import BackwardInduction.Proofs.StageParting
import BackwardInduction.Proofs.StageTexts

/-!
What a plain raw mapping says under a layout. Each of its keys names a stage or none;
the tables under stages, in the order of their keys, and the table of all other keys
are the model, and where no key names a stage the mapping is one table. A decoded value
is read as that model, as long as the layout allows its keys.
-/

namespace BackwardInduction

variable {α β : Type}

/-- The stage that a text names, if it names one within the digit limit. -/
def Text.stage? (s : String) : Option Nat :=
  match stageOfText s with
  | .ok stage => stage
  | .error _ => none

/-- The stage that a key names under the layout. -/
def Layout.stage? (layout : Layout) (key : String) : Option Nat :=
  if layout = .stationary then none else Text.stage? key

namespace Dict

variable {κ ν : Type}

/-- The entries whose keys pass the test. -/
def restrict (p : κ → Bool) (d : Dict κ ν) : Dict κ ν where
  entries := d.entries.filter fun e => p e.1
  nodup := d.nodup.sublist (List.filter_sublist.map Prod.fst)

theorem all_restrict {P : ν → Prop} {d : Dict κ ν} (h : d.All P) (p : κ → Bool) :
    (d.restrict p).All P :=
  fun e he => h e (List.mem_of_mem_filter he)

end Dict

section Contents

variable (layout : Layout) (raw : Dict String (Value α))

/-- The values under keys that name a stage, each with its stage. -/
def stagedValues : List (Nat × Value α) :=
  raw.entries.filterMap fun e => (layout.stage? e.1).map (·, e.2)

/-- The entries under keys that name no stage. -/
def unstagedValues : Dict String (Value α) :=
  raw.restrict fun key => (layout.stage? key).isNone

/-- The layout leaves no doubt about the keys: under time-varying each of them names a
stage, and under auto none that names a stage is the name of a state. -/
structure Layout.Allows (states : List String) : Prop where
  known : layout.isKnown = true
  staged : layout = .timeVarying → ∀ key ∈ raw.keys, layout.stage? key ≠ none
  apart : layout = .auto → ∀ key ∈ raw.keys, layout.stage? key ≠ none →
    Text.trim key ∉ states

variable (R : Value α → β → Prop)

/-- The model that the mapping is under the layout, where cells are related by `R`. -/
inductive Contents : Model β → Prop
  | whole {table : Table β} (hnone : ∀ key ∈ raw.keys, layout.stage? key = none)
      (htable : raw.Matches (Value.Holds R) table) : Contents (.stationary table)
  | layered {stages : Dict Nat (Table β)} {fallback : Table β}
      (hsome : ∃ key ∈ raw.keys, layout.stage? key ≠ none)
      (hstages : List.Forall₂ (Dict.Pairs (Value.Holds (Value.Holds R)))
        (stagedValues layout raw) stages.entries)
      (hfallback : (unstagedValues layout raw).Matches (Value.Holds R) fallback) :
      Contents (.timeVarying stages fallback)

end Contents

section Unstaged

variable {layout : Layout} {raw : Dict String (Value α)}
  (hnone : ∀ key ∈ raw.keys, layout.stage? key = none)
include hnone

theorem unstagedValues_eq_self : unstagedValues layout raw = raw := by
  refine Dict.ext (List.filter_eq_self.mpr fun e he => ?_)
  exact Option.isNone_iff_eq_none.mpr (hnone e.1 (List.mem_map_of_mem he))

theorem stagedValues_eq_nil : stagedValues layout raw = [] := by
  refine List.filterMap_eq_nil_iff.mpr fun e he => ?_
  rw [hnone e.1 (List.mem_map_of_mem he)]
  rfl

end Unstaged

theorem Layout.stage?_eq {layout : Layout} (h : layout ≠ .stationary) (key : String) :
    layout.stage? key = Text.stage? key := by
  rw [stage?, if_neg h]

theorem Layout.stage?_stationary (key : String) : Layout.stationary.stage? key = none :=
  if_pos rfl

theorem Layout.Allows.stationary (raw : Dict String (Value α)) (states : List String) :
    Layout.stationary.Allows raw states :=
  ⟨rfl, nofun, nofun⟩

/-- No key is a stage beyond the digit limit. -/
def KeysWithin (raw : Dict String (Value α)) : Prop :=
  ∀ key ∈ raw.keys, stageOfText key = .ok (Text.stage? key)

namespace CellReader

section Keys

variable {layout : Layout} {raw : Dict String (Value α)}

/-- The entries with the stages that their texts name. -/
def keyedTexts (raw : Dict String (Value α)) : List (Option Nat × Key α × Value α) :=
  raw.entries.map fun e => (Text.stage? e.1, .text e.1, e.2)

theorem keyed_keyedTexts (h : KeysWithin raw) : Keyed raw.toEntries (keyedTexts raw) := by
  refine ⟨by simp [keyedTexts, Dict.toEntries, Function.comp_def], fun e he => ?_⟩
  obtain ⟨e', he', rfl⟩ := List.mem_map.mp he
  exact h e'.1 (List.mem_map_of_mem he')

theorem keysWithin_of_keyed {keyed : List (Option Nat × Key α × Value α)}
    (h : Keyed raw.toEntries keyed) : KeysWithin raw := by
  intro key hkey
  obtain ⟨v, hv⟩ := (raw.mem_keys key).mp hkey
  obtain ⟨stage, _, named⟩ := h.exists_stage (List.mem_map_of_mem hv)
  have read : stageOfText key = .ok stage := named
  rw [Text.stage?, read]

theorem keyed_texts_iff (keyed : List (Option Nat × Key α × Value α)) :
    Keyed raw.toEntries keyed ↔ KeysWithin raw ∧ keyed = keyedTexts raw := by
  constructor
  · intro h
    have within := keysWithin_of_keyed h
    have stages := (stagesOf_eq_ok_iff _ _).mpr (keyed_keyedTexts within)
    rw [(stagesOf_eq_ok_iff _ _).mpr h, Except.ok.injEq] at stages
    exact ⟨within, stages⟩
  · rintro ⟨within, rfl⟩
    exact keyed_keyedTexts within

theorem staged_keyedTexts (hlayout : layout ≠ .stationary) :
    (staged (keyedTexts raw)).map (fun e => (e.1, e.2.2)) = stagedValues layout raw := by
  simp only [staged, keyedTexts, stagedValues, List.filterMap_map, List.map_filterMap,
    layout.stage?_eq hlayout, Function.comp_def, Option.map_map]

theorem staged_keyedTexts_eq_nil_iff (hlayout : layout ≠ .stationary) :
    staged (keyedTexts raw) = [] ↔ ∀ key ∈ raw.keys, layout.stage? key = none := by
  simp [staged, keyedTexts, Dict.keys, layout.stage?_eq hlayout]

theorem others_keyedTexts (hlayout : layout ≠ .stationary) :
    others (keyedTexts raw) = (unstagedValues layout raw).toEntries := by
  simp only [others, keyedTexts, unstagedValues, Dict.restrict, Dict.toEntries,
    List.filterMap_map, layout.stage?_eq hlayout]
  rw [← List.filterMap_eq_map, List.filterMap_filter]
  rfl

theorem others_keyedTexts_eq_nil_iff (hlayout : layout ≠ .stationary) :
    others (keyedTexts raw) = [] ↔ ∀ key ∈ raw.keys, layout.stage? key ≠ none := by
  simp [others, keyedTexts, Dict.keys, layout.stage?_eq hlayout]

theorem clashes_keyedTexts_eq_nil_iff [Scalar α] (hlayout : layout ≠ .stationary)
    (states : List String) :
    clashes states (keyedTexts raw) = [] ↔
      ∀ key ∈ raw.keys, layout.stage? key ≠ none → Text.trim key ∉ states := by
  rw [clashes, List.filter_eq_nil_iff]
  constructor
  · intro h key hkey hstage hstate
    obtain ⟨v, hv⟩ := (raw.mem_keys key).mp hkey
    obtain ⟨stage, hstage⟩ := Option.ne_none_iff_exists'.mp hstage
    rw [layout.stage?_eq hlayout] at hstage
    have entry : (stage, .text key, v) ∈ staged (keyedTexts raw) :=
      List.mem_filterMap.mpr ⟨_, List.mem_map_of_mem hv, by simp [hstage]⟩
    exact h _ entry (List.contains_iff_mem.mpr hstate)
  · intro h e he hstate
    obtain ⟨_, hm, heq⟩ := List.mem_filterMap.mp he
    obtain ⟨e', he', rfl⟩ := List.mem_map.mp hm
    obtain ⟨stage, hstage, rfl⟩ := Option.map_eq_some_iff.mp heq
    refine h e'.1 (List.mem_map_of_mem he') ?_ (List.contains_iff_mem.mp hstate)
    rw [layout.stage?_eq hlayout, hstage]
    exact Option.some_ne_none stage

end Keys

section Reading

variable [Scalar α] {r : CellReader α β} {R : Value α → β → Prop} {layout : Layout}
  {raw : Dict String (Value α)} {states : List String}

/-- How the keys of a mapping part it: not at all if none names a stage. -/
inductive TextParts (layout : Layout) (raw : Dict String (Value α)) :
    Option (Dict Nat (Value α) × Entries α) → Prop
  | whole (hnone : ∀ key ∈ raw.keys, layout.stage? key = none) : TextParts layout raw none
  | parted {layers : Dict Nat (Value α)} (hsome : ∃ key ∈ raw.keys, layout.stage? key ≠ none)
      (hlayers : layers.entries = stagedValues layout raw) :
      TextParts layout raw (some (layers, (unstagedValues layout raw).toEntries))

omit [Scalar α] in
theorem exists_stage_iff (hlayout : layout ≠ .stationary) :
    staged (keyedTexts raw) ≠ [] ↔ ∃ key ∈ raw.keys, layout.stage? key ≠ none := by
  rw [ne_eq, staged_keyedTexts_eq_nil_iff hlayout]
  simp only [not_forall, exists_prop, ne_eq]

theorem textParts_of_parts {parts : Option (Dict Nat (Value α) × Entries α)}
    (h : Parts states layout raw.toEntries parts) :
    layout.Allows raw states ∧ TextParts layout raw parts := by
  have conditions {layout : Layout} (hlayout : layout = .auto ∨ layout = .timeVarying) :
      layout ≠ .stationary ∧ layout.isKnown = true := by
    rcases hlayout with rfl | rfl <;> exact ⟨nofun, rfl⟩
  cases h with
  | stationary =>
      exact ⟨.stationary raw states, .whole fun key _ => Layout.stage?_stationary key⟩
  | whole hlayout hkeyed hothers hstaged =>
      obtain ⟨_, rfl⟩ := (keyed_texts_iff _).mp hkeyed
      obtain ⟨fixed, known⟩ := conditions hlayout
      have none := (staged_keyedTexts_eq_nil_iff fixed).mp hstaged
      refine ⟨⟨known, fun h => ?_, fun _ key hkey hstage => absurd (none key hkey) hstage⟩,
        .whole none⟩
      exact (others_keyedTexts_eq_nil_iff fixed).mp (hothers h)
  | parted hlayout hkeyed hothers hstaged hclash hlayers =>
      obtain ⟨_, rfl⟩ := (keyed_texts_iff _).mp hkeyed
      obtain ⟨fixed, known⟩ := conditions hlayout
      rw [others_keyedTexts fixed]
      rw [staged_keyedTexts fixed] at hlayers
      refine ⟨⟨known, fun h => ?_, fun h => ?_⟩,
        .parted ((exists_stage_iff fixed).mp hstaged) hlayers⟩
      · exact (others_keyedTexts_eq_nil_iff fixed).mp (hothers h)
      · exact (clashes_keyedTexts_eq_nil_iff fixed states).mp (hclash h)

theorem parts_of_textParts (hwithin : layout = .stationary ∨ KeysWithin raw)
    (hallows : layout.Allows raw states) {parts : Option (Dict Nat (Value α) × Entries α)}
    (h : TextParts layout raw parts) : Parts states layout raw.toEntries parts := by
  by_cases fixed : layout = .stationary
  · subst fixed
    cases h with
    | whole => exact .stationary _
    | parted hsome _ =>
        obtain ⟨key, _, hstage⟩ := hsome
        exact absurd (Layout.stage?_stationary key) hstage
  · have keyed := keyed_keyedTexts (hwithin.resolve_left fixed)
    have parting : layout = .auto ∨ layout = .timeVarying := by
      have known := hallows.known
      cases layout with
      | auto => exact .inl rfl
      | timeVarying => exact .inr rfl
      | stationary => exact absurd rfl fixed
      | unknown name => cases known
    have none_other := fun h => (others_keyedTexts_eq_nil_iff fixed).mpr (hallows.staged h)
    cases h with
    | whole hnone =>
        exact .whole parting keyed none_other ((staged_keyedTexts_eq_nil_iff fixed).mpr hnone)
    | parted hsome hlayers =>
        rw [← staged_keyedTexts fixed] at hlayers
        rw [← others_keyedTexts fixed]
        refine .parted parting keyed none_other ((exists_stage_iff fixed).mpr hsome)
          (fun h => ?_) hlayers
        exact (clashes_keyedTexts_eq_nil_iff fixed states).mpr (hallows.apart h)

omit [Scalar α] in
theorem mem_of_mem_stagedValues {e : Nat × Value α} (he : e ∈ stagedValues layout raw) :
    ∃ key, (key, e.2) ∈ raw.entries ∧ layout.stage? key = some e.1 := by
  obtain ⟨⟨key, v⟩, hm, heq⟩ := List.mem_filterMap.mp he
  obtain ⟨stage, hstage, rfl⟩ := Option.map_eq_some_iff.mp heq
  exact ⟨key, hm, hstage⟩

omit [Scalar α] in
theorem decoded_layers (hraw : raw.All Value.Decoded) {layers : Dict Nat (Value α)}
    (h : layers.entries = stagedValues layout raw) : layers.All Value.Decoded := by
  intro e he
  rw [h] at he
  obtain ⟨key, hm, _⟩ := mem_of_mem_stagedValues he
  exact hraw _ hm

variable {v : Value α} (hv : PlainEntries v raw.toEntries) (hraw : raw.All Value.Decoded)
  (hr : ReadsAs r.read R) {m : Model β}
include hv hraw hr

/-- What is read of a plain value is what it says. -/
theorem contents_of_model (h : (r.model v states layout).result = .ok m) :
    layout.Allows raw states ∧ Contents layout raw R m := by
  cases (r.model_eq_ok_iff v states layout m).mp h with
  | stationary | timeVarying => cases hv
  | whole hv' hlayers htable =>
      cases hv.unique hv'
      obtain ⟨allows, parts⟩ := textParts_of_parts ((r.layers?_eq_ok_iff _ _ _ _).mp hlayers)
      cases parts with
      | whole hnone => exact ⟨allows, .whole hnone ((table_eq_ok_iff hr _ hraw _).mp htable)⟩
  | parted hv' hlayers htables htable =>
      cases hv.unique hv'
      obtain ⟨allows, parts⟩ := textParts_of_parts ((r.layers?_eq_ok_iff _ _ _ _).mp hlayers)
      cases parts with
      | parted hsome hentries =>
          have stages := (stageTables_eq_ok_iff hr (decoded_layers hraw hentries) _).mp htables
          rw [Dict.Matches, hentries] at stages
          have fallback := (table_eq_ok_iff hr _ (Dict.all_restrict hraw _) _).mp htable
          exact ⟨allows, .layered hsome stages fallback⟩

/-- Whatever a plain value says is read of it, as long as its keys are within the limit. -/
theorem model_of_contents (hwithin : layout = .stationary ∨ KeysWithin raw)
    (hallows : layout.Allows raw states) (h : Contents layout raw R m) :
    (r.model v states layout).result = .ok m := by
  rw [model_eq_ok_iff]
  have parts {parts : Option (Dict Nat (Value α) × Entries α)}
      (h : TextParts layout raw parts) :
      (r.layers? raw.toEntries states layout).result = .ok parts :=
    (r.layers?_eq_ok_iff _ _ _ _).mpr (parts_of_textParts hwithin hallows h)
  cases h with
  | whole hnone htable =>
      exact .whole hv (parts (.whole hnone)) ((table_eq_ok_iff hr _ hraw _).mpr htable)
  | @layered stages fallback hsome hstages hfallback =>
      have keys : stages.keys = (stagedValues layout raw).map Prod.fst :=
        Dict.keys_of_pairs hstages
      let layers : Dict Nat (Value α) := ⟨stagedValues layout raw, keys ▸ stages.nodup_keys⟩
      have decoded : layers.All Value.Decoded := decoded_layers hraw rfl
      have parted : TextParts layout raw
          (some (layers, (unstagedValues layout raw).toEntries)) := .parted hsome rfl
      refine .parted hv (parts parted) ((stageTables_eq_ok_iff hr decoded _).mpr hstages) ?_
      exact (table_eq_ok_iff hr _ (Dict.all_restrict hraw _) _).mpr hfallback

end Reading

end CellReader

end BackwardInduction
