import Mathlib.Data.List.Pairwise
import BackwardInduction.Proofs.ModelContents
import BackwardInduction.Proofs.ReportedFaults
import BackwardInduction.Scalar.Binary64

/-!
Which decoded values are models. The layout must allow the keys of the mapping, no two
of them may name the same stage, and its tables must be mappings down to the cells;
then it is read as what it says. Whatever else is refused as malformed, unless a stage
looks like a state and no layout is given: that is found first.
-/

namespace BackwardInduction

variable {α β : Type}

section Grammar

variable (layout : Layout) (raw : Dict String (Value α))

/-- The tables of the mapping: what its keys hold that name a stage, and the rest of it. -/
def tableValues : List (Value α) :=
  .map (unstagedValues layout raw).toEntries :: (stagedValues layout raw).map Prod.snd

/-- No two keys name the same stage. -/
def Layout.Distinguishes : Prop :=
  ∀ key ∈ raw.keys, ∀ key' ∈ raw.keys, layout.stage? key ≠ none →
    layout.stage? key = layout.stage? key' → key = key'

/-- The mapping is a model whose cells have the property. -/
structure IsModelOf (states : List String) (P : Value α → Prop) : Prop where
  allows : layout.Allows raw states
  distinct : layout.Distinguishes raw
  tables : ∀ table ∈ tableValues layout raw, table.IsMapOf (Value.IsMapOf P)

end Grammar

section Leaves

variable [Scalar α]

/-- Null, or a number or numeral that is finite. -/
def Value.IsAmount (v : Value α) : Prop :=
  v = .null ∨ ∃ x, v.Amount x

/-- Null, or a number or numeral that is finite and not below zero. -/
def Value.IsWeight (v : Value α) : Prop :=
  v = .null ∨ ∃ x, v.Weight x

variable (hfinite : Scalar.isFinite (0 : α) = true)
include hfinite

theorem Value.isAmount_iff (v : Value α) : v.IsAmount ↔ ∃ x, v.Amount x := by
  constructor
  · rintro (rfl | h)
    · exact ⟨0, .null, hfinite⟩
    · exact h
  · exact .inr

theorem Value.isWeight_iff (hzero : ¬(0 : α) < 0) (v : Value α) :
    v.IsWeight ↔ ∃ x, v.Weight x := by
  constructor
  · rintro (rfl | h)
    · exact ⟨0, .null, hfinite, hzero⟩
    · exact h
  · exact .inr

end Leaves

section Contents

variable {layout : Layout} {raw : Dict String (Value α)} {R : Value α → β → Prop}

theorem stages_stagedValues :
    (stagedValues layout raw).map Prod.fst = raw.keys.filterMap layout.stage? := by
  simp [stagedValues, Dict.keys, List.map_filterMap, List.filterMap_map, Function.comp_def,
    Option.map_map]

theorem nodup_stagedValues_iff :
    ((stagedValues layout raw).map Prod.fst).Nodup ↔ layout.Distinguishes raw := by
  rw [stages_stagedValues, List.Nodup, List.pairwise_filterMap]
  constructor
  · intro h key hkey key' hkey' hstage heq
    obtain ⟨stage, hstage⟩ := Option.ne_none_iff_exists'.mp hstage
    by_contra hne
    have symm : Std.Symm fun key key' => ∀ stage, layout.stage? key = some stage →
        ∀ stage', layout.stage? key' = some stage' → stage ≠ stage' :=
      ⟨fun _ _ h stage hstage stage' hstage' => (h stage' hstage' stage hstage).symm⟩
    exact h.forall hkey hkey' hne stage hstage stage (heq ▸ hstage) rfl
  · intro h
    refine raw.nodup_keys.pairwise_of_forall_ne fun key hkey key' hkey' hne => ?_
    rintro stage hstage _ hstage' rfl
    refine hne (h key hkey key' hkey' ?_ (hstage.trans hstage'.symm))
    exact hstage ▸ Option.some_ne_none stage

/-- A mapping says something if its two parts do. -/
theorem exists_contents_iff_parts :
    (∃ m, Contents layout raw R m) ↔
      (∃ stages : Dict Nat (Table β), List.Forall₂ (Dict.Pairs (Value.Holds (Value.Holds R)))
        (stagedValues layout raw) stages.entries) ∧
      ∃ fallback, (unstagedValues layout raw).Matches (Value.Holds R) fallback := by
  constructor
  · rintro ⟨_, ⟨hnone, htable⟩ | ⟨_, hstages, hfallback⟩⟩
    · rw [stagedValues_eq_nil hnone, unstagedValues_eq_self hnone]
      exact ⟨⟨∅, .nil⟩, _, htable⟩
    · exact ⟨⟨_, hstages⟩, _, hfallback⟩
  · rintro ⟨⟨stages, hstages⟩, fallback, hfallback⟩
    by_cases hnone : ∀ key ∈ raw.keys, layout.stage? key = none
    · rw [unstagedValues_eq_self hnone] at hfallback
      exact ⟨_, .whole hnone hfallback⟩
    · have hsome : ∃ key ∈ raw.keys, layout.stage? key ≠ none := by simpa using hnone
      exact ⟨_, .layered hsome hstages hfallback⟩

/-- A mapping says something exactly if its stages are distinct and its tables are tables. -/
theorem exists_contents_iff {P : Value α → Prop} (hP : ∀ v, P v ↔ ∃ b, R v b) :
    (∃ m, Contents layout raw R m) ↔
      layout.Distinguishes raw ∧
        ∀ table ∈ tableValues layout raw, table.IsMapOf (Value.IsMapOf P) := by
  have cells (v : Value α) := (Value.exists_holds_iff hP v).symm
  have tables (v : Value α) := (Value.exists_holds_iff cells v).symm
  have staged : (∃ stages : Dict Nat (Table β),
      List.Forall₂ (Dict.Pairs (Value.Holds (Value.Holds R))) (stagedValues layout raw)
        stages.entries) ↔
      layout.Distinguishes raw ∧
        ∀ e ∈ stagedValues layout raw, e.2.IsMapOf (Value.IsMapOf P) := by
    simp only [tables, ← Dict.exists_pairs_iff, ← nodup_stagedValues_iff]
    constructor
    · rintro ⟨stages, h⟩
      exact ⟨Dict.keys_of_pairs h ▸ stages.nodup, stages.entries, h⟩
    · rintro ⟨nodup, es, h⟩
      exact ⟨⟨es, (Dict.keys_of_pairs h).symm ▸ nodup⟩, h⟩
  have unstaged : (∃ fallback, (unstagedValues layout raw).Matches (Value.Holds R) fallback) ↔
      (Value.map (unstagedValues layout raw).toEntries).IsMapOf (Value.IsMapOf P) := by
    simp only [tables, Value.holds_map_iff]
  rw [exists_contents_iff_parts, staged, unstaged, tableValues, List.forall_mem_cons,
    List.forall_mem_map]
  tauto

end Contents

section Refusal

variable [Scalar α] {v : Value α} {states : List String} {layout : Layout}

/-- The value is a mapping, no layout is given, and a key of a stage looks like a state. -/
def Value.IsTorn (v : Value α) (states : List String) (layout : Layout) : Prop :=
  layout = .auto ∧ ∃ raw : Dict String (Value α), v = .map raw.toEntries ∧
    ∃ key ∈ raw.keys, layout.stage? key ≠ none ∧ Text.trim key ∈ states

/-- No key of the mapping is a stage beyond the digit limit. -/
def Value.KeysWithin (v : Value α) : Prop :=
  ∀ raw : Dict String (Value α), v = .map raw.toEntries → ∀ key ∈ raw.keys, ∀ digits,
    ¬Text.IsLongStage key digits

omit [Scalar α] in
theorem Value.Decoded.exists_entries (hv : v.Decoded) {entries : Entries α}
    (h : PlainEntries v entries) :
    ∃ raw : Dict String (Value α), entries = raw.toEntries ∧ raw.All Value.Decoded := by
  cases h with
  | null => exact ⟨∅, rfl, Dict.all_empty _⟩
  | map _ =>
      cases hv with
      | @map raw hraw => exact ⟨raw, rfl, hraw⟩

omit [Scalar α] in
theorem PlainEntries.eq_map {raw : Dict String (Value α)} (hv : PlainEntries v raw.toEntries)
    (hne : raw.entries ≠ []) : v = .map raw.toEntries := by
  generalize hentries : raw.toEntries = entries at hv
  cases hv with
  | map => rfl
  | null => exact absurd (List.map_eq_nil_iff.mp hentries) hne

omit [Scalar α] in
theorem Value.KeysWithin.keysWithin (h : v.KeysWithin) {raw : Dict String (Value α)}
    (hv : PlainEntries v raw.toEntries) : BackwardInduction.KeysWithin raw := by
  intro key hkey
  obtain ⟨_, hentry⟩ := (raw.mem_keys key).mp hkey
  rw [Text.stage?]
  cases hstage : stageOfText key with
  | ok stage => rfl
  | error e =>
      obtain ⟨digits, _, hlong⟩ := stageOfText_error hstage
      exact absurd hlong (h raw (hv.eq_map (List.ne_nil_of_mem hentry)) key hkey digits)

namespace CellReader

variable {r : CellReader α β}

/-- A stage that looks like a state is found before anything else. -/
theorem model_error_of_clash {raw : Dict String (Value α)} (hkeys : BackwardInduction.KeysWithin raw)
    {key : String} (hkey : key ∈ raw.keys) (hstage : Layout.auto.stage? key ≠ none)
    (hstate : Text.trim key ∈ states) :
    ∃ e, (r.model (.map raw.toEntries) states .auto).result = .error e ∧ e.kind = .ambiguity := by
  have fixed : Layout.auto ≠ .stationary := nofun
  have clash : clashes states (keyedTexts raw) ≠ [] := fun h =>
    (clashes_keyedTexts_eq_nil_iff fixed states).mp h key hkey hstage hstate
  rw [r.result_model_plain (.map _), r.layers?_ambiguous (keyed_keyedTexts hkeys) clash]
  exact ⟨_, rfl, rfl⟩

theorem model_error_of_isTorn (hkeys : v.KeysWithin) (htorn : v.IsTorn states layout) :
    ∃ e, (r.model v states layout).result = .error e ∧ e.kind = .ambiguity := by
  obtain ⟨rfl, raw, rfl, key, hkey, hstage, hstate⟩ := htorn
  exact model_error_of_clash (hkeys.keysWithin (.map _)) hkey hstage hstate

/-- What is refused is ambiguous or else malformed. -/
theorem kind_of_model_error (hr : r.MalformsCells) (hv : v.Decoded) (hkeys : v.KeysWithin)
    (hlayout : layout.isKnown = true) {e : Fault}
    (h : (r.model v states layout).result = .error e) :
    (e.kind = .ambiguity ∧ v.IsTorn states layout) ∨
      (e.kind = .model ∧ ¬v.IsTorn states layout) := by
  have malformed (he : e.kind = .model) : e.kind = .model ∧ ¬v.IsTorn states layout := by
    refine ⟨he, fun htorn => ?_⟩
    obtain ⟨e', h', he'⟩ := model_error_of_isTorn (r := r) hkeys htorn
    rw [h, Except.error.injEq] at h'
    rw [h', he'] at he
    cases he
  have ends := ends_model hr hv states hlayout
  rw [h] at ends
  rcases ends with he | ⟨entries, hentries, fault⟩
  · exact .inr (malformed he)
  · obtain ⟨raw, rfl, _⟩ := hv.exists_entries hentries
    have within := hkeys.keysWithin hentries
    cases fault with
    | malformed he => exact .inr (malformed he)
    | ambiguous hauto hkeyed hclash he =>
        obtain ⟨_, rfl⟩ := (keyed_texts_iff _).mp hkeyed
        have fixed : layout ≠ .stationary := hauto ▸ nofun
        rw [ne_eq, clashes_keyedTexts_eq_nil_iff fixed] at hclash
        simp only [not_forall, not_not, exists_prop] at hclash
        obtain ⟨key, hkey, hstage, hstate⟩ := hclash
        obtain ⟨_, hentry⟩ := (raw.mem_keys key).mp hkey
        exact .inl ⟨he, hauto, raw, hentries.eq_map (List.ne_nil_of_mem hentry), key, hkey,
          hstage, hstate⟩
    | stage hentry hstage =>
        obtain ⟨e', he', rfl⟩ := List.mem_map.mp hentry
        have named : stageOfText e'.1 = .error e := hstage
        rw [within e'.1 (List.mem_map_of_mem he')] at named
        cases named

/-- A decoded value is read by its entries under texts. -/
theorem exists_entries_of_model (hv : v.Decoded) {m : Model β}
    (h : (r.model v states layout).result = .ok m) :
    ∃ raw : Dict String (Value α), PlainEntries v raw.toEntries ∧ raw.All Value.Decoded := by
  have plain : ∃ entries, PlainEntries v entries := by
    cases (r.model_eq_ok_iff v states layout m).mp h with
    | whole hentries | parted hentries => exact ⟨_, hentries⟩
    | stationary | timeVarying => cases hv
  obtain ⟨_, hentries⟩ := plain
  obtain ⟨raw, rfl, hraw⟩ := hv.exists_entries hentries
  exact ⟨raw, hentries, hraw⟩

section Acceptance

variable {R : Value α → β → Prop} (hr : ReadsAs r.read R) (hv : v.Decoded)
  (hkeys : v.KeysWithin)
include hr hv hkeys

/-- A value is read as what it says, and not at all if it says nothing. -/
theorem model_eq_ok_iff_contents (m : Model β) :
    (r.model v states layout).result = .ok m ↔
      ∃ raw : Dict String (Value α), PlainEntries v raw.toEntries ∧
        layout.Allows raw states ∧ Contents layout raw R m := by
  constructor
  · intro h
    obtain ⟨raw, hentries, hraw⟩ := exists_entries_of_model hv h
    exact ⟨raw, hentries, contents_of_model hentries hraw hr h⟩
  · rintro ⟨raw, hentries, hallows, h⟩
    obtain ⟨raw', heq, hraw⟩ := hv.exists_entries hentries
    rw [← Dict.toEntries_inj.mp heq] at hraw
    exact model_of_contents hentries hraw hr (.inr (hkeys.keysWithin hentries)) hallows h

theorem exists_model_iff {P : Value α → Prop} (hP : ∀ v, P v ↔ ∃ b, R v b) :
    (∃ m, (r.model v states layout).result = .ok m) ↔
      ∃ raw : Dict String (Value α), PlainEntries v raw.toEntries ∧
        IsModelOf layout raw states P := by
  simp only [model_eq_ok_iff_contents hr hv hkeys]
  constructor
  · rintro ⟨m, raw, hentries, hallows, h⟩
    obtain ⟨distinct, tables⟩ := (exists_contents_iff hP).mp ⟨m, h⟩
    exact ⟨raw, hentries, hallows, distinct, tables⟩
  · rintro ⟨raw, hentries, h⟩
    obtain ⟨m, hm⟩ := (exists_contents_iff hP).mpr ⟨h.distinct, h.tables⟩
    exact ⟨m, raw, hentries, h.allows, hm⟩

end Acceptance

end CellReader

end Refusal

section Models

/-- The outcome is that of reading the value: exactly a model is taken, as what it says, and
what is refused is ambiguous if no layout is given and a key of a stage looks like a state,
and malformed otherwise. Null is the mapping without entries. -/
structure ReadsModel (v : Value α) (states : List String) (layout : Layout)
    (P : Value α → Prop) (R : Value α → β → Prop) (outcome : Except Fault (Model β)) : Prop where
  accepts_iff : (∃ m, outcome = .ok m) ↔
    ∃ raw : Dict String (Value α), PlainEntries v raw.toEntries ∧ IsModelOf layout raw states P
  contents_iff : ∀ m, outcome = .ok m ↔
    ∃ raw : Dict String (Value α), PlainEntries v raw.toEntries ∧
      layout.Allows raw states ∧ Contents layout raw R m
  kind_eq : ∀ e, outcome = .error e →
    (e.kind = .ambiguity ∧ v.IsTorn states layout) ∨ (e.kind = .model ∧ ¬v.IsTorn states layout)

variable [Scalar α]

theorem CellReader.readsModel {r : CellReader α β} {P : Value α → Prop}
    {R : Value α → β → Prop} (hr : ReadsAs r.read R) (hfaults : r.MalformsCells)
    (hP : ∀ v, P v ↔ ∃ b, R v b) {v : Value α} (hv : v.Decoded) (hkeys : v.KeysWithin)
    (states : List String) {layout : Layout} (hlayout : layout.isKnown = true) :
    ReadsModel v states layout P R (r.model v states layout).result where
  accepts_iff := exists_model_iff hr hv hkeys hP
  contents_iff := model_eq_ok_iff_contents hr hv hkeys
  kind_eq _ := kind_of_model_error hfaults hv hkeys hlayout

/-- Decoded values are read as models of transitions if their leaves are weights, and as
models of costs if these are amounts; whatever else they are is refused. -/
theorem read_iff_isModelOf (hfinite : Scalar.isFinite (0 : α) = true) (hzero : ¬(0 : α) < 0)
    {v : Value α} (hv : v.Decoded) (hkeys : v.KeysWithin) (states : List String)
    {layout : Layout} (hlayout : layout.isKnown = true) :
    ReadsModel v states layout (Value.IsMapOf Value.IsWeight) (Value.Holds Value.Weight)
      (readTransitions v states layout).result ∧
    ReadsModel v states layout Value.IsAmount Value.Amount
      (readCosts v states layout).result := by
  have rows (v : Value α) : v.IsMapOf Value.IsWeight ↔ ∃ row, v.Holds Value.Weight row :=
    (Value.exists_holds_iff (Value.isWeight_iff hfinite hzero) v).symm
  constructor
  · exact CellReader.readsModel readsAs_transitionCells malforms_transitionCells rows hv hkeys
      states hlayout
  · exact CellReader.readsModel readsAs_costCells malforms_costCells
      (Value.isAmount_iff hfinite) hv hkeys states hlayout

/-- Transitions with a stage that is spelt with blanks and a zero in front. -/
def paddedEntries : Dict String (Value Float) :=
  .ofList
    [ (" 01 ", .map <| Dict.toEntries <| .ofList
        [ ("1", .map <| Dict.toEntries <| .ofList
          [ ("go", .map <| Dict.toEntries <| .ofList
            [ ("1", .null), ("2", .text " 2.5 ") ]) ]) ]),
      ("1 a", .map <| Dict.toEntries <| .ofList
        [ ("go", .map <| Dict.toEntries <| .ofList [ ("2", .number (.whole 3)) ]) ]) ]

theorem decoded_paddedEntries : (Value.map paddedEntries.toEntries).Decoded := by
  have weights := Value.decoded_pair "1" "2" (.null (α := Float)) (.text " 2.5 ")
  exact Value.decoded_pair _ _ (Value.decoded_single _ (Value.decoded_single _ weights))
    (Value.decoded_single _ (Value.decoded_single _ (.number _)))

theorem keysWithin_paddedEntries : (Value.map paddedEntries.toEntries).KeysWithin := by
  intro raw hraw key hkey digits hlong
  rw [Value.map.injEq, Dict.toEntries_inj] at hraw
  subst hraw
  have short : ∀ key ∈ paddedEntries.keys,
      (Text.strip Text.isBlank key.toList).length ≤ Numeral.digitLimit := by decide +kernel
  have := hlong.length_eq ▸ short key hkey
  exact absurd hlong.long (Nat.not_lt.mpr this)

/-- The stage looks like a state that is called `01`, but not like one that is called `1`. -/
theorem paddedEntries_read :
    (∃ raw : Dict String (Value Float), PlainEntries (.map paddedEntries.toEntries) raw.toEntries ∧
      IsModelOf .auto raw ["1", "2"] (Value.IsMapOf Value.IsWeight)) ∧
    ∃ e, (readTransitions (.map paddedEntries.toEntries) ["01"] .auto).result = .error e ∧
      e.kind = .ambiguity := by
  have auto : Layout.auto.isKnown = true := rfl
  have read (states : List String) := read_iff_isModelOf (α := Float) (by decide +kernel)
    (by decide +kernel) decoded_paddedEntries keysWithin_paddedEntries states auto
  constructor
  · obtain ⟨m, hm, _⟩ := exists_ok_of_map_toOption (f := fun _ => ()) (c := ())
      (x := (readTransitions (.map paddedEntries.toEntries) ["1", "2"] .auto).result)
      (by decide +kernel)
    exact (read ["1", "2"]).1.accepts_iff.mp ⟨m, hm⟩
  · have torn : (Value.map paddedEntries.toEntries).IsTorn ["01"] .auto :=
      ⟨rfl, paddedEntries, rfl, " 01 ", by decide +kernel⟩
    have refused : (readTransitions (.map paddedEntries.toEntries) ["01"]
      .auto).result.toOption.isNone = true := by decide +kernel
    cases he : (readTransitions (.map paddedEntries.toEntries) ["01"] .auto).result with
    | ok m =>
        rw [he] at refused
        cases refused
    | error e =>
        have kinds := (read ["01"]).1.kind_eq e he
        exact ⟨e, rfl, (kinds.resolve_right fun h => h.2 torn).1⟩

end Models

end BackwardInduction
