import BackwardInduction.Proofs.MarkedTables
import BackwardInduction.Scalar.Binary64

/-!
What becomes of the entries of raw mappings. The entries are written one after another under the
texts of their keys, so that a mapping keeps all of them exactly if no two of its keys have the
same text; where two have, the later entry takes the place of the earlier one and nothing is
said of it. The stages of a model are never merged: of two keys for one stage nothing is read.
-/

namespace BackwardInduction

variable {α β : Type} [Scalar α]

/-- What a mapping has under a text, where of several entries the last one counts. -/
def Entries.last? (entries : Entries α) (text : String) : Option (Value α) :=
  (entries.reverse.find? fun e => e.1.display == text).map Prod.snd

theorem Entries.last?_cons (e : Key α × Value α) (entries : Entries α) (text : String) :
    Entries.last? (e :: entries) text =
      (entries.last? text).or (if e.1.display = text then some e.2 else none) := by
  rw [Entries.last?, Entries.last?, List.reverse_cons, List.find?_append, Option.map_or,
    List.find?_singleton]
  by_cases h : e.1.display = text <;> simp [h]

namespace Value

/-- The value is a mapping, and the map has under each text what `R` relates to the last of its
values under that text. -/
def LastAs (R : Value α → β → Prop) (v : Value α) (d : Dict String β) : Prop :=
  ∃ entries : Entries α, v = .map entries ∧ ∀ text, Option.Rel R (entries.last? text) (d.get? text)

/-- The value is a mapping, and the map has one entry for each of its entries, in their order:
under the text of the key, and over something that `R` relates to the value. -/
def KeptAs (R : Value α → β → Prop) (v : Value α) (d : Dict String β) : Prop :=
  ∃ entries, v = .map entries ∧
    List.Forall₂ (fun e e' => e.1.display = e'.1 ∧ R e.2 e'.2) entries d.entries

/-- The value is a mapping whose keys have different texts and whose values have the property. -/
def IsApart (P : Value α → Prop) (v : Value α) : Prop :=
  ∃ entries, v = .map entries ∧ (entries.map fun e => e.1.display).Nodup ∧ ∀ e ∈ entries, P e.2

end Value

section Accounts

theorem forall₂_iff_forall_mem {γ δ : Type} {S R : γ → δ → Prop} {P : γ → Prop}
    (h : ∀ x y, S x y → (R x y ↔ P x)) {xs : List γ} {ys : List δ} (hS : List.Forall₂ S xs ys) :
    List.Forall₂ R xs ys ↔ ∀ x ∈ xs, P x := by
  induction hS with
  | nil => exact iff_of_true .nil nofun
  | cons hxy _ ih => rw [List.forall₂_cons, List.forall_mem_cons, ih, h _ _ hxy]

/-- What is read of a value is what `L` has it to be, and it is all that is in the value, as `R`
has it, exactly if the value has the property. -/
def Accounts (item : Place → Value α → Except Fault β) (L R : Value α → β → Prop)
    (P : Value α → Prop) : Prop :=
  ∀ place v b, item place v = .ok b → L v b ∧ (R v b ↔ P v)

theorem accounts_number :
    Accounts (readNumber (α := α)) Value.Denotes Value.Denotes fun _ => True := by
  intro place v x h
  have denotes := ((readNumber_eq_ok_iff place v x).mp h).1
  exact ⟨denotes, iff_true_intro denotes⟩

theorem accounts_weight :
    Accounts (readWeight (α := α)) Value.Denotes Value.Denotes fun _ => True := by
  intro place v x h
  have denotes := ((readWeight_eq_ok_iff place v x).mp h).1
  exact ⟨denotes, iff_true_intro denotes⟩

variable {item : Place → Value α → Except Fault β} {L R : Value α → β → Prop}
  {P : Value α → Prop}

theorem rel_last?_foldl {place : Place} (h : Accounts item L R P) {entries : Entries α}
    {es : List (String × β)} (hes : List.Forall₂ (ReadsEntry item place) entries es)
    {text : String} {v? : Option (Value α)} {d : Dict String β}
    (hd : Option.Rel L v? (d.get? text)) :
    Option.Rel L ((entries.last? text).or v?)
      ((es.foldl (fun d e => d.insert e.1 e.2) d).get? text) := by
  induction hes generalizing v? d with
  | nil => exact hd
  | @cons e e' _ _ he _ ih =>
      rw [Entries.last?_cons, Option.or_assoc, List.foldl_cons]
      refine ih ?_
      rw [Dict.get?_insert, he.1]
      by_cases htext : e'.1 = text
      · rw [if_pos htext, if_pos htext.symm, Option.some_or]
        exact .some (h _ _ _ he.2).1
      · rw [if_neg htext, if_neg (Ne.symm htext), Option.none_or]
        exact hd

/-- Of the entries under one text the last one counts, and a mapping is kept exactly if its keys
have different texts and its values are kept. -/
theorem accounts_dict (h : Accounts item L R P) :
    Accounts (readDict item) (Value.LastAs L) (Value.KeptAs R) (Value.IsApart P) := by
  intro place v d hd
  obtain ⟨entries, rfl, es, hes, rfl⟩ := (readDict_eq_ok_iff item place v d).mp hd
  refine ⟨⟨entries, rfl, fun text => ?_⟩, ?_⟩
  · have last : Option.Rel L ((Entries.last? entries text).or none)
        ((Dict.ofList es).get? text) := rel_last?_foldl h hes .none
    rwa [Option.or_none] at last
  have written (nodup : (entries.map fun e => e.1.display).Nodup) :
      (Dict.ofList es).entries = es :=
    Dict.entries_ofList (texts_of_readsEntry hes ▸ nodup)
  have values := forall₂_iff_forall_mem (R := fun e e' => e.1.display = e'.1 ∧ R e.2 e'.2)
    (fun e e' (he : ReadsEntry item place e e') =>
      (and_iff_right he.1).trans (h _ _ _ he.2).2) hes
  constructor
  · rintro ⟨_, ⟨⟩, kept⟩
    have texts : (Dict.ofList es).keys = entries.map fun e => e.1.display := by
      rw [Dict.keys, ← List.forall₂_eq_eq_eq, List.forall₂_map_left_iff,
        List.forall₂_map_right_iff]
      exact kept.flip.imp fun _ _ he => he.1.symm
    have nodup : (entries.map fun e => e.1.display).Nodup := texts ▸ (Dict.ofList es).nodup_keys
    rw [written nodup] at kept
    exact ⟨entries, rfl, nodup, values.mp kept⟩
  · rintro ⟨_, ⟨⟩, nodup, hvalues⟩
    refine ⟨entries, rfl, ?_⟩
    rw [written nodup]
    exact values.mpr hvalues

theorem accounts_costCells :
    Accounts (costCells (α := α)).read Value.Denotes Value.Denotes fun _ => True :=
  accounts_number

theorem accounts_transitionCells :
    Accounts (transitionCells (α := α)).read (Value.LastAs Value.Denotes)
      (Value.KeptAs Value.Denotes) (Value.IsApart fun _ => True) :=
  accounts_dict accounts_weight

theorem CellReader.accounts_table {r : CellReader α β} (h : Accounts r.read L R P) :
    Accounts r.table (Value.LastAs (Value.LastAs L)) (Value.KeptAs (Value.KeptAs R))
      (Value.IsApart (Value.IsApart P)) :=
  accounts_dict (accounts_dict h)

end Accounts

section Layouts

/-- The key names a stage, and the layout does not keep it from doing so. -/
def Layout.namesStage (layout : Layout) (key : Key α) : Bool :=
  decide (layout ≠ .stationary) &&
    match key.stage with
    | .ok (some _) => true
    | _ => false

/-- The entries of a raw model that are for stages, and the value that is for all of them. -/
inductive Value.LaidOut (layout : Layout) : Value α → Entries α → Value α → Prop
  | stationary (table : Value α) : LaidOut layout (.stationary table) [] table
  | timeVarying (stages : Entries α) (common : Value α) :
      LaidOut layout (.timeVarying (.map stages) common) stages common
  | plain {v : Value α} {entries : Entries α} (hv : PlainEntries v entries) :
      LaidOut layout v (entries.filter fun e => layout.namesStage e.1)
        (.map (entries.filter fun e => !layout.namesStage e.1))

/-- The tables of single stages, in their order. -/
def Model.stageEntries : Model β → List (Nat × Table β)
  | .stationary _ => []
  | .timeVarying stages _ => stages.entries

namespace CellReader

section Keyed

variable {layout : Layout} {entries : Entries α}
  {keyed : List (Option Nat × Key α × Value α)}

omit [Scalar α] in
theorem namesStage_eq_isSome (hlayout : layout ≠ .stationary) {key : Key α}
    {stage? : Option Nat} (h : key.stage = .ok stage?) :
    layout.namesStage key = stage?.isSome := by
  rw [Layout.namesStage, h, decide_eq_true hlayout, Bool.true_and]
  cases stage? <;> rfl

omit [Scalar α] in
theorem filter_namesStage (hlayout : layout ≠ .stationary) (h : Keyed entries keyed) :
    (staged keyed).map Prod.snd = entries.filter fun e => layout.namesStage e.1 := by
  rw [← h.entries_eq, List.filter_map, staged, List.map_filterMap, ← List.filterMap_eq_filter,
    List.map_filterMap]
  refine List.filterMap_congr fun e he => ?_
  have names := namesStage_eq_isSome hlayout (h.stage_eq e he)
  obtain ⟨stage?, key, v⟩ := e
  cases stage? <;> simp [Option.guard, names]

omit [Scalar α] in
theorem filter_not_namesStage (hlayout : layout ≠ .stationary) (h : Keyed entries keyed) :
    others keyed = entries.filter fun e => !layout.namesStage e.1 := by
  rw [← h.entries_eq, List.filter_map, others, ← List.filterMap_eq_filter, List.map_filterMap]
  refine List.filterMap_congr fun e he => ?_
  have names := namesStage_eq_isSome hlayout (h.stage_eq e he)
  obtain ⟨stage?, key, v⟩ := e
  cases stage? <;> simp [Option.guard, names]

end Keyed

omit [Scalar α] in
/-- Where no key names a stage, all entries are for all stages. -/
theorem filter_of_unnamed {layout : Layout} {entries : Entries α}
    (h : ∀ e ∈ entries, layout.namesStage e.1 = false) :
    entries.filter (fun e => layout.namesStage e.1) = [] ∧
      entries.filter (fun e => !layout.namesStage e.1) = entries := by
  refine ⟨List.filter_eq_nil_iff.mpr fun e he => ?_, List.filter_eq_self.mpr fun e he => ?_⟩
  · rw [h e he]
    exact Bool.false_ne_true
  · rw [h e he]
    rfl

variable {r : CellReader α β} {v : Value α} {states : List String} {layout : Layout}
  {m : Model β}

theorem readsStage_of_parted (hr : Placeless r.read) {entries : Entries α}
    {keyed : List (Option Nat × Key α × Value α)} (hkeyed : Keyed entries keyed)
    {layers : Dict Nat (Value α)}
    (hlayers : layers.entries = (staged keyed).map fun e => (e.1, e.2.2))
    {tables : Dict Nat (Table β)} (htables : r.stageTables layers = .ok tables) :
    List.Forall₂ r.ReadsStage ((staged keyed).map Prod.snd) tables.entries := by
  have read := (Dict.traverse_eq_ok_iff _ _ _).mp htables
  rw [hlayers, List.forall₂_map_left_iff] at read
  rw [List.forall₂_map_left_iff]
  have stages := (List.forall₂_and_left (staged keyed) tables.entries).mpr
    ⟨fun e he => (stage_of_mem_staged hkeyed he).2, read⟩
  exact stages.imp fun e table ⟨hstage, heq, htable⟩ =>
    ⟨heq ▸ hstage, (table_eq_ok_iff_place hr _).mp htable⟩

/-- A model is read table by table: those of the stages one after another, each under the stage
that its key names, and the one behind them. -/
theorem exists_laidOut (hr : Placeless r.read) (h : (r.model v states layout).result = .ok m) :
    ∃ stages common, v.LaidOut layout stages common ∧
      List.Forall₂ r.ReadsStage stages m.stageEntries ∧
      r.table r.place common = .ok m.commonTable := by
  have read := (r.model_eq_ok_iff v states layout m).mp h
  cases read with
  | stationary htable => exact ⟨[], _, .stationary _, .nil, htable⟩
  | timeVarying =>
      obtain ⟨entries, tables, table, rfl, hstages, htable, heq⟩ :=
        (model_timeVarying_eq_ok_iff hr _ _ states layout _).mp h
      cases heq
      exact ⟨entries, _, .timeVarying entries _, hstages, htable⟩
  | @whole _ entries _ hv hlayers htable =>
      have parts := (r.layers?_eq_ok_iff _ states layout none).mp hlayers
      refine ⟨_, _, .plain hv, ?_⟩
      cases parts with
      | stationary =>
          have unnamed : ∀ e ∈ entries, Layout.stationary.namesStage e.1 = false := fun _ _ => rfl
          obtain ⟨unstaged, all⟩ := filter_of_unnamed unnamed
          rw [unstaged, all]
          exact ⟨.nil, htable⟩
      | whole hlayout hkeyed _ hstaged =>
          have fixed : layout ≠ .stationary := by rcases hlayout with rfl | rfl <;> nofun
          obtain ⟨unstaged, all⟩ := filter_of_unnamed fun e he =>
            namesStage_eq_isSome fixed (stage_of_staged_eq_nil hkeyed hstaged he)
          rw [unstaged, all]
          exact ⟨.nil, htable⟩
  | parted hv hlayers htables htable =>
      have parts := (r.layers?_eq_ok_iff _ states layout _).mp hlayers
      refine ⟨_, _, .plain hv, ?_⟩
      cases parts with
      | parted hlayout hkeyed _ _ _ hentries =>
          have fixed : layout ≠ .stationary := by rcases hlayout with rfl | rfl <;> nofun
          rw [← filter_namesStage fixed hkeyed, ← filter_not_namesStage fixed hkeyed]
          exact ⟨readsStage_of_parted hr hkeyed hentries htables, htable⟩

end CellReader

end Layouts

section Readings

/-- The tables of the model are related to the raw ones: those of the stages to the entries for
them, one after another, and the common one to the value for all. -/
structure Model.ReadFrom (R : Value α → Table β → Prop) (stages : Entries α) (common : Value α)
    (m : Model β) : Prop where
  stages : List.Forall₂ (fun e table => e.1.stage = .ok (some table.1) ∧ R e.2 table.2) stages
    m.stageEntries
  common : R common m.commonTable

/-- What is in a model that was read of the value. In its tables the last of the entries under a
text counts. No stage has two entries, and nothing of the tables is lost exactly if they are all
apart. -/
structure Value.Fills (L R : Value α → β → Prop) (P : Value α → Prop) (layout : Layout)
    (v : Value α) (stages : Entries α) (common : Value α) (m : Model β) : Prop where
  laidOut : v.LaidOut layout stages common
  distinct : (stages.map fun e => e.1.stage).Nodup
  last : m.ReadFrom (Value.LastAs (Value.LastAs L)) stages common
  kept_iff : m.ReadFrom (Value.KeptAs (Value.KeptAs R)) stages common ↔
    ∀ table ∈ common :: stages.map Prod.snd, table.IsApart (Value.IsApart P)

theorem Model.nodup_stageEntries (m : Model β) : (m.stageEntries.map Prod.fst).Nodup := by
  cases m with
  | stationary table => exact List.nodup_nil
  | timeVarying stages fallback => exact stages.nodup

theorem CellReader.exists_fills {r : CellReader α β} {L R : Value α → β → Prop}
    {P : Value α → Prop} (hr : Placeless r.read) (h : Accounts r.read L R P) {v : Value α}
    {states : List String} {layout : Layout} {m : Model β}
    (hm : (r.model v states layout).result = .ok m) :
    ∃ stages common, v.Fills L R P layout stages common m := by
  obtain ⟨stages, common, laidOut, hstages, hcommon⟩ := exists_laidOut hr hm
  have tables := accounts_table h
  refine ⟨stages, common, laidOut, ?_, ⟨?_, (tables _ _ _ hcommon).1⟩, ?_⟩
  · exact CellReader.nodup_stages (hstages.imp fun _ _ h => h.1) m.nodup_stageEntries
  · exact hstages.imp fun e table ⟨hstage, htable⟩ => ⟨hstage, (tables _ _ _ htable).1⟩
  · rw [List.forall_mem_cons, List.forall_mem_map, ← (tables _ _ _ hcommon).2,
      ← forall₂_iff_forall_mem (fun e table (h : r.ReadsStage e table) =>
        (and_iff_right h.1).trans (tables _ _ _ h.2).2) hstages, and_comm]
    exact ⟨fun h => ⟨h.stages, h.common⟩, fun h => ⟨h.1, h.2⟩⟩

/-- Whatever is read of raw mappings has under each text the last entry with a key of that text,
and nothing is lost exactly if no mapping has two keys of one text. Two entries for one stage are
never read. -/
theorem reading_keeps_iff (v : Value α) (states : List String) (layout : Layout) :
    (∀ m, (readCosts v states layout).result = .ok m → ∃ stages common,
      v.Fills Value.Denotes Value.Denotes (fun _ => True) layout stages common m) ∧
    (∀ m, (readTransitions v states layout).result = .ok m → ∃ stages common,
      v.Fills (Value.LastAs Value.Denotes) (Value.KeptAs Value.Denotes)
        (Value.IsApart fun _ => True) layout stages common m) ∧
    ∀ d, readSalvage v = .ok d → ∃ entries, PlainEntries v entries ∧
      (Value.map entries).LastAs Value.Denotes d ∧
      ((Value.map entries).KeptAs Value.Denotes d ↔
        (Value.map entries).IsApart fun _ => True) := by
  refine ⟨fun m hm => CellReader.exists_fills placeless_costCells accounts_costCells hm,
    fun m hm => CellReader.exists_fills placeless_transitionCells accounts_transitionCells hm,
    fun d hd => ?_⟩
  by_cases hnull : v = .null
  · subst hnull
    cases hd
    exact ⟨[], .null, ⟨[], rfl, fun _ => .none⟩,
      iff_of_true ⟨[], rfl, .nil⟩ ⟨[], rfl, List.nodup_nil, nofun⟩⟩
  · rw [readSalvage.eq_2 _ hnull] at hd
    have account := accounts_dict accounts_number _ _ _ hd
    obtain ⟨entries, rfl, _⟩ := account.1
    exact ⟨entries, .map entries, account⟩

/-- Costs and terminal values with the numeral and the number one for a key. -/
def repeatedOne : Entries Float :=
  [(.number (.whole 1), .number (.whole 2)), (.text "1", .number (.whole 3))]

/-- A marked model whose keys are of all kinds, and of different texts. -/
def mixedRows : Value Float :=
  .timeVarying
    (.map [(.number (.whole 0), .map [(.text "A", .map
      [ (.null, .map [(.bool true, .number (.whole 1)), (.number (.whole 2), .null)]),
        (.number (.real 1.5), .map [(.text "1", .text "0.5")])])])])
    (.map [])

theorem repeatedOne_merged :
    (∃ m stages common, (readCosts (.map [(.text "A", .map repeatedOne)]) [] .auto).result = .ok m ∧
      (Value.map [(.text "A", .map repeatedOne)]).Fills Value.Denotes Value.Denotes
        (fun _ => True) .auto stages common m ∧
      m.commonTable.entries.map (fun e => (e.1, e.2.entries)) = [("A", [("1", 3)])]) ∧
    (∃ m stages common, (readTransitions mixedRows [] .auto).result = .ok m ∧
      mixedRows.Fills (Value.LastAs Value.Denotes) (Value.KeptAs Value.Denotes)
        (Value.IsApart fun _ => True) .auto stages common m ∧
      m.stageEntries.map (fun e => (e.1, e.2.keys, e.2.values.map Dict.keys)) =
        [(0, ["A"], [["None", "1.5"]])]) ∧
    ∃ d entries, readSalvage (.map repeatedOne) = .ok d ∧ PlainEntries (.map repeatedOne) entries ∧
      (Value.map entries).LastAs Value.Denotes d ∧ d.entries = [("1", 3)] := by
  refine ⟨?_, ?_, ?_⟩
  · obtain ⟨m, hm, cells⟩ := exists_ok_of_map_toOption
      (x := (readCosts (.map [(.text "A", .map repeatedOne)]) [] .auto).result)
      (f := fun m => m.commonTable.entries.map fun e => (e.1, e.2.entries))
      (c := [("A", [("1", 3)])]) (by decide +kernel)
    obtain ⟨stages, common, fills⟩ := (reading_keeps_iff _ _ _).1 m hm
    exact ⟨m, stages, common, hm, fills, cells⟩
  · obtain ⟨m, hm, keys⟩ := exists_ok_of_map_toOption
      (x := (readTransitions mixedRows [] .auto).result)
      (f := fun m => m.stageEntries.map fun e => (e.1, e.2.keys, e.2.values.map Dict.keys))
      (c := [(0, ["A"], [["None", "1.5"]])]) (by decide +kernel)
    obtain ⟨stages, common, fills⟩ := (reading_keeps_iff _ _ _).2.1 m hm
    exact ⟨m, stages, common, hm, fills, keys⟩
  · obtain ⟨d, hd, entries_eq⟩ := exists_ok_of_map_toOption
      (x := readSalvage (.map repeatedOne)) (f := fun d => d.entries) (c := [("1", 3)])
      (by decide +kernel)
    obtain ⟨entries, plain, last, _⟩ := (reading_keeps_iff _ [] .auto).2.2 d hd
    exact ⟨d, entries, hd, plain, last, entries_eq⟩

end Readings

end BackwardInduction
