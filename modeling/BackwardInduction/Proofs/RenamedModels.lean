import Mathlib.Logic.Embedding.Basic
import BackwardInduction.Proofs.CutHorizons

/-!
Models under other names. Once it is settled which keys are stages, a key of a table says
nothing but which name it is: a table whose keys are renamed, no two names into one, is read
as the renamed table, and normalization goes through it row by row.
-/

namespace BackwardInduction

section Outcomes

variable {β γ β' γ' δ δ' : Type} {f : β → γ} {f' : β' → γ'}

/-- Both outcomes are faults, or the second is the image of the first. -/
inductive Mirrors (f : β → γ) : Except Fault β → Except Fault γ → Prop
  | ok (b : β) : Mirrors f (.ok b) (.ok (f b))
  | error (e e' : Fault) : Mirrors f (.error e) (.error e')

theorem Mirrors.of_imp {x : Except Fault β} {y : Except Fault γ}
    (there : ∀ b, x = .ok b → y = .ok (f b)) (back : ∀ c, y = .ok c → ∃ b, x = .ok b) :
    Mirrors f x y := by
  cases x with
  | ok b =>
      rw [there b rfl]
      exact .ok b
  | error e =>
      cases y with
      | ok c =>
          obtain ⟨b, hb⟩ := back c rfl
          cases hb
      | error e' => exact .error e e'

theorem Mirrors.bind {x : Except Fault β} {y : Except Fault γ} {k : β → Except Fault β'}
    {k' : γ → Except Fault γ'} (h : Mirrors f x y)
    (hk : ∀ b, x = .ok b → Mirrors f' (k b) (k' (f b))) : Mirrors f' (x >>= k) (y >>= k') := by
  cases h with
  | ok b => exact hk b rfl
  | error e e' => exact .error e e'

theorem Mirrors.foldlM {φ : δ → δ'} {step : β → δ → Except Fault β}
    {step' : γ → δ' → Except Fault γ} (h : ∀ b e, Mirrors f (step b e) (step' (f b) (φ e)))
    (es : List δ) (b : β) : Mirrors f (es.foldlM step b) ((es.map φ).foldlM step' (f b)) := by
  induction es generalizing b with
  | nil => exact .ok b
  | cons e es ih =>
      rw [List.map_cons, List.foldlM_cons, List.foldlM_cons]
      exact (h b e).bind fun b' _ => ih b'

theorem Mirrors.exists_ok_iff {x : Except Fault β} {y : Except Fault γ} (h : Mirrors f x y) :
    (∃ c, y = .ok c) ↔ ∃ b, x = .ok b := by
  cases h with
  | ok b => exact iff_of_true ⟨_, rfl⟩ ⟨b, rfl⟩
  | error e e' => exact iff_of_false nofun nofun

theorem Mirrors.image_eq {x : Except Fault β} {y : Except Fault γ} (h : Mirrors f x y) {b : β}
    (hx : x = .ok b) : y = .ok (f b) := by
  cases h with
  | ok b' =>
      cases hx
      rfl
  | error e e' => cases hx

end Outcomes

namespace Dict

variable {κ κ' ν ν' : Type}

/-- The map under other keys, with the images of its values. -/
def rename (f : κ ↪ κ') (h : ν → ν') (d : Dict κ ν) : Dict κ' ν' where
  entries := d.entries.map fun e => (f e.1, h e.2)
  nodup := by
    have keys := d.nodup.map f.injective
    rwa [List.map_map] at keys ⊢

variable (f : κ ↪ κ') (h : ν → ν')

theorem keys_rename (d : Dict κ ν) : (d.rename f h).keys = d.keys.map f := by
  simp [keys, rename, Function.comp_def]

theorem isEmpty_rename (d : Dict κ ν) : (d.rename f h).isEmpty = d.isEmpty := by
  simp [isEmpty, rename]

section Search

variable [DecidableEq κ] [DecidableEq κ']

theorem rename_insert (d : Dict κ ν) (k : κ) (v : ν) :
    (d.insert k v).rename f h = (d.rename f h).insert (f k) (h v) := by
  have written (es : List (κ × ν)) : (write k v es).map (fun e => (f e.1, h e.2)) =
      write (f k) (h v) (es.map fun e => (f e.1, h e.2)) := by
    induction es with
    | nil => rfl
    | cons e es ih =>
        by_cases he : e.1 = k
        · simp [write, he]
        · have hne : f e.1 ≠ f k := fun heq => he (f.injective heq)
          simp [write, he, hne, ih]
  exact ext (written d.entries)

theorem rename_ofList (es : List (κ × ν)) :
    (ofList es).rename f h = ofList (es.map fun e => (f e.1, h e.2)) := by
  have written (d : Dict κ ν) :
      (es.foldl (fun d e => d.insert e.1 e.2) d).rename f h =
        (es.map fun e => (f e.1, h e.2)).foldl (fun d e => d.insert e.1 e.2) (d.rename f h) := by
    induction es generalizing d with
    | nil => rfl
    | cons e es ih => rw [List.map_cons, List.foldl_cons, List.foldl_cons, ih, rename_insert]
  exact written ∅

theorem rename_ofKeys (ks : List κ) {g : κ → ν} {g' : κ' → ν'} (hg : ∀ k, g' (f k) = h (g k)) :
    (ofKeys ks g).rename f h = ofKeys (ks.map f) g' := by
  simp [ofKeys, rename_ofList, Function.comp_def, hg]

theorem get?_rename (d : Dict κ ν) (k : κ) : (d.rename f h).get? (f k) = (d.get? k).map h := by
  have found (es : List (κ × ν)) :
      (es.map fun e => (f e.1, h e.2)).lookup (f k) = (es.lookup k).map h := by
    induction es with
    | nil => rfl
    | cons e es ih =>
        rw [List.map_cons, lookup_cons_eq_ite, lookup_cons_eq_ite, ih]
        by_cases he : k = e.1 <;> simp [he]
  exact found d.entries

theorem getD_rename (d : Dict κ ν) (k : κ) (default : ν) :
    (d.rename f h).getD (f k) (h default) = h (d.getD k default) := by
  rw [getD, getD, get?_rename, Option.getD_map]

theorem contains_rename (d : Dict κ ν) (k : κ) :
    (d.rename f h).contains (f k) = d.contains k := by
  rw [Bool.eq_iff_iff, contains_iff, contains_iff, keys_rename,
    List.mem_map_of_injective f.injective]

end Search

/-- Traversals that go alike at each entry go alike as a whole. -/
theorem mirrors_traverse {μ μ' : Type} {h' : μ → μ'} {item : κ → ν → Except Fault μ}
    {item' : κ' → ν' → Except Fault μ'}
    (hitem : ∀ k v, Mirrors h' (item k v) (item' (f k) (h v))) (d : Dict κ ν) :
    Mirrors (rename f h') (d.traverse item) ((d.rename f h).traverse item') := by
  refine .of_imp (fun e he => ?_) fun e' he' => ?_
  · rw [traverse_eq_ok_iff] at he ⊢
    simp only [rename, List.forall₂_map_left_iff, List.forall₂_map_right_iff]
    exact he.imp fun entry image hyields =>
      ⟨congrArg f hyields.1, (hitem entry.1 entry.2).image_eq hyields.2⟩
  · rw [exists_traverse_iff]
    have each := (exists_traverse_iff item' (d.rename f h)).mp ⟨e', he'⟩
    intro entry hentry
    exact (hitem entry.1 entry.2).exists_ok_iff.mp (each _ (List.mem_map_of_mem hentry))

end Dict

/-- The table with its rows and columns under other names, and the images of its cells. -/
def Table.rename {β β' : Type} (f g : String ↪ String) (h : β → β') (t : Table β) : Table β' :=
  Dict.rename f (Dict.rename g h) t

/-- The row with its next states under other names. -/
def Row.rename {α : Type} (f : String ↪ String) (row : Row α) : Row α :=
  Dict.rename f id row

/-- The model with its tables under other names; its stages stay. -/
def Model.rename {β β' : Type} (f g : String ↪ String) (h : β → β') : Model β → Model β'
  | .stationary table => .stationary (table.rename f g h)
  | .timeVarying stages fallback =>
      .timeVarying (stages.rename (.refl Nat) (Table.rename f g h)) (fallback.rename f g h)

variable {α β : Type} [Scalar α]

namespace Value

/-- A mapping with other names for the names that its keys display, and with the images of its
values; whatever is no mapping stays. -/
def rename (f : String ↪ String) (inner : Value α → Value α) : Value α → Value α
  | .map entries => .map (entries.map fun e => (.text (f e.1.display), inner e.2))
  | v => v

omit [Scalar α] in
/-- A mapping under its own keys, with the images of its values. -/
def mapEntries (inner : Value α → Value α) : Value α → Value α
  | .map entries => .map (entries.map fun e => (e.1, inner e.2))
  | v => v

omit [Scalar α] in
/-- A model with the images of its tables: of one table if it is not marked. -/
def mapTables (table : Value α → Value α) : Value α → Value α
  | .stationary raw => .stationary (table raw)
  | .timeVarying stages fallback => .timeVarying (mapEntries table stages) (table fallback)
  | v => table v

/-- A model of costs under other names. -/
def renameCosts (f g : String ↪ String) : Value α → Value α :=
  mapTables (rename f (rename g id))

/-- A model of transitions under other names, those of the next states included. -/
def renameTransitions (f g : String ↪ String) : Value α → Value α :=
  mapTables (rename f (rename g (rename f id)))

end Value

section Reading

variable {β' : Type}

/-- What is read of the image of a value is the image of what is read of it, wherever both
stand. -/
def ReadsImages (item : Place → Value α → Except Fault β) (item' : Place → Value α → Except Fault β')
    (image : Value α → Value α) (h : β → β') : Prop :=
  ∀ place place' v, Mirrors h (item place v) (item' place' (image v))

omit [Scalar α] in
theorem Placeless.readsImages {item : Place → Value α → Except Fault β} (h : Placeless item) :
    ReadsImages item item id id := fun place place' v =>
  .of_imp (fun b => h place place' v b) fun b hb => ⟨b, h place' place v b hb⟩

theorem ReadsImages.readDict {item : Place → Value α → Except Fault β}
    {item' : Place → Value α → Except Fault β'} {image : Value α → Value α} {h : β → β'}
    (hitem : ReadsImages item item' image h) (f : String ↪ String) :
    ReadsImages (readDict item) (readDict item') (Value.rename f image) (Dict.rename f h) := by
  intro place place' v
  cases v with
  | map entries =>
      refine Mirrors.foldlM (fun d e => ?_) entries ∅
      refine (hitem (place.under e.1) _ e.2).bind fun b _ => ?_
      change Mirrors _ (.ok _) (.ok _)
      have inserted := Dict.rename_insert f h d e.1.display b
      exact inserted ▸ .ok (d.insert e.1.display b)
  | null | bool _ | number _ | text _ | list _ | stationary _ | timeVarying _ _ =>
      exact .error _ _

namespace CellReader

variable {r : CellReader α β} {image : Value α → Value α} {h : β → β} (f g : String ↪ String)
  (hr : ReadsImages r.read r.read image h)
include hr

theorem readsImages_table :
    ReadsImages r.table r.table (Value.rename f (Value.rename g image)) (Table.rename f g h) :=
  ReadsImages.readDict (ReadsImages.readDict hr g) f

omit hr in
theorem mirrors_addMarked (table : Value α → Value α) (layers : Dict Nat (Value α))
    (e : Key α × Value α) :
    Mirrors (Dict.rename (.refl Nat) table) (r.addMarked layers e)
      (r.addMarked (layers.rename (.refl Nat) table) (e.1, table e.2)) := by
  rw [addMarked, addMarked]
  cases e.1.stage with
  | error fault => exact .error _ _
  | ok stage? =>
      cases stage? with
      | none => exact .error _ _
      | some stage =>
          change Mirrors _ (r.addLayer layers stage e.2) (r.addLayer _ stage (table e.2))
          have present : (layers.rename (.refl Nat) table).contains stage =
              layers.contains stage :=
            layers.contains_rename (.refl Nat) table stage
          have inserted := layers.rename_insert (.refl Nat) table stage e.2
          rw [addLayer, addLayer, present]
          split
          · exact .error _ _
          · exact inserted ▸ .ok (layers.insert stage e.2)

omit hr in
theorem mirrors_markedLayers (table : Value α → Value α) (stages : Value α) :
    Mirrors (Dict.rename (.refl Nat) table) (r.markedLayers stages)
      (r.markedLayers (Value.mapEntries table stages)) := by
  cases stages with
  | map entries => exact Mirrors.foldlM (mirrors_addMarked table) entries ∅
  | null | bool _ | number _ | text _ | list _ | stationary _ | timeVarying _ _ =>
      exact .error _ _

/-- Where the layout is fixed, a model is read under other names as it is under its own. -/
theorem mirrors_model {v : Value α} {layout : Layout} (hv : v.IsMarked ∨ layout = .stationary)
    (states states' : List String) :
    Mirrors (Model.rename f g h) (r.model v states layout).result
      (r.model (v.mapTables (Value.rename f (Value.rename g image))) states' layout).result := by
  have table := readsImages_table f g hr
  have plain {w w' : Value α} {entries entries' : Entries α} (hw : PlainEntries w entries)
      (hw' : PlainEntries w' entries') (hlayout : layout = .stationary)
      (himage : Value.map entries' = Value.rename f (Value.rename g image) (.map entries)) :
      Mirrors (Model.rename f g h) (r.model w states layout).result
        (r.model w' states' layout).result := by
    subst hlayout
    rw [r.result_model_plain hw, r.result_model_plain hw']
    change Mirrors _ (r.ofLayers entries none) (r.ofLayers entries' none)
    rw [ofLayers, ofLayers, himage]
    exact (table r.place r.place _).bind fun t _ => Mirrors.ok (Model.stationary t)
  cases v with
  | stationary raw =>
      rw [Value.mapTables, result_model_stationary, result_model_stationary]
      exact (table r.place r.place raw).bind fun t _ => Mirrors.ok (Model.stationary t)
  | timeVarying stages fallback =>
      rw [Value.mapTables, result_model_timeVarying, result_model_timeVarying]
      refine (mirrors_markedLayers _ stages).bind fun layers _ => ?_
      have tables : Mirrors (Dict.rename (.refl Nat) (Table.rename f g h)) (r.stageTables layers)
          (r.stageTables (layers.rename (.refl Nat) (Value.rename f (Value.rename g image)))) :=
        Dict.mirrors_traverse (.refl Nat) _ (fun stage v => table (r.place.stage stage) _ v) layers
      refine tables.bind fun tables _ => ?_
      exact (table r.place r.place fallback).bind fun t _ => Mirrors.ok (Model.timeVarying tables t)
  | map entries =>
      exact plain (.map entries) (.map _) (hv.resolve_left id) rfl
  | null => exact plain .null .null (hv.resolve_left id) rfl
  | bool _ | number _ | text _ | list _ => exact .error _ _

end CellReader

theorem readsImages_row (f : String ↪ String) :
    ReadsImages (transitionCells (α := α)).read (transitionCells (α := α)).read
      (Value.rename f id) (Row.rename f) :=
  ReadsImages.readDict placeless_readWeight.readsImages f

theorem mirrors_readCosts (f g : String ↪ String) {v : Value α} {layout : Layout}
    (hv : v.IsMarked ∨ layout = .stationary) (states states' : List String) :
    Mirrors (Model.rename f g id) (readCosts v states layout).result
      (readCosts (v.renameCosts f g) states' layout).result :=
  CellReader.mirrors_model f g placeless_readNumber.readsImages hv states states'

theorem mirrors_readTransitions (f g : String ↪ String) {v : Value α} {layout : Layout}
    (hv : v.IsMarked ∨ layout = .stationary) (states states' : List String) :
    Mirrors (Model.rename f g (Row.rename f)) (readTransitions v states layout).result
      (readTransitions (v.renameTransitions f g) states' layout).result :=
  CellReader.mirrors_model f g (readsImages_row f) hv states states'

theorem mirrors_readSalvage (f : String ↪ String) (v : Value α) :
    Mirrors (Dict.rename f id) (readSalvage v) (readSalvage (v.rename f id)) := by
  cases v with
  | null => exact .ok ∅
  | map _ | bool _ | number _ | text _ | list _ | stationary _ | timeVarying _ _ =>
      exact ReadsImages.readDict placeless_readNumber.readsImages f _ _ _

end Reading

section Normalization

variable (f g : String ↪ String)

omit [Scalar α] in
theorem Row.values_rename (row : Row α) : Dict.values (row.rename f) = Dict.values row := by
  simp [Row.rename, Dict.rename, Dict.values, Function.comp_def]

/-- The weights of a distribution do not depend on what the next states are called. -/
theorem Row.distribution_rename (row : Row α) :
    (row.rename f).distribution = row.distribution.rename f := by
  have total : (row.rename f).total = row.total := by
    rw [Row.total, Row.total, Row.values_rename]
  have size : Dict.size (row.rename f) = Dict.size row := by
    simp [Row.rename, Dict.rename, Dict.size]
  rw [Row.distribution, Row.distribution, total]
  split
  · rw [Row.uniform, Row.uniform, size]
    exact Dict.ext (by simp [Row.rename, Dict.rename, Dict.mapValues])
  · rw [Row.proportional, Row.proportional, total]
    exact Dict.ext (by simp [Row.rename, Dict.rename, Dict.mapValues])

theorem mirrors_normalizeTable (states states' : List String) (stage : Option Nat)
    (t : Table (Row α)) :
    Mirrors (Table.rename f g (Row.rename f)) (normalizeTable states stage t).result
      (normalizeTable states' stage (t.rename f g (Row.rename f))).result := by
  have row (state action : String) (row : Row α) :
      Mirrors (Row.rename f) (normalizeCell states stage state action row).result
        (normalizeCell states' stage (f state) (g action) (row.rename f)).result := by
    rw [result_normalizeCell, result_normalizeCell, Row.normalize, Row.normalize,
      Row.distribution_rename]
    have empty : Dict.isEmpty (row.rename f) = Dict.isEmpty row := Dict.isEmpty_rename f id row
    rw [empty]
    split
    · exact .error _ _
    · exact .ok row.distribution
  simp only [normalizeTable, Dict.result_traverse]
  exact Dict.mirrors_traverse f _ (fun state cells =>
    Dict.mirrors_traverse g _ (fun action => row state action) cells) t

theorem sortedStages_rename {β : Type} (h : β → β) (stages : Dict Nat (Table β)) :
    Model.sortedStages (stages.rename (.refl Nat) (Table.rename f g h)) =
      (Model.sortedStages stages).rename (.refl Nat) (Table.rename f g h) :=
  Dict.ext (List.map_mergeSort (f := fun e : Nat × Table β => (e.1, Table.rename f g h e.2))
    fun _ _ _ _ => rfl).symm

theorem mirrors_normalize (m : TransitionModel α) (states states' : List String) :
    Mirrors (Model.rename f g (Row.rename f)) (m.normalize states).result
      ((Model.rename f g (Row.rename f) m).normalize states').result := by
  have table := mirrors_normalizeTable (α := α) f g states states'
  cases m with
  | stationary t =>
      simp only [Model.rename, Model.normalize, Traced.result_bind, Traced.result_pure]
      exact (table none t).bind fun t _ => Mirrors.ok (Model.stationary t)
  | timeVarying stages fallback =>
      simp only [Model.rename, Model.normalize, Traced.result_bind, Traced.result_pure,
        Dict.result_traverse, sortedStages_rename]
      refine Mirrors.bind (f := Dict.rename (.refl Nat) (Table.rename f g (Row.rename f))) ?_
        fun stages _ => ?_
      · exact Dict.mirrors_traverse (.refl Nat) _ (fun stage t => table (some stage) t) _
      · exact (table none fallback).bind fun t _ => Mirrors.ok (Model.timeVarying stages t)

end Normalization

end BackwardInduction
