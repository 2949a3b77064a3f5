import BackwardInduction.Proofs.StageParting

/-!
Marked models, table by table. Where a table stands shows in the message of a fault and
nowhere else, so that a table is read the same at every stage; a model that is marked as
time-varying is read exactly if each of its keys names a stage of its own, and its tables
are those under the keys, in their order.
-/

namespace BackwardInduction

variable {α β : Type}

section Between

variable {γ : Type}

/-- Entries that correspond through a list between them. -/
theorem exists_between_iff {δ : Type} {R : β → γ → Prop} {S : γ → δ → Prop} {xs : List β}
    {zs : List δ} :
    (∃ ys, List.Forall₂ R xs ys ∧ List.Forall₂ S ys zs) ↔
      List.Forall₂ (fun x z => ∃ y, R x y ∧ S y z) xs zs := by
  constructor
  · rintro ⟨ys, hxs, hzs⟩
    induction hxs generalizing zs with
    | nil =>
        cases hzs
        exact .nil
    | cons hxy _ ih =>
        cases hzs with
        | cons hyz hzs => exact .cons ⟨_, hxy, hyz⟩ (ih hzs)
  · intro h
    induction h with
    | nil => exact ⟨[], .nil, .nil⟩
    | cons hxz _ ih =>
        obtain ⟨y, hxy, hyz⟩ := hxz
        obtain ⟨ys, hxs, hzs⟩ := ih
        exact ⟨y :: ys, .cons hxy hxs, .cons hyz hzs⟩

end Between

variable [Scalar α]

/-- Where a value stands makes no difference to what is read of it. -/
def Placeless (item : Place → Value α → Except Fault β) : Prop :=
  ∀ place place' v b, item place v = .ok b → item place' v = .ok b

theorem placeless_readNumber : Placeless (readNumber (α := α)) := by
  intro place place' v x h
  rw [readNumber_eq_ok_iff] at h ⊢
  exact h

theorem placeless_readWeight : Placeless (readWeight (α := α)) := by
  intro place place' v x h
  rw [readWeight_eq_ok_iff] at h ⊢
  exact h

theorem placeless_readDict {item : Place → Value α → Except Fault β} (hitem : Placeless item) :
    Placeless (readDict item) := by
  intro place place' v d h
  rw [readDict_eq_ok_iff] at h ⊢
  obtain ⟨entries, hv, es, hes, hd⟩ := h
  exact ⟨entries, hv, es, hes.imp fun _ _ he => ⟨he.1, hitem _ _ _ _ he.2⟩, hd⟩

theorem placeless_costCells : Placeless (costCells (α := α)).read :=
  placeless_readNumber

theorem placeless_transitionCells : Placeless (transitionCells (α := α)).read :=
  placeless_readDict placeless_readWeight

namespace CellReader

variable {r : CellReader α β}

theorem placeless_table (hr : Placeless r.read) : Placeless r.table :=
  placeless_readDict (placeless_readDict hr)

theorem table_eq_ok_iff_place (hr : Placeless r.read) {place : Place} (place' : Place)
    {v : Value α} {t : Table β} : r.table place v = .ok t ↔ r.table place' v = .ok t :=
  ⟨placeless_table hr _ _ v t, placeless_table hr _ _ v t⟩

section Layers

/-- The key of the entry names the stage of the layer, and its value is the layer. -/
def NamesLayer (e : Key α × Value α) (layer : Nat × Value α) : Prop :=
  e.1.stage = .ok (some layer.1) ∧ layer.2 = e.2

omit [Scalar α] in
/-- Entries that name different stages have keys that are read differently. -/
theorem nodup_stages {γ : Type} {entries : Entries α} {layers : List (Nat × γ)}
    (h : List.Forall₂ (fun e layer => e.1.stage = .ok (some layer.1)) entries layers)
    (hnodup : (layers.map Prod.fst).Nodup) : (entries.map fun e => e.1.stage).Nodup := by
  have named : entries.map (fun e => e.1.stage) =
      (layers.map Prod.fst).map fun stage => .ok (some stage) := by
    rw [List.map_map, ← List.forall₂_eq_eq_eq, List.forall₂_map_left_iff,
      List.forall₂_map_right_iff]
    exact h
  rw [named]
  exact hnodup.map fun _ _ h => by simpa using h

/-- Adds the layer of an entry of a marked model. -/
def addMarked (r : CellReader α β) (layers : Dict Nat (Value α)) (e : Key α × Value α) :
    Except Fault (Dict Nat (Value α)) := do
  match ← e.1.stage with
  | some stage => r.addLayer layers stage e.2
  | none => throw (.badStageKey r.family e.1.literal)

theorem markedLayers_map (entries : Entries α) :
    r.markedLayers (.map entries) = entries.foldlM r.addMarked ∅ :=
  rfl

theorem addMarked_eq_ok_iff (d layers : Dict Nat (Value α)) (e : Key α × Value α) :
    r.addMarked d e = .ok layers ↔
      ∃ layer, NamesLayer e layer ∧ layer.1 ∉ d.keys ∧ layers = d.insert layer.1 layer.2 := by
  rw [addMarked, bind_eq_ok_iff]
  constructor
  · rintro ⟨stage?, hstage, h⟩
    cases stage? with
    | none => cases h
    | some stage =>
        exact ⟨(stage, e.2), ⟨hstage, rfl⟩, (r.addLayer_eq_ok_iff d layers stage e.2).mp h⟩
  · rintro ⟨⟨stage, _⟩, ⟨hstage, rfl⟩, h⟩
    exact ⟨some stage, hstage, (r.addLayer_eq_ok_iff d layers stage e.2).mpr h⟩

theorem addMarkeds_eq_ok_iff (entries : Entries α) (d layers : Dict Nat (Value α)) :
    entries.foldlM r.addMarked d = .ok layers ↔
      ∃ es, List.Forall₂ NamesLayer entries es ∧ layers.entries = d.entries ++ es := by
  induction entries generalizing d with
  | nil =>
      constructor
      · rintro ⟨⟩
        exact ⟨[], .nil, (List.append_nil _).symm⟩
      · rintro ⟨_, ⟨⟩, h⟩
        rw [List.append_nil] at h
        rw [Dict.ext h]
        rfl
  | cons e entries ih =>
      simp only [List.foldlM_cons, bind_eq_ok_iff, addMarked_eq_ok_iff, ih]
      constructor
      · rintro ⟨_, ⟨layer, hlayer, fresh, rfl⟩, es, hes, h⟩
        rw [Dict.entries_insert_of_not_mem fresh, List.append_assoc] at h
        exact ⟨layer :: es, .cons hlayer hes, h⟩
      · rintro ⟨_, h, hd⟩
        cases h with
        | @cons _ layer _ es hlayer hes =>
            have nodup := layers.nodup
            rw [hd, List.map_append, List.nodup_append] at nodup
            have fresh : layer.1 ∉ d.keys := fun hk => nodup.2.2 _ hk _ List.mem_cons_self rfl
            refine ⟨_, ⟨layer, hlayer, fresh, rfl⟩, es, hes, ?_⟩
            rw [Dict.entries_insert_of_not_mem fresh, List.append_assoc]
            exact hd

end Layers

/-- The key of the entry names the stage, and its value is read as the table. -/
def ReadsStage (r : CellReader α β) (e : Key α × Value α) (stage : Nat × Table β) : Prop :=
  e.1.stage = .ok (some stage.1) ∧ r.table r.place e.2 = .ok stage.2

/-- A model that is marked as time-varying is read entry by entry. -/
theorem model_timeVarying_eq_ok_iff (hr : Placeless r.read) (stages fallback : Value α)
    (states : List String) (layout : Layout) (m : Model β) :
    (r.model (.timeVarying stages fallback) states layout).result = .ok m ↔
      ∃ entries tables table, stages = .map entries ∧
        List.Forall₂ r.ReadsStage entries tables.entries ∧
        r.table r.place fallback = .ok table ∧ m = .timeVarying tables table := by
  have through (e : Key α × Value α) (stage : Nat × Table β) :
      (∃ layer, NamesLayer e layer ∧
          Dict.Yields (fun stage v => r.table (r.place.stage stage) v) layer stage) ↔
        r.ReadsStage e stage := by
    constructor
    · rintro ⟨⟨n, _⟩, ⟨hstage, rfl⟩, rfl, htable⟩
      exact ⟨hstage, (table_eq_ok_iff_place hr _).mp htable⟩
    · rintro ⟨hstage, htable⟩
      exact ⟨(stage.1, e.2), ⟨hstage, rfl⟩, rfl, (table_eq_ok_iff_place hr _).mp htable⟩
  constructor
  · intro h
    cases (r.model_eq_ok_iff _ states layout m).mp h with
    | @timeVarying _ _ layers tables table hlayers htables htable =>
        obtain ⟨entries, hentries, _⟩ := bind_eq_ok_iff.mp hlayers
        rw [entriesOf_eq_ok_iff] at hentries
        subst hentries
        rw [markedLayers_map, addMarkeds_eq_ok_iff] at hlayers
        obtain ⟨es, hes, heq⟩ := hlayers
        have yields := (Dict.traverse_eq_ok_iff _ _ _).mp htables
        rw [heq] at yields
        have between := exists_between_iff.mp ⟨es, hes, yields⟩
        exact ⟨entries, tables, table, rfl, between.imp fun e stage => (through e stage).mp,
          htable, rfl⟩
    | whole hv | parted hv => cases hv
  · rintro ⟨entries, tables, table, rfl, hstages, htable, rfl⟩
    have between := hstages.imp fun e stage => (through e stage).mpr
    obtain ⟨es, hes, yields⟩ := exists_between_iff.mpr between
    have nodup : (es.map Prod.fst).Nodup := Dict.keys_of_yields yields ▸ tables.nodup
    let layers : Dict Nat (Value α) := ⟨es, nodup⟩
    have hlayers : r.markedLayers (.map entries) = .ok layers := by
      rw [markedLayers_map, addMarkeds_eq_ok_iff]
      exact ⟨es, hes, rfl⟩
    have htables : r.stageTables layers = .ok tables :=
      (Dict.traverse_eq_ok_iff _ layers tables).mpr yields
    exact (r.model_eq_ok_iff _ states layout _).mpr (.timeVarying hlayers htables htable)

end CellReader

end BackwardInduction
