import BackwardInduction.Proofs.ReadModels

/-!
How the entries of a plain model are parted. Each key names a stage or none; what
names none goes to the table behind the stages, and the stages become layers as
long as no two are the same and, with no layout given, none looks like a state.
-/

namespace BackwardInduction

variable {α β : Type}

namespace CellReader

section Keyed

/-- Entries together with the stages that their keys name. -/
structure Keyed (entries : Entries α) (keyed : List (Option Nat × Key α × Value α)) :
    Prop where
  entries_eq : keyed.map Prod.snd = entries
  stage_eq : ∀ e ∈ keyed, e.2.1.stage = .ok e.1

/-- The entries that name a stage, under the stages they name. -/
def staged (keyed : List (Option Nat × Key α × Value α)) : List (Nat × Key α × Value α) :=
  keyed.filterMap fun (stage?, e) => stage?.map (·, e)

/-- The entries that name no stage. -/
def others (keyed : List (Option Nat × Key α × Value α)) : Entries α :=
  keyed.filterMap fun (stage?, e) => if stage?.isNone then some e else none

theorem stagesOf_cons (e : Key α × Value α) (entries : Entries α) :
    stagesOf (e :: entries) =
      e.1.stage >>= fun stage => stagesOf entries >>= fun keyed =>
        .ok ((stage, e) :: keyed) := by
  simp only [stagesOf, List.mapM_cons, bind_assoc, pure_bind]
  rfl

theorem stagesOf_eq_ok_iff (entries : Entries α)
    (keyed : List (Option Nat × Key α × Value α)) :
    stagesOf entries = .ok keyed ↔ Keyed entries keyed := by
  induction entries generalizing keyed with
  | nil =>
      constructor
      · intro h
        cases h
        exact ⟨rfl, fun e he => nomatch he⟩
      · intro h
        rw [List.map_eq_nil_iff.mp h.entries_eq]
        rfl
  | cons e entries ih =>
      obtain ⟨key, v⟩ := e
      rw [stagesOf_cons]
      constructor
      · intro h
        obtain ⟨stage, hstage, h⟩ := bind_eq_ok_iff.mp h
        obtain ⟨keyed', hkeyed, heq⟩ := bind_eq_ok_iff.mp h
        cases heq
        have tail := (ih keyed').mp hkeyed
        refine ⟨?_, ?_⟩
        · rw [List.map_cons, tail.entries_eq]
        · intro e he
          rcases List.mem_cons.mp he with heq | he
          · rw [heq]
            exact hstage
          · exact tail.stage_eq e he
      · intro h
        cases keyed with
        | nil => cases h.entries_eq
        | cons e' keyed =>
            obtain ⟨stage, e'⟩ := e'
            have entries_eq := h.entries_eq
            rw [List.map_cons, List.cons.injEq] at entries_eq
            obtain ⟨rfl, tail⟩ := entries_eq
            have hstage : key.stage = .ok stage := h.stage_eq _ List.mem_cons_self
            have hkeyed := (ih keyed).mpr
              ⟨tail, fun e he => h.stage_eq e (List.mem_cons_of_mem _ he)⟩
            rw [hstage, hkeyed]
            rfl

theorem exists_stage_error_of_stagesOf {entries : Entries α} {e : Fault}
    (h : stagesOf entries = .error e) : ∃ entry ∈ entries, entry.1.stage = .error e := by
  induction entries with
  | nil => cases h
  | cons entry entries ih =>
      rw [stagesOf_cons] at h
      cases hstage : entry.1.stage with
      | error e' =>
          rw [hstage] at h
          cases h
          exact ⟨entry, List.mem_cons_self, hstage⟩
      | ok stage? =>
          rw [hstage] at h
          cases htail : stagesOf entries with
          | error e' =>
              rw [htail] at h
              cases h
              obtain ⟨entry', hmem, he⟩ := ih htail
              exact ⟨entry', List.mem_cons_of_mem _ hmem, he⟩
          | ok keyed =>
              rw [htail] at h
              cases h

theorem Keyed.exists_stage {entries : Entries α}
    {keyed : List (Option Nat × Key α × Value α)} (h : Keyed entries keyed)
    {e : Key α × Value α} (he : e ∈ entries) :
    ∃ stage?, (stage?, e) ∈ keyed ∧ e.1.stage = .ok stage? := by
  rw [← h.entries_eq] at he
  obtain ⟨⟨stage?, _⟩, hm, rfl⟩ := List.mem_map.mp he
  exact ⟨stage?, hm, h.stage_eq _ hm⟩

theorem Keyed.mem_entries {entries : Entries α}
    {keyed : List (Option Nat × Key α × Value α)} (h : Keyed entries keyed)
    {e : Option Nat × Key α × Value α} (he : e ∈ keyed) : e.2 ∈ entries := by
  rw [← h.entries_eq]
  exact List.mem_map_of_mem he

theorem stage_of_mem_staged {entries : Entries α}
    {keyed : List (Option Nat × Key α × Value α)} (h : Keyed entries keyed)
    {e : Nat × Key α × Value α} (he : e ∈ staged keyed) :
    e.2 ∈ entries ∧ e.2.1.stage = .ok (some e.1) := by
  obtain ⟨⟨stage?, e'⟩, hm, heq⟩ := List.mem_filterMap.mp he
  obtain ⟨stage, hstage, heq⟩ := Option.map_eq_some_iff.mp heq
  cases hstage
  cases heq
  exact ⟨h.mem_entries hm, h.stage_eq _ hm⟩

theorem stage_of_mem_others {entries : Entries α}
    {keyed : List (Option Nat × Key α × Value α)} (h : Keyed entries keyed)
    {e : Key α × Value α} (he : e ∈ others keyed) :
    e ∈ entries ∧ e.1.stage = .ok none := by
  obtain ⟨⟨stage?, e'⟩, hm, heq⟩ := List.mem_filterMap.mp he
  cases stage? with
  | some stage => cases heq
  | none =>
      cases heq
      exact ⟨h.mem_entries hm, h.stage_eq _ hm⟩

theorem stage_of_staged_eq_nil {entries : Entries α}
    {keyed : List (Option Nat × Key α × Value α)} (h : Keyed entries keyed)
    (hstaged : staged keyed = []) {e : Key α × Value α} (he : e ∈ entries) :
    e.1.stage = .ok none := by
  obtain ⟨stage?, hm, hstage⟩ := h.exists_stage he
  cases stage? with
  | none => exact hstage
  | some stage =>
      have found : (stage, e) ∈ staged keyed := List.mem_filterMap.mpr ⟨_, hm, rfl⟩
      rw [hstaged] at found
      cases found

end Keyed

variable (r : CellReader α β)

theorem addLayer_eq_ok_iff (d layers : Dict Nat (Value α)) (stage : Nat) (v : Value α) :
    r.addLayer d stage v = .ok layers ↔ stage ∉ d.keys ∧ layers = d.insert stage v := by
  rw [addLayer]
  split
  · rename_i h
    simp [(d.contains_iff stage).mp h]
  · rename_i h
    simp [(d.contains_iff stage).not.mp h, eq_comm]

theorem addLayers_eq_ok_iff (es : List (Nat × Key α × Value α)) (d layers : Dict Nat (Value α)) :
    es.foldlM (fun layers (stage, _, v) => r.addLayer layers stage v) d = .ok layers ↔
      (d.keys ++ es.map Prod.fst).Nodup ∧
        layers.entries = d.entries ++ es.map fun e => (e.1, e.2.2) := by
  induction es generalizing d with
  | nil =>
      have nodup := d.nodup_keys
      simp only [List.foldlM_nil, List.map_nil, List.append_nil, nodup, true_and]
      constructor
      · intro h
        cases h
        rfl
      · intro h
        rw [Dict.ext h]
        rfl
  | cons e es ih =>
      obtain ⟨stage, key, v⟩ := e
      rw [List.foldlM_cons, bind_eq_ok_iff]
      constructor
      · intro h
        obtain ⟨d', hd', h⟩ := h
        obtain ⟨fresh, rfl⟩ := (r.addLayer_eq_ok_iff d d' stage v).mp hd'
        have tail := (ih _).mp h
        rw [Dict.keys_insert_of_not_mem fresh, Dict.entries_insert_of_not_mem fresh] at tail
        simpa using tail
      · intro h
        have fresh : stage ∉ d.keys := fun hk =>
          (List.nodup_append.mp h.1).2.2 _ hk _ (by simp) rfl
        refine ⟨d.insert stage v, (r.addLayer_eq_ok_iff d _ stage v).mpr ⟨fresh, rfl⟩, ?_⟩
        refine (ih _).mpr ?_
        rw [Dict.keys_insert_of_not_mem fresh, Dict.entries_insert_of_not_mem fresh]
        simpa using h

section Parting

variable [Scalar α]

/-- The entries with a stage that looks like a state. -/
def clashes (states : List String) (keyed : List (Option Nat × Key α × Value α)) :
    List (Nat × Key α × Value α) :=
  (staged keyed).filter fun e => states.contains (Text.trim e.2.1.display)

/-- How the entries of a plain model are parted under a layout: not at all, or into layers
for the stages and other entries. -/
inductive Parts (states : List String) :
    Layout → Entries α → Option (Dict Nat (Value α) × Entries α) → Prop
  | stationary (entries : Entries α) : Parts states .stationary entries none
  | whole {layout : Layout} {entries : Entries α}
      {keyed : List (Option Nat × Key α × Value α)}
      (hlayout : layout = .auto ∨ layout = .timeVarying) (hkeyed : Keyed entries keyed)
      (hothers : layout = .timeVarying → others keyed = []) (hstaged : staged keyed = []) :
      Parts states layout entries none
  | parted {layout : Layout} {entries : Entries α}
      {keyed : List (Option Nat × Key α × Value α)} {layers : Dict Nat (Value α)}
      (hlayout : layout = .auto ∨ layout = .timeVarying) (hkeyed : Keyed entries keyed)
      (hothers : layout = .timeVarying → others keyed = []) (hstaged : staged keyed ≠ [])
      (hclash : layout = .auto → clashes states keyed = [])
      (hlayers : layers.entries = (staged keyed).map fun e => (e.1, e.2.2)) :
      Parts states layout entries (some (layers, others keyed))

/-- The layers of the entries that name a stage. -/
def layersOf (keyed : List (Option Nat × Key α × Value α)) :
    Except Fault (Dict Nat (Value α)) :=
  (staged keyed).foldlM (fun layers (stage, _, v) => r.addLayer layers stage v) ∅

theorem layers?_auto (entries : Entries α) (states : List String) :
    r.layers? entries states .auto = do
      let keyed ← stagesOf entries
      if (staged keyed).isEmpty then return none
      if !(clashes states keyed).isEmpty then
        throw (.ambiguousKeys r.family ((clashes states keyed).map (·.2.1.literal)))
      Traced.note (.layered r.family ((staged keyed).map (·.2.1)))
      let layers ← (staged keyed).foldlM (fun layers (stage, _, v) => r.addLayer layers stage v)
        (∅ : Dict Nat (Value α))
      return some (layers, others keyed) :=
  rfl

theorem layers?_timeVarying (entries : Entries α) (states : List String) :
    r.layers? entries states .timeVarying = do
      let keyed ← stagesOf entries
      if !(others keyed).isEmpty then
        throw (.strayKeys r.family ((others keyed).map (·.1.literal)))
      if (staged keyed).isEmpty then return none
      let layers ← (staged keyed).foldlM (fun layers (stage, _, v) => r.addLayer layers stage v)
        (∅ : Dict Nat (Value α))
      return some (layers, others keyed) :=
  rfl

theorem result_layers?_auto (entries : Entries α) (states : List String) :
    (r.layers? entries states .auto).result =
      stagesOf entries >>= fun keyed =>
        if (staged keyed).isEmpty then .ok none
        else if !(clashes states keyed).isEmpty then
          .error (.ambiguousKeys r.family ((clashes states keyed).map (·.2.1.literal)))
        else r.layersOf keyed >>= fun layers => .ok (some (layers, others keyed)) := by
  rw [layers?_auto, Traced.result_bind]
  refine congrArg _ (funext fun keyed => ?_)
  split
  · rfl
  · split
    · rfl
    · simp only [Traced.result_bind, Traced.result_note, Traced.result_foldlM,
        Traced.result_liftM, Traced.result_pure]
      rfl

theorem result_layers?_timeVarying (entries : Entries α) (states : List String) :
    (r.layers? entries states .timeVarying).result =
      stagesOf entries >>= fun keyed =>
        if !(others keyed).isEmpty then
          .error (.strayKeys r.family ((others keyed).map (·.1.literal)))
        else if (staged keyed).isEmpty then .ok none
        else r.layersOf keyed >>= fun layers => .ok (some (layers, others keyed)) := by
  rw [layers?_timeVarying, Traced.result_bind]
  refine congrArg _ (funext fun keyed => ?_)
  dsimp only
  split
  · rfl
  · split
    · rfl
    · simp only [Traced.result_bind, Traced.result_foldlM, Traced.result_liftM,
        Traced.result_pure]
      rfl

omit [Scalar α] in
theorem layersOf_eq_ok_iff (keyed : List (Option Nat × Key α × Value α))
    (layers : Dict Nat (Value α)) :
    r.layersOf keyed = .ok layers ↔
      layers.entries = (staged keyed).map fun e => (e.1, e.2.2) := by
  rw [layersOf, addLayers_eq_ok_iff]
  simp only [Dict.keys, Dict.entries_empty, List.map_nil, List.nil_append, and_iff_right_iff_imp]
  intro h
  have nodup := layers.nodup
  rw [h, List.map_map] at nodup
  exact nodup

theorem parts_auto {entries : Entries α} {states : List String}
    {parts : Option (Dict Nat (Value α) × Entries α)}
    (h : (r.layers? entries states .auto).result = .ok parts) :
    Parts states .auto entries parts := by
  rw [result_layers?_auto, bind_eq_ok_iff] at h
  obtain ⟨keyed, hkeyed, h⟩ := h
  have keyed_ok := (stagesOf_eq_ok_iff entries keyed).mp hkeyed
  split at h
  · rename_i hstaged
    cases h
    exact .whole (.inl rfl) keyed_ok nofun (List.isEmpty_iff.mp hstaged)
  · rename_i hstaged
    split at h
    · cases h
    · rename_i hclash
      obtain ⟨layers, hlayers, heq⟩ := bind_eq_ok_iff.mp h
      cases heq
      have no_clash : clashes states keyed = [] := by simpa using hclash
      exact .parted (.inl rfl) keyed_ok nofun (List.isEmpty_iff.not.mp hstaged)
        (fun _ => no_clash) ((r.layersOf_eq_ok_iff keyed layers).mp hlayers)

theorem parts_timeVarying {entries : Entries α} {states : List String}
    {parts : Option (Dict Nat (Value α) × Entries α)}
    (h : (r.layers? entries states .timeVarying).result = .ok parts) :
    Parts states .timeVarying entries parts := by
  rw [result_layers?_timeVarying, bind_eq_ok_iff] at h
  obtain ⟨keyed, hkeyed, h⟩ := h
  have keyed_ok := (stagesOf_eq_ok_iff entries keyed).mp hkeyed
  split at h
  · cases h
  · rename_i hothers
    have no_others : others keyed = [] := by simpa using hothers
    split at h
    · rename_i hstaged
      cases h
      exact .whole (.inr rfl) keyed_ok (fun _ => no_others) (List.isEmpty_iff.mp hstaged)
    · rename_i hstaged
      obtain ⟨layers, hlayers, heq⟩ := bind_eq_ok_iff.mp h
      cases heq
      exact .parted (.inr rfl) keyed_ok (fun _ => no_others)
        (List.isEmpty_iff.not.mp hstaged) nofun
        ((r.layersOf_eq_ok_iff keyed layers).mp hlayers)

theorem layers?_eq_ok_iff (entries : Entries α) (states : List String) (layout : Layout)
    (parts : Option (Dict Nat (Value α) × Entries α)) :
    (r.layers? entries states layout).result = .ok parts ↔
      Parts states layout entries parts := by
  constructor
  · intro h
    cases layout with
    | unknown name => cases h
    | stationary =>
        cases h
        exact .stationary entries
    | auto => exact r.parts_auto h
    | timeVarying => exact r.parts_timeVarying h
  · intro h
    cases h with
    | stationary => rfl
    | @whole _ _ keyed hlayout hkeyed hothers hstaged =>
        have stages := (stagesOf_eq_ok_iff entries keyed).mpr hkeyed
        rcases hlayout with rfl | rfl
        · rw [result_layers?_auto, stages]
          simp [bind, Except.bind, hstaged]
        · rw [result_layers?_timeVarying, stages]
          simp [bind, Except.bind, hstaged, hothers rfl]
    | @parted _ _ keyed layers hlayout hkeyed hothers hstaged hclash hlayers =>
        have stages := (stagesOf_eq_ok_iff entries keyed).mpr hkeyed
        have layered := (r.layersOf_eq_ok_iff keyed layers).mpr hlayers
        rcases hlayout with rfl | rfl
        · rw [result_layers?_auto, stages]
          simp [bind, Except.bind, hstaged, hclash rfl, layered]
        · rw [result_layers?_timeVarying, stages]
          simp [bind, Except.bind, hstaged, hothers rfl, layered]

/-- With no layout given, a stage that looks like a state is refused. -/
theorem layers?_ambiguous {entries : Entries α}
    {keyed : List (Option Nat × Key α × Value α)} (hkeyed : Keyed entries keyed)
    {states : List String} (hclash : clashes states keyed ≠ []) :
    (r.layers? entries states .auto).result =
      .error (.ambiguousKeys r.family ((clashes states keyed).map (·.2.1.literal))) := by
  have stages := (stagesOf_eq_ok_iff entries keyed).mpr hkeyed
  have hstaged : staged keyed ≠ [] := fun h => hclash (by rw [clashes, h]; rfl)
  rw [result_layers?_auto, stages]
  simp [bind, Except.bind, hstaged, hclash]

end Parting

end CellReader

end BackwardInduction
