import BackwardInduction.Proofs.CellInvariants
import BackwardInduction.Proofs.MatchingDicts

/-!
Normalized models. Normalization keeps every table in its place and every row under its
keys, so that what it makes of a row holds of all rows there are, and a row looked up
after it is the distribution of the row looked up before. As no row is left empty, it
makes no difference whether an empty row counts as one.
-/

namespace BackwardInduction

variable {α β : Type}

namespace Model

/-- The item of the stage's own table if there is one, else that of the common table. -/
def present? (m : Model β) (stage : Nat) (state action : String) : Option β :=
  m.find? (fun _ => true) stage state action

/-- The item that is there at any whole number, stage or not. -/
def presentAt? (m : Model β) (stage : Int) (state action : String) : Option β :=
  match stage with
  | .ofNat n => m.present? n state action
  | .negSucc _ => m.unstaged.present? 0 state action

theorem present?_eq (m : Model β) (stage : Nat) (state action : String) :
    m.present? stage state action =
      ((m.stageTable? stage).bind fun t => t.cell? state action).or
        (m.commonTable.cell? state action) := by
  have all (x : Option β) : x.filter (fun _ => true) = x := by cases x <;> rfl
  rw [present?, find?, all, all]

/-- Items of models are related where the cells of their tables are. -/
theorem rel_present? {R : β → γ → Prop} {T : Table β → Table γ → Prop} {state action : String}
    (hT : ∀ t t', T t t' → Option.Rel R (t.cell? state action) (t'.cell? state action))
    {m : Model β} {m' : Model γ} {stage : Nat}
    (stages : Option.Rel T (m.stageTable? stage) (m'.stageTable? stage))
    (common : T m.commonTable m'.commonTable) :
    Option.Rel R (m.present? stage state action) (m'.present? stage state action) := by
  rw [present?_eq, present?_eq]
  exact rel_or (rel_bind stages hT) (hT _ _ common)

theorem get?_sortedStages (stages : Dict Nat (Table β)) (stage : Nat) :
    (sortedStages stages).get? stage = stages.get? stage :=
  Dict.get?_of_perm (perm_sortedStages stages) stage

end Model

theorem Dict.Matches.all {κ ν μ : Type} {R : ν → μ → Prop} {P : ν → Prop} {Q : μ → Prop}
    (hR : ∀ v w, P v → R v w → Q w) {d : Dict κ ν} {e : Dict κ μ} (h : d.Matches R e)
    (hd : d.All P) : e.All Q := by
  have entries {es : List (κ × ν)} {es' : List (κ × μ)} (h : List.Forall₂ (Dict.Pairs R) es es')
      (hes : ∀ x ∈ es, P x.2) : ∀ y ∈ es', Q y.2 := by
    induction h with
    | nil => exact nofun
    | cons hxy _ ih =>
        obtain ⟨hx, hxs⟩ := List.forall_mem_cons.mp hes
        exact List.forall_mem_cons.mpr ⟨hR _ _ hx hxy.2, ih hxs⟩
  exact entries h hd

variable [Scalar α]

/-- The one row has next states, and the other is its distribution. -/
def Row.Normalizes (row row' : Row α) : Prop :=
  row.isEmpty = false ∧ row' = row.distribution

theorem Row.normalize_eq_ok_iff (row row' : Row α) (stage : Option Int)
    (state action : String) :
    row.normalize stage state action = .ok row' ↔ row.Normalizes row' := by
  rw [normalize, Normalizes]
  cases row.isEmpty with
  | true => simp
  | false => simp [eq_comm]

theorem Row.isEmpty_distribution (row : Row α) :
    Dict.isEmpty row.distribution = Dict.isEmpty row := by
  unfold distribution
  split
  · simp [uniform, Dict.isEmpty]
  · simp [proportional, Dict.isEmpty]

/-- A table is normalized by normalizing its rows. -/
theorem normalizeTable_eq_ok_iff (states : List String) (stage : Option Nat)
    (t t' : Table (Row α)) :
    (normalizeTable states stage t).result = .ok t' ↔
      Dict.Matches (Dict.Matches Row.Normalizes) t t' := by
  rw [normalizeTable, Dict.result_traverse]
  refine Dict.traverse_eq_ok_iff_matches (fun e _ cells => ?_) t'
  rw [Dict.result_traverse]
  refine Dict.traverse_eq_ok_iff_matches (fun e' _ row => ?_) cells
  rw [result_normalizeCell, Row.normalize_eq_ok_iff]

/-- Wherever the one model has a row, the other has the distribution of it. -/
structure Model.Normalizes (m m' : TransitionModel α) : Prop where
  stages : ∀ stage, Option.Rel (Dict.Matches (Dict.Matches Row.Normalizes))
    (m.stageTable? stage) (m'.stageTable? stage)
  common : Dict.Matches (Dict.Matches Row.Normalizes) m.commonTable m'.commonTable

theorem Model.normalizes_of_normalize {m m' : TransitionModel α} {states : List String}
    (h : (m.normalize states).result = .ok m') : m.Normalizes m' := by
  cases m with
  | stationary table =>
      simp only [Model.normalize, Traced.result_bind, Traced.result_pure, bind_eq_ok_iff,
        normalizeTable_eq_ok_iff] at h
      obtain ⟨table', htable, ⟨⟩⟩ := h
      exact ⟨fun _ => .none, htable⟩
  | timeVarying stages fallback =>
      simp only [Model.normalize, Traced.result_bind, Traced.result_pure, bind_eq_ok_iff,
        Dict.result_traverse, normalizeTable_eq_ok_iff] at h
      obtain ⟨stages', hstages, fallback', hfallback, ⟨⟩⟩ := h
      have matched := (Dict.traverse_eq_ok_iff_matches
        (fun e _ t => normalizeTable_eq_ok_iff states (some e.1) e.2 t) stages').mp hstages
      refine ⟨fun stage => ?_, hfallback⟩
      have table := matched.get? stage
      rwa [get?_sortedStages] at table

/-- A row can be normalized exactly if it has next states. -/
theorem Row.exists_normalizes_iff (row : Row α) :
    (∃ row', row.Normalizes row') ↔ row.isEmpty = false :=
  ⟨fun ⟨_, h⟩ => h.1, fun h => ⟨_, h, rfl⟩⟩

theorem exists_normalizeTable_iff (states : List String) (stage : Option Nat)
    (t : Table (Row α)) :
    (∃ t', (normalizeTable states stage t).result = .ok t') ↔ t.All (·.isEmpty = false) := by
  simp only [normalizeTable, Dict.result_traverse, Dict.exists_traverse_iff,
    result_normalizeCell, Row.normalize_eq_ok_iff, Row.exists_normalizes_iff]
  rfl

/-- A model can be normalized exactly if each of its rows has next states. -/
theorem Model.exists_normalize_iff (m : TransitionModel α) (states : List String) :
    (∃ m', (m.normalize states).result = .ok m') ↔ m.All (·.isEmpty = false) := by
  cases m with
  | stationary table =>
      simp only [Model.normalize, Traced.result_bind, Traced.result_pure, bind_eq_ok_iff]
      rw [Model.All, ← exists_normalizeTable_iff states none]
      constructor
      · rintro ⟨_, t', ht', _⟩
        exact ⟨t', ht'⟩
      · rintro ⟨t', ht'⟩
        exact ⟨_, t', ht', rfl⟩
  | timeVarying stages fallback =>
      have staged : (∃ stages', (sortedStages stages).traverse
            (fun stage t => (normalizeTable states (some stage) t).result) = .ok stages') ↔
          stages.All (Table.All (·.isEmpty = false)) := by
        simp only [Dict.exists_traverse_iff, exists_normalizeTable_iff,
          (perm_sortedStages stages).mem_iff]
        rfl
      simp only [Model.normalize, Traced.result_bind, Traced.result_pure, bind_eq_ok_iff,
        Dict.result_traverse]
      rw [Model.All, ← exists_normalizeTable_iff states none, ← staged]
      constructor
      · rintro ⟨_, stages', hstages, fallback', hfallback, _⟩
        exact ⟨⟨stages', hstages⟩, fallback', hfallback⟩
      · rintro ⟨⟨stages', hstages⟩, fallback', hfallback⟩
        exact ⟨_, stages', hstages, fallback', hfallback, rfl⟩

namespace Model.Normalizes

variable {m m' : TransitionModel α}

/-- What holds of the distributions of rows holds of all rows of the normalized model. -/
theorem all (h : m.Normalizes m') {P Q : Row α → Prop}
    (hrow : ∀ row, P row → Q row.distribution) (hm : m.All P) : m'.All Q := by
  have table {t t' : Table (Row α)} (hmatches : Dict.Matches (Dict.Matches Row.Normalizes) t t')
      (ht : t.All P) : t'.All Q :=
    hmatches.all (fun _ _ hcells hrows => hrows.all (fun row _ hP hN => hN.2 ▸ hrow row hP) hcells)
      ht
  obtain ⟨staged, common⟩ := m.all_iff.mp hm
  refine m'.all_iff.mpr ⟨fun stage t' ht' => ?_, table h.common common⟩
  have related := h.stages stage
  rw [ht'] at related
  cases ht : m.stageTable? stage with
  | none =>
      rw [ht] at related
      cases related
  | some t =>
      rw [ht] at related
      cases related with
      | some hmatches => exact table hmatches (staged stage t ht)

theorem unstaged (h : m.Normalizes m') : m.unstaged.Normalizes m'.unstaged :=
  ⟨fun _ => .none, h.common⟩

/-- What is found after normalization is the distribution of what was there before. -/
theorem row_eq (h : m.Normalizes m') (stage : Nat) (state action : String)
    (states : List String) :
    m'.row stage state action states =
      ((m.present? stage state action).map Row.distribution).getD
        (identityRow state states) := by
  have counted {x y : Option (Row α)} (hxy : Option.Rel Row.Normalizes x y) :
      y.filter (!·.isEmpty) = x.map Row.distribution := by
    cases hxy with
    | none => rfl
    | some h =>
        obtain ⟨hne, rfl⟩ := h
        simp [Option.filter, Row.isEmpty_distribution, hne]
  rw [Model.row, find?, present?_eq, Option.map_or,
    counted (rel_bind (h.stages stage) fun _ _ ht =>
      Table.rel_cell? Dict.Matches.get? ht.get? state action),
    counted (Table.rel_cell? Dict.Matches.get? h.common.get? state action)]

theorem present? (h : m.Normalizes m') (stage : Nat) (state action : String) :
    Option.Rel Row.Normalizes (m.present? stage state action)
      (m'.present? stage state action) :=
  rel_present? (fun _ _ ht => Table.rel_cell? Dict.Matches.get? ht.get? state action)
    (h.stages stage) h.common

/-- What is found is the distribution of a row that is there and has next states, or the row
of a state that is never left. -/
theorem row_cases (h : m.Normalizes m') (stage : Nat) (state action : String)
    (states : List String) :
    (∃ row, m.present? stage state action = some row ∧ Dict.isEmpty row = false ∧
      m'.row stage state action states = row.distribution) ∨
    (m.present? stage state action = none ∧
      m'.row stage state action states = identityRow state states) := by
  have related := h.present? stage state action
  rw [h.row_eq]
  cases hrow : m.present? stage state action with
  | none => exact .inr ⟨rfl, rfl⟩
  | some row =>
      rw [hrow] at related
      generalize m'.present? stage state action = found at related
      cases related with
      | some hnormal => exact .inl ⟨row, rfl, hnormal.1, rfl⟩

theorem rowAt_cases (h : m.Normalizes m') (stage : Int) (state action : String)
    (states : List String) :
    (∃ row, m.presentAt? stage state action = some row ∧ Dict.isEmpty row = false ∧
      m'.rowAt stage state action states = row.distribution) ∨
    (m.presentAt? stage state action = none ∧
      m'.rowAt stage state action states = identityRow state states) := by
  cases stage with
  | ofNat n => exact h.row_cases n state action states
  | negSucc n => exact h.unstaged.row_cases 0 state action states

end Model.Normalizes

end BackwardInduction
