import Mathlib.Algebra.Order.Ring.Rat
import BackwardInduction.Proofs.NormalizationOrder

/-!
Weights as proportions, in exact fractions. A row and a positive multiple of it have the same
distribution, and a distribution is its own; so normalization takes no notice of a factor for
each row, and normalizing again changes nothing.
-/

namespace BackwardInduction

section Matching

variable {κ ν μ δ ε β γ : Type}

namespace Dict

theorem Matches.right {R : ν → μ → Prop} {S : μ → μ → Prop} (hRS : ∀ v w, R v w → S w w)
    {d : Dict κ ν} {e : Dict κ μ} (h : d.Matches R e) : e.Matches S e := by
  have entries {es : List (κ × ν)} {fs : List (κ × μ)} (h : List.Forall₂ (Pairs R) es fs) :
      List.Forall₂ (Pairs S) fs fs := by
    induction h with
    | nil => exact .nil
    | cons hxy _ ih => exact .cons ⟨rfl, hRS _ _ hxy.2⟩ ih
  exact entries h

/-- Traversals of matching maps with steps that agree end in the same way. -/
theorem traverse_congr {R : ν → μ → Prop} {f : κ → ν → Except ε δ} {g : κ → μ → Except ε δ}
    (hfg : ∀ k v w, R v w → f k v = g k w) {d : Dict κ ν} {e : Dict κ μ} (h : d.Matches R e) :
    d.traverse f = e.traverse g := by
  have step {x : κ × ν} {y : κ × μ} (hxy : Pairs R x y) : f x.1 x.2 = g y.1 y.2 :=
    (hfg x.1 _ _ hxy.2).trans (by rw [hxy.1])
  have yields {es : List (κ × ν)} {fs : List (κ × μ)} (h : List.Forall₂ (Pairs R) es fs)
      (bs : List (κ × δ)) : List.Forall₂ (Yields f) es bs ↔ List.Forall₂ (Yields g) fs bs := by
    induction h generalizing bs with
    | nil => rw [List.forall₂_nil_left_iff, List.forall₂_nil_left_iff]
    | cons hxy _ ih =>
        cases bs with
        | nil => exact ⟨nofun, nofun⟩
        | cons b bs =>
            rw [List.forall₂_cons, List.forall₂_cons, ih, Yields, Yields, step hxy, hxy.1]
  have faults {es : List (κ × ν)} {fs : List (κ × μ)} (h : List.Forall₂ (Pairs R) es fs) :
      (es.findSome? fun e => fault? (f e.1 e.2)) = fs.findSome? fun e => fault? (g e.1 e.2) := by
    induction h with
    | nil => rfl
    | cons hxy _ ih => rw [List.findSome?_cons, List.findSome?_cons, ih, step hxy]
  have results (b : Dict κ δ) : d.traverse f = .ok b ↔ e.traverse g = .ok b := by
    rw [traverse_eq_ok_iff, traverse_eq_ok_iff]
    exact yields h b.entries
  cases hd : d.traverse f with
  | ok b => exact ((results b).mp hd).symm
  | error fault =>
      have same := faults h
      rw [← fault?_traverse, ← fault?_traverse, fault?_eq_some_iff.mpr hd] at same
      exact (fault?_eq_some_iff.mp same.symm).symm

end Dict

namespace Model

theorem Matches.right {R : β → γ → Prop} {S : γ → γ → Prop} (hRS : ∀ b c, R b c → S c c)
    {m : Model β} {m' : Model γ} (h : m.Matches R m') : m'.Matches S m' := by
  have table {t : Table β} {t' : Table γ} (h : Dict.Matches (Dict.Matches R) t t') :
      Dict.Matches (Dict.Matches S) t' t' :=
    h.right fun _ _ hcells => hcells.right hRS
  cases h with
  | stationary h => exact .stationary (table h)
  | timeVarying hstages hfallback =>
      exact .timeVarying (hstages.right fun _ _ => table) (table hfallback)

theorem ascends_of_keys {stages : List (Nat × Table β)} {stages' : List (Nat × Table γ)}
    (hkeys : stages'.map Prod.fst = stages.map Prod.fst)
    (h : stages.Pairwise fun e e' => e.1 < e'.1) : stages'.Pairwise fun e e' => e.1 < e'.1 := by
  have keys : (stages.map Prod.fst).Pairwise (· < ·) := List.pairwise_map.mpr h
  rw [← hkeys] at keys
  exact List.pairwise_map.mp keys

theorem Matches.ascends {R : β → γ → Prop} {m : Model β} {m' : Model γ} (h : m.Matches R m')
    (hm : m.Ascends) : m'.Ascends := by
  cases h with
  | stationary h => trivial
  | timeVarying hstages _ => exact ascends_of_keys (Dict.keys_of_pairs hstages) hm

theorem matches_sortedStages {R : Table β → Table γ → Prop} {stages : Dict Nat (Table β)}
    {stages' : Dict Nat (Table γ)} (h : stages.Matches R stages') :
    (sortedStages stages).Matches R (sortedStages stages') := by
  obtain ⟨es, hes, perm⟩ := List.perm_comp_forall₂ (perm_sortedStages stages) h
  have ascends := ascends_of_keys (Dict.keys_of_pairs hes) (pairwise_sortedStages stages)
  have sorted : es = (sortedStages stages').entries :=
    (perm.trans (perm_sortedStages stages').symm).eq_of_pairwise
      (fun a b _ _ hab hba => absurd hab (Nat.lt_asymm hba)) ascends
      (pairwise_sortedStages stages')
  rw [Dict.Matches, ← sorted]
  exact hes

end Model

end Matching

namespace Row

/-- The weights of the one row, all times the same positive factor, are those of the other. -/
def Rescaled (row row' : Row ℚ) : Prop :=
  ∃ c : ℚ, 0 < c ∧ Dict.Matches (fun weight weight' : ℚ => weight' = c * weight) row row'

theorem Rescaled.exists_mapValues {row row' : Row ℚ} (h : row.Rescaled row') :
    ∃ c : ℚ, 0 < c ∧ row' = row.mapValues fun _ weight => c * weight := by
  obtain ⟨c, hc, h⟩ := h
  refine ⟨c, hc, Dict.ext ?_⟩
  rw [Dict.entries_mapValues, ← List.forall₂_eq_eq_eq, List.forall₂_map_right_iff]
  exact h.flip.imp fun y x hxy => Prod.ext hxy.1.symm hxy.2

theorem total_mul (row : Row ℚ) (c : ℚ) :
    total (row.mapValues fun _ weight => c * weight) = c * row.total := by
  simp only [total_eq_sum, Dict.values, Dict.entries_mapValues, List.map_map, Function.comp_def]
  exact List.sum_map_mul_left _ _ _

/-- A positive factor makes no difference to the distribution of a row. -/
theorem Rescaled.distribution_eq {row row' : Row ℚ} (h : row.Rescaled row') :
    row'.distribution = row.distribution := by
  obtain ⟨c, hc, rfl⟩ := h.exists_mapValues
  have signs : c * row.total ≤ 0 ↔ row.total ≤ 0 := by
    rw [← not_lt, ← not_lt, mul_pos_iff_of_pos_left hc]
  simp only [distribution, total_mul, signs]
  split
  · refine Dict.ext ?_
    simp [uniform, Dict.size, Function.comp_def]
  · refine Dict.ext ?_
    simp [proportional, total_mul, Function.comp_def, mul_div_mul_left _ _ (ne_of_gt hc)]

theorem Rescaled.normalize_eq {row row' : Row ℚ} (h : row.Rescaled row') (stage : Option Int)
    (state action : String) :
    row.normalize stage state action = row'.normalize stage state action := by
  have filled : Dict.isEmpty row' = Dict.isEmpty row := by
    obtain ⟨c, _, rfl⟩ := h.exists_mapValues
    simp [Dict.isEmpty]
  rw [normalize, normalize, filled, h.distribution_eq]

/-- A distribution is its own distribution. -/
theorem distribution_distribution {row : Row ℚ} (hne : Dict.isEmpty row = false) :
    row.distribution.distribution = row.distribution := by
  have total := total_distribution hne
  have positive : ¬row.distribution.total ≤ 0 := by
    rw [total]
    exact not_le.mpr zero_lt_one
  rw [distribution, if_neg positive]
  refine Dict.ext ?_
  simp [proportional, total]

theorem Normalizes.again {row row' : Row ℚ} (h : row.Normalizes row') :
    row'.Normalizes row' := by
  obtain ⟨hne, rfl⟩ := h
  exact ⟨(isEmpty_distribution row).trans hne, (distribution_distribution hne).symm⟩

end Row

namespace Model

/-- What was normalized is normalized to itself. -/
theorem normalize_again {m m' : TransitionModel ℚ} {states : List String}
    (h : (m.normalize states).result = .ok m') (states' : List String) :
    (m'.normalize states').result = .ok m' := by
  have rows := (m.normalize_eq_ok_iff m' states).mp h
  rw [normalize_eq_ok_iff, sorted_of_ascends (rows.ascends m.ascends_sorted)]
  exact rows.right fun _ _ => Row.Normalizes.again

theorem normalizeTable_eq_of_rescaled {states : List String} {stage : Option Nat}
    {t t' : Table (Row ℚ)} (h : Dict.Matches (Dict.Matches Row.Rescaled) t t') :
    (normalizeTable states stage t).result = (normalizeTable states stage t').result := by
  simp only [normalizeTable, Dict.result_traverse, result_normalizeCell]
  exact Dict.traverse_congr (fun state _ _ hcells =>
    Dict.traverse_congr (fun action _ _ hrow => hrow.normalize_eq _ state action) hcells) h

/-- A positive factor for each row makes no difference to how normalization ends. -/
theorem normalize_rescaled {m m' : TransitionModel ℚ} (h : m.Matches Row.Rescaled m')
    (states : List String) : (m'.normalize states).result = (m.normalize states).result := by
  cases h with
  | stationary h =>
      simp only [normalize, Traced.result_bind, normalizeTable_eq_of_rescaled h]
  | timeVarying hstages hfallback =>
      have stageTables := Dict.traverse_congr
        (f := fun stage t => (normalizeTable states (some stage) t).result)
        (g := fun stage t => (normalizeTable states (some stage) t).result)
        (fun _ _ _ => normalizeTable_eq_of_rescaled) (matches_sortedStages hstages)
      simp only [normalize, Traced.result_bind, Dict.result_traverse, stageTables,
        normalizeTable_eq_of_rescaled hfallback]

end Model

end BackwardInduction
