import BackwardInduction.Model
import BackwardInduction.Proofs.DictLookup
import BackwardInduction.Proofs.Outcomes

/-!
Maps that match: the same keys in the same order, and values that correspond. Look-ups
in matching maps have corresponding results, and so have look-ups of cells in tables whose
maps correspond in this way or another.
-/

namespace BackwardInduction

variable {κ ν μ β γ ε : Type}

section Lists

theorem forall₂_congr_left {S T : ν → μ → Prop} {xs : List ν} {ys : List μ}
    (h : ∀ x ∈ xs, ∀ y, S x y ↔ T x y) : List.Forall₂ S xs ys ↔ List.Forall₂ T xs ys := by
  induction xs generalizing ys with
  | nil => rw [List.forall₂_nil_left_iff, List.forall₂_nil_left_iff]
  | cons x xs ih =>
      obtain ⟨hx, hxs⟩ := List.forall_mem_cons.mp h
      cases ys with
      | nil => exact ⟨nofun, nofun⟩
      | cons y ys => rw [List.forall₂_cons, List.forall₂_cons, hx y, ih hxs]

theorem exists_forall₂_iff {R : ν → μ → Prop} (xs : List ν) :
    (∃ ys, List.Forall₂ R xs ys) ↔ ∀ x ∈ xs, ∃ y, R x y := by
  induction xs with
  | nil => exact ⟨nofun, fun _ => ⟨[], .nil⟩⟩
  | cons x xs ih =>
      rw [List.forall_mem_cons, ← ih]
      constructor
      · rintro ⟨_, _ | ⟨hx, hxs⟩⟩
        exact ⟨⟨_, hx⟩, _, hxs⟩
      · rintro ⟨⟨y, hy⟩, ys, hys⟩
        exact ⟨y :: ys, .cons hy hys⟩

end Lists

namespace Dict

/-- Entries under the same key whose values correspond. -/
def Pairs (R : ν → μ → Prop) (x : κ × ν) (y : κ × μ) : Prop :=
  x.1 = y.1 ∧ R x.2 y.2

/-- Entries under the same keys, in the same order, with values that correspond. -/
def Matches (R : ν → μ → Prop) (d : Dict κ ν) (e : Dict κ μ) : Prop :=
  List.Forall₂ (Pairs R) d.entries e.entries

section Lists

variable {R : ν → μ → Prop} {es : List (κ × ν)} {es' : List (κ × μ)}

theorem keys_of_pairs (h : List.Forall₂ (Pairs R) es es') :
    es'.map Prod.fst = es.map Prod.fst :=
  keys_of_forall₂ (fun _ _ he => he.1) h

theorem exists_pairs_iff (es : List (κ × ν)) :
    (∃ es', List.Forall₂ (Pairs R) es es') ↔ ∀ x ∈ es, ∃ w, R x.2 w := by
  rw [exists_forall₂_iff]
  refine forall₂_congr fun x _ => ?_
  constructor
  · rintro ⟨y, _, hy⟩
    exact ⟨y.2, hy⟩
  · rintro ⟨w, hw⟩
    exact ⟨(x.1, w), rfl, hw⟩

theorem lookup_of_pairs [DecidableEq κ] (h : List.Forall₂ (Pairs R) es es') (k : κ) :
    Option.Rel R (es.lookup k) (es'.lookup k) := by
  induction h with
  | nil => exact .none
  | @cons x y _ _ hxy _ ih =>
      obtain ⟨kx, v⟩ := x
      obtain ⟨ky, w⟩ := y
      obtain ⟨rfl, hvw⟩ := hxy
      rw [lookup_cons_eq_ite, lookup_cons_eq_ite]
      split
      · exact .some hvw
      · exact ih

end Lists

variable {R : ν → μ → Prop}

/-- There is a matching map exactly if every value has something to correspond to. -/
theorem exists_matches_iff (d : Dict κ ν) :
    (∃ e, d.Matches R e) ↔ ∀ x ∈ d.entries, ∃ w, R x.2 w := by
  rw [← exists_pairs_iff]
  constructor
  · rintro ⟨e, h⟩
    exact ⟨e.entries, h⟩
  · rintro ⟨es', h⟩
    exact ⟨⟨es', (keys_of_pairs h).symm ▸ d.nodup⟩, h⟩

theorem traverse_eq_ok_iff_matches {f : κ → ν → Except ε μ} {d : Dict κ ν}
    (h : ∀ x ∈ d.entries, ∀ w, f x.1 x.2 = .ok w ↔ R x.2 w) (e : Dict κ μ) :
    d.traverse f = .ok e ↔ d.Matches R e := by
  rw [traverse_eq_ok_iff]
  exact forall₂_congr_left fun x hx y => and_congr_right fun _ => h x hx y.2

/-- A traversal succeeds exactly if every entry does. -/
theorem exists_traverse_iff (f : κ → ν → Except ε μ) (d : Dict κ ν) :
    (∃ e, d.traverse f = .ok e) ↔ ∀ x ∈ d.entries, ∃ w, f x.1 x.2 = .ok w := by
  have entries (x : κ × ν) : (∃ y, Yields f x y) ↔ ∃ w, f x.1 x.2 = .ok w :=
    ⟨fun ⟨y, _, hy⟩ => ⟨y.2, hy⟩, fun ⟨w, hw⟩ => ⟨(x.1, w), rfl, hw⟩⟩
  simp only [traverse_eq_ok_iff, ← entries, ← exists_forall₂_iff]
  constructor
  · rintro ⟨e, h⟩
    exact ⟨e.entries, h⟩
  · rintro ⟨es, h⟩
    exact ⟨⟨es, (keys_of_yields h).symm ▸ d.nodup⟩, h⟩

theorem exists_ok_of_traverse {f : κ → ν → Except ε μ} {d : Dict κ ν} {e : Dict κ μ}
    (h : d.traverse f = .ok e) : ∀ x ∈ d.entries, ∃ w, f x.1 x.2 = .ok w :=
  (exists_traverse_iff f d).mp ⟨e, h⟩

theorem Matches.get? [DecidableEq κ] {d : Dict κ ν} {e : Dict κ μ} (h : d.Matches R e)
    (k : κ) : Option.Rel R (d.get? k) (e.get? k) :=
  lookup_of_pairs h k

end Dict

section Options

variable {R : ν → μ → Prop} {x x' : Option ν} {y y' : Option μ}

theorem rel_bind {S : β → γ → Prop} (h : Option.Rel R x y) {f : ν → Option β}
    {g : μ → Option γ} (hfg : ∀ v w, R v w → Option.Rel S (f v) (g w)) :
    Option.Rel S (x.bind f) (y.bind g) := by
  cases h with
  | none => exact .none
  | some hvw => exact hfg _ _ hvw

theorem map_eq_of_rel (h : Option.Rel R x y) {f : ν → γ} {g : μ → γ}
    (hfg : ∀ v w, R v w → f v = g w) : x.map f = y.map g := by
  cases h with
  | none => rfl
  | some hvw => exact congrArg some (hfg _ _ hvw)

theorem eq_of_rel {x y : Option ν} (h : Option.Rel Eq x y) : x = y := by
  cases h with
  | none => rfl
  | some h => exact congrArg some h

theorem rel_or (h : Option.Rel R x y) (h' : Option.Rel R x' y') :
    Option.Rel R (x.or x') (y.or y') := by
  cases h with
  | none => exact h'
  | some hvw => exact .some hvw

end Options

/-- Where look-ups in related maps have related results, cells of related tables are related. -/
theorem Table.rel_cell? {R : β → γ → Prop} {S : Dict String β → Dict String γ → Prop}
    (hS : ∀ {d e}, S d e → ∀ k, Option.Rel R (d.get? k) (e.get? k)) {t : Table β} {t' : Table γ}
    (h : ∀ k, Option.Rel S (t.get? k) (t'.get? k)) (state action : String) :
    Option.Rel R (t.cell? state action) (t'.cell? state action) :=
  rel_bind (h state) fun _ _ hcells => hS hcells action

end BackwardInduction
