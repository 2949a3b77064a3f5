import Mathlib.Algebra.Order.Group.Int
import Mathlib.Algebra.Order.Ring.Unbundled.Rat
import BackwardInduction.Scalar.Binary64
import BackwardInduction.Scalar.Rational

/-!
What the choice of an action asks of the comparison of numbers: a strict weak order
in which nothing that is no number takes part. Doubles and exact fractions both have
it. Nothing is asked of the operations.
-/

namespace BackwardInduction

/-- Comparison is a strict weak order of the numbers, and false wherever something is no
number. An arithmetic without an infinity holds numbers only. -/
class OrderedScalar (α : Type) [Scalar α] : Prop where
  lt_irrefl (x : α) : ¬ x < x
  lt_trans {x y z : α} : x < y → y < z → x < z
  not_lt_trans {x y z : α} : Scalar.isNaN y = false → ¬ x < y → ¬ y < z → ¬ x < z
  not_isNaN_of_lt {x y : α} : x < y → Scalar.isNaN x = false ∧ Scalar.isNaN y = false
  not_isNaN_of_unbounded : (Scalar.infinity? : Option α) = none →
    ∀ x : α, Scalar.isNaN x = false

namespace Scalar

variable {α : Type} [Scalar α] [OrderedScalar α]

theorem belowInfinity_of_lt {x y : α} (h : x < y) (hy : belowInfinity y = true) :
    belowInfinity x = true := by
  unfold belowInfinity at *
  cases top : (infinity? : Option α) with
  | none => rfl
  | some t =>
      simp only [top, decide_eq_true_eq] at hy ⊢
      exact OrderedScalar.lt_trans h hy

theorem not_isNaN_of_belowInfinity {x : α} (h : belowInfinity x = true) :
    isNaN x = false := by
  unfold belowInfinity at h
  cases top : (infinity? : Option α) with
  | none => exact OrderedScalar.not_isNaN_of_unbounded top x
  | some t =>
      simp only [top, decide_eq_true_eq] at h
      exact (OrderedScalar.not_isNaN_of_lt h).1

end Scalar

instance : OrderedScalar Rat where
  lt_irrefl x := lt_irrefl (a := x)
  lt_trans := lt_trans (α := ℚ)
  not_lt_trans _ h h' := not_lt.mpr (le_trans (not_lt.mp h') (not_lt.mp h))
  not_isNaN_of_lt _ := ⟨rfl, rfl⟩
  not_isNaN_of_unbounded _ _ := rfl

namespace Binary64

open Float.Model

/-- A number by sign, exponent and significand, so that comparison is that of the triples. -/
def rank : UnpackedFloat → Int × Int × Int
  | .notANumber => (0, 0, 0)
  | .infinity .negative => (-2, 0, 0)
  | .infinity .positive => (2, 0, 0)
  | .zero _ => (0, 0, 0)
  | .finite .negative m e _ => (-1, -e, -m)
  | .finite .positive m e _ => (1, e, m)

def RankLt (x y : Int × Int × Int) : Prop :=
  x.1 < y.1 ∨ x.1 = y.1 ∧ (x.2.1 < y.2.1 ∨ x.2.1 = y.2.1 ∧ x.2.2 < y.2.2)

theorem lex_eq_lt_iff (e e' : Int) (m m' : Nat) :
    (compare e e').then (compare m m') = .lt ↔ e < e' ∨ e = e' ∧ m < m' := by
  rw [Ordering.then_eq_lt, Int.compare_eq_lt, Int.compare_eq_eq, Nat.compare_eq_lt]

theorem lex_eq_gt_iff (e e' : Int) (m m' : Nat) :
    (compare e e').then (compare m m') = .gt ↔ e' < e ∨ e = e' ∧ m' < m := by
  rw [Ordering.then_eq_gt, Int.compare_eq_gt, Int.compare_eq_eq, Nat.compare_eq_gt]

@[simp]
theorem isNaN_notANumber : UnpackedFloat.notANumber.isNaN = true :=
  rfl

@[simp]
theorem isNaN_infinity (s : UnpackedFloat.Sign) : (UnpackedFloat.infinity s).isNaN = false :=
  rfl

@[simp]
theorem isNaN_zero (s : UnpackedFloat.Sign) : (UnpackedFloat.zero s).isNaN = false :=
  rfl

@[simp]
theorem isNaN_finite (s : UnpackedFloat.Sign) (m : Nat) (e : Int) (hm : 0 < m) :
    (UnpackedFloat.finite s m e hm).isNaN = false :=
  rfl

theorem compare_eq_lt_iff (x y : UnpackedFloat) :
    x.compare y = some .lt ↔
      x.isNaN = false ∧ y.isNaN = false ∧ RankLt (rank x) (rank y) := by
  rcases x with ⟨_ | _⟩ | _ | _ | ⟨_ | _, m, e, hm⟩ <;>
    rcases y with ⟨_ | _⟩ | _ | _ | ⟨_ | _, m', e', hm'⟩ <;>
    dsimp [UnpackedFloat.compare, rank, RankLt] <;> simp
  case infinity.negative.infinity.positive => rfl
  case finite.negative.finite.negative => exact lex_eq_gt_iff e e' m m'
  case finite.positive.finite.positive => exact lex_eq_lt_iff e e' m m'

theorem compare_eq_gt_iff (x y : UnpackedFloat) :
    x.compare y = some .gt ↔
      x.isNaN = false ∧ y.isNaN = false ∧ RankLt (rank y) (rank x) := by
  rcases x with ⟨_ | _⟩ | _ | _ | ⟨_ | _, m, e, hm⟩ <;>
    rcases y with ⟨_ | _⟩ | _ | _ | ⟨_ | _, m', e', hm'⟩ <;>
    dsimp [UnpackedFloat.compare, rank, RankLt] <;> simp
  case infinity.positive.infinity.negative => rfl
  case finite.negative.finite.negative => rw [lex_eq_lt_iff, eq_comm]
  case finite.positive.finite.positive => rw [lex_eq_gt_iff, eq_comm]

theorem isSome_compare_iff (x y : UnpackedFloat) :
    (x.compare y).isSome = true ↔ x.isNaN = false ∧ y.isNaN = false := by
  rcases x with ⟨_ | _⟩ | _ | _ | ⟨_ | _, m, e, hm⟩ <;>
    rcases y with ⟨_ | _⟩ | _ | _ | ⟨_ | _, m', e', hm'⟩ <;>
    dsimp [UnpackedFloat.compare] <;> simp

theorem lt_iff (x y : Float) :
    x < y ↔ x.isNaN = false ∧ y.isNaN = false ∧
      RankLt (rank x.toModel.unpack) (rank y.toModel.unpack) := by
  have h : x < y ↔ x.toModel.unpack.compare y.toModel.unpack = some .lt := by
    change (decide _ = true) ↔ _
    rw [decide_eq_true_eq]
    exact beq_iff_eq
  exact h.trans (compare_eq_lt_iff _ _)

/-- Of two numbers one is at most the other unless the other is less. -/
theorem le_iff (x y : Float) :
    x ≤ y ↔ x.isNaN = false ∧ y.isNaN = false ∧ ¬ y < x := by
  have h : x ≤ y ↔ (x.toModel.unpack.compare y.toModel.unpack).any Ordering.isLE = true := by
    change (decide _ = true) ↔ _
    rw [decide_eq_true_eq]
    rfl
  have any (o : Option Ordering) : o.any Ordering.isLE = true ↔ o.isSome = true ∧ o ≠ some .gt := by
    rcases o with _ | _ | _ | _ <;> decide
  rw [h, any, isSome_compare_iff, ne_eq, compare_eq_gt_iff, lt_iff, and_assoc]
  refine and_congr_right fun hx => and_congr_right fun hy => not_congr ?_
  exact and_left_comm

theorem rankLt_irrefl (r : Int × Int × Int) : ¬ RankLt r r := by
  unfold RankLt
  omega

theorem rankLt_trans {r s t : Int × Int × Int} (h : RankLt r s) (h' : RankLt s t) :
    RankLt r t := by
  unfold RankLt at *
  omega

theorem not_rankLt_trans {r s t : Int × Int × Int} (h : ¬ RankLt r s) (h' : ¬ RankLt s t) :
    ¬ RankLt r t := by
  unfold RankLt at *
  omega

end Binary64

instance : OrderedScalar Float where
  lt_irrefl x h := Binary64.rankLt_irrefl _ ((Binary64.lt_iff x x).mp h).2.2
  lt_trans {x y z} h h' := by
    obtain ⟨hx, _, hxy⟩ := (Binary64.lt_iff x y).mp h
    obtain ⟨_, hz, hyz⟩ := (Binary64.lt_iff y z).mp h'
    exact (Binary64.lt_iff x z).mpr ⟨hx, hz, Binary64.rankLt_trans hxy hyz⟩
  not_lt_trans {x y z} hy h h' hxz := by
    obtain ⟨hx, hz, hlt⟩ := (Binary64.lt_iff x z).mp hxz
    have hxy := fun hr => h ((Binary64.lt_iff x y).mpr ⟨hx, hy, hr⟩)
    have hyz := fun hr => h' ((Binary64.lt_iff y z).mpr ⟨hy, hz, hr⟩)
    exact Binary64.not_rankLt_trans hxy hyz hlt
  not_isNaN_of_lt {x y} h :=
    let ⟨hx, hy, _⟩ := (Binary64.lt_iff x y).mp h
    ⟨hx, hy⟩
  not_isNaN_of_unbounded h := nomatch h

end BackwardInduction
