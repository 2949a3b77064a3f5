import Mathlib.Data.List.Forall2
import BackwardInduction.Trace

/-!
Sequences of steps that may fail, taken apart: a sequence succeeds exactly if each
step does, and the result of a traced sequence is that of its results alone. A
traversal succeeds exactly if every entry does, and keeps their order.
-/

namespace BackwardInduction

section Steps

variable {ε β γ : Type}

theorem bind_eq_ok_iff {x : Except ε β} {f : β → Except ε γ} {c : γ} :
    (x >>= f) = .ok c ↔ ∃ b, x = .ok b ∧ f b = .ok c := by
  cases x with
  | error e => simp [bind, Except.bind]
  | ok b => simp [bind, Except.bind]

theorem ite_pure_eq_ok_iff {c : Prop} [Decidable c] {b b' : β} {e : ε} :
    (if c then pure b else throw e : Except ε β) = .ok b' ↔ c ∧ b = b' := by
  split
  · rename_i h
    simp [h, pure, Except.pure]
  · rename_i h
    simp [h, throw, throwThe, MonadExceptOf.throw]

theorem ite_throw_eq_ok_iff {c : Prop} [Decidable c] {b b' : β} {e : ε} :
    (if c then throw e else pure b : Except ε β) = .ok b' ↔ ¬c ∧ b = b' := by
  split
  · rename_i h
    simp [h, throw, throwThe, MonadExceptOf.throw]
  · rename_i h
    simp [h, pure, Except.pure]

/-- A sequence whose result can be computed succeeds with it. -/
theorem exists_ok_of_map_toOption {x : Except ε β} {f : β → γ} {c : γ}
    (h : x.toOption.map f = some c) : ∃ b, x = .ok b ∧ f b = c := by
  cases x with
  | error e => cases h
  | ok b => exact ⟨b, rfl, Option.some.inj h⟩

theorem eq_of_map_toOption {x : Except ε β} {b : β} {f : β → γ} {c : γ} (hb : x = .ok b)
    (h : x.toOption.map f = some c) : f b = c := by
  subst hb
  exact Option.some.inj h

end Steps

section Ends

variable {ε β γ : Type} {E : ε → Prop} {P : β → Prop} {Q : γ → Prop}

/-- How a sequence may end: in a fault that `E` allows or with a result that `P` allows. -/
def Ends (E : ε → Prop) (P : β → Prop) : Except ε β → Prop
  | .error e => E e
  | .ok b => P b

theorem Ends.bind {x : Except ε β} {f : β → Except ε γ} (hx : Ends E P x)
    (hf : ∀ b, P b → Ends E Q (f b)) : Ends E Q (x >>= f) := by
  cases x with
  | error e => exact hx
  | ok b => exact hf b hx

theorem Ends.imp {E' : ε → Prop} {P' : β → Prop} {x : Except ε β} (hx : Ends E P x)
    (hE : ∀ e, E e → E' e) (hP : ∀ b, P b → P' b) : Ends E' P' x := by
  cases x with
  | error e => exact hE e hx
  | ok b => exact hP b hx

theorem Ends.foldlM {f : β → γ → Except ε β} {es : List γ} {b : β} (hb : P b)
    (hf : ∀ b, P b → ∀ e ∈ es, Ends E P (f b e)) : Ends E P (es.foldlM f b) := by
  induction es generalizing b with
  | nil => exact hb
  | cons e es ih =>
      rw [List.foldlM_cons]
      refine (hf b hb e List.mem_cons_self).bind fun b' hb' => ?_
      exact ih hb' fun b hb e' he' => hf b hb e' (List.mem_cons_of_mem _ he')

end Ends

namespace Traced

variable {α β γ : Type}

@[simp]
theorem result_liftM (r : Except Fault β) : (liftM r : Traced α β).result = r :=
  rfl

theorem result_foldlM (f : β → γ → Traced α β) (es : List γ) (b : β) :
    (es.foldlM f b).result = es.foldlM (fun b e => (f b e).result) b := by
  induction es generalizing b with
  | nil => rfl
  | cons e es ih =>
      rw [List.foldlM_cons, List.foldlM_cons, result_bind]
      exact congrArg _ (funext ih)

end Traced

theorem exists_of_forall₂ {δ : Type} {R : δ → γ → Prop} {xs : List δ} {ys : List γ}
    (h : List.Forall₂ R xs ys) {y : γ} (hy : y ∈ ys) : ∃ x ∈ xs, R x y := by
  induction h with
  | nil => cases hy
  | cons hxy _ ih =>
      rcases List.mem_cons.mp hy with rfl | hy
      · exact ⟨_, List.mem_cons_self, hxy⟩
      · obtain ⟨x, hx, hxy⟩ := ih hy
        exact ⟨x, List.mem_cons_of_mem _ hx, hxy⟩

namespace Dict

variable {κ ν μ ε α : Type}

/-- The entry `e'` has the key of `e` and what `f` makes of its value. -/
def Yields (f : κ → ν → Except ε μ) (e : κ × ν) (e' : κ × μ) : Prop :=
  e.1 = e'.1 ∧ f e.1 e.2 = .ok e'.2

theorem traverseEntries_eq_ok_iff (f : κ → ν → Except ε μ) (es : List (κ × ν))
    (r : { r : List (κ × μ) // r.map Prod.fst = es.map Prod.fst }) :
    traverseEntries f es = .ok r ↔ List.Forall₂ (Yields f) es r.1 := by
  induction es with
  | nil =>
      obtain ⟨r, hr⟩ := r
      cases r with
      | nil => exact ⟨fun _ => .nil, fun _ => rfl⟩
      | cons e r => cases hr
  | cons e es ih =>
      obtain ⟨k, v⟩ := e
      obtain ⟨r, hr⟩ := r
      cases r with
      | nil => cases hr
      | cons e' r =>
          obtain ⟨k', x⟩ := e'
          have keys := hr
          simp only [List.map_cons, List.cons.injEq] at keys
          obtain ⟨rfl, tail⟩ := keys
          simp only [traverseEntries, bind_eq_ok_iff, List.forall₂_cons, Yields, true_and]
          constructor
          · rintro ⟨y, hy, s, hs, heq⟩
            simp only [pure, Except.pure, Except.ok.injEq, Subtype.mk.injEq, List.cons.injEq,
              Prod.mk.injEq, true_and] at heq
            obtain ⟨rfl, rfl⟩ := heq
            exact ⟨hy, (ih s).mp hs⟩
          · rintro ⟨hx, hs⟩
            exact ⟨x, hx, ⟨r, tail⟩, (ih ⟨r, tail⟩).mpr hs, rfl⟩

theorem keys_of_forall₂ {R : κ × ν → κ × μ → Prop} (hR : ∀ e e', R e e' → e.1 = e'.1)
    {es : List (κ × ν)} {es' : List (κ × μ)} (h : List.Forall₂ R es es') :
    es'.map Prod.fst = es.map Prod.fst := by
  induction h with
  | nil => rfl
  | cons he _ ih => rw [List.map_cons, List.map_cons, ih, hR _ _ he]

theorem keys_of_yields {f : κ → ν → Except ε μ} {es : List (κ × ν)} {es' : List (κ × μ)}
    (h : List.Forall₂ (Yields f) es es') : es'.map Prod.fst = es.map Prod.fst :=
  keys_of_forall₂ (fun _ _ he => he.1) h

theorem exists_of_yields {f : κ → ν → Except ε μ} {es : List (κ × ν)} {es' : List (κ × μ)}
    (h : List.Forall₂ (Yields f) es es') {e' : κ × μ} (he' : e' ∈ es') :
    ∃ v, (e'.1, v) ∈ es ∧ f e'.1 v = .ok e'.2 := by
  obtain ⟨⟨_, v⟩, hv, rfl, hx⟩ := exists_of_forall₂ h he'
  exact ⟨v, hv, hx⟩

theorem traverse_eq_ok_iff (f : κ → ν → Except ε μ) (d : Dict κ ν) (e : Dict κ μ) :
    d.traverse f = .ok e ↔ List.Forall₂ (Yields f) d.entries e.entries := by
  simp only [traverse, bind_eq_ok_iff]
  constructor
  · rintro ⟨r, hr, heq⟩
    cases heq
    exact (traverseEntries_eq_ok_iff f d.entries r).mp hr
  · intro h
    exact ⟨⟨e.entries, keys_of_yields h⟩, (traverseEntries_eq_ok_iff f d.entries _).mpr h, rfl⟩

theorem ends_traverse {E : ε → Prop} {P : μ → Prop} {f : κ → ν → Except ε μ} (d : Dict κ ν)
    (hf : ∀ e ∈ d.entries, Ends E P (f e.1 e.2)) :
    Ends E (fun _ => True) (d.traverse f) := by
  have entries (es : List (κ × ν)) (hf : ∀ e ∈ es, Ends E P (f e.1 e.2)) :
      Ends E (fun _ => True) (traverseEntries f es) := by
    induction es with
    | nil => trivial
    | cons e es ih =>
        obtain ⟨k, v⟩ := e
        refine (hf (k, v) List.mem_cons_self).bind fun x _ => ?_
        have rest := ih fun e he => hf e (List.mem_cons_of_mem _ he)
        exact rest.bind fun _ _ => trivial
  exact (entries d.entries hf).bind fun _ _ => trivial

theorem result_traverseEntries (f : κ → ν → Traced α μ) (es : List (κ × ν)) :
    (traverseEntries f es).result = traverseEntries (fun k v => (f k v).result) es := by
  induction es with
  | nil => rfl
  | cons e es ih =>
      obtain ⟨k, v⟩ := e
      simp only [traverseEntries, Traced.result_bind, Traced.result_pure, ih]
      rfl

theorem result_traverse (f : κ → ν → Traced α μ) (d : Dict κ ν) :
    (d.traverse f).result = d.traverse fun k v => (f k v).result := by
  simp only [traverse, Traced.result_bind, Traced.result_pure, result_traverseEntries]
  rfl

end Dict
end BackwardInduction
