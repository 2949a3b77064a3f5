import BackwardInduction.Proofs.Outcomes
import BackwardInduction.Solution

/-!
What an instance must be for its preparation to succeed, and what comes of it: the
checks one by one, the models as they were read, and the terminal values. A solution
is the prepared process with the tables of its backward induction.
-/

namespace BackwardInduction

section Checks

theorem foldl_repeated_eq_nil_iff (names seen again : List String) :
    (names.foldl (fun (seen, again) name =>
      (name :: seen,
        if seen.contains name && !again.contains name then again ++ [name] else again))
      (seen, again)).2 = [] ↔
      again = [] ∧ (∀ name ∈ names, name ∉ seen) ∧ names.Nodup := by
  induction names generalizing seen again with
  | nil => simp
  | cons name names ih =>
      rw [List.foldl_cons, ih]
      by_cases hs : name ∈ seen
      · by_cases ha : name ∈ again
        · have : again ≠ [] := List.ne_nil_of_mem ha
          simp [hs, ha, this]
        · simp [hs, ha]
      · simp only [List.contains_eq_mem, hs, decide_false, Bool.false_and,
          Bool.false_eq_true, if_false, List.mem_cons, not_or, forall_eq_or_imp,
          not_false_eq_true, true_and, List.nodup_cons]
        constructor
        · rintro ⟨rfl, fresh, nodup⟩
          exact ⟨rfl, fun n hn => (fresh n hn).2, fun hm => (fresh name hm).1 rfl, nodup⟩
        · rintro ⟨rfl, fresh, hn, nodup⟩
          exact ⟨rfl, fun n hm => ⟨fun he => hn (he ▸ hm), fresh n hm⟩, nodup⟩

theorem repeated_eq_nil_iff (names : List String) : repeated names = [] ↔ names.Nodup := by
  rw [repeated, foldl_repeated_eq_nil_iff]
  simp

theorem checkNames_eq_ok_iff (what : String) (names : List String) :
    checkNames what names = .ok () ↔ names ≠ [] ∧ names.Nodup := by
  unfold checkNames
  cases names with
  | nil => simp
  | cons name names =>
      by_cases h : (name :: names).Nodup
      · simp [(repeated_eq_nil_iff _).mpr h, h]
      · have again : repeated (name :: names) ≠ [] := fun he => h ((repeated_eq_nil_iff _).mp he)
        simp [again, h]

variable {α : Type} [Scalar α]

theorem checkHorizon_eq_ok_iff (v : Value α) (n : Nat) :
    checkHorizon v = .ok n ↔ v = .number (.whole n) ∧ 1 ≤ n := by
  unfold checkHorizon
  split
  · rename_i i
    simp only [Value.number.injEq, Number.whole.injEq]
    split
    · constructor
      · rintro ⟨⟩
      · rintro ⟨rfl, hn⟩
        omega
    · rw [Except.ok.injEq]
      omega
  · rename_i v hv
    constructor
    · rintro ⟨⟩
    · rintro ⟨rfl, _⟩
      exact absurd rfl (hv _)

/-- The number of the arithmetic that a number is taken for. -/
def Number.TakenFor (n : Number α) (x : α) : Prop :=
  match n with
  | .real y => y = x
  | .whole i => Scalar.ofInt? i = some x

theorem checkDiscount_eq_ok_iff (v : Value α) (g : α) :
    checkDiscount v = .ok g ↔
      ∃ n : Number α, v = .number n ∧ n.TakenFor g ∧
        Scalar.isNaN g = false ∧ 0 ≤ g ∧ g ≤ 1 := by
  have range (x : α) (n : Number α) :
      (if Scalar.isNaN x || !(decide (0 ≤ x) && decide (x ≤ 1)) then
          throw (.discountOutside n.text) else pure x : Except Fault α) = .ok g ↔
        x = g ∧ Scalar.isNaN g = false ∧ 0 ≤ g ∧ g ≤ 1 := by
    rw [ite_throw_eq_ok_iff, and_comm]
    apply and_congr_right
    intro h
    rw [h]
    simp only [Bool.or_eq_true, Bool.not_eq_true', not_or, Bool.not_eq_true,
      Bool.not_eq_false, Bool.and_eq_true, decide_eq_true_eq]
  unfold checkDiscount
  split
  · rename_i n
    simp only [Value.number.injEq, exists_eq_left']
    cases n with
    | real x => exact range x (.real x)
    | whole i =>
        cases hx : (Scalar.ofInt? i : Option α) with
        | none =>
            simp only [Number.TakenFor, hx, reduceCtorEq, false_and, iff_false]
            rintro ⟨⟩
        | some x =>
            simp only [Number.TakenFor, hx, Option.some.injEq]
            exact range x (.whole i)
  · rename_i v hv
    constructor
    · rintro ⟨⟩
    · rintro ⟨n, rfl, _⟩
      exact absurd rfl (hv n)

end Checks

namespace Solution

variable {α : Type} [Scalar α]

/-- The instance passes every check and describes this process, with this horizon and these
terminal values. -/
structure Prepares (inst : Instance α) (p : Process α) (horizon : Nat)
    (final : Values α) : Prop where
  states_eq : p.states = inst.states
  actions_eq : p.actions = inst.actions
  states_ne : p.states ≠ []
  actions_ne : p.actions ≠ []
  states_nodup : p.states.Nodup
  actions_nodup : p.actions.Nodup
  horizon_eq : inst.horizon = .number (.whole horizon)
  horizon_pos : 1 ≤ horizon
  discount_eq : checkDiscount inst.discount = .ok p.discount
  costs_eq : (readCosts inst.costs inst.states inst.layout).result = .ok p.costs
  transitions_eq : ∃ raw, (readTransitions inst.transitions inst.states inst.layout).result =
    .ok raw ∧ (raw.normalize inst.states).result = .ok p.transitions
  final_eq : ∃ salvage, readSalvage inst.salvage = .ok salvage ∧
    final = terminal inst.states salvage

/-- The checks of the names and of the horizon succeed. -/
theorem Prepares.checks {inst : Instance α} {p : Process α} {horizon : Nat} {final : Values α}
    (h : Prepares inst p horizon final) :
    checkNames "States" inst.states = .ok () ∧ checkNames "Actions" inst.actions = .ok () ∧
      checkHorizon inst.horizon = .ok horizon :=
  ⟨(checkNames_eq_ok_iff _ _).mpr ⟨h.states_eq ▸ h.states_ne, h.states_eq ▸ h.states_nodup⟩,
    (checkNames_eq_ok_iff _ _).mpr ⟨h.actions_eq ▸ h.actions_ne, h.actions_eq ▸ h.actions_nodup⟩,
    (checkHorizon_eq_ok_iff _ _).mpr ⟨h.horizon_eq, h.horizon_pos⟩⟩

theorem prepare_eq_ok_iff (inst : Instance α) (p : Process α) (horizon : Nat)
    (final : Values α) :
    (prepare inst).result = .ok (p, horizon, final) ↔ Prepares inst p horizon final := by
  simp only [prepare, Traced.result_bind, Traced.result_liftM, Traced.result_pure,
    bind_eq_ok_iff]
  constructor
  · rintro ⟨_, hs, _, ha, T, hT, g, hg, c, hc, raw, hraw, m, hm, z, hz, heq⟩
    cases heq
    obtain ⟨states_ne, states_nodup⟩ := (checkNames_eq_ok_iff _ _).mp hs
    obtain ⟨actions_ne, actions_nodup⟩ := (checkNames_eq_ok_iff _ _).mp ha
    obtain ⟨horizon_eq, horizon_pos⟩ := (checkHorizon_eq_ok_iff _ _).mp hT
    exact
      { states_eq := rfl, actions_eq := rfl, states_ne, actions_ne, states_nodup,
        actions_nodup, horizon_eq, horizon_pos, discount_eq := hg, costs_eq := hc,
        transitions_eq := ⟨raw, hraw, hm⟩, final_eq := ⟨z, hz, rfl⟩ }
  · intro h
    obtain ⟨raw, hraw, hm⟩ := h.transitions_eq
    obtain ⟨z, hz, rfl⟩ := h.final_eq
    obtain ⟨hs, ha, hT⟩ := h.checks
    refine ⟨(), hs, (), ha, horizon, hT, _, h.discount_eq, _, h.costs_eq, raw, hraw, _, hm,
      z, hz, ?_⟩
    rw [← h.states_eq, ← h.actions_eq]

/-- A solution is the prepared process together with its tables. -/
theorem solve_eq_ok_iff (inst : Instance α) (s : Solution α) :
    (solve inst).result = .ok s ↔
      ∃ horizon final, Prepares inst s.toProcess horizon final ∧
        s.toProcess.tables horizon final = (s.values, s.policy) := by
  simp only [solve, Traced.result_bind, Traced.result_note, Traced.result_pure,
    bind_eq_ok_iff]
  constructor
  · rintro ⟨⟨p, T, z⟩, hp, _, _, _, _, heq⟩
    cases heq
    exact ⟨T, z, (prepare_eq_ok_iff inst p T z).mp hp, rfl⟩
  · rintro ⟨T, z, hp, ht⟩
    refine ⟨(s.toProcess, T, z), (prepare_eq_ok_iff inst _ T z).mpr hp, (), trivial, (), trivial,
      ?_⟩
    rw [ht]

end Solution
end BackwardInduction
