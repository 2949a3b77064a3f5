import BackwardInduction.Proofs.AcceptedInstances
import BackwardInduction.Proofs.DictLookup

/-!
The tables of backward induction, stage by stage. The values of a stage depend on
how many stages are left and on nothing the sweep has put aside, so that the lists
a sweep returns are read off from one recursion over the stages that are left.
-/

namespace BackwardInduction

variable {α : Type} [Scalar α]

theorem expectedValue_congr {row : Row α} {states : List String} {next next' : String → α}
    (h : ∀ x ∈ states, next x = next' x) :
    expectedValue row states next = expectedValue row states next' :=
  List.foldl_ext _ _ _ fun total x hx => by rw [h x hx]

namespace Process

variable (p : Process α)

/-- The values of a stage with so many stages left before the terminal ones. -/
def valuesFrom (final : Values α) : (left stage : Nat) → Values α
  | 0, _ => final
  | left + 1, stage => (p.backup stage (valuesFrom final left (stage + 1))).1

/-- The decisions of a stage after which so many stages are left. -/
def policyFrom (final : Values α) (left stage : Nat) : Policy :=
  (p.backup stage (p.valuesFrom final left (stage + 1))).2

/-- The values of the stages before `stage`, where `next` are those of `stage` itself. -/
theorem sweep_eq (final next : Values α) (stage left : Nat) (values : List (Values α))
    (policy : List Policy) (h : next = p.valuesFrom final left stage) :
    p.sweep stage next values policy =
      ((List.range stage).map (fun t => p.valuesFrom final (left + (stage - t)) t) ++ values,
        (List.range stage).map (fun t => p.policyFrom final (left + (stage - t - 1)) t) ++
          policy) := by
  induction stage generalizing next left values policy with
  | zero => rfl
  | succ stage ih =>
      subst h
      change p.sweep stage (p.valuesFrom final (left + 1) stage)
        (p.valuesFrom final (left + 1) stage :: values)
        (p.policyFrom final left stage :: policy) = _
      rw [ih _ (left + 1) _ _ rfl]
      have shift (t : Nat) (ht : t ∈ List.range stage) :
          left + 1 + (stage - t) = left + (stage + 1 - t) ∧
            left + 1 + (stage - t - 1) = left + (stage + 1 - t - 1) := by
        have := List.mem_range.mp ht
        omega
      rw [List.range_succ, List.map_append, List.map_append, List.append_assoc,
        List.append_assoc]
      congr 1
      · congr 1
        · exact List.map_congr_left fun t ht => by rw [(shift t ht).1]
        · simp [valuesFrom]
      · congr 1
        · exact List.map_congr_left fun t ht => by rw [(shift t ht).2]
        · simp [policyFrom]

/-- A table for each stage and one behind the last. -/
theorem tables_eq (horizon : Nat) (final : Values α) :
    p.tables horizon final =
      ((List.range (horizon + 1)).map (fun t => p.valuesFrom final (horizon - t) t),
        (List.range horizon).map (fun t => p.policyFrom final (horizon - t - 1) t)) := by
  rw [tables, p.sweep_eq final final horizon 0 _ _ rfl]
  simp [List.range_succ, valuesFrom]

theorem backup_values (stage : Nat) (next : Values α) :
    (p.backup stage next).1 = Dict.ofKeys p.states fun s => (p.choice stage s next).2 := by
  simp [backup, Dict.ofKeys, Function.comp_def]

theorem backup_policy (stage : Nat) (next : Values α) :
    (p.backup stage next).2 = Dict.ofKeys p.states fun s => (p.choice stage s next).1 := by
  simp [backup, Dict.ofKeys, Function.comp_def]

end Process

namespace Solution

/-- The value of a state at a stage. -/
def value (s : Solution α) (stage : Nat) (state : String) : α :=
  (s.values.getD stage ∅).getD state 0

/-- The decision in a state at a stage. -/
def decision (s : Solution α) (stage : Nat) (state : String) : String :=
  (s.policy.getD stage ∅).getD state ""

/-- The tables are those of backward induction from these terminal values. -/
structure Tabulates (s : Solution α) (final : Values α) : Prop where
  values_eq : s.values =
    (List.range (s.horizon + 1)).map fun t => s.valuesFrom final (s.horizon - t) t
  policy_eq : s.policy =
    (List.range s.horizon).map fun t => s.policyFrom final (s.horizon - t - 1) t

theorem tabulates_of_tables {s : Solution α} {horizon : Nat} {final : Values α}
    (h : s.toProcess.tables horizon final = (s.values, s.policy)) :
    s.horizon = horizon ∧ s.Tabulates final := by
  rw [Process.tables_eq] at h
  obtain ⟨values, policy⟩ := Prod.mk.inj h
  have length : s.horizon = horizon := by simp [Solution.horizon, ← policy]
  exact ⟨length, ⟨by rw [length]; exact values.symm, by rw [length]; exact policy.symm⟩⟩

namespace Tabulates

variable {s : Solution α} {final : Values α} (h : s.Tabulates final)
include h

theorem length_values : s.values.length = s.horizon + 1 := by
  rw [h.values_eq, List.length_map, List.length_range]

theorem values_getD {t : Nat} (ht : t ≤ s.horizon) :
    s.values.getD t ∅ = s.valuesFrom final (s.horizon - t) t := by
  rw [h.values_eq]
  simp [List.getD_eq_getElem?_getD, Nat.lt_succ_of_le ht]

theorem policy_getD {t : Nat} (ht : t < s.horizon) :
    s.policy.getD t ∅ = s.policyFrom final (s.horizon - t - 1) t := by
  rw [h.policy_eq]
  simp [List.getD_eq_getElem?_getD, ht]

theorem values_horizon : s.values.getD s.horizon ∅ = final := by
  rw [h.values_getD (Nat.le_refl _), Nat.sub_self, Process.valuesFrom]

theorem values_eq_backup {t : Nat} (ht : t < s.horizon) :
    s.values.getD t ∅ = (s.backup t (s.values.getD (t + 1) ∅)).1 := by
  have left : s.horizon - t = s.horizon - (t + 1) + 1 := by omega
  rw [h.values_getD (Nat.le_of_lt ht), h.values_getD ht, left, Process.valuesFrom]

theorem policy_eq_backup {t : Nat} (ht : t < s.horizon) :
    s.policy.getD t ∅ = (s.backup t (s.values.getD (t + 1) ∅)).2 := by
  rw [h.policy_getD ht, h.values_getD ht, Process.policyFrom, Nat.sub_sub]

theorem value_eq_choice {t : Nat} (ht : t < s.horizon) {x : String} (hx : x ∈ s.states) :
    s.value t x = (s.choice t x (s.values.getD (t + 1) ∅)).2 := by
  rw [value, h.values_eq_backup ht, Process.backup_values, Dict.getD_ofKeys_of_mem hx]

theorem decision_eq_choice {t : Nat} (ht : t < s.horizon) {x : String} (hx : x ∈ s.states) :
    s.decision t x = (s.choice t x (s.values.getD (t + 1) ∅)).1 := by
  rw [decision, h.policy_eq_backup ht, Process.backup_policy, Dict.getD_ofKeys_of_mem hx]

end Tabulates

/-- What a solution of an instance is: a prepared process and its tables. -/
theorem solve_spec {inst : Instance α} {s : Solution α} (h : (solve inst).result = .ok s) :
    ∃ final, Prepares inst s.toProcess s.horizon final ∧ s.Tabulates final := by
  obtain ⟨horizon, final, prepares, tables⟩ := (solve_eq_ok_iff inst s).mp h
  obtain ⟨rfl, tabulates⟩ := tabulates_of_tables tables
  exact ⟨final, prepares, tabulates⟩

end Solution
end BackwardInduction
