import BackwardInduction.Proofs.ScalarOrder
import BackwardInduction.Solution

/-!
What the choice among candidates finds: the first one below infinity that no other
is below. A candidate that compares with nothing is never found and never in the
way. Only the order of the numbers is used.
-/

namespace BackwardInduction

variable {α : Type} [Scalar α]

theorem Process.candidates_ne_nil (p : Process α) (hne : p.actions ≠ []) (stage : Nat)
    (x : String) (next : Values α) : p.candidates stage x next ≠ [] := by
  simpa [candidates] using hne

/-- Below infinity, and no candidate is below it. -/
def isLeast (candidates : List (String × α)) (c : String × α) : Bool :=
  Scalar.belowInfinity c.2 && candidates.all fun d => !decide (d.2 < c.2)

theorem isLeast_iff (candidates : List (String × α)) (c : String × α) :
    isLeast candidates c = true ↔
      Scalar.belowInfinity c.2 = true ∧ ∀ d ∈ candidates, ¬ d.2 < c.2 := by
  simp [isLeast]

/-- What is kept after the candidates that are done: nothing while none is below infinity, and
else one that is, above which are those before it and not below which are those after it. -/
def Kept (done : List (String × α)) : Option (String × α) → Prop
  | none => ∀ c ∈ done, Scalar.belowInfinity c.2 = false
  | some b => ∃ before after, done = before ++ b :: after ∧
      Scalar.belowInfinity b.2 = true ∧
      (∀ c ∈ before, Scalar.belowInfinity c.2 = true → b.2 < c.2) ∧
      ∀ c ∈ after, ¬ c.2 < b.2

/-- What is kept after one more candidate. -/
def keep (best : Option (String × α)) (c : String × α) : Option (String × α) :=
  match best with
  | none => if Scalar.belowInfinity c.2 then some c else none
  | some b => if c.2 < b.2 then some c else some b

theorem leastFrom_cons (best : Option (String × α)) (c : String × α)
    (cs : List (String × α)) : leastFrom best (c :: cs) = leastFrom (keep best c) cs := by
  cases best <;> rfl

theorem infinityOrZero_of_not_belowInfinity {x : α} (h : Scalar.belowInfinity x = false) :
    Scalar.infinity? = some (Scalar.infinityOrZero : α) := by
  unfold Scalar.belowInfinity at h
  cases top : (Scalar.infinity? : Option α) with
  | none => simp [top] at h
  | some t => simp [Scalar.infinityOrZero, top]

variable [OrderedScalar α]

theorem kept_not_lt {done : List (String × α)} {b : String × α} (h : Kept done (some b))
    {c : String × α} (hc : c ∈ done) : ¬ c.2 < b.2 := by
  obtain ⟨before, after, rfl, below, above, least⟩ := h
  rcases List.mem_append.mp hc with hb | hc
  · intro hlt
    have hcb := above c hb (Scalar.belowInfinity_of_lt hlt below)
    exact OrderedScalar.lt_irrefl _ (OrderedScalar.lt_trans hlt hcb)
  · rcases List.mem_cons.mp hc with rfl | ha
    · exact OrderedScalar.lt_irrefl c.2
    · exact least c ha

theorem kept_keep {done : List (String × α)} {best : Option (String × α)}
    (h : Kept done best) (c : String × α) : Kept (done ++ [c]) (keep best c) := by
  cases best with
  | none =>
      cases hc : Scalar.belowInfinity c.2 with
      | false =>
          simp only [keep, hc, Bool.false_eq_true, if_false]
          intro d hd
          rcases List.mem_append.mp hd with hd | hd
          · exact h d hd
          · rwa [List.mem_singleton.mp hd]
      | true =>
          simp only [keep, hc, if_true]
          exact ⟨done, [], rfl, hc, fun d hd hb => by simp [h d hd] at hb, by simp⟩
  | some b =>
      by_cases hlt : c.2 < b.2
      · simp only [keep, hlt, if_true]
        obtain ⟨_, _, _, below, _⟩ := id h
        refine ⟨done, [], rfl, Scalar.belowInfinity_of_lt hlt below, ?_, by simp⟩
        intro d hd hb
        by_contra hcd
        -- nothing done is below `b`, but `c` is; here the order must be a weak one
        have hdb : ¬ d.2 < b.2 := kept_not_lt h hd
        exact OrderedScalar.not_lt_trans (Scalar.not_isNaN_of_belowInfinity hb) hcd hdb hlt
      · simp only [keep, hlt, if_false]
        obtain ⟨before, after, rfl, below, above, least⟩ := h
        refine ⟨before, after ++ [c], by simp, below, above, ?_⟩
        intro d hd
        rcases List.mem_append.mp hd with hd | hd
        · exact least d hd
        · rwa [List.mem_singleton.mp hd]

theorem kept_leastFrom {done : List (String × α)} {best : Option (String × α)}
    (h : Kept done best) (cs : List (String × α)) :
    Kept (done ++ cs) (leastFrom best cs) := by
  induction cs generalizing done best with
  | nil => simpa [leastFrom] using h
  | cons c cs ih =>
      rw [leastFrom_cons, List.append_cons]
      exact ih (kept_keep h c)

/-- What is kept of all candidates is the first least one. -/
theorem find?_isLeast_of_kept {cs : List (String × α)} {best : Option (String × α)}
    (h : Kept cs best) : cs.find? (isLeast cs) = best := by
  cases best with
  | none =>
      rw [List.find?_eq_none]
      intro c hc
      simp [isLeast, h c hc]
  | some b =>
      obtain ⟨before, after, hcs, below, above, _⟩ := id h
      refine List.find?_eq_some_iff_append.mpr ⟨?_, before, after, hcs, ?_⟩
      · exact (isLeast_iff cs b).mpr ⟨below, fun d hd => kept_not_lt h hd⟩
      · intro c hc
        simp only [Bool.not_eq_true', Bool.eq_false_iff, ne_eq, isLeast_iff]
        rintro ⟨hb, hmin⟩
        exact hmin b (by simp [hcs]) (above c hc hb)

theorem kept_leastFrom_none (cs : List (String × α)) : Kept cs (leastFrom none cs) := by
  have start : Kept ([] : List (String × α)) none := fun c hc => nomatch hc
  exact kept_leastFrom start cs

theorem leastFrom_eq_find? (cs : List (String × α)) :
    leastFrom none cs = cs.find? (isLeast cs) :=
  (find?_isLeast_of_kept (kept_leastFrom_none cs)).symm

theorem find?_isLeast_eq_none_iff (cs : List (String × α)) :
    cs.find? (isLeast cs) = none ↔ ∀ c ∈ cs, Scalar.belowInfinity c.2 = false := by
  constructor
  · intro h
    have kept := kept_leastFrom_none cs
    rwa [leastFrom_eq_find?, h] at kept
  · intro h
    have kept : Kept cs none := h
    exact find?_isLeast_of_kept kept

/-- The choice is the first least candidate; where none is below infinity, it is the first
candidate of all, at infinity. -/
theorem least_cases {cs : List (String × α)} (hne : cs ≠ []) :
    cs.find? (isLeast cs) = some (least cs) ∨
      (∀ c ∈ cs, Scalar.belowInfinity c.2 = false) ∧
        cs.head?.map Prod.fst = some (least cs).1 ∧
        Scalar.infinity? = some (least cs).2 := by
  cases hf : cs.find? (isLeast cs) with
  | some b =>
      left
      rw [least, leastFrom_eq_find?, hf]
  | none =>
      right
      have above := (find?_isLeast_eq_none_iff cs).mp hf
      obtain ⟨c, cs, rfl⟩ := List.exists_cons_of_ne_nil hne
      have top := infinityOrZero_of_not_belowInfinity (above c List.mem_cons_self)
      rw [least, leastFrom_eq_find?, hf]
      exact ⟨above, rfl, top⟩

/-- Where there is no infinity, the choice is the first least candidate. -/
theorem find?_isLeast_of_no_infinity {cs : List (String × α)} (hne : cs ≠ [])
    (htop : (Scalar.infinity? : Option α) = none) :
    cs.find? (isLeast cs) = some (least cs) := by
  rcases least_cases hne with found | ⟨_, _, top⟩
  · exact found
  · rw [htop] at top
    cases top

end BackwardInduction
