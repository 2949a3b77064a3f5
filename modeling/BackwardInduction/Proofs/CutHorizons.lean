import BackwardInduction.Proofs.AgreeingStages
import BackwardInduction.Proofs.MarkedTables
import BackwardInduction.Proofs.ReadingBack
import BackwardInduction.Scalar.Rational

/-!
Cut horizons. What comes before a stage is solved from the values of that stage alone, and
what comes from it on does not depend on what comes before: it is solved just as well with
the stages counted from there. With stationary models only the number of stages that are
left counts. Nothing is assumed of the arithmetic.
-/

namespace BackwardInduction

variable {α β : Type}

section Counting

/-- The entries from a number on, counted from there. -/
def Dict.countedFrom {ν : Type} (k : Nat) (d : Dict Nat ν) : Dict Nat ν where
  entries := d.entries.filterMap fun e => if k ≤ e.1 then some (e.1 - k, e.2) else none
  nodup := by
    rw [List.Nodup, List.pairwise_map, List.pairwise_filterMap]
    refine (List.pairwise_map.mp d.nodup).imp fun {a b} hne => ?_
    intro a' ha' b' hb'
    split at ha' <;> cases ha'
    split at hb' <;> cases hb'
    dsimp only
    omega

theorem Dict.get?_countedFrom {ν : Type} (k : Nat) (d : Dict Nat ν) (n : Nat) :
    (d.countedFrom k).get? n = d.get? (k + n) := by
  refine Option.ext fun v => ?_
  rw [Dict.get?_eq_some_iff, Dict.get?_eq_some_iff, countedFrom, List.mem_filterMap]
  constructor
  · rintro ⟨e, he, heq⟩
    split at heq <;> cases heq
    rwa [Nat.add_sub_cancel' ‹k ≤ e.1›]
  · intro h
    exact ⟨(k + n, v), h, by simp⟩

theorem Dict.all_countedFrom {ν : Type} {P : ν → Prop} {d : Dict Nat ν} (h : d.All P)
    (k : Nat) : (d.countedFrom k).All P := by
  intro e he
  obtain ⟨e', he', heq⟩ := List.mem_filterMap.mp he
  split at heq <;> cases heq
  exact h e' he'

namespace Model

/-- The model as it is from a stage on, with the stages counted from there. -/
def countedFrom (k : Nat) : Model β → Model β
  | .stationary table => .stationary table
  | .timeVarying stages fallback => .timeVarying (stages.countedFrom k) fallback

theorem present?_countedFrom (m : Model β) (k n : Nat) (state action : String) :
    (m.countedFrom k).present? n state action = m.present? (k + n) state action := by
  cases m with
  | stationary table => rfl
  | timeVarying stages fallback =>
      simp only [countedFrom, present?_eq, stageTable?, Dict.get?_countedFrom]
      rfl

theorem all_countedFrom {P : β → Prop} {m : Model β} (h : m.All P) (k : Nat) :
    (m.countedFrom k).All P := by
  cases m with
  | stationary table => exact h
  | timeVarying stages fallback => exact ⟨Dict.all_countedFrom h.1 k, h.2⟩

end Model

/-- The entries of a marked model from a stage on, under keys that name the stages as they are
counted from there; those of stages before it are dropped. -/
inductive Entries.CountedFrom (k : Nat) : Entries α → Entries α → Prop
  | nil : CountedFrom k [] []
  | dropped {e : Key α × Value α} {es es' : Entries α} {n : Nat}
      (hstage : e.1.stage = .ok (some n)) (hn : n < k) (h : CountedFrom k es es') :
      CountedFrom k (e :: es) es'
  | moved {key key' : Key α} {v : Value α} {es es' : Entries α} {n : Nat}
      (hstage : key.stage = .ok (some (k + n))) (hstage' : key'.stage = .ok (some n))
      (h : CountedFrom k es es') : CountedFrom k ((key, v) :: es) ((key', v) :: es')

/-- The marked model from a stage on, with the stages counted from there. -/
inductive Value.CountedFrom (k : Nat) : Value α → Value α → Prop
  | stationary (table : Value α) : CountedFrom k (.stationary table) (.stationary table)
  | timeVarying {es es' : Entries α} (fallback : Value α) (h : Entries.CountedFrom k es es') :
      CountedFrom k (.timeVarying (.map es) fallback) (.timeVarying (.map es') fallback)

/-- The value is a model that is marked with its layout. -/
def Value.IsMarked : Value α → Prop
  | .stationary _ | .timeVarying _ _ => True
  | _ => False

end Counting

variable [Scalar α]

namespace CellReader

variable {r : CellReader α β} {k : Nat}

theorem readsStage_countedFrom {es es' : Entries α} (h : Entries.CountedFrom k es es')
    {stages : List (Nat × Table β)} (hes : List.Forall₂ r.ReadsStage es stages) :
    List.Forall₂ r.ReadsStage es'
      (stages.filterMap fun e => if k ≤ e.1 then some (e.1 - k, e.2) else none) := by
  induction h generalizing stages with
  | nil =>
      cases hes
      exact .nil
  | dropped hstage hn _ ih =>
      cases hes with
      | @cons _ stage _ stages he hes =>
          have named := hstage.symm.trans he.1
          simp only [Except.ok.injEq, Option.some.injEq] at named
          rw [List.filterMap_cons, if_neg (by omega)]
          exact ih hes
  | @moved key key' v _ _ n hstage hstage' _ ih =>
      cases hes with
      | @cons _ stage _ stages he hes =>
          have named := hstage.symm.trans he.1
          simp only [Except.ok.injEq, Option.some.injEq] at named
          rw [List.filterMap_cons, if_pos (by omega), ← named, Nat.add_sub_cancel_left]
          exact .cons ⟨hstage', he.2⟩ (ih hes)

/-- A marked model from a stage on is read as the model from that stage on. -/
theorem model_countedFrom (hr : Placeless r.read) {v v' : Value α} (hv : v.CountedFrom k v')
    {states : List String} {layout : Layout} {m : Model β}
    (h : (r.model v states layout).result = .ok m) :
    (r.model v' states layout).result = .ok (m.countedFrom k) := by
  cases hv with
  | stationary table =>
      cases (r.model_eq_ok_iff _ states layout m).mp h with
      | stationary => exact h
      | whole hv | parted hv => cases hv
  | timeVarying fallback hes =>
      rw [model_timeVarying_eq_ok_iff hr] at h ⊢
      obtain ⟨_, tables, table, ⟨⟩, hstages, htable, rfl⟩ := h
      exact ⟨_, tables.countedFrom k, table, rfl, readsStage_countedFrom hes hstages, htable,
        rfl⟩

theorem exists_countedFrom_entries (k : Nat) {es : Entries α} {stages : List (Nat × Table β)}
    (h : List.Forall₂ r.ReadsStage es stages) : ∃ es', Entries.CountedFrom k es es' := by
  induction h with
  | nil => exact ⟨[], .nil⟩
  | @cons e stage _ _ he _ ih =>
      obtain ⟨es', hes'⟩ := ih
      by_cases hn : stage.1 < k
      · exact ⟨es', .dropped he.1 hn hes'⟩
      · have hstage : e.1.stage = .ok (some (k + (stage.1 - k))) := by
          rw [Nat.add_sub_cancel' (Nat.le_of_not_lt hn)]
          exact he.1
        refine ⟨(.number (.whole (stage.1 - k : Nat)), e.2) :: es', .moved hstage ?_ hes'⟩
        simp [Key.stage]

/-- A marked model that is read can be counted from any stage. -/
theorem exists_countedFrom (hr : Placeless r.read) {v : Value α} (hv : v.IsMarked)
    {states : List String} {layout : Layout} {m : Model β}
    (h : (r.model v states layout).result = .ok m) (k : Nat) : ∃ v', v.CountedFrom k v' := by
  cases v with
  | stationary table => exact ⟨_, .stationary table⟩
  | timeVarying stages fallback =>
      rw [model_timeVarying_eq_ok_iff hr] at h
      obtain ⟨_, _, _, rfl, hstages, _⟩ := h
      obtain ⟨es', hes'⟩ := exists_countedFrom_entries k hstages
      exact ⟨_, .timeVarying fallback hes'⟩
  | null | bool _ | number _ | text _ | list _ | map _ => cases hv

end CellReader

namespace Process

variable (p : Process α)

/-- The values from which the rest is computed can be computed themselves. -/
theorem valuesFrom_valuesFrom (final : Values α) (left n stage : Nat) :
    p.valuesFrom (p.valuesFrom final left (stage + n)) n stage =
      p.valuesFrom final (n + left) stage := by
  induction n generalizing stage with
  | zero => rw [valuesFrom, Nat.zero_add, Nat.add_zero]
  | succ n ih =>
      have rest := ih (stage + 1)
      rw [Nat.add_right_comm, Nat.add_assoc] at rest
      rw [valuesFrom, rest, Nat.add_right_comm n 1 left, valuesFrom]

theorem policyFrom_valuesFrom (final : Values α) (left n stage : Nat) :
    p.policyFrom (p.valuesFrom final left (stage + 1 + n)) n stage =
      p.policyFrom final (n + left) stage := by
  rw [policyFrom, valuesFrom_valuesFrom, policyFrom]

/-- The values of every stage are given for the declared states, in their order. -/
theorem valuesFrom_eq_ofKeys (f : String → α) (left stage : Nat) :
    ∃ g, p.valuesFrom (Dict.ofKeys p.states f) left stage = Dict.ofKeys p.states g := by
  cases left with
  | zero => exact ⟨f, rfl⟩
  | succ left => exact ⟨_, p.backup_values _ _⟩

/-- Where neither model changes with the stage, every stage looks like every other. -/
theorem agreesAt_of_stationary {costs : Table α} {transitions : Table (Row α)}
    (hcosts : p.costs = .stationary costs) (htransitions : p.transitions = .stationary transitions)
    (stage stage' : Nat) : p.AgreesAt p stage stage' := by
  refine ⟨fun x _ a _ => ?_, fun x _ a _ y _ => ?_⟩
  · rw [hcosts]
    rfl
  · rw [htransitions]
    rfl

end Process

namespace Solution

variable {inst : Instance α} {s : Solution α} {final : Values α}

/-- Terminal values that are given as such are the terminal values. -/
theorem terminal_ofKeys (states : List String) (g : String → α) :
    terminal states (Dict.ofKeys states g) = Dict.ofKeys states g :=
  Dict.ofKeys_congr fun _ hx => Dict.getD_ofKeys_of_mem hx _ _

variable (hprepares : Prepares inst s.toProcess s.horizon final) (htables : s.Tabulates final)
include hprepares htables

/-- The stages before a stage, solved from its values. -/
theorem solve_head {k : Nat} (hpos : 1 ≤ k) (hk : k ≤ s.horizon) {v : Values α}
    (hv : s.values[k]? = some v) (hfinite : v.All (Scalar.isFinite · = true)) :
    (solve { inst with
      horizon := .number (.whole k), salvage := Dict.toValue scalarValue v }).result =
      .ok { s with values := s.values.take (k + 1), policy := s.policy.take k } := by
  have value : v = s.valuesFrom final (s.horizon - k) k := by
    rw [← htables.values_getD hk, List.getD_eq_getElem?_getD, hv, Option.getD_some]
  have salvage : readSalvage (Dict.toValue scalarValue v) = .ok v := by
    refine readsBack_dict (fun e he place => ?_) _
    exact (readNumber_eq_ok_iff _ _ _).mpr ⟨.real e.2, hfinite e he⟩
  have terminal_eq : v = terminal inst.states v := by
    obtain ⟨g, hg⟩ := s.valuesFrom_eq_ofKeys inst.salvageOf (s.horizon - k) k
    rw [← hprepares.final_eq_ofKeys, ← value] at hg
    rw [hg, ← hprepares.states_eq, terminal_ofKeys]
  refine (solve_eq_ok_iff _ _).mpr ⟨k, v, ?_, ?_⟩
  · exact { hprepares with
      horizon_eq := rfl, horizon_pos := hpos, final_eq := ⟨v, salvage, terminal_eq⟩ }
  · rw [Process.tables_eq, htables.values_eq, htables.policy_eq, ← List.map_take,
      ← List.map_take, List.take_range, List.take_range, Nat.min_eq_left (by omega),
      Nat.min_eq_left hk, value]
    refine Prod.ext (List.map_congr_left fun t ht => ?_) (List.map_congr_left fun t ht => ?_)
    · have ht := List.mem_range.mp ht
      have at_cut : t + (k - t) = k := by omega
      have left : k - t + (s.horizon - k) = s.horizon - t := by omega
      have rest := s.valuesFrom_valuesFrom final (s.horizon - k) (k - t) t
      rw [at_cut, left] at rest
      exact rest
    · have ht := List.mem_range.mp ht
      have at_cut : t + 1 + (k - t - 1) = k := by omega
      have left : k - t - 1 + (s.horizon - k) = s.horizon - t - 1 := by omega
      have rest := s.policyFrom_valuesFrom final (s.horizon - k) (k - t - 1) t
      rw [at_cut, left] at rest
      exact rest

/-- The stages from a stage on, solved by themselves. -/
theorem solve_tail {k : Nat} (hk : k < s.horizon) {costs transitions : Value α}
    (hcosts : inst.costs.CountedFrom k costs)
    (htransitions : inst.transitions.CountedFrom k transitions) :
    ∃ s', (solve { inst with
        horizon := .number (.whole (s.horizon - k : Nat)), costs, transitions }).result = .ok s' ∧
      s'.values = s.values.drop k ∧ s'.policy = s.policy.drop k := by
  obtain ⟨raw, hraw, normalized⟩ := hprepares.transitions_eq
  have filled := (raw.exists_normalize_iff inst.states).mp ⟨_, normalized⟩
  have costs_eq := CellReader.model_countedFrom placeless_costCells hcosts hprepares.costs_eq
  have raw_eq := CellReader.model_countedFrom placeless_transitionCells htransitions hraw
  obtain ⟨s', hs', horizon, htables', frame, hcosts', normalizes'⟩ :=
    hprepares.solve_models (Nat.sub_pos_of_lt hk) costs_eq raw_eq (Model.all_countedFrom filled k)
  have agree : s.AgreesFor s'.toProcess (s.horizon - k) k 0 := by
    intro i _
    rw [Nat.zero_add]
    refine frame.agreesAt_of_present (Model.normalizes_of_normalize normalized) normalizes'
      (fun x _ a _ => ?_) fun x _ a _ => ?_
    · rw [hcosts']
      exact s.costs.present?_countedFrom k i x a
    · exact raw.present?_countedFrom k i x a
  exact ⟨s', hs', drop_eq_of_agrees htables htables' frame (Nat.le_of_lt hk) (Nat.zero_le _)
    horizon agree⟩

/-- With stationary models the values of a stage are the same wherever as many stages are
left. -/
theorem solve_stationary {costs : Table α} {transitions : Table (Row α)}
    (hcosts : s.costs = .stationary costs) (htransitions : s.transitions = .stationary transitions)
    {horizon : Nat} (hpos : 1 ≤ horizon) :
    ∃ s', (solve { inst with horizon := .number (.whole horizon) }).result = .ok s' ∧
      ∀ t ≤ s.horizon, ∀ t' ≤ horizon, horizon - t' = s.horizon - t →
        s'.values[t']? = s.values[t]? := by
  have prepared : Prepares { inst with horizon := .number (.whole horizon) } s.toProcess horizon
      final :=
    { hprepares with horizon_eq := rfl, horizon_pos := hpos }
  obtain ⟨s', hs', hp, rfl, htables'⟩ := prepared.exists_solution
  refine ⟨s', hs', fun t ht t' ht' left => ?_⟩
  have frame : s.SharesFrame s'.toProcess := by
    rw [hp]
    exact ⟨rfl, rfl, rfl⟩
  have agree : s.AgreesFor s'.toProcess (s.horizon - t) t t' := by
    rw [hp]
    exact fun i _ => s.agreesAt_of_stationary hcosts htransitions _ _
  have values := (drop_eq_of_agrees htables htables' frame ht ht' left agree).1
  have first := congrArg (·[0]?) values
  simpa only [List.getElem?_drop, Nat.add_zero] using first

end Solution

/-- A horizon can be cut anywhere. Up to a stage whose values are finite, a solution is that of
the shorter horizon that ends there with these values; from the stage on, it is that of the
stages that are left, counted from there, as marked models can be. With stationary models the
values of a stage depend only on how many stages are left. -/
theorem solve_cut (inst : Instance α) (s : Solution α)
    (h : (Solution.solve inst).result = .ok s) :
    (∀ k v, 1 ≤ k → k ≤ s.horizon → s.values[k]? = some v →
      v.All (Scalar.isFinite · = true) →
        (Solution.solve { inst with
          horizon := .number (.whole k), salvage := Dict.toValue scalarValue v }).result =
          .ok { s with values := s.values.take (k + 1), policy := s.policy.take k }) ∧
    (∀ k < s.horizon,
      (inst.costs.IsMarked → ∃ costs, inst.costs.CountedFrom k costs) ∧
      (inst.transitions.IsMarked → ∃ transitions, inst.transitions.CountedFrom k transitions) ∧
      ∀ costs transitions, inst.costs.CountedFrom k costs →
        inst.transitions.CountedFrom k transitions →
          ∃ s', (Solution.solve { inst with
              horizon := .number (.whole (s.horizon - k : Nat)), costs, transitions }).result =
              .ok s' ∧
            s'.values = s.values.drop k ∧ s'.policy = s.policy.drop k) ∧
    ∀ costs transitions, s.costs = .stationary costs →
      s.transitions = .stationary transitions → ∀ horizon : Nat, 1 ≤ horizon →
        ∃ s', (Solution.solve { inst with horizon := .number (.whole horizon) }).result = .ok s' ∧
          ∀ t ≤ s.horizon, ∀ t' ≤ horizon, horizon - t' = s.horizon - t →
            s'.values[t']? = s.values[t]? := by
  obtain ⟨final, prepares, tabulates⟩ := Solution.solve_spec h
  obtain ⟨raw, hraw, _⟩ := prepares.transitions_eq
  refine ⟨fun k v hpos hk hv hfinite => ?_, fun k hk => ⟨fun marked => ?_, fun marked => ?_,
    fun costs transitions hcosts htransitions => ?_⟩,
    fun costs transitions hcosts htransitions horizon hpos => ?_⟩
  · exact Solution.solve_head prepares tabulates hpos hk hv hfinite
  · exact CellReader.exists_countedFrom placeless_costCells marked prepares.costs_eq k
  · exact CellReader.exists_countedFrom placeless_transitionCells marked hraw k
  · exact Solution.solve_tail prepares tabulates hk hcosts htransitions
  · exact Solution.solve_stationary prepares tabulates hcosts htransitions hpos

/-- Three stages. The costs of the last and of the first are given, in this order, and the
transitions of the second; what else there is holds at every stage. -/
def seasonalInstance : Instance Rat where
  states := ["A", "B"]
  actions := ["stay", "go"]
  horizon := .number (.whole 3)
  discount := .number (.real (1 / 2))
  costs := .timeVarying
    (.map
      [ (.text " 02 ", .map [ Value.entry "A" (.map [ Value.entry "go" (.number (.whole 6)) ]) ]),
        (.number (.whole 0), .map
          [ Value.entry "A" (.map [ Value.entry "stay" (.number (.whole 5)) ]) ]) ])
    (.map [ Value.entry "A" (.map
      [ Value.entry "stay" (.number (.whole 4)), Value.entry "go" (.number (.whole 3)) ]) ])
  transitions := .timeVarying
    (.map
      [ (.text "1", .map [ Value.entry "A" (.map [ Value.entry "go" (.map
          [ Value.entry "A" (.number (.whole 1)), Value.entry "B" (.number (.whole 3)) ]) ]) ]) ])
    (.map [ Value.entry "A" (.map [ Value.entry "go" (.map
      [ Value.entry "B" (.number (.whole 1)) ]) ]) ])
  salvage := .map [ Value.entry "A" (.number (.whole 8)), Value.entry "B" (.number (.whole 2)) ]

/-- The models of `seasonalInstance` from its second stage on. -/
def laterCosts : Value Rat :=
  .timeVarying
    (.map
      [ (.number (.whole 1), .map
          [ Value.entry "A" (.map [ Value.entry "go" (.number (.whole 6)) ]) ]) ])
    (.map [ Value.entry "A" (.map
      [ Value.entry "stay" (.number (.whole 4)), Value.entry "go" (.number (.whole 3)) ]) ])

def laterTransitions : Value Rat :=
  .timeVarying
    (.map
      [ (.text "00", .map [ Value.entry "A" (.map [ Value.entry "go" (.map
          [ Value.entry "A" (.number (.whole 1)), Value.entry "B" (.number (.whole 3)) ]) ]) ]) ])
    (.map [ Value.entry "A" (.map [ Value.entry "go" (.map
      [ Value.entry "B" (.number (.whole 1)) ]) ]) ])

theorem seasonalInstance_cut :
    ∃ s v s', (Solution.solve seasonalInstance).result = .ok s ∧
      s.values[1]? = some v ∧ v.getD "A" 0 = 17 / 4 ∧
      (Solution.solve { seasonalInstance with
        horizon := .number (.whole 1), salvage := Dict.toValue scalarValue v }).result =
        .ok { s with values := s.values.take 2, policy := s.policy.take 1 } ∧
      (Solution.solve { seasonalInstance with
        horizon := .number (.whole 2), costs := laterCosts,
        transitions := laterTransitions }).result = .ok s' ∧
      s'.values = s.values.drop 1 ∧ s'.policy = s.policy.drop 1 := by
  obtain ⟨s, hs, facts⟩ := exists_ok_of_map_toOption
    (x := (Solution.solve seasonalInstance).result)
    (f := fun s => (s.horizon, (s.values[1]?).map fun v => v.getD "A" 0))
    (c := (3, some (17 / 4))) (by decide +kernel)
  obtain ⟨horizon, value⟩ := Prod.mk.inj facts
  obtain ⟨v, hv, hA⟩ := Option.map_eq_some_iff.mp value
  have costs : seasonalInstance.costs.CountedFrom 1 laterCosts :=
    .timeVarying _ (.moved (n := 1) (by decide +kernel) rfl
      (.dropped (n := 0) rfl Nat.one_pos .nil))
  have transitions : seasonalInstance.transitions.CountedFrom 1 laterTransitions :=
    .timeVarying _ (.moved (n := 0) (by decide +kernel) (by decide +kernel) .nil)
  obtain ⟨head, tail, _⟩ := solve_cut seasonalInstance s hs
  obtain ⟨_, _, tail⟩ := tail 1 (by omega)
  obtain ⟨s', hs', values, policy⟩ := tail laterCosts laterTransitions costs transitions
  rw [horizon] at hs'
  exact ⟨s, v, s', hs, hv, hA, head 1 v (Nat.le_refl 1) (by omega) hv fun _ _ => rfl, hs', values,
    policy⟩

end BackwardInduction
