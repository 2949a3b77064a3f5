import Mathlib.Algebra.Order.Ring.Rat
import Mathlib.Tactic.NormNum
import BackwardInduction.Proofs.RowMass
import BackwardInduction.Proofs.SolveNotices

/-!
Weight is never lost without a warning. Of all that solving notes only rows with next
states that are not declared are warnings: each of them is named once, whether or not
the recursion meets it, the stages in ascending order and the common table behind them.
A row that the recursion meets and that loses weight is one of these.
-/

namespace BackwardInduction

variable {α β : Type}

section Origins

/-- The item that is there, with the table it is of: the stage's own, or none for the
common one. -/
def Model.placed? (m : Model β) (stage : Nat) (state action : String) :
    Option (Option Nat × β) :=
  (((m.stageTable? stage).bind fun t => t.cell? state action).map (some stage, ·)).or
    ((m.commonTable.cell? state action).map (none, ·))

theorem Model.map_placed? (m : Model β) (stage : Nat) (state action : String) :
    (m.placed? stage state action).map Prod.snd = m.present? stage state action := by
  rw [placed?, present?_eq, Option.map_or, Option.map_map, Option.map_map]
  simp [Function.comp_def]

/-- The warnings of a table: one for each row that has next states that are not declared. -/
def Table.undeclared (states : List String) (stage : Option Nat) (t : Table (Row α)) :
    List (Notice α) :=
  t.entries.flatMap fun e =>
    (e.2.entries.filter fun cell => cell.2.keys.any (· ∉ states)).map fun cell =>
      .undeclared stage e.1 cell.1 (cell.2.keys.filter (· ∉ states))

theorem Table.mem_undeclared {states : List String} {stage : Option Nat} {t : Table (Row α)}
    {state action : String} {row : Row α} (hrow : t.cell? state action = some row)
    (hany : row.keys.any (· ∉ states) = true) :
    .undeclared stage state action (row.keys.filter (· ∉ states)) ∈
      t.undeclared states stage := by
  obtain ⟨cells, hcells, hrow⟩ := Option.bind_eq_some_iff.mp hrow
  rw [Dict.get?_eq_some_iff] at hcells hrow
  refine List.mem_flatMap.mpr ⟨_, hcells, ?_⟩
  exact List.mem_map.mpr ⟨_, List.mem_filter.mpr ⟨hrow, hany⟩, rfl⟩

theorem Table.exists_of_mem_undeclared {states : List String} {stage : Option Nat}
    {t : Table (Row α)} {n : Notice α} (hn : n ∈ t.undeclared states stage) :
    ∃ state action names, n = .undeclared stage state action names := by
  obtain ⟨e, _, hn⟩ := List.mem_flatMap.mp hn
  obtain ⟨cell, _, rfl⟩ := List.mem_map.mp hn
  exact ⟨e.1, cell.1, _, rfl⟩

theorem exists_of_mem_undeclaredRows {states : List String}
    {tables : List (Nat × Table (Row α))} {common : Table (Row α)} {n : Notice α}
    (hn : n ∈ (tables.flatMap fun e => e.2.undeclared states (some e.1)) ++
      common.undeclared states none) :
    ∃ origin state action names, n = .undeclared origin state action names := by
  rcases List.mem_append.mp hn with hn | hn
  · obtain ⟨e, _, hn⟩ := List.mem_flatMap.mp hn
    exact ⟨some e.1, Table.exists_of_mem_undeclared hn⟩
  · exact ⟨none, Table.exists_of_mem_undeclared hn⟩

/-- A row that is there is warned of under the table it is of. -/
theorem Model.mem_undeclared {m : TransitionModel α} {tables : List (Nat × Table (Row α))}
    (htables : ∀ stage t, (stage, t) ∈ tables ↔ m.stageTable? stage = some t)
    {states : List String} {stage : Nat} {state action : String} {origin : Option Nat}
    {row : Row α} (hrow : m.placed? stage state action = some (origin, row))
    (hany : row.keys.any (· ∉ states) = true) :
    .undeclared origin state action (row.keys.filter (· ∉ states)) ∈
      (tables.flatMap fun e => e.2.undeclared states (some e.1)) ++
        Table.undeclared states none m.commonTable := by
  rw [List.mem_append]
  rcases Option.or_eq_some_iff.mp hrow with own | ⟨_, common⟩
  · obtain ⟨_, hcell, ⟨⟩⟩ := Option.map_eq_some_iff.mp own
    obtain ⟨t, ht, hcell⟩ := Option.bind_eq_some_iff.mp hcell
    refine .inl (List.mem_flatMap.mpr ⟨_, (htables stage t).mpr ht, ?_⟩)
    exact Table.mem_undeclared hcell hany
  · obtain ⟨_, hcell, ⟨⟩⟩ := Option.map_eq_some_iff.mp common
    exact .inr (Table.mem_undeclared hcell hany)

end Origins

section Normalizing

variable [Scalar α]

theorem notices_normalizeCell {states : List String} (hstates : states ≠ [])
    (stage : Option Nat) (state action : String) (row : Row α) :
    (normalizeCell states stage state action row).notices =
      if row.keys.any (· ∉ states) then
        [.undeclared stage state action (row.keys.filter (· ∉ states))] else [] := by
  have names : row.undeclared states = row.keys.filter (· ∉ states) := by
    simp [Row.undeclared, hstates]
  have any : (!(row.keys.filter (· ∉ states)).isEmpty) = row.keys.any (· ∉ states) := by
    rw [Bool.eq_iff_iff]
    simp
  dsimp only [normalizeCell]
  rw [names, any]
  split
  · rw [Traced.notices_bind_of_ok (Traced.result_note _)]
    rfl
  · rfl

omit [Scalar α] in
theorem flatMap_ite_singleton {γ δ : Type} (p : γ → Bool) (f : γ → δ) (xs : List γ) :
    (xs.flatMap fun x => if p x then [f x] else []) = (xs.filter p).map f := by
  induction xs with
  | nil => rfl
  | cons x xs ih =>
      rw [List.flatMap_cons, List.filter_cons, ih]
      split <;> rfl

theorem notices_normalizeTable {states : List String} (hstates : states ≠ [])
    {stage : Option Nat} {t t' : Table (Row α)}
    (h : (normalizeTable states stage t).result = .ok t') :
    (normalizeTable states stage t).notices = t.undeclared states stage := by
  have results := h
  rw [normalizeTable, Dict.result_traverse] at results
  rw [normalizeTable, Dict.notices_traverse h, Table.undeclared]
  refine List.flatMap_congr fun e he => ?_
  obtain ⟨cells, hcells⟩ := Dict.exists_ok_of_traverse results e he
  rw [Dict.notices_traverse hcells]
  simp only [notices_normalizeCell hstates]
  exact flatMap_ite_singleton _ _ e.2.entries

omit [Scalar α] in
theorem pairwise_sortedStages (stages : Dict Nat (Table β)) :
    (Model.sortedStages stages).entries.Pairwise fun e e' => e.1 < e'.1 := by
  have sorted : (Model.sortedStages stages).entries.Pairwise fun e e' =>
      decide (e.1 ≤ e'.1) = true :=
    List.pairwise_mergeSort
      (fun a b c hab hbc => by simp only [decide_eq_true_eq] at *; omega)
      (fun a b => by simp only [Bool.or_eq_true, decide_eq_true_eq]; omega) stages.entries
  have distinct := List.pairwise_map.mp (Model.sortedStages stages).nodup
  refine List.Pairwise.imp₂ (fun a b hle hne => ?_) sorted distinct
  exact Nat.lt_of_le_of_ne (of_decide_eq_true hle) hne

/-- Normalization warns of the rows of each stage, in ascending order, and of the common
table behind them. -/
theorem notices_normalize {states : List String} (hstates : states ≠ [])
    {m m' : TransitionModel α} (h : (m.normalize states).result = .ok m') :
    ∃ tables : List (Nat × Table (Row α)), tables.Pairwise (fun e e' => e.1 < e'.1) ∧
      (∀ stage t, (stage, t) ∈ tables ↔ m.stageTable? stage = some t) ∧
      (m.normalize states).notices =
        (tables.flatMap fun e => e.2.undeclared states (some e.1)) ++
          Table.undeclared states none m.commonTable := by
  cases m with
  | stationary table =>
      rw [Model.normalize, Traced.result_bind, bind_eq_ok_iff] at h
      obtain ⟨table', htable, _⟩ := h
      refine ⟨[], .nil, by simp [Model.stageTable?], ?_⟩
      rw [Model.normalize, Traced.notices_bind_of_ok htable,
        notices_normalizeTable hstates htable]
      exact List.append_nil _
  | timeVarying stages fallback =>
      rw [Model.normalize, Traced.result_bind, bind_eq_ok_iff] at h
      obtain ⟨stages', hstages, h⟩ := h
      rw [Traced.result_bind, bind_eq_ok_iff] at h
      obtain ⟨fallback', hfallback, _⟩ := h
      refine ⟨(Model.sortedStages stages).entries, pairwise_sortedStages stages,
        fun stage t => ?_, ?_⟩
      · rw [(perm_sortedStages stages).mem_iff]
        exact (stages.get?_eq_some_iff stage t).symm
      · have results := hstages
        rw [Dict.result_traverse] at results
        have staged : ∀ e ∈ (Model.sortedStages stages).entries,
            (normalizeTable states (some e.1) e.2).notices =
              e.2.undeclared states (some e.1) := by
          intro e he
          obtain ⟨t', ht'⟩ := Dict.exists_ok_of_traverse results e he
          exact notices_normalizeTable hstates ht'
        rw [Model.normalize, Traced.notices_bind_of_ok hstages,
          Traced.notices_bind_of_ok hfallback, Dict.notices_traverse hstages,
          List.flatMap_congr staged, notices_normalizeTable hstates hfallback]
        exact congrArg _ (List.append_nil _)

/-- All that normalization notes are warnings. -/
theorem warnings_normalize {states : List String} (hstates : states ≠ [])
    {m m' : TransitionModel α} (h : (m.normalize states).result = .ok m') :
    ∃ tables : List (Nat × Table (Row α)), tables.Pairwise (fun e e' => e.1 < e'.1) ∧
      (∀ stage t, (stage, t) ∈ tables ↔ m.stageTable? stage = some t) ∧
      (m.normalize states).warnings =
        (tables.flatMap fun e => e.2.undeclared states (some e.1)) ++
          Table.undeclared states none m.commonTable := by
  obtain ⟨tables, ascending, htables, notices⟩ := notices_normalize hstates h
  refine ⟨tables, ascending, htables, ?_⟩
  rw [Traced.warnings, notices, List.filter_eq_self]
  intro n hn
  obtain ⟨_, _, _, _, rfl⟩ := exists_of_mem_undeclaredRows hn
  rfl

end Normalizing

section Rows

variable {m m' : TransitionModel ℚ} (h : m.Normalizes m') {states : List String}
  (hnodup : states.Nodup) {x : String} (hx : x ∈ states) (stage : Nat) (action : String)
include h hnodup hx

/-- A row that loses weight is one that is there, and it has next states that are not
declared. -/
theorem Model.Normalizes.placed_of_lost
    (hlost : expectedValue (m'.row stage x action states) states (fun _ => 1) < 1) :
    ∃ origin row, m.placed? stage x action = some (origin, row) ∧
      m'.row stage x action states = row.distribution ∧
      row.keys.any (· ∉ states) = true := by
  have hany := Row.any_of_expectedValue_lt (h.total_row hnodup hx stage action) hnodup hlost
  rcases h.row_cases stage x action states with ⟨row, hrow, _, heq⟩ | ⟨_, heq⟩
  · rw [← Model.map_placed?, Option.map_eq_some_iff] at hrow
    obtain ⟨⟨origin, _⟩, hplaced, rfl⟩ := hrow
    rw [heq, Row.keys_distribution] at hany
    exact ⟨origin, _, hplaced, heq, hany⟩
  · rw [heq, identityRow, Dict.keys_ofKeys hnodup] at hany
    simp at hany

end Rows

/-- How a warning reads: the row with its stage, or an asterisk for the common table, and
its next states that are not declared. -/
def warningText (origin : Option Nat) (state action : String) (names : List String) :
    String :=
  "Transition row (" ++ origin.elim "*" toString ++ ", " ++ state ++ ", " ++ action ++
    ") mentions undeclared states " ++
      ("[" ++ ", ".intercalate (names.map Text.quoted) ++ "]" ++
        "; their probability is dropped during solving.")

theorem message_undeclared [Scalar α] (origin : Option Nat) (state action : String)
    (names : List String) :
    (Notice.undeclared origin state action names : Notice α).message =
      warningText origin state action names := by
  cases origin with
  | none => rfl
  | some stage => rfl

/-- Every row that the recursion meets is a distribution, and an expectation sees all of it but
the weight of next states that are not declared. Where it does not see all, the log warns of
the row; and the warnings are those of the rows that are there, each in its place and each
naming its row. -/
theorem solve_warns (inst : Instance ℚ) (s : Solution ℚ)
    (h : (Solution.solve inst).result = .ok s) :
    ∃ m : TransitionModel ℚ,
      (readTransitions inst.transitions inst.states inst.layout).result = .ok m ∧
      (∀ t, ∀ x ∈ s.states, ∀ a, ∃ p, p = s.transitions.row t x a s.states ∧
        p.Nonnegative ∧ p.total = 1 ∧
        expectedValue p s.states (fun _ => 1) =
          1 - ((p.outside s.states).map Prod.snd).sum ∧
        (expectedValue p s.states (fun _ => 1) < 1 → ∃ origin row,
          m.placed? t x a = some (origin, row) ∧ p = row.distribution ∧
          .undeclared origin x a (row.keys.filter (· ∉ s.states)) ∈
            (Solution.solve inst).warnings)) ∧
      ∃ tables : List (Nat × Table (Row ℚ)), tables.Pairwise (fun e e' => e.1 < e'.1) ∧
        (∀ stage t, (stage, t) ∈ tables ↔ m.stageTable? stage = some t) ∧
        (Solution.solve inst).warnings =
          (tables.flatMap fun e => e.2.undeclared inst.states (some e.1)) ++
            Table.undeclared inst.states none m.commonTable ∧
        ∀ n ∈ (Solution.solve inst).warnings, ∃ origin state action names,
          n = .undeclared origin state action names ∧
          n.message = warningText origin state action names := by
  obtain ⟨final, prepares, _⟩ := Solution.solve_spec h
  obtain ⟨m, hm, normalized⟩ := prepares.transitions_eq
  have normalizes := Model.normalizes_of_normalize normalized
  have nodup := prepares.states_nodup
  have nonnegative := (Solution.nonnegative_of_prepares prepares).1
  obtain ⟨tables, ascending, htables, warnings⟩ :=
    warnings_normalize (prepares.states_eq ▸ prepares.states_ne) normalized
  rw [← warnings_solve h hm] at warnings
  have texts : ∀ n ∈ (Solution.solve inst).warnings, ∃ origin state action names,
      n = .undeclared origin state action names ∧
      n.message = warningText origin state action names := by
    intro n hn
    rw [warnings] at hn
    obtain ⟨origin, state, action, names, rfl⟩ := exists_of_mem_undeclaredRows hn
    exact ⟨origin, state, action, names, rfl, message_undeclared origin state action names⟩
  refine ⟨m, hm, fun t x hx a => ?_, tables, ascending, htables, warnings, texts⟩
  have total := normalizes.total_row nodup hx t a
  refine ⟨_, rfl, Model.nonnegative_row nonnegative t x a s.states, total,
    Row.expectedValue_one total nodup, fun hlost => ?_⟩
  obtain ⟨origin, row, hplaced, heq, hany⟩ := normalizes.placed_of_lost nodup hx t a hlost
  refine ⟨origin, row, hplaced, heq, ?_⟩
  rw [warnings, ← prepares.states_eq]
  exact Model.mem_undeclared htables hplaced hany

/-- Transitions of a stage beyond the horizon and of all stages, both of which lead to states
that are not declared. -/
def driftingInstance : Instance ℚ where
  states := ["A"]
  actions := ["go"]
  horizon := .number (.whole 1)
  transitions := .timeVarying
    (.map
      [ (.number (.whole 5), .map [ Value.entry "A" (.map [ Value.entry "go" (.map
          [ Value.entry "B" .null ]) ]) ]) ])
    (.map [ Value.entry "A" (.map [ Value.entry "go" (.map
        [ Value.entry "C" (.number (.whole 3)), Value.entry "A" (.number (.whole 1)) ]) ]) ])

theorem driftingInstance_warns :
    ∃ s, (Solution.solve driftingInstance).result = .ok s ∧
      expectedValue (s.transitions.row 0 "A" "go" s.states) s.states (fun _ => 1) = 1 / 4 ∧
      ∃ n ∈ (Solution.solve driftingInstance).warnings,
        n = .undeclared none "A" "go" ["C"] ∧
        n.message = "Transition row (*, A, go) mentions undeclared states ['C']; " ++
          "their probability is dropped during solving." := by
  obtain ⟨s, hs, facts⟩ := exists_ok_of_map_toOption
    (x := (Solution.solve driftingInstance).result)
    (f := fun s => (expectedValue (s.transitions.row 0 "A" "go" s.states) s.states fun _ => 1,
      s.states)) (c := (1 / 4, ["A"])) (by decide +kernel)
  obtain ⟨seen, states⟩ := Prod.mk.inj facts
  obtain ⟨m, hm, rows, _, _, _, _, texts⟩ := solve_warns driftingInstance s hs
  have placed := eq_of_map_toOption hm
    (f := fun m => (m.placed? 0 "A" "go").map fun x => (x.1, x.2.keys.filter (· ∉ ["A"])))
    (c := some (none, ["C"])) (by decide +kernel)
  obtain ⟨p, rfl, _, _, _, warned⟩ := rows 0 "A" (by simp [states]) "go"
  obtain ⟨origin, row, hplaced, _, hwarning⟩ := warned (by rw [seen]; norm_num)
  rw [hplaced, Option.map_some, Option.some.injEq, Prod.mk.injEq] at placed
  obtain ⟨rfl, names⟩ := placed
  rw [states, names] at hwarning
  obtain ⟨_, _, _, _, ⟨⟩, text⟩ := texts _ hwarning
  refine ⟨s, hs, seen, _, hwarning, rfl, text.trans ?_⟩
  decide +kernel

end BackwardInduction
