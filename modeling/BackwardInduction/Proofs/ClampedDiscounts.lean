import BackwardInduction.Proofs.AcceptedInstances
import BackwardInduction.Proofs.FormRuns
import BackwardInduction.Proofs.ScalarOrder

/-!
Runs that clamp the discount. Whether the discount comes from an option or from a document, it is
a double by the time it is clamped, and the solver is handed the nearest number from zero to
`0.9999`: no double makes such a run fail that would succeed with another discount. A NaN is no
number and has no nearest one; it stays as it is, and the solver refuses it. Of doubles only the
comparison is used. What becomes of a whole number beyond the doubles is not said here.
-/

namespace BackwardInduction

namespace Problem

variable {α : Type} [Scalar α]

/-- The value gives this discount: it is a number within the range of the arithmetic, or a text
of one. -/
inductive StatesDiscount : Value α → α → Prop
  | real (g : α) : StatesDiscount (.number (.real g)) g
  | whole {i : Int} {g : α} (h : Scalar.ofInt? i = some g) :
      StatesDiscount (.number (.whole i)) g
  | text {s : String} {g : α} (h : Scalar.ofText? (Text.trim s) = some g) :
      StatesDiscount (.text s) g

theorem discountOf_eq_ok_iff (source : String) (v : Value α) (g : α) :
    discountOf source v = .ok g ↔ StatesDiscount v g := by
  constructor
  · intro h
    unfold discountOf at h
    split at h
    · cases h
      exact .real g
    · split at h
      · rename_i hi
        cases h
        exact .whole hi
      · cases h
    · split at h
      · rename_i hs
        cases h
        exact .text hs
      · cases h
    · cases h
  · rintro (g | h | h)
    · rfl
    · rw [discountOf, h]
    · rw [discountOf, h]

/-- Documents that differ in the discount alone describe problems that do, too. -/
theorem Describes.withDiscount {source : String} {override : Option String}
    {entries entries' : Entries α} {p : Problem α} (h : Describes source override entries p)
    (alike : ∀ part : Part, part ≠ .discount → part.ReadsAlike entries entries') {g : α}
    (hg : StatesDiscount ((entries'.get? "discount").getD (.number (.real 1))) g) :
    Describes source override entries' { p with discount := .real g } := by
  have states := (alike .states (by decide)).entry_eq
  have actions := (alike .actions (by decide)).entry_eq
  have horizon := alike .horizon (by decide)
  have costs := alike .costs (by decide)
  have transitions := alike .transitions (by decide)
  have salvage := (alike .salvage (by decide)).entry_eq
  refine ⟨?_, ?_, ?_, ?_, ⟨g, (discountOf_eq_ok_iff source _ g).mpr hg, rfl⟩, ?_, ?_⟩
  · rw [missing_eq_nil_iff, states, actions, horizon.entry_eq, horizon.stages_eq rfl]
    exact (missing_eq_nil_iff _).mp h.missing_eq
  · rw [states]
    exact h.states_eq
  · rw [actions]
    exact h.actions_eq
  · rw [horizon.horizonEntry_eq]
    exact h.horizon_eq
  · rw [layoutOf_congr (costs.layout_eq rfl), tableEntry_congr costs.entry_eq,
      tableEntry_congr transitions.entry_eq]
    exact h.models_eq
  · rw [tableEntry_congr salvage]
    exact h.salvage_eq

end Problem

namespace Solution

variable {α : Type} [Scalar α] {inst : Instance α} {s : Solution α} {v : Value α}

/-- An instance with another discount is solved if that one passes the check. -/
theorem exists_solve_withDiscount (h : (solve inst).result = .ok s) {g : α}
    (hv : checkDiscount v = .ok g) :
    ∃ s', (solve { inst with discount := v }).result = .ok s' ∧ s'.discount = g := by
  obtain ⟨horizon, final, prepares, -⟩ := (solve_eq_ok_iff _ s).mp h
  let p : Process α := { s.toProcess with discount := g }
  let tables := p.tables horizon final
  refine ⟨⟨p, tables.1, tables.2⟩, (solve_eq_ok_iff _ _).mpr ⟨horizon, final, ?_, rfl⟩, rfl⟩
  exact { prepares with discount_eq := hv }

/-- An instance with another discount is refused with what the check finds wrong with it. -/
theorem solve_withDiscount_error (h : (solve inst).result = .ok s) {e : Fault}
    (hv : checkDiscount v = .error e) :
    (solve { inst with discount := v }).result = .error e := by
  obtain ⟨horizon, final, prepares, -⟩ := (solve_eq_ok_iff _ s).mp h
  obtain ⟨states, actions, whole⟩ := prepares.checks
  simp only [solve, prepare, Traced.result_bind, Traced.result_liftM, states, actions, whole, hv]
  rfl

end Solution

namespace Command

open Options Problem

section Interval

/-- The number in the interval from zero to `0.9999` that is nearest to the given one. -/
structure Clamps (given used : Float) : Prop where
  nonneg : 0 ≤ used
  le_top : used ≤ 0.9999
  eq_given : 0 ≤ given → given ≤ 0.9999 → used = given
  eq_zero : given < 0 → used = 0
  eq_top : 0.9999 < given → used = 0.9999

theorem clampDiscount_cases (g : Float) :
    g < 0 ∧ clampDiscount g = 0 ∨ 0.9999 < g ∧ clampDiscount g = 0.9999 ∨
      ¬ g < 0 ∧ ¬ 0.9999 < g ∧ clampDiscount g = g := by
  have unfolded : clampDiscount g = if 0.9999 < (if g < 0 then 0 else g) then 0.9999
      else if g < 0 then 0 else g := rfl
  rw [unfolded]
  by_cases below : g < 0
  · rw [if_pos below]
    exact .inl ⟨below, rfl⟩
  · rw [if_neg below]
    split
    · rename_i above
      exact .inr (.inl ⟨above, rfl⟩)
    · rename_i above
      exact .inr (.inr ⟨below, above, rfl⟩)

/-- Everything but a NaN is clamped to the nearest number of the interval. -/
theorem clamps_clampDiscount {g : Float} (hg : g.isNaN = false) :
    Clamps g (clampDiscount g) := by
  have bounds : (0 : Float) < 0.9999 := by decide +kernel
  have ends : (0 : Float) ≤ 0 ∧ (0 : Float) ≤ 0.9999 ∧ (0.9999 : Float) ≤ 0.9999 := by
    decide +kernel
  have asymm {x y : Float} (h : x < y) : ¬ y < x := fun h' =>
    OrderedScalar.lt_irrefl x (OrderedScalar.lt_trans h h')
  rcases clampDiscount_cases g with ⟨below, h⟩ | ⟨above, h⟩ | ⟨below, above, h⟩
  · rw [h]
    refine ⟨ends.1, ends.2.1, fun nonneg => ?_, fun _ => rfl, fun above => ?_⟩
    · exact absurd below ((Binary64.le_iff 0 g).mp nonneg).2.2
    · exact absurd (OrderedScalar.lt_trans above below) (asymm bounds)
  · rw [h]
    refine ⟨ends.2.1, ends.2.2, fun _ le => ?_, fun below => ?_, fun _ => rfl⟩
    · exact absurd above ((Binary64.le_iff g 0.9999).mp le).2.2
    · exact absurd (OrderedScalar.lt_trans above below) (asymm bounds)
  · rw [h]
    exact ⟨(Binary64.le_iff 0 g).mpr ⟨rfl, hg, below⟩, (Binary64.le_iff g _).mpr ⟨hg, rfl, above⟩,
      fun _ _ => rfl, fun h => absurd h below, fun h => absurd h above⟩

theorem clampDiscount_nan {g : Float} (hg : g.isNaN = true) : clampDiscount g = g := by
  have unordered {x y : Float} (h : x < y) : x.isNaN = false ∧ y.isNaN = false :=
    OrderedScalar.not_isNaN_of_lt h
  rcases clampDiscount_cases g with ⟨below, _⟩ | ⟨above, _⟩ | ⟨_, _, h⟩
  · exact absurd (hg.symm.trans (unordered below).1) (by decide)
  · exact absurd (hg.symm.trans (unordered above).2) (by decide)
  · exact h

/-- What is clamped passes the check of the solver. -/
theorem Clamps.checkDiscount_eq {given used : Float} (h : Clamps given used) :
    checkDiscount (.number (.real used) : Value Float) = .ok used := by
  obtain ⟨_, number, nonneg⟩ := (Binary64.le_iff 0 used).mp h.nonneg
  obtain ⟨_, _, below⟩ := (Binary64.le_iff used 0.9999).mp h.le_top
  have one : used ≤ 1 := (Binary64.le_iff used 1).mpr
    ⟨number, rfl, OrderedScalar.not_lt_trans (y := 0.9999) rfl (by decide +kernel) below⟩
  exact (checkDiscount_eq_ok_iff _ _).mpr ⟨.real used, rfl, rfl, number, h.nonneg, one⟩

theorem checkDiscount_nan {g : Float} (hg : g.isNaN = true) :
    checkDiscount (.number (.real g) : Value Float) = .error (.discountOutside "nan") := by
  have text : (Number.real g).text = "nan" := if_pos hg
  have nan : Scalar.isNaN g = true := hg
  rw [checkDiscount, text]
  simp only [nan, Bool.true_or, if_true, pure_bind]
  rfl

end Interval

section Assembly

variable {α : Type} [Scalar α] {t : FileTree} {s : Settings α} {entries base : Entries α}
  {source : String}

/-- The run starts from this document. -/
def Settings.StartsFrom (s : Settings α) (t : FileTree) (base : Entries α)
    (source : String) : Prop :=
  ((baseDocument s : ExceptT Fault (StateM FileTree) _).run.run t :
    Except Fault (Entries α × String) × FileTree) = (.ok (base, source), t)

/-- The discount that a run is given: by its option, or else by the document that it starts
from, which without such an entry gives one. -/
inductive Settings.GivesDiscount (s : Settings α) (t : FileTree) : α → Prop
  | option {g : α} (h : s.discount = .value g) : GivesDiscount s t g
  | document {base : Entries α} {source : String} {v : Value α} {g : α}
      (hoption : s.discount = .unset) (hbase : s.StartsFrom t base source)
      (hentry : base.get? "discount" = some v) (hv : StatesDiscount v g) : GivesDiscount s t g
  | unstated {base : Entries α} {source : String} (hoption : s.discount = .unset)
      (hbase : s.StartsFrom t base source) (hentry : base.get? "discount" = none) :
      GivesDiscount s t 1

theorem leaves_overrideFrom_fromFile (t : FileTree) (name : String) (setting : Setting Path)
    (entries : Entries α) :
    Leaves t (fun _ => True) (fun _ => ∃ v? : Option (Value α), FromFile t setting v?)
      (overrideFrom name setting entries) := by
  cases setting with
  | unset => exact leaves_pure ⟨none, rfl⟩
  | blank => exact leaves_throw trivial
  | value path =>
      refine ((leaves_readDocument t path).imp (fun _ _ => trivial) fun _ => id).bind fun v hv => ?_
      exact leaves_pure ⟨some v, v, rfl, hv.1⟩

/-- What the settings give for the parts, with these values for those from files. -/
def Settings.given (s : Settings α) (costs transitions salvage : Option (Value α)) :
    Part → Option (Value α)
  | .states => entryOf? (fun text => namesValue (Text.names text)) s.states
  | .actions => entryOf? (fun text => namesValue (Text.names text)) s.actions
  | .horizon => entryOf? (fun i => .number (.whole i)) s.horizon
  | .discount => entryOf? scalarValue s.discount
  | .costs => costs
  | .transitions => transitions
  | .salvage => salvage

variable {costs transitions salvage : Option (Value α)}

theorem Settings.StartsFrom.assembles (hbase : s.StartsFrom t base source)
    (hcosts : FromFile t s.costs costs) (htransitions : FromFile t s.transitions transitions)
    (hsalvage : FromFile t s.salvage salvage) :
    s.Assembles t (overridden (s.given costs transitions salvage) base) source :=
  assembles_of_leaves ⟨_, hbase, rfl⟩ ⟨rfl, rfl, rfl, rfl, hcosts, htransitions, hsalvage⟩

/-- A run that puts a document together starts from one and finds what its options name. -/
theorem Settings.Assembles.exists_startsFrom (h : s.Assembles t entries source) :
    ∃ base costs transitions salvage, s.StartsFrom t base source ∧ FromFile t s.costs costs ∧
      FromFile t s.transitions transitions ∧ FromFile t s.salvage salvage ∧
        entries = overridden (s.given costs transitions salvage) base := by
  have starts : Leaves t (fun _ => True) (fun x => s.StartsFrom t x.1 x.2) (baseDocument s) := by
    obtain ⟨r, run, _⟩ := leaves_baseDocument (t := t) (s := s)
    refine ⟨r, run, ?_⟩
    cases r with
    | error e => trivial
    | ok x => exact run
  have assembled : Leaves t (fun _ => True)
      (fun x => ∃ (base : Entries α) (costs transitions salvage : Option (Value α)),
        s.StartsFrom t base x.2 ∧ FromFile t s.costs costs ∧
          FromFile t s.transitions transitions ∧ FromFile t s.salvage salvage) (assemble s) := by
    unfold assemble
    refine starts.bind fun x hx => ?_
    refine (leaves_overrideFrom_fromFile t _ s.costs _).bind fun _ ⟨costs, hcosts⟩ => ?_
    refine (leaves_overrideFrom_fromFile t _ s.transitions _).bind
      fun _ ⟨transitions, htransitions⟩ => ?_
    refine (leaves_overrideFrom_fromFile t _ s.salvage _).bind fun _ ⟨salvage, hsalvage⟩ => ?_
    exact leaves_pure ⟨x.1, costs, transitions, salvage, hx, hcosts, htransitions, hsalvage⟩
  -- the run is the one that is known to succeed, and ends in what these files make of it
  obtain ⟨r, run, ends⟩ := assembled
  obtain rfl : .ok (entries, source) = r := congrArg Prod.fst (h.symm.trans run)
  obtain ⟨base, costs, transitions, salvage, hbase, hcosts, htransitions, hsalvage⟩ := ends
  have again := hbase.assembles hcosts htransitions hsalvage
  have same := Except.ok.inj (congrArg Prod.fst (h.symm.trans again))
  exact ⟨base, costs, transitions, salvage, hbase, hcosts, htransitions, hsalvage,
    congrArg Prod.fst same⟩

/-- Parts for which the same is given are read alike. -/
theorem readsAlike_given {given given' : Part → Option (Value α)}
    (h : ∀ part, part ≠ .discount → given' part = given part) {part : Part}
    (hpart : part ≠ .discount) :
    part.ReadsAlike (overridden given base) (overridden given' base) where
  entry_eq := by rw [get?_overridden, get?_overridden, h part hpart]
  stages_eq _ := by rw [get?_overridden_stages, get?_overridden_stages]
  states_eq _ := by
    rw [get?_overridden given' base .states, get?_overridden given base .states,
      h .states (by decide)]
  layout_eq _ := by
    rw [givenLayout, givenLayout, get?_overridden_layout, get?_overridden_layout, givesModel,
      givesModel, h .costs (by decide), h .transitions (by decide)]

theorem statesDiscount_given (hbase : s.StartsFrom t base source) {g : α}
    (hg : s.GivesDiscount t g) :
    StatesDiscount (((overridden (s.given costs transitions salvage) base).get? "discount").getD
      (.number (.real 1))) g := by
  rw [get?_overridden _ _ .discount, Settings.given]
  have same {base' : Entries α} {source' : String} (h : s.StartsFrom t base' source') :
      base' = base :=
    congrArg Prod.fst (Except.ok.inj (congrArg Prod.fst (h.symm.trans hbase)))
  cases hg with
  | option h =>
      rw [h]
      exact .real g
  | document hoption hbase' hentry hv =>
      rw [hoption, ← same hbase', hentry]
      exact hv
  | unstated hoption hbase' hentry =>
      rw [hoption, ← same hbase', hentry]
      exact .real 1

/-- If the document of a run describes a problem with some option for the discount, then with
the option as it is it describes the same problem, but for the discount that the run is given. -/
theorem exists_describes_givesDiscount {override : Option String} {setting : Setting α}
    {p : Problem α} {g : α}
    (h : ({ s with discount := setting } : Settings α).Assembles t entries source)
    (hp : Describes source override entries p) (hg : s.GivesDiscount t g) :
    ∃ entries', s.Assembles t entries' source ∧
      Describes source override entries' { p with discount := .real g } := by
  obtain ⟨base, costs, transitions, salvage, hbase, hcosts, htransitions, hsalvage, rfl⟩ :=
    h.exists_startsFrom
  have start : s.StartsFrom t base source := hbase
  refine ⟨_, start.assembles hcosts htransitions hsalvage, hp.withDiscount (fun part hpart => ?_)
    (statesDiscount_given start hg)⟩
  refine readsAlike_given (fun part hpart => ?_) hpart
  cases part <;> first | rfl | exact absurd rfl hpart

end Assembly

section Runs

variable {α : Type} [Scalar α] {t : FileTree} {s : Settings α} {entries : Entries α}
  {source : String} {p : Problem α} {g : α}

/-- A run that clamps solves the problem that its document describes, with its discount
clamped. -/
theorem result_clampedSolution (hclamp : s.clamp = true)
    (h : Describes source (s.layout.value?.map Layout.name) entries
      { p with discount := .real g }) :
    (assembledProblem s source entries >>= fun p => p.solve).result =
      ({ p with discount := .real (clampDiscount g) } : Problem α).solve.result := by
  have clamped : (clamp { p with discount := .real g }).result =
      .ok { p with discount := .real (clampDiscount g) } := by
    simp only [clamp, toScalar?]
    split <;> rfl
  rw [assembledProblem, hclamp, Traced.result_bind, Traced.result_bind,
    (ofEntries_eq_ok_iff _ _ _ _).mpr h]
  exact congrArg (fun r : Except Fault (Problem α) => r >>= fun p => p.solve.result) clamped

/-- A run that clamps and has a solution solves a problem that its document describes, but for
the discount. -/
theorem exists_clampedProblem (hclamp : s.clamp = true) {solution : Solution α}
    (h : (assembledProblem s source entries >>= fun p => p.solve).result = .ok solution) :
    ∃ (p : Problem α) (n : Number α),
      Describes source (s.layout.value?.map Layout.name) entries p ∧
        ({ p with discount := n } : Problem α).solve.result = .ok solution := by
  have problem := h
  rw [Traced.result_bind, assembledProblem, Traced.result_bind] at problem
  obtain ⟨_, problem, _⟩ := bind_eq_ok_iff.mp problem
  obtain ⟨p, hp, _⟩ := bind_eq_ok_iff.mp problem
  have described := (ofEntries_eq_ok_iff _ _ _ _).mp hp
  obtain ⟨g, _, hg⟩ := described.discount_eq
  have same : p = { p with discount := .real g } := by rw [← hg]
  refine ⟨p, .real (clampDiscount g), described, ?_⟩
  rw [← result_clampedSolution hclamp (same ▸ described), h]

theorem failed_ending_ne (out err : String) (e : Fault) :
    (failed out err e).ending ≠ .returned 0 := by
  unfold failed
  split <;> nofun

theorem failed_nan (out before : String) :
    failed out before (.discountOutside "nan") =
      ⟨.returned 1, out, before ++ "Error: Discount must lie in [0, 1], got nan.\n"⟩ := by
  have line : "Error: " ++ ((Fault.discountOutside "nan").message ++ "\n") =
      "Error: Discount must lie in [0, 1], got nan.\n" := by decide +kernel
  have reported : (Fault.discountOutside "nan").isReported = true := rfl
  rw [failed, if_pos reported, ← line, String.append_assoc, String.append_assoc]

/-- A run that returns zero has a solution and can write to its output. -/
theorem exists_of_finish_returned {out : String} {trace : Traced α (Solution α)}
    (h : ((finish s out trace : StateM FileTree Report).run t).1.ending = .returned 0) :
    ∃ solution path, trace.result = .ok solution ∧ s.output = .value path ∧ t.Takes path := by
  unfold finish at h
  dsimp only at h
  split at h
  · exact absurd h (failed_ending_ne _ _ _)
  · rename_i solution hsolution
    split at h
    · exact absurd h (failed_ending_ne _ _ _)
    · rename_i path hpath
      refine ⟨solution, path, hsolution, eq_value_of_value? hpath, ?_⟩
      rw [StateT.run_bind] at h
      rcases writeText_cases t path (Json.fileText solution.toValue) .unwritableFile with
        ⟨_, run⟩ | ⟨e, run⟩ | ⟨t', run, _⟩
      · rw [run] at h
        exact absurd h (failed_ending_ne _ _ _)
      · rw [run] at h
        exact absurd h (failed_ending_ne _ _ _)
      · exact FileTree.takes_of_run_writeText run

theorem finish_ok {trace : Traced α (Solution α)} {solution : Solution α}
    (h : trace.result = .ok solution) {path : Path} (houtput : s.output = .value path)
    (htakes : t.Takes path) (out : String) :
    ∃ err t', t.Writes path (Json.fileText solution.toValue).toUTF8 t' ∧
      ((finish s out trace : StateM FileTree Report).run t : Report × FileTree) =
        (⟨.returned 0, out, err⟩, t') := by
  obtain ⟨t', run, writes⟩ :=
    htakes.run_writeText (Json.fileText solution.toValue) .unwritableFile
  unfold finish
  dsimp only
  rw [h, houtput]
  dsimp only [Setting.value?]
  rw [StateT.run_bind, run]
  exact ⟨_, t', writes, rfl⟩

theorem finish_error {trace : Traced α (Solution α)} {e : Fault} (h : trace.result = .error e)
    (out : String) :
    ((finish s out trace : StateM FileTree Report).run t : Report × FileTree) =
      (failed out (log (level s) trace.notices) e, t) := by
  unfold finish
  dsimp only
  rw [h]
  rfl

theorem exists_assembles_of_returned
    (h : ((runSettings s : StateM FileTree Report).run t).1.ending = .returned 0) :
    ∃ entries source, s.Assembles t entries source := by
  obtain ⟨r, run, _⟩ := leaves_assemble t s
  cases r with
  | error e =>
      unfold runSettings at h
      rw [StateT.run_bind, run] at h
      exact absurd h (failed_ending_ne _ _ _)
  | ok x => exact ⟨x.1, x.2, run⟩

/-- The run solves the problem that it puts together, writes this solution, and returns zero. -/
def Solves (args : List String) (t : FileTree) (s : Settings α) (solution : Solution α) : Prop :=
  ∃ entries source path out err t', s.Assembles t entries source ∧
    (assembledProblem s source entries >>= fun p => p.solve).result = .ok solution ∧
    s.output = .value path ∧ t.Writes path (Json.fileText solution.toValue).toUTF8 t' ∧
    ((solve α args : StateM FileTree Report).run t : Report × FileTree) =
      (⟨.returned 0, out, err⟩, t')

theorem solve_of_ofArgs {args : List String} (h : Settings.ofArgs args = .ok s) :
    (solve α args : StateM FileTree Report) = runSettings s := by
  rw [solve, h]

/-- An option for the discount behind other arguments overrides what they say of it. -/
theorem ofArgs_append_discount {args : List String} (h : Settings.ofArgs args = .ok s)
    (text : String) (htext : text ≠ "--") (hg : Scalar.ofText? text = some g) :
    Settings.ofArgs (args ++ ["--discount" ++ "=" ++ text]) =
      .ok { s with discount := .value g } := by
  obtain ⟨s', hs', h⟩ := bind_eq_ok_iff.mp h
  have discount : s'.set .discount (some text) = .ok { s' with discount := .value g } := by
    simp only [Settings.set, Setting.read, hg]
    rfl
  have after : Settings.after {} (args ++ ["--discount" ++ "=" ++ text]) =
      .ok { s' with discount := .value g } := by
    rw [Settings.after, parse_append hs']
    exact after_cons ⟨rfl, by decide +kernel, rfl⟩ htext discount []
  refine bind_eq_ok_iff.mpr ⟨_, after, ?_⟩
  split at h
  · rename_i source
    cases h
    exact if_pos source
  · cases h

/-- If a run that clamps returns zero with some option for the discount, then with the option as
it is it comes to a problem that can be solved, but for the discount that the run is given. -/
theorem exists_clampedRun (hclamp : s.clamp = true) (hgiven : s.GivesDiscount t g)
    {setting : Setting α}
    (h : ((runSettings { s with discount := setting } : StateM FileTree Report).run t).1.ending =
      .returned 0) :
    ∃ (entries : Entries α) (source : String) (path : Path) (p : Problem α) (n : Number α)
      (solution : Solution α), s.Assembles t entries source ∧ s.output = .value path ∧
        t.Takes path ∧ ({ p with discount := n } : Problem α).solve.result = .ok solution ∧
        (assembledProblem s source entries >>= fun p => p.solve).result =
          ({ p with discount := .real (clampDiscount g) } : Problem α).solve.result := by
  obtain ⟨entries, source, assembled⟩ := exists_assembles_of_returned h
  rw [run_runSettings assembled] at h
  obtain ⟨solution, path, hsolution, houtput, takes⟩ := exists_of_finish_returned h
  obtain ⟨p, n, described, solved⟩ := exists_clampedProblem hclamp hsolution
  obtain ⟨entries, assembled, described⟩ :=
    exists_describes_givesDiscount assembled described hgiven
  exact ⟨entries, source, path, p, n, solution, assembled, houtput, takes, solved,
    result_clampedSolution hclamp described⟩

end Runs

/-- A run that clamps, given a discount that is read as a double: if it returns zero with one
half in its place, then it does so with this discount as well, which is clamped to the nearest
number from zero to `0.9999`; unless it is a NaN, which is not clamped, and which the solver
refuses. -/
theorem solve_clamped {args : List String} {t : FileTree} {s : Settings Float} {g : Float}
    (hargs : Settings.ofArgs args = .ok s) (hclamp : s.clamp = true)
    (hgiven : s.GivesDiscount t g)
    (hplain : endingOf t (args ++ ["--discount=0.5"]) = .returned 0) :
    (g.isNaN = false → ∃ solution, Solves args t s solution ∧ Clamps g solution.discount) ∧
      (g.isNaN = true → ∃ out before,
        ((solve Float args : StateM FileTree Report).run t : Report × FileTree) =
          (⟨.returned 1, out, before ++ "Error: Discount must lie in [0, 1], got nan.\n"⟩, t)) := by
  have spelt : "--discount" ++ "=" ++ "0.5" = "--discount=0.5" := by decide +kernel
  have plain := ofArgs_append_discount hargs "0.5" (g := 0.5) (by decide) (by decide +kernel)
  rw [spelt] at plain
  rw [endingOf, solve_of_ofArgs plain] at hplain
  -- but for the discount, both runs come to the problem `p`
  obtain ⟨entries, source, path, p, n, solution, assembled, houtput, takes, solved, result⟩ :=
    exists_clampedRun hclamp hgiven hplain
  simp only [Solves, solve_of_ofArgs hargs, run_runSettings assembled]
  constructor
  · intro number
    have clamps := clamps_clampDiscount number
    obtain ⟨solution, clamped, used⟩ :=
      Solution.exists_solve_withDiscount solved clamps.checkDiscount_eq
    have solved := result.trans clamped
    obtain ⟨err, t', writes, run⟩ := finish_ok solved houtput takes _
    exact ⟨solution, ⟨entries, source, path, _, err, t', assembled, solved, houtput, writes, run⟩,
      used ▸ clamps⟩
  · intro nan
    rw [clampDiscount_nan nan] at result
    have refused := Solution.solve_withDiscount_error solved (checkDiscount_nan nan)
    rw [finish_error (result.trans refused), failed_nan]
    exact ⟨_, _, rfl⟩

section Examples

/-- The arguments of a problem of one state, with this discount, to be clamped. -/
def clampedArgs (discount : String) : List String :=
  ["--states=A", "--actions=a", "-T1", "-g", discount, "--clamp-discount"]

theorem exists_clampedArgs (discount : String) (g : Float)
    (h : ((Settings.ofArgs (clampedArgs discount) : Except Stop (Settings Float)).toOption.map
      fun s => (s.clamp, s.discount.value?)) = some (true, some g)) :
    ∃ s : Settings Float, Settings.ofArgs (clampedArgs discount) = .ok s ∧ s.clamp = true ∧
      s.GivesDiscount (.fresh ["work"]) g := by
  obtain ⟨s, hs, facts⟩ := exists_ok_of_map_toOption h
  simp only [Prod.mk.injEq] at facts
  exact ⟨s, hs, facts.1, .option (eq_value_of_value? facts.2)⟩

theorem exists_clampedExample :
    ∃ s : Settings Float, Settings.ofArgs ["--example", "--clamp-discount"] = .ok s ∧
      s.clamp = true ∧ s.GivesDiscount (.fresh ["work"]) 1 := by
  obtain ⟨s, hs, facts⟩ := exists_ok_of_map_toOption
    (x := (Settings.ofArgs ["--example", "--clamp-discount"] : Except Stop (Settings Float)))
    (f := fun s => (s.clamp, s.bundled, s.discount.isSet)) (c := (true, true, false))
    (by decide +kernel)
  simp only [Prod.mk.injEq] at facts
  obtain ⟨hclamp, hbundled, hset⟩ := facts
  have unset : s.discount = .unset := by
    cases hdiscount : s.discount with
    | unset => rfl
    | blank | value =>
        rw [hdiscount] at hset
        cases hset
  have start : s.StartsFrom (.fresh ["work"]) (deliveryRobot : Problem Float).documentEntries
      "bundled example" := by
    unfold Settings.StartsFrom baseDocument
    rw [hbundled]
    rfl
  exact ⟨s, hs, hclamp, .document unset start rfl (.real 1)⟩

/-- An infinite discount of an option is clamped to `0.9999`, and so is the one of the example. -/
theorem infinite_clamped :
    (∃ (s : Settings Float) (solution : Solution Float),
      Settings.ofArgs (clampedArgs "inf") = .ok s ∧
      Solves (clampedArgs "inf") (.fresh ["work"]) s solution ∧
      solution.discount = 0.9999) ∧
    ∃ (s : Settings Float) (solution : Solution Float),
      Settings.ofArgs ["--example", "--clamp-discount"] = .ok s ∧
      Solves ["--example", "--clamp-discount"] (.fresh ["work"]) s solution ∧
      solution.discount = 0.9999 := by
  constructor
  · obtain ⟨s, hs, hclamp, hgiven⟩ := exists_clampedArgs "inf" Binary64.infinity
      (by decide +kernel)
    obtain ⟨clamps, _⟩ := solve_clamped hs hclamp hgiven (by decide +kernel)
    obtain ⟨solution, solves, clamps⟩ := clamps rfl
    exact ⟨s, solution, hs, solves, clamps.eq_top (by decide +kernel)⟩
  · obtain ⟨s, hs, hclamp, hgiven⟩ := exists_clampedExample
    obtain ⟨clamps, _⟩ := solve_clamped hs hclamp hgiven (by decide +kernel)
    obtain ⟨solution, solves, clamps⟩ := clamps rfl
    exact ⟨s, solution, hs, solves, clamps.eq_top (by decide +kernel)⟩

/-- A NaN is accepted as a discount and not clamped: with it a run returns one that returns zero
with one half. -/
theorem nan_clamped :
    (∃ (s : Settings Float) (g : Float), Settings.ofArgs (clampedArgs "nan") = .ok s ∧
      s.clamp = true ∧ s.GivesDiscount (.fresh ["work"]) g) ∧
    endingOf (.fresh ["work"]) (clampedArgs "nan" ++ ["--discount=0.5"]) = .returned 0 ∧
    endingOf (.fresh ["work"]) (clampedArgs "nan") = .returned 1 := by
  obtain ⟨s, hs, hclamp, hgiven⟩ := exists_clampedArgs "nan" Binary64.nan
    (by decide +kernel)
  refine ⟨⟨s, _, hs, hclamp, hgiven⟩, ?_, ?_⟩
  · decide +kernel
  · decide +kernel

end Examples

end Command
end BackwardInduction
