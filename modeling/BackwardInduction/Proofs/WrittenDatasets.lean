import BackwardInduction.Command.Generate
import BackwardInduction.Proofs.GeneratedProblems
import BackwardInduction.Proofs.WrittenFiles

/-!
Data sets on doubles, from the draft to the file and back. The numbers that are drawn are small
whole ones, which are written and read without loss; of the discount this is assumed. So the
file is loaded as the very problem that was drawn, as long as its horizon keeps to the digit
limit, and is solved like it. A longer horizon is not written.
-/

namespace BackwardInduction

open BackwardInduction.Random

variable {α β σ : Type}

namespace Problem

section Legible

variable [Scalar α]

theorem legible_namesValue (names : List String) : (namesValue names : Value α).Legible :=
  .list (List.forall_mem_map.mpr fun name _ => .text name)

/-- A flat model is legible if its cells are. -/
theorem legible_flatten {write : β → Value α} {m : Model β}
    (h : m.All fun b => (write b).Legible) : (flatValue (m.flatten write)).Legible := by
  have cells {t : Table β} (ht : t.All fun b => (write b).Legible) :
      (t.mapValues fun _ cells => Dict.toValue write cells).All Value.Legible :=
    Dict.all_mapValues fun e he => Value.legible_toValue (ht e he)
  have flat : (m.flatten write).All Value.Legible := by
    cases m with
    | stationary t => exact cells h
    | timeVarying stages fallback =>
        refine Dict.all_update (Dict.all_ofList (List.forall_mem_map.mpr fun e he => ?_))
          (cells h.2)
        exact Value.legible_toValue fun e' he' =>
          Value.legible_toValue (h.1 e (mem_sortedStages he) e' he')
  exact Value.legible_toValue flat

/-- The members of the document of a problem in front of its horizon. -/
def frontMembers (p : Problem α) : List (String × Value α) :=
  [("states", namesValue p.states), ("actions", namesValue p.actions)]

/-- These are the members behind the horizon in the document of a problem, all numbers of which
are legible but perhaps the horizon. -/
structure HasMembers (p : Problem α) (back : List (String × Value α)) : Prop where
  document_eq : p.toDocument = .map
    (Json.members (p.frontMembers ++ ("horizon", .number (.whole p.horizon)) :: back))
  names : ((p.frontMembers ++ ("horizon", .number (.whole p.horizon)) :: back).map
    Prod.fst).Nodup
  front : ∀ e ∈ p.frontMembers, e.2.Legible
  back : ∀ e ∈ back, e.2.Legible

theorem exists_hasMembers {p : Problem α} (hdiscount : p.discount.Legible)
    (hcosts : p.costs.All fun x => (scalarValue x).Legible)
    (htransitions : p.transitions.All fun row => (Row.toValue row).Legible)
    (hsalvage : p.salvage.All fun x => (scalarValue x).Legible) : ∃ back, p.HasMembers back := by
  obtain ⟨layout, entry, hlayout⟩ : ∃ layout : List (String × Value α),
      p.layoutEntry = Json.members layout ∧
        (layout = [] ∨ layout = [("layout", .text Layout.stationary.name)]) := by
    unfold layoutEntry
    split
    · exact ⟨_, rfl, .inr rfl⟩
    · exact ⟨_, rfl, .inl rfl⟩
  refine ⟨[ ("discount", .number p.discount),
    ("costs", flatValue (p.costs.flatten scalarValue)),
    ("transitions", flatValue (p.transitions.flatten Row.toValue)),
    ("salvage", Dict.toValue scalarValue p.salvage) ] ++ layout, ?_, ?_, ?_, ?_⟩
  · rw [toDocument, entry]
    rfl
  · rcases hlayout with rfl | rfl <;> simp [frontMembers]
  · simp [frontMembers, legible_namesValue]
  · have tables := Value.legible_toValue (f := scalarValue) hsalvage
    rcases hlayout with rfl | rfl <;>
      simp [hdiscount, legible_flatten hcosts, legible_flatten htransitions, tables,
        Value.Legible.number, Value.Legible.text]

variable {p : Problem α} {back : List (String × Value α)}

theorem HasMembers.members_legible (h : p.HasMembers back)
    (hhorizon : p.horizon.natAbs < stageBound) :
    ∀ e ∈ p.frontMembers ++ ("horizon", .number (.whole p.horizon)) :: back, e.2.Legible := by
  have horizon := (Json.legible_whole_iff (α := α) p.horizon).mpr hhorizon
  exact List.forall_mem_append.mpr ⟨h.front, List.forall_mem_cons.mpr ⟨.number horizon, h.back⟩⟩

/-- The document of a problem is legible if its horizon keeps to the digit limit. -/
theorem HasMembers.legible (h : p.HasMembers back) (hhorizon : p.horizon.natAbs < stageBound) :
    p.toDocument.Legible := by
  rw [h.document_eq]
  exact .map (d := ⟨_, h.names⟩) (h.members_legible hhorizon)

theorem HasMembers.brokenText?_eq_none (h : p.HasMembers back)
    (hhorizon : p.horizon.natAbs < stageBound) : Json.brokenText? p.toDocument = none := by
  rw [h.document_eq]
  exact Json.brokenText?_members_eq_none (h.members_legible hhorizon)

/-- Beyond the limit its text breaks off at the horizon. -/
theorem HasMembers.brokenText?_eq (h : p.HasMembers back)
    (hhorizon : stageBound ≤ p.horizon.natAbs) :
    Json.brokenText? p.toDocument =
      some (String.ofList (Json.brokenText "horizon" p.frontMembers)) := by
  rw [h.document_eq]
  exact Json.brokenText?_members ((Json.isOverlong_whole_iff p.horizon).mpr hhorizon) h.front back

end Legible

end Problem

section Directories

variable [Scalar α]

theorem run_makeDirectories {t t' : FileTree} {path : Path} (hnull : path.hasNull = false)
    (h : t.makeDirectories path = .ok t') :
    ((makeDirectories path : StateM FileTree (Except Fault Unit)).run t :
      Except Fault Unit × FileTree) = (.ok (), t') := by
  have run : ((FileAccess.makeDirectories path : StateM FileTree _).run t :
      Except (Path × FileFault) Unit × FileTree) = (.ok (), t') := by
    simp only [FileAccess.makeDirectories, StateT.run_bind, StateT.run_get, pure_bind, h]
    rfl
  rw [makeDirectories, hnull, if_neg Bool.false_ne_true, StateT.run_bind, run]
  rfl

/-- The directory is there or can be made, and a document of this name can be put into it. -/
structure FileTree.Admits (t : FileTree) (directory : Path) (name : String) : Prop where
  hasNull_eq : directory.hasNull = false
  keeps : ∃ t', t.makeDirectories directory = .ok t' ∧ t'.Keeps (directory.entry name)

/-- The document is written, up to an overlong number if it has one, and reading the file comes
down to the bytes of what was written. -/
theorem FileTree.Admits.run_writeDocument {t : FileTree} {directory : Path}
    (h : t.Admits directory "problem.json") (v : Value α) :
    ∃ t', ((Command.writeDocument directory (.ok v) :
          ExceptT Fault (StateM FileTree) Path).run.run t : Except Fault Path × FileTree) =
        (if (Json.brokenText? v).isSome then .error .overlongNumber
          else .ok (directory.entry "problem.json"), t') ∧
      ((readDocument (directory.entry "problem.json") :
          StateM FileTree (Except Fault (Value α))).run t' : Except Fault (Value α) × FileTree) =
        (documentOfBytes (directory.entry "problem.json")
          ((Json.brokenText? v).getD (Json.fileText v)).toUTF8, t') := by
  obtain ⟨t₁, made, keeps⟩ := h.keeps
  obtain ⟨t', written, read⟩ := keeps.run_writeText (α := α)
    ((Json.brokenText? v).getD (Json.fileText v)) .file
  refine ⟨t', ?_, read⟩
  have rest : ((do
      ExceptT.mk (writeText (directory.entry "problem.json")
        ((Json.brokenText? v).getD (Json.fileText v)) .file)
      if (Json.brokenText? v).isSome then throw .overlongNumber
        else return directory.entry "problem.json" :
          ExceptT Fault (StateM FileTree) Path).run.run t₁ : Except Fault Path × FileTree) =
      (if (Json.brokenText? v).isSome then .error .overlongNumber
        else .ok (directory.entry "problem.json"), t') := by
    rw [ExceptT.run_bind, StateT.run_bind, ExceptT.run_mk, written]
    cases Json.brokenText? v <;> rfl
  rw [Command.writeDocument, ExceptT.run_bind, StateT.run_bind, ExceptT.run_mk,
    run_makeDirectories h.hasNull_eq made]
  exact rest

end Directories

namespace Draft

section Doubles

/-- The number is finite and not negative, and its text is read as it. -/
def isKept (x : Float) : Bool :=
  Scalar.isFinite x && !decide (x < 0) && decide (Scalar.ofText? (Scalar.text x) = some x)

theorem isKept_small :
    ∀ i : Fin 11, (Scalar.ofInt? (i.val : Int) : Option Float).any isKept = true := by
  decide +kernel

variable {low high : Int} (hlow : 0 ≤ low) (hhigh : high ≤ 10)
include hlow hhigh

theorem exists_kept {i : Int} (hi : low ≤ i ∧ i ≤ high) :
    ∃ x : Float, Scalar.ofInt? i = some x ∧ isKept x = true := by
  obtain ⟨n, rfl⟩ := Int.eq_ofNat_of_zero_le (Int.le_trans hlow hi.1)
  have small : (Scalar.ofInt? (n : Int) : Option Float).any isKept = true :=
    isKept_small ⟨n, by omega⟩
  cases hx : (Scalar.ofInt? (n : Int) : Option Float) with
  | none =>
      rw [hx] at small
      cases small
  | some x =>
      rw [hx] at small
      exact ⟨x, rfl, small⟩

theorem spans_small (h : low ≤ high) : Spans Float low high :=
  ⟨h, fun _ hl hh => (exists_kept hlow hhigh ⟨hl, hh⟩).imp fun _ hx => hx.1⟩

theorem isKept_of_between {x : Float} (h : Between low high x) : isKept x = true := by
  obtain ⟨i, hl, hh, hx⟩ := h
  obtain ⟨y, hy, kept⟩ := exists_kept hlow hhigh ⟨hl, hh⟩
  rw [hx, Option.some.injEq] at hy
  rwa [hy]

omit hlow hhigh in
theorem legible_of_isKept {x : Float} (h : isKept x = true) : (scalarValue x).Legible := by
  simp only [isKept, Bool.and_eq_true, decide_eq_true_eq] at h
  exact .number (Binary64.legible (Binary64.not_isNaN_of_isFinite h.1.1) fun _ => h.2)

end Doubles

/-- The draft of a data set, with the usual bounds. -/
def ofSizes (states actions horizon : Int) (discount : Float) (timeVarying : Bool) :
    Draft Float where
  stateCount := states
  actionCount := actions
  horizon := horizon
  discount := .real discount
  timeVarying := timeVarying

section Datasets

variable {states actions horizon : Int} {g : Float} {timeVarying : Bool}

theorem isKept_weight {x : Float} (h : Between 0 5 x) : isKept x = true :=
  isKept_of_between (by decide) (by decide) h

theorem isKept_cost {x : Float} (h : Between 0 10 x) : isKept x = true :=
  isKept_of_between (by decide) (by decide) h

theorem sound_ofSizes : (ofSizes states actions horizon g timeVarying).Sound := by
  have weights : Spans Float 0 5 := spans_small (by decide) (by decide) (by decide)
  have costs : Spans Float 0 10 := spans_small (by decide) (by decide) (by decide)
  refine ⟨weights, costs, fun x hx place => ?_, fun x hx place => ?_⟩
  · have kept := isKept_weight hx
    simp only [isKept, Bool.and_eq_true, Bool.not_eq_true', decide_eq_false_iff_not] at kept
    exact (readWeight_eq_ok_iff _ _ _).mpr ⟨.real x, kept.1.1, kept.1.2⟩
  · have kept := isKept_cost hx
    simp only [isKept, Bool.and_eq_true] at kept
    exact (readNumber_eq_ok_iff _ _ _).mpr ⟨.real x, kept.1.1⟩

theorem exists_hasMembers {p : Problem Float}
    (h : (ofSizes states actions horizon g timeVarying).IsProblem p)
    (hdiscount : (Number.real g).Legible) : ∃ back, p.HasMembers back := by
  have costs := (h.costs.imp fun x hx => legible_of_isKept (isKept_cost hx)).all
  have transitions := (h.transitions.imp fun row hrow =>
    (Value.legible_toValue fun e he => legible_of_isKept (isKept_weight (hrow.all e he)) :
      (Row.toValue row).Legible)).all
  have salvage : p.salvage.All fun x => (scalarValue x).Legible :=
    fun e he => legible_of_isKept (isKept_cost (h.salvage.all e he))
  refine Problem.exists_hasMembers ?_ costs transitions salvage
  rw [h.discount_eq]
  exact hdiscount

/-- A problem is drawn, and what there is to know of its document. -/
theorem exists_drawn {source : Source σ} (hsource : source.Bounded) (start : σ)
    (hnan : Scalar.isNaN g = false)
    (hreads : Scalar.isFinite g = true → Scalar.ofText? (Scalar.text g) = some g) :
    ∃ p back, (ofSizes states actions horizon g timeVarying).problem source start = .ok p ∧
      (ofSizes states actions horizon g timeVarying).IsProblem p ∧ p.HasMembers back := by
  have sound : (ofSizes states actions horizon g timeVarying).Sound := sound_ofSizes
  obtain ⟨p, drawn, isProblem⟩ := exists_problem hsource sound.weights sound.costs start
  obtain ⟨back, members⟩ := exists_hasMembers isProblem (Binary64.legible hnan hreads)
  exact ⟨p, back, drawn, isProblem, members⟩

end Datasets

/-- A data set is written and is loaded as the very problem that was drawn: one with the states,
actions and stages of the draft and with models of its kind. With states and actions and with a
discount from zero to one it is solved without a warning, and its last values are the terminal
ones that were drawn. -/
theorem load_dataset {source : Source σ} (hsource : source.Bounded) (start : σ)
    (states actions : Int) {horizon : Int} (hpos : 1 ≤ horizon) (hdigits : horizon < stageBound)
    (timeVarying : Bool) {g : Float} (hnan : Scalar.isNaN g = false)
    (hreads : Scalar.isFinite g = true → Scalar.ofText? (Scalar.text g) = some g)
    {t : FileTree} {directory : Path} (ht : t.Admits directory "problem.json") :
    ∃ p t', (ofSizes states actions horizon g timeVarying).problem source start = .ok p ∧
      (ofSizes states actions horizon g timeVarying).IsProblem p ∧
      ((Command.writeDocument directory
          (((ofSizes states actions horizon g timeVarying).problem source start).map
            Problem.toDocument) : ExceptT Fault (StateM FileTree) Path).run.run t :
          Except Fault Path × FileTree) = (.ok (directory.entry "problem.json"), t') ∧
      ((Problem.load (directory.entry "problem.json") :
          StateM FileTree (Traced Float (Problem Float))).run t').1.result = .ok p ∧
      (1 ≤ states → 1 ≤ actions → 0 ≤ g → g ≤ 1 → ∀ layout, ∃ s : Solution Float,
        (p.solve layout).result = .ok s ∧ (p.solve layout).warnings = [] ∧
          (s.horizon : Int) = horizon ∧ s.values.getD s.horizon ∅ = p.salvage) := by
  obtain ⟨p, back, drawn, isProblem, members⟩ := exists_drawn hsource start hnan hreads
  have horizon_eq : p.horizon = horizon := isProblem.horizon_eq
  have bounded : p.horizon.natAbs < stageBound := by omega
  obtain ⟨t', written, read⟩ := ht.run_writeDocument p.toDocument
  rw [members.brokenText?_eq_none bounded] at written read
  rw [Option.getD_none, documentOfBytes_fileText (members.legible bounded)] at read
  refine ⟨p, t', drawn, isProblem, by rw [drawn]; exact written, ?_, ?_⟩
  · rw [FileTree.result_load read none]
    exact isProblem.result_toDocument sound_ofSizes hpos (Int.le_of_lt hdigits) rfl _
  · intro hstates hactions hzero hone layout
    have inRange : checkDiscount (.number (.real g)) = .ok g :=
      (checkDiscount_eq_ok_iff _ g).mpr ⟨.real g, rfl, rfl, hnan, hzero, hone⟩
    obtain ⟨s, solved, silent, length, last⟩ :=
      isProblem.exists_solution sound_ofSizes hstates hactions hpos inRange layout
    exact ⟨s, solved, silent, length.trans horizon_eq, last⟩

section Instances

/-- A system with a directory in it to work in. -/
def workTree : FileTree :=
  .fresh ["work"]

theorem admits_workTree : workTree.Admits (Path.ofText "data") "problem.json" := by
  let made : FileTree := { workTree with directories := ["work", "data"] :: workTree.directories }
  have place : made.place ((Path.ofText "data").entry "problem.json") =
      .ok ["work", "data", "problem.json"] := by decide +kernel
  have free : made.isDirectory ["work", "data", "problem.json"] = false := by decide +kernel
  refine ⟨by decide +kernel, made, rfl, ⟨by decide +kernel, _, place, free⟩, ?_⟩
  intro goal hgoal
  rw [place, Except.ok.injEq] at hgoal
  rw [← hgoal]
  decide +kernel

/-- A data set that changes with time and has two states, from a seed. -/
theorem load_dataset_of_seven : ∃ p t', (ofSizes 2 1 3 0.5 true).ofSeed 7 = .ok p ∧
    (ofSizes 2 1 3 0.5 true).IsProblem p ∧
    ((Command.writeDataset (Path.ofText "data") (ofSizes 2 1 3 0.5 true) 7 :
        ExceptT Fault (StateM FileTree) Path).run.run workTree : Except Fault Path × FileTree) =
      (.ok ((Path.ofText "data").entry "problem.json"), t') ∧
    ((Problem.load ((Path.ofText "data").entry "problem.json") :
        StateM FileTree (Traced Float (Problem Float))).run t').1.result = .ok p ∧
    ∃ s : Solution Float, p.solve.result = .ok s ∧ p.solve.warnings = [] ∧
      s.values.getD 3 ∅ = p.salvage := by
  have pos : (1 : Int) ≤ 3 := by decide
  have digits : (3 : Int) < stageBound := by decide +kernel
  have number : Scalar.isNaN (0.5 : Float) = false := by decide +kernel
  have reads : Scalar.ofText? (Scalar.text (0.5 : Float)) = some 0.5 := by decide +kernel
  obtain ⟨p, t', drawn, isProblem, written, loaded, solved⟩ := load_dataset bounded_twister
    (Twister.ofSeed 7) 2 1 pos digits true number (fun _ => reads) admits_workTree
  obtain ⟨s, hs, silent, length, last⟩ := solved (by decide) (by decide) (by decide +kernel)
    (by decide +kernel) .auto
  refine ⟨p, t', drawn, isProblem, written, loaded, s, hs, silent, ?_⟩
  have length : s.horizon = 3 := by omega
  rw [← last, length]

end Instances

/-- Beyond the digit limit a data set that does not change with time is written only up to its
horizon, and what is left of it in the file is not loaded. -/
theorem load_long_dataset {source : Source σ} (hsource : source.Bounded) (start : σ)
    (states actions : Int) {horizon : Int} (hdigits : stageBound ≤ horizon) {g : Float}
    (hnan : Scalar.isNaN g = false)
    (hreads : Scalar.isFinite g = true → Scalar.ofText? (Scalar.text g) = some g)
    {t : FileTree} {directory : Path} (ht : t.Admits directory "problem.json") :
    ∃ p t' fault, (ofSizes states actions horizon g false).problem source start = .ok p ∧
      ((Command.writeDocument directory
          (((ofSizes states actions horizon g false).problem source start).map
            Problem.toDocument) : ExceptT Fault (StateM FileTree) Path).run.run t :
          Except Fault Path × FileTree) = (.error .overlongNumber, t') ∧
      ((Problem.load (directory.entry "problem.json") :
          StateM FileTree (Traced Float (Problem Float))).run t').1.result =
        .error (.badJsonFile (directory.entry "problem.json") fault) := by
  obtain ⟨p, back, drawn, isProblem, members⟩ := exists_drawn hsource start hnan hreads
  have horizon_eq : p.horizon = horizon := isProblem.horizon_eq
  have long : stageBound ≤ p.horizon.natAbs := by omega
  obtain ⟨fault, complaint⟩ := documentOfBytes_brokenText "horizon" members.front
    (directory.entry "problem.json")
  obtain ⟨t', written, read⟩ := ht.run_writeDocument p.toDocument
  rw [members.brokenText?_eq long] at written read
  rw [Option.getD_some, complaint] at read
  refine ⟨p, t', fault, drawn, by rw [drawn]; exact written, ?_⟩
  rw [FileTree.result_load read none]
  rfl

/-- A data set without states that has the least horizon beyond the limit. -/
theorem load_least_long :
    ∃ p t' fault, (ofSizes 0 0 stageBound 1 false).ofSeed 0 = .ok p ∧
      ((Command.writeDataset (Path.ofText "data") (ofSizes 0 0 stageBound 1 false) 0 :
          ExceptT Fault (StateM FileTree) Path).run.run workTree : Except Fault Path × FileTree) =
        (.error .overlongNumber, t') ∧
      ((Problem.load ((Path.ofText "data").entry "problem.json") :
          StateM FileTree (Traced Float (Problem Float))).run t').1.result =
        .error (.badJsonFile ((Path.ofText "data").entry "problem.json") fault) := by
  have number : Scalar.isNaN (1 : Float) = false := by decide +kernel
  have reads : Scalar.ofText? (Scalar.text (1 : Float)) = some (1 : Float) := by decide +kernel
  exact load_long_dataset bounded_twister (Twister.ofSeed 0) 0 0 (Int.le_refl stageBound) number
    (fun _ => reads) admits_workTree

end Draft

end BackwardInduction
