import BackwardInduction.Proofs.AssembledDocuments
import BackwardInduction.Scalar.Binary64

/-!
How a run of the solving command ends. It stops at its arguments, reports what is
wrong with the problem, ends in one of a few faults that are not reported, or writes
the solution; and unless it writes the solution, no file is different from before.
-/

namespace BackwardInduction.Command

open Options

deriving instance DecidableEq for Ending

section Arguments

variable {κ σ : Type} {option : σ → κ → Option String → Except Stop σ}
  {operand : σ → String → Except Stop σ} {P : σ → Prop}

/-- What holds at the start and is kept by every option and operand holds of what arguments
give. -/
theorem ends_apply (hoption : ∀ s key value, P s → Ends (fun _ => True) P (option s key value))
    (hoperand : ∀ s text, P s → Ends (fun _ => True) P (operand s text))
    (events : List (Event κ)) (surplus : Bool) {s : σ} (hs : P s) :
    Ends (fun _ => True) P (apply option operand events surplus s) := by
  induction events generalizing surplus s with
  | nil =>
      rw [apply]
      split
      · trivial
      · exact hs
  | cons event events ih =>
      cases event with
      | given key value => exact (hoption s key value hs).bind fun s' hs' => ih surplus hs'
      | operand text => exact (hoperand s text hs).bind fun s' hs' => ih surplus hs'
      | surplus => exact ih true hs
      | misuse => trivial

theorem ends_parse (g : Grammar κ) (wanted : Nat)
    (hoption : ∀ s key value, P s → Ends (fun _ => True) P (option s key value))
    (hoperand : ∀ s text, P s → Ends (fun _ => True) P (operand s text)) {start : σ}
    (hstart : P start) (args : List String) :
    Ends (fun _ => True) P (parse g wanted option operand start args) := by
  unfold parse
  dsimp only
  split
  · trivial
  · exact ends_apply hoption hoperand _ false hstart

end Arguments

variable {α : Type} [Scalar α]

theorem ends_settingRead {β : Type} (f : String → Option β) (value : Option String) :
    Ends (fun _ => True) (fun setting => setting.isSet = true) (Setting.read f value) := by
  cases value with
  | none => rfl
  | some text =>
      rw [Setting.read]
      split
      · rfl
      · trivial

/-- An option sets the output or the layout only if it is the option for it. -/
theorem ends_set_frame (s : Settings α) (key : SolveKey) (value : Option String) :
    Ends (fun _ => True)
      (fun s' : Settings α => (key = .output ∨ s'.output = s.output) ∧
        (key = .layout ∨ s'.layout = s.layout)) (s.set key value) := by
  cases key with
  | help => trivial
  | problem =>
      rw [Settings.set]
      split
      · trivial
      · exact (ends_settingRead _ _).bind fun _ _ => ⟨.inr rfl, .inr rfl⟩
  | bundled =>
      rw [Settings.set]
      split
      · trivial
      · exact ⟨.inr rfl, .inr rfl⟩
  | states | actions | horizon | discount | costs | transitions | salvage =>
      exact (ends_settingRead _ _).bind fun _ _ => ⟨.inr rfl, .inr rfl⟩
  | layout => exact (ends_settingRead _ _).bind fun _ _ => ⟨.inr rfl, .inl rfl⟩
  | clamp | debug => exact ⟨.inr rfl, .inr rfl⟩
  | output => exact (ends_settingRead _ _).bind fun _ _ => ⟨.inl rfl, .inr rfl⟩

theorem ends_set {s : Settings α} (hs : s.output.isSet = true) (key : SolveKey)
    (value : Option String) :
    Ends (fun _ => True) (fun s : Settings α => s.output.isSet = true) (s.set key value) := by
  by_cases hkey : key = .output
  · subst hkey
    exact (ends_settingRead _ _).bind fun _ hset => hset
  · refine (ends_set_frame s key value).imp (fun _ => id) fun s' h => ?_
    rw [h.1.resolve_left hkey]
    exact hs

/-- Some output is always given, be it left blank. -/
theorem isSet_output {args : List String} {s : Settings α} (h : Settings.ofArgs args = .ok s) :
    s.output.isSet = true := by
  have parsed : Ends (fun _ => True) (fun s : Settings α => s.output.isSet = true)
      (parse solveGrammar 0 Settings.set (fun _ _ => .error .usage) {} args) := by
    refine ends_parse solveGrammar 0 (fun s key value hs => ends_set hs key value) ?_ rfl args
    intro _ _ _
    trivial
  obtain ⟨s', hs', h⟩ := bind_eq_ok_iff.mp h
  rw [hs'] at parsed
  split at h
  · cases h
    exact parsed
  · cases h

variable (α) in
/-- The ways in which a run with these arguments ends in this tree. -/
inductive RunEnds (args : List String) (t : FileTree) : Report × FileTree → Prop
  | stopped {stop : Stop} (hargs : (Settings.ofArgs args : Except Stop (Settings α)) = .error stop)
      (hstatus : stop.status = 0 ∨ stop.status = 2) : RunEnds args t (stopped stop, t)
  | reported {e : Fault} {out before : String} (h : e.isReported = true) :
      RunEnds args t (⟨.returned 1, out, before ++ "Error: " ++ e.message ++ "\n"⟩, t)
  | escaped {s : Settings α} {e : Fault} {out err : String}
      (hargs : Settings.ofArgs args = .ok s) (h : Leak t s e) :
      RunEnds args t (⟨.escaped e, out, err⟩, t)
  | solved {s : Settings α} {path : Path} {entries : Entries α} {source : String}
      {solution : Solution α} {out err : String} {t' : FileTree}
      (hargs : Settings.ofArgs args = .ok s) (houtput : s.output = .value path)
      (hentries : s.Assembles t entries source)
      (hsolution : (assembledProblem s source entries >>= fun p => p.solve).result =
        .ok solution)
      (hwrites : t.Writes path (Json.fileText solution.toValue).toUTF8 t') :
      RunEnds args t (⟨.returned 0, out, err⟩, t')

variable {args : List String} {t : FileTree} {s : Settings α}

theorem runEnds_failed (hargs : Settings.ofArgs args = .ok s)
    (hlone : ¬ s.ReadsLoneSurrogate t) {e : Fault} (h : RunFault t s e) (out err : String) :
    RunEnds α args t (failed out err e, t) := by
  unfold failed
  split
  · rename_i reported
    exact .reported reported
  · rename_i unreported
    exact .escaped hargs ((h.resolve_left unreported).resolve_right fun lone => hlone lone.2)

theorem clamp_ok {p : Problem α} {g : α} (h : p.discount = .real g) :
    ∃ p', (clamp p).result = .ok p' ∧ ∃ g', p'.discount = .real g' := by
  simp only [clamp, h, toScalar?]
  split
  · exact ⟨_, rfl, _, rfl⟩
  · exact ⟨_, rfl, _, rfl⟩

theorem runFault_of_entriesFault {entries : Entries α} {source : String}
    (hentries : s.Assembles t entries source) (h : Assembled (s.TakesDiscount t) entries)
    {e : Fault} (he : Problem.EntriesFault entries e) : RunFault t s e := by
  cases he with
  | reported he => exact .inl he
  | discount hentry hrange => exact .inr (.inl (.discount (h.discount _ hentry) hrange))
  | stageKey hname hentry hkey hlong =>
      exact .inr (.inl (.longStage hentries hname hentry hkey hlong))

/-- A problem that is put together and solved is at fault only where its document is, or for
a reason that is reported. -/
theorem ends_assembledProblem {entries : Entries α} {source : String}
    (hentries : s.Assembles t entries source) (h : Assembled (s.TakesDiscount t) entries) :
    Ends (RunFault t s) (fun p => ∃ g, p.discount = .real g)
      (assembledProblem s source entries).result := by
  have faults (override : Option String) :
      Ends (RunFault t s) (fun p => ∃ g, p.discount = .real g)
        (Problem.ofEntries source override entries).result :=
    (Problem.ends_ofEntries h.decoded source override).imp
      (fun _ => runFault_of_entriesFault hentries h) fun _ => id
  rw [assembledProblem, Traced.result_bind]
  refine (faults _).bind fun p hp => ?_
  obtain ⟨g, hg⟩ := hp
  split
  · obtain ⟨p', hclamp, hg'⟩ := clamp_ok hg
    rw [hclamp]
    exact hg'
  · exact ⟨g, hg⟩

theorem ends_assembledSolution {entries : Entries α} {source : String}
    (hentries : s.Assembles t entries source) (h : Assembled (s.TakesDiscount t) entries) :
    Ends (RunFault t s) (fun _ => True)
      (assembledProblem s source entries >>= fun p => p.solve).result := by
  rw [Traced.result_bind]
  refine (ends_assembledProblem hentries h).bind fun p hp => ?_
  obtain ⟨g, hg⟩ := hp
  exact (reports_solve hg).imp (fun _ => .inl) fun _ => id

theorem runEnds_finish (hargs : Settings.ofArgs args = .ok s)
    (hlone : ¬ s.ReadsLoneSurrogate t) {entries : Entries α} {source : String}
    (hentries : s.Assembles t entries source)
    (h : Assembled (s.TakesDiscount t) entries) (out : String) :
    RunEnds α args t ((finish s out (assembledProblem s source entries >>= fun p => p.solve) :
      StateM FileTree Report).run t) := by
  have ends := ends_assembledSolution hentries h
  unfold finish
  dsimp only
  cases hsolution : (assembledProblem s source entries >>= fun p => p.solve).result with
  | error e =>
      rw [hsolution] at ends
      exact runEnds_failed hargs hlone ends _ _
  | ok solution =>
      dsimp only
      cases houtput : s.output with
      | unset =>
          have given := isSet_output hargs
          rw [houtput] at given
          cases given
      | blank => exact runEnds_failed hargs hlone (.inr (.inl (.noFileToWrite houtput))) _ _
      | value path =>
          dsimp only [Setting.value?]
          rw [StateT.run_bind]
          rcases writeText_cases t path (Json.fileText solution.toValue) .unwritableFile with
            ⟨hnull, run⟩ | ⟨e, run⟩ | ⟨t', run, hwrites⟩
          · rw [run]
            exact runEnds_failed hargs hlone (.inr (.inl (.nullInOutput houtput hnull))) _ _
          · rw [run]
            exact runEnds_failed hargs hlone (.inl rfl) _ _
          · rw [run]
            exact .solved hargs houtput hentries hsolution hwrites

/-- However a run ends, it is one of these ways. It is not said how one ends that reads a file
with a lone surrogate, which no text here can hold. -/
theorem solve_ends (args : List String) (t : FileTree)
    (hlone : ∀ s : Settings α, Settings.ofArgs args = .ok s → ¬ s.ReadsLoneSurrogate t) :
    RunEnds α args t ((solve α args : StateM FileTree Report).run t) := by
  unfold solve
  split
  · rename_i stop hargs
    exact .stopped hargs (by cases stop <;> simp [Stop.status])
  · rename_i s hargs
    obtain ⟨r, run, ends⟩ := leaves_assemble t s
    unfold runSettings
    rw [StateT.run_bind, run]
    cases r with
    | error e => exact runEnds_failed hargs (hlone s hargs) ends _ _
    | ok x =>
        obtain ⟨entries, source⟩ := x
        exact runEnds_finish hargs (hlone s hargs) run ends _

/-- A problem document whose state is named by one character, which is written as a surrogate
pair. -/
def pairedFiles : FileTree :=
  let document : Value Float :=
    .map
      [ Value.entry "states" (.text "😀"), Value.entry "actions" (.text "a"),
        Value.entry "horizon" (.number (.whole 1)) ]
  (FileTree.fresh ["work"]).add "p" (Json.fileText document).toUTF8

theorem pairedFiles_ends :
    (∀ s : Settings Float, Settings.ofArgs ["-p", "p", "-d"] = .ok s →
      ¬ s.ReadsLoneSurrogate pairedFiles) ∧
    RunEnds Float ["-p", "p", "-d"] pairedFiles
      ((solve Float ["-p", "p", "-d"] : StateM FileTree Report).run pairedFiles) := by
  have paired : ∀ s : Settings Float, Settings.ofArgs ["-p", "p", "-d"] = .ok s →
      ¬ s.ReadsLoneSurrogate pairedFiles := by
    rintro s hs ⟨path, hpath, bytes, cs, hread, hdecode, lone⟩
    obtain ⟨s', hs', facts⟩ := exists_ok_of_map_toOption
      (x := (Settings.ofArgs ["-p", "p", "-d"] : Except Stop (Settings Float)))
      (f := fun s => (s.problem.value?, s.costs.value?, s.transitions.value?, s.salvage.value?))
      (c := (some (Path.ofText "p"), none, none, none)) (by decide +kernel)
    cases hs.symm.trans hs'
    simp only [Prod.mk.injEq] at facts
    obtain ⟨problem, costs, transitions, salvage⟩ := facts
    obtain rfl : path = Path.ofText "p" := by
      rcases hpath with h | h | h | h
      · exact Option.some.inj ((congrArg Setting.value? h).symm.trans problem)
      · cases (congrArg Setting.value? h).symm.trans costs
      · cases (congrArg Setting.value? h).symm.trans transitions
      · cases (congrArg Setting.value? h).symm.trans salvage
    refine Json.not_hasLoneSurrogate ?_ lone
    have texts : ∀ bytes ∈ (pairedFiles.read (Path.ofText "p")).toOption,
        ∀ cs ∈ (Text.decodeUtf8 bytes).toOption, ∀ text ∈ (Text.unifyNewlines cs).tails,
          text.head? = some '"' → ∀ r ∈ (Json.readCodes text.tail).toOption,
            Json.joinCodes r.1 ≠ none := by
      decide +kernel
    exact texts bytes (by rw [hread]; rfl) cs (by rw [hdecode]; rfl)
  exact ⟨paired, solve_ends _ _ paired⟩

/-- Costs that are left blank end a run in a fault that is neither of the encoding of a file
nor of the size of a number; and the null device takes a solution without keeping it. -/
theorem solve_blank_costs_null_output :
    (∃ e, ((solve Float ["--states=A", "--actions=x", "-T1", "--costs=--"] :
        StateM FileTree Report).run (.fresh ["work"])).1.ending = .escaped e ∧
      (∀ fault, e ≠ .undecodable fault) ∧ (∀ digits, e ≠ .tooManyDigits digits) ∧
      e ≠ .beyondRange) ∧
    (∃ r t, ((solve Float ["--states=A", "--actions=x", "-T1", "-o", "/dev/null"] :
        StateM FileTree Report).run (.fresh ["work"]) : Report × FileTree) = (r, t) ∧
      r.ending = .returned 0 ∧ t.read (Path.ofText "/dev/null") = .ok .empty) := by
  constructor
  · refine ⟨.noFileToRead, ?_, nofun, nofun, nofun⟩
    decide +kernel
  · refine ⟨_, _, rfl, ?_, ?_⟩
    · decide +kernel
    · decide +kernel

end BackwardInduction.Command
