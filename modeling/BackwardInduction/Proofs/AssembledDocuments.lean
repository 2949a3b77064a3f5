import BackwardInduction.Command.Solve
import BackwardInduction.Proofs.DocumentFaults
import BackwardInduction.Proofs.FileDocuments

/-!
The document that a run puts together. The files that it takes parts from are left as
they are, what goes into it are decoded values, and its discount is a whole number
only if that stands in the problem document and no option replaces it.
-/

namespace BackwardInduction.Command

open Options

variable {α : Type} [Scalar α]

section Invariant

/-- What holds of the entries at every step: their values are decoded ones, and a discount
that is a whole number comes from where `Q` says. -/
structure Assembled (Q : Int → Prop) (entries : Entries α) : Prop where
  decoded : ∀ e ∈ entries, e.2.Decoded
  discount : ∀ i, entries.get? "discount" = some (.number (.whole i)) → Q i

variable {Q : Int → Prop} {entries : Entries α}

theorem Assembled.nil (Q : Int → Prop) : Assembled Q ([] : Entries α) := by
  refine ⟨fun e he => ?_, fun i hi => ?_⟩
  · cases he
  · cases hi

theorem Assembled.set {name : String} {v : Value α} (h : Assembled Q entries)
    (hname : name ≠ "discount") (hv : v.Decoded) : Assembled Q (entries.set name v) := by
  refine ⟨Entries.forall_set h.decoded name hv, fun i hi => ?_⟩
  rw [Entries.get?_set, if_neg hname] at hi
  exact h.discount i hi

theorem Assembled.erase {name : String} (h : Assembled Q entries)
    (hname : name ≠ "discount") : Assembled Q (entries.erase name) := by
  refine ⟨fun e he => h.decoded e (List.mem_of_mem_filter he), fun i hi => ?_⟩
  rw [Entries.get?_erase entries hname] at hi
  exact h.discount i hi

theorem Assembled.override {β : Type} {toValue : β → Value α} (h : Assembled Q entries)
    (name : String) (hname : name ≠ "discount") (setting : Setting β)
    (hvalue : ∀ b, (toValue b).Decoded) :
    Assembled Q (override name setting toValue entries) := by
  cases setting with
  | unset => exact h
  | blank => exact h.set hname (.list nofun)
  | value b => exact h.set hname (hvalue b)

/-- A discount that is given replaces the one of the document by a number of the
arithmetic. -/
theorem Assembled.overrideDiscount (h : Assembled Q entries) (setting : Setting α) :
    Assembled (fun i => setting = .unset ∧ Q i)
      (Command.override "discount" setting scalarValue entries) := by
  cases setting with
  | unset => exact ⟨h.decoded, fun i hi => ⟨rfl, h.discount i hi⟩⟩
  | blank =>
      refine ⟨Entries.forall_set h.decoded _ (.list nofun), fun i hi => ?_⟩
      rw [Command.override, Entries.get?_set, if_pos rfl] at hi
      cases hi
  | value x =>
      refine ⟨Entries.forall_set h.decoded _ (.number _), fun i hi => ?_⟩
      rw [Command.override, Entries.get?_set, if_pos rfl] at hi
      cases hi

end Invariant

/-- The run reads the file at the path, for the problem or for a part of it. -/
def Settings.Reads (s : Settings α) (path : Path) : Prop :=
  s.problem = .value path ∨ s.costs = .value path ∨ s.transitions = .value path ∨
    s.salvage = .value path

/-- A part of the problem is to come from a file, which is left blank. -/
def Settings.HasBlankFile (s : Settings α) : Prop :=
  s.costs = .blank ∨ s.transitions = .blank ∨ s.salvage = .blank

/-- No option gives the discount, and the problem document has this whole number for it. -/
def Settings.TakesDiscount (s : Settings α) (t : FileTree) (i : Int) : Prop :=
  s.discount = .unset ∧ ∃ (path : Path) (base : Entries α), s.problem = .value path ∧
    t.Holds path (.map base) ∧ base.get? "discount" = some (.number (.whole i))

/-- The run puts this document together and leaves the tree as it is. -/
def Settings.Assembles (s : Settings α) (t : FileTree) (entries : Entries α)
    (source : String) : Prop :=
  ((assemble s : ExceptT Fault (StateM FileTree) _).run.run t :
    Except Fault (Entries α × String) × FileTree) = (.ok (entries, source), t)

/-- Why a run ends in a fault that is not reported. -/
inductive Leak (t : FileTree) (s : Settings α) : Fault → Prop
  | unreadable {path : Path} {e : Fault} (hpath : s.Reads path) (h : Unreadable t path e) :
      Leak t s e
  | longStage {entries : Entries α} {source : String} {name : String} {table : Entries α}
      {key : String} {v : Value α} {digits : Nat} (hentries : s.Assembles t entries source)
      (hname : name = "costs" ∨ name = "transitions")
      (hentry : entries.get? name = some (.map table)) (hkey : (.text key, v) ∈ table)
      (hlong : Text.IsLongStage key digits) : Leak t s (.tooManyDigits digits)
  | discount {i : Int} (h : s.TakesDiscount t i)
      (hrange : (Scalar.ofInt? i : Option α) = none) : Leak t s .beyondRange
  | noFileToRead (h : s.HasBlankFile) : Leak t s .noFileToRead
  | noFileToWrite (h : s.output = .blank) : Leak t s .noFileToWrite
  | nullInOutput {path : Path} (houtput : s.output = .value path)
      (h : path.hasNull = true) : Leak t s .nullInPath

/-- A file that the run reads has a text with a lone surrogate. -/
def Settings.ReadsLoneSurrogate (s : Settings α) (t : FileTree) : Prop :=
  ∃ path, s.Reads path ∧ t.HasLoneSurrogate path

/-- What may go wrong in a run. -/
def RunFault (t : FileTree) (s : Settings α) (e : Fault) : Prop :=
  e.isReported = true ∨ Leak t s e ∨ e = .loneSurrogate ∧ s.ReadsLoneSurrogate t

variable {t : FileTree} {s : Settings α}

theorem leaves_readPart {path : Path} (hpath : s.Reads path) :
    Leaves t (RunFault t s) (fun v : Value α => t.Holds path v ∧ v.Decoded)
      (ExceptT.mk (readDocument path : StateM FileTree (Except Fault (Value α)))) :=
  (leaves_readDocument t path).imp
    (fun _ he => he.imp id (Or.imp (.unreadable hpath) (And.imp_right fun h => ⟨path, hpath, h⟩)))
    fun _ => id

theorem leaves_overrideFrom {Q : Int → Prop} {entries : Entries α} (h : Assembled Q entries)
    {name : String} (hname : name ≠ "discount") {path : Setting Path}
    (hreads : ∀ p, path = .value p → s.Reads p) (hblank : path = .blank → s.HasBlankFile) :
    Leaves t (RunFault t s) (Assembled Q) (overrideFrom name path entries) := by
  cases path with
  | unset => exact leaves_pure h
  | blank => exact leaves_throw (.inr (.inl (.noFileToRead (hblank rfl))))
  | value path =>
      refine (leaves_readPart (hreads path rfl)).bind fun v hv => ?_
      exact leaves_pure (h.set hname hv.2)

omit [Scalar α] in
theorem eq_value_of_value? {β : Type} {setting : Setting β} {b : β}
    (h : setting.value? = some b) : setting = .value b := by
  cases setting with
  | unset | blank => cases h
  | value b' =>
      cases h
      rfl

theorem leaves_baseDocument :
    Leaves t (RunFault t s)
      (fun x => Assembled (fun i => ∃ (path : Path) (base : Entries α), s.problem = .value path ∧
        t.Holds path (.map base) ∧ base.get? "discount" = some (.number (.whole i))) x.1)
      (baseDocument s) := by
  unfold baseDocument
  split
  · have bundled : Assembled (fun _ => False)
        (Problem.deliveryRobot : Problem α).documentEntries := by
      refine ⟨Problem.decoded_documentEntries _, fun i hi => ?_⟩
      simp [Problem.documentEntries, Problem.get?_entry_cons, Problem.deliveryRobot] at hi
    exact leaves_pure ⟨bundled.decoded, fun i hi => (bundled.discount i hi).elim⟩
  · split
    · exact leaves_pure (.nil _)
    · rename_i path hpath
      have problem := eq_value_of_value? hpath
      refine (leaves_readPart (.inl problem)).bind fun v hv => ?_
      obtain ⟨holds, decoded⟩ := hv
      split
      · rename_i entries
        exact leaves_pure
          ⟨decoded.forall_entries, fun i hi => ⟨path, entries, problem, holds, hi⟩⟩
      · exact leaves_throw (.inl rfl)

/-- Putting the document together leaves the tree as it is. -/
theorem leaves_assemble (t : FileTree) (s : Settings α) :
    Leaves t (RunFault t s) (fun x => Assembled (s.TakesDiscount t) x.1) (assemble s) := by
  unfold assemble
  refine leaves_baseDocument.bind fun x hx => ?_
  obtain ⟨base, source⟩ := x
  have names (text : String) : (Problem.namesValue (Text.names text) : Value α).Decoded :=
    Problem.decoded_namesValue _
  have whole (i : Int) : (Value.number (.whole i) : Value α).Decoded := .number _
  have states := hx.override "states" (by decide) s.states names
  have actions := states.override "actions" (by decide) s.actions names
  have horizon := actions.override "horizon" (by decide) s.horizon whole
  have discount := horizon.overrideDiscount s.discount
  dsimp only
  generalize Command.override "discount" s.discount scalarValue _ = entries at discount ⊢
  have unlaid : Assembled (s.TakesDiscount t)
      (if s.costs.isSet || s.transitions.isSet then entries.erase "layout" else entries) := by
    split
    · exact discount.erase (by decide)
    · exact discount
  refine (leaves_overrideFrom unlaid (by decide) (fun p hp => .inr (.inl hp)) .inl).bind
    fun costs hcosts => ?_
  refine (leaves_overrideFrom hcosts (by decide) (fun p hp => .inr (.inr (.inl hp)))
    fun h => .inr (.inl h)).bind fun transitions htransitions => ?_
  refine (leaves_overrideFrom htransitions (by decide) (fun p hp => .inr (.inr (.inr hp)))
    fun h => .inr (.inr h)).bind fun salvage hsalvage => ?_
  exact leaves_pure hsalvage

end BackwardInduction.Command
