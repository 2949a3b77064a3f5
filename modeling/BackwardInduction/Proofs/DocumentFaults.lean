import BackwardInduction.Proofs.ProblemDocuments
import BackwardInduction.Proofs.ReportedFaults
import BackwardInduction.Proofs.StageTexts

/-!
Which faults a problem document can have. All are reported but two: a discount that
is a whole number out of range, and a key of a model that would be a stage beyond
the digit limit.
-/

namespace BackwardInduction

variable {α : Type}

theorem Key.stage_error {k : Key α} {e : Fault} (h : k.stage = .error e) :
    ∃ s digits, k = .text s ∧ e = .tooManyDigits digits ∧ Text.IsLongStage s digits := by
  cases k with
  | null | bool _ => cases h
  | number n => cases n <;> cases h
  | text s =>
      obtain ⟨digits, he, hs⟩ := stageOfText_error h
      exact ⟨s, digits, rfl, he, hs⟩

namespace Problem

section Parts

theorem reports_namesOf (source entry : String) (v : Value α) :
    Reports (namesOf source entry v) := by
  unfold namesOf
  split
  · trivial
  · split
    · trivial
    · rfl
  · rfl

theorem reports_horizonOf (source : String) (v : Value α) : Reports (horizonOf source v) := by
  unfold horizonOf
  split
  · trivial
  · split
    · trivial
    · rfl
  · rfl

end Parts

variable [Scalar α]

/-- What can be wrong with the entries of a document. -/
inductive EntriesFault (entries : Entries α) : Fault → Prop
  | reported {e : Fault} (h : e.isReported = true) : EntriesFault entries e
  | discount {i : Int} (hentry : entries.get? "discount" = some (.number (.whole i)))
      (hrange : (Scalar.ofInt? i : Option α) = none) : EntriesFault entries .beyondRange
  | stageKey {name : String} {table : Entries α} {key : String} {v : Value α} {digits : Nat}
      (hname : name = "costs" ∨ name = "transitions")
      (hentry : entries.get? name = some (.map table)) (hkey : (.text key, v) ∈ table)
      (hlong : Text.IsLongStage key digits) : EntriesFault entries (.tooManyDigits digits)

theorem ends_discountOf (source : String) (entries : Entries α) :
    Ends (EntriesFault entries) (fun _ => True)
      (discountOf source ((entries.get? "discount").getD (.number (.real 1)))) := by
  unfold discountOf
  split
  · trivial
  · rename_i i hv
    split
    · trivial
    · rename_i hrange
      refine .discount (i := i) ?_ hrange
      cases hentry : entries.get? "discount" with
      | none =>
          rw [hentry] at hv
          cases hv
      | some v =>
          rw [hentry] at hv
          exact congrArg some hv
  · split
    · trivial
    · exact .reported rfl
  · exact .reported rfl

theorem ends_layoutOf (source : String) (override : Option String) (entries : Entries α) :
    Ends (EntriesFault entries) (fun layout => layout.isKnown = true)
      (layoutOf source override entries) := by
  unfold layoutOf
  dsimp only
  split
  · exact .reported rfl
  · rename_i layout known _
    cases layout with
    | unknown name => exact (known name rfl).elim
    | auto | stationary | timeVarying => rfl
  · exact .reported rfl

variable {entries : Entries α} (hentries : ∀ e ∈ entries, e.2.Decoded)
include hentries

theorem ends_readEntry {β : Type} {r : CellReader α β} (hr : r.MalformsCells) {name : String}
    (hname : name = "costs" ∨ name = "transitions") (states : List String) {layout : Layout}
    (hlayout : layout.isKnown = true) :
    Ends (EntriesFault entries) (fun _ => True)
      (r.model (tableEntry entries name) states layout).result := by
  have decoded := decoded_tableEntry hentries name
  refine (CellReader.ends_model hr decoded states hlayout).imp (fun e he => ?_) fun _ => id
  rcases he with he | ⟨table, htable, fault⟩
  · exact .reported (Fault.isReported_of_kind (.inl he))
  · cases fault with
    | malformed h => exact .reported (Fault.isReported_of_kind (.inl h))
    | ambiguous _ _ _ h => exact .reported (Fault.isReported_of_kind (.inr h))
    | @stage entry hentry hstage =>
        obtain ⟨key, digits, hkey, rfl, hlong⟩ := Key.stage_error hstage
        obtain ⟨k, v⟩ := entry
        cases hkey
        refine .stageKey hname ?_ hentry hlong
        -- a table that is missing or counts as nothing has no entry
        rw [tableEntry] at htable
        split at htable
        · rename_i w hw
          split at htable
          · cases htable
            cases hentry
          · cases htable with
            | null => cases hentry
            | map => exact hw
        · cases htable
          cases hentry

/-- What can be wrong with a document, and that a problem it describes has a number of the
arithmetic for its discount. -/
theorem ends_ofEntries (source : String) (override : Option String) :
    Ends (EntriesFault entries) (fun p => ∃ g, p.discount = .real g)
      (ofEntries source override entries).result := by
  by_cases hmissing : missing entries = []
  · have reported {β : Type} {r : Except Fault β} (h : Reports r) :
        Ends (EntriesFault entries) (fun _ => True) r := h.imp (fun _ => .reported) fun _ => id
    rw [result_ofEntries hmissing]
    refine (reported (reports_namesOf _ _ _)).bind fun states _ => ?_
    refine (reported (reports_namesOf _ _ _)).bind fun actions _ => ?_
    refine (reported (reports_horizonOf _ _)).bind fun horizon _ => ?_
    refine (ends_discountOf source entries).bind fun g _ => ?_
    refine (ends_layoutOf source override entries).bind fun layout hlayout => ?_
    refine (ends_readEntry hentries malforms_costCells (.inl rfl) states hlayout).bind
      fun costs _ => ?_
    refine (ends_readEntry hentries malforms_transitionCells (.inr rfl) states hlayout).bind
      fun transitions _ => ?_
    refine (reported (reports_readSalvage _)).bind fun salvage _ => ?_
    exact ⟨g, rfl⟩
  · rw [result_ofEntries_missing hmissing]
    exact .reported rfl

end Problem

end BackwardInduction
