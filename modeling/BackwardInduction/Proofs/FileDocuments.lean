import BackwardInduction.Files.Document
import BackwardInduction.Files.Tree
import BackwardInduction.Proofs.JsonReading

/-!
Documents in a tree of files. Reading one leaves the tree as it is and fails for a
reason that the file gives; writing changes the one file that the path leads to, and
whether it succeeds does not depend on the text.
-/

namespace BackwardInduction

variable {α β γ : Type}

section Leaves

/-- The computation leaves the tree as it is, and ends in a fault that `E` allows or with a
result that `P` allows. -/
def Leaves (t : FileTree) (E : Fault → Prop) (P : β → Prop)
    (x : ExceptT Fault (StateM FileTree) β) : Prop :=
  ∃ r, (x.run.run t : Except Fault β × FileTree) = (r, t) ∧ Ends E P r

variable {t : FileTree} {E : Fault → Prop} {P : β → Prop} {Q : γ → Prop}

theorem leaves_pure {b : β} (h : P b) : Leaves t E P (pure b) :=
  ⟨.ok b, rfl, h⟩

theorem leaves_throw {e : Fault} (h : E e) :
    Leaves t E P (throw e : ExceptT Fault (StateM FileTree) β) :=
  ⟨.error e, rfl, h⟩

theorem Leaves.bind {x : ExceptT Fault (StateM FileTree) β}
    {f : β → ExceptT Fault (StateM FileTree) γ} (hx : Leaves t E P x)
    (hf : ∀ b, P b → Leaves t E Q (f b)) : Leaves t E Q (x >>= f) := by
  obtain ⟨r, hrun, hr⟩ := hx
  cases r with
  | error e =>
      refine ⟨.error e, ?_, hr⟩
      rw [ExceptT.run_bind, StateT.run_bind, hrun]
      rfl
  | ok b =>
      obtain ⟨r', hrun', hr'⟩ := hf b hr
      refine ⟨r', ?_, hr'⟩
      rw [ExceptT.run_bind, StateT.run_bind, hrun]
      exact hrun'

theorem Leaves.imp {E' : Fault → Prop} {P' : β → Prop}
    {x : ExceptT Fault (StateM FileTree) β} (hx : Leaves t E P x) (hE : ∀ e, E e → E' e)
    (hP : ∀ b, P b → P' b) : Leaves t E' P' x := by
  obtain ⟨r, hrun, hr⟩ := hx
  exact ⟨r, hrun, hr.imp hE hP⟩

end Leaves

section Reading

/-- Why a file gives no document, where that is not reported. -/
inductive Unreadable (t : FileTree) (path : Path) : Fault → Prop
  | nullInPath (h : path.hasNull = true) : Unreadable t path .nullInPath
  | undecodable {bytes : ByteArray} {e : Text.Utf8Fault} (hread : t.read path = .ok bytes)
      (hdecode : Text.decodeUtf8 bytes = .error e) : Unreadable t path (.undecodable e)
  | longNumber {bytes : ByteArray} {cs ds : List Char} {digits : Nat}
      (hread : t.read path = .ok bytes) (hdecode : Text.decodeUtf8 bytes = .ok cs)
      (hds : ds <:+: Text.unifyNewlines cs) (hdigits : ∀ c ∈ ds, Text.isDigit c = true)
      (hlength : ds.length = digits) (hlong : Numeral.digitLimit < digits) :
      Unreadable t path (.tooManyDigits digits)

/-- The JSON in the file at the path has a text with a lone surrogate. -/
def FileTree.HasLoneSurrogate (t : FileTree) (path : Path) : Prop :=
  ∃ bytes cs, t.read path = .ok bytes ∧ Text.decodeUtf8 bytes = .ok cs ∧
    Json.HasLoneSurrogate (Text.unifyNewlines cs)

/-- What may go wrong when a document is read. -/
def ReadFault (t : FileTree) (path : Path) (e : Fault) : Prop :=
  e.isReported = true ∨ Unreadable t path e ∨ e = .loneSurrogate ∧ t.HasLoneSurrogate path

variable [Scalar α]

theorem ends_documentOfBytes {t : FileTree} {path : Path} {bytes : ByteArray}
    (hread : t.read path = .ok bytes) :
    Ends (ReadFault t path) Value.Decoded (documentOfBytes path bytes : Except Fault (Value α)) := by
  unfold documentOfBytes
  split
  · rename_i hdecode
    exact .inr (.inl (.undecodable hread hdecode))
  · rename_i cs hdecode
    have document := Json.ends_document (α := α) (String.ofList (Text.unifyNewlines cs)) .null
    rw [String.toList_ofList] at document
    split
    · exact .inl rfl
    · refine document.imp (fun e he => ?_) fun _ => id
      rcases he with he | ⟨digits, rfl, hlong, ds, hds, hlength, hdigits⟩ | ⟨rfl, hlone⟩
      · exact .inl he
      · exact .inr (.inl (.longNumber hread hdecode hds hdigits hlength hlong))
      · exact .inr (.inr ⟨rfl, bytes, cs, hread, hdecode, hlone⟩)

/-- The file at the path holds this value as a document. One with a lone surrogate holds none. -/
def FileTree.Holds (t : FileTree) (path : Path) (v : Value α) : Prop :=
  ((readDocument path : StateM FileTree (Except Fault (Value α))).run t :
    Except Fault (Value α) × FileTree) = (.ok v, t)

omit [Scalar α] in
theorem run_read (t : FileTree) (path : Path) :
    ((FileAccess.read path : StateM FileTree _).run t : Except FileFault ByteArray × FileTree) =
      (t.read path, t) :=
  rfl

/-- Reading a document leaves the tree as it is. -/
theorem leaves_readDocument (t : FileTree) (path : Path) :
    Leaves t (ReadFault t path) (fun v => t.Holds path v ∧ v.Decoded)
      (ExceptT.mk (readDocument path : StateM FileTree (Except Fault (Value α)))) := by
  have read : ∃ r, ((readDocument path : StateM FileTree (Except Fault (Value α))).run t :
      Except Fault (Value α) × FileTree) = (r, t) ∧ Ends (ReadFault t path) Value.Decoded r := by
    rw [readDocument]
    by_cases hnull : path.hasNull = true
    · rw [if_pos hnull]
      exact ⟨.error .nullInPath, rfl, .inr (.inl (.nullInPath hnull))⟩
    · rw [if_neg hnull]
      cases hread : t.read path with
      | error e =>
          refine ⟨.error (.unreadableFile path e), ?_, .inl rfl⟩
          rw [StateT.run_bind, run_read, hread]
          rfl
      | ok bytes =>
          refine ⟨documentOfBytes path bytes, ?_, ends_documentOfBytes hread⟩
          rw [StateT.run_bind, run_read, hread]
          rfl
  obtain ⟨r, hrun, hr⟩ := read
  refine ⟨r, hrun, ?_⟩
  cases r with
  | error e => exact hr
  | ok v => exact ⟨hrun, hr⟩

/-- What reading the file at the path comes to. -/
def FileTree.document (t : FileTree) (path : Path) : Except Fault (Value α) :=
  ((readDocument path : StateM FileTree (Except Fault (Value α))).run t).1

theorem FileTree.holds_of_document {t : FileTree} {path : Path} {v : Value α}
    (h : t.document path = .ok v) : t.Holds path v := by
  obtain ⟨r, run, _⟩ := leaves_readDocument (α := α) t path
  have run : ((readDocument path : StateM FileTree (Except Fault (Value α))).run t :
      Except Fault (Value α) × FileTree) = (r, t) := run
  rw [FileTree.document, run] at h
  subst h
  exact run

end Reading

section Writing

/-- How a tree changes when a file is written: only the file that the path leads to does, and
it holds the bytes, unless it is one that stays empty. -/
structure FileTree.Writes (t : FileTree) (path : Path) (bytes : ByteArray) (t' : FileTree) :
    Prop where
  home_eq : t'.home = t.home
  directories_eq : t'.directories = t.directories
  sinks_eq : t'.sinks = t.sinks
  files_eq : ∃ place, t.place path = .ok place ∧
    (∀ other, other ≠ place → t'.files.get? other = t.files.get? other) ∧
    (place ∈ t.sinks ∧ t' = t ∨ t'.files.get? place = some bytes)

theorem FileTree.writes_of_write {t t' : FileTree} {path : Path} {bytes : ByteArray}
    (h : t.write path bytes = .ok t') : t.Writes path bytes t' := by
  obtain ⟨place, hplace, h⟩ := bind_eq_ok_iff.mp h
  split at h
  · cases h
  · split at h
    · rename_i hsink
      cases h
      have sink : place ∈ t.sinks := List.contains_iff_mem.mp hsink
      exact ⟨rfl, rfl, rfl, place, hplace, fun _ _ => rfl, .inl ⟨sink, rfl⟩⟩
    · cases h
      refine ⟨rfl, rfl, rfl, place, hplace, fun other hother => ?_, .inr ?_⟩
      · rw [Dict.get?_insert, if_neg hother]
      · rw [Dict.get?_insert, if_pos rfl]

theorem run_write (t : FileTree) (path : Path) (text : String) :
    ((FileAccess.write path text : StateM FileTree _).run t :
        Except FileFault Unit × FileTree) =
      match t.write path text.toUTF8 with
      | .ok t' => (.ok (), t')
      | .error e => (.error e, t) := by
  have run : ((FileAccess.write path text : StateM FileTree _).run t :
      Except FileFault Unit × FileTree) =
        (match t.write path text.toUTF8 with
          | .ok t' => (do set t'; return .ok () : StateM FileTree (Except FileFault Unit))
          | .error e => return .error e).run t := rfl
  rw [run]
  cases t.write path text.toUTF8 <;> rfl

/-- Writing a text fails without a trace or writes the file. -/
theorem writeText_cases (t : FileTree) (path : Path) (text : String)
    (fault : Path → FileFault → Fault) :
    (path.hasNull = true ∧
      ((writeText path text fault : StateM FileTree _).run t : Except Fault Unit × FileTree) =
        (.error .nullInPath, t)) ∨
    (∃ e, ((writeText path text fault : StateM FileTree _).run t :
      Except Fault Unit × FileTree) = (.error (fault path e), t)) ∨
    ∃ t', ((writeText path text fault : StateM FileTree _).run t :
      Except Fault Unit × FileTree) = (.ok (), t') ∧ t.Writes path text.toUTF8 t' := by
  rw [writeText]
  by_cases hnull : path.hasNull = true
  · rw [if_pos hnull]
    exact .inl ⟨hnull, rfl⟩
  · rw [if_neg hnull, StateT.run_bind, run_write]
    cases h : t.write path text.toUTF8 with
    | error e => exact .inr (.inl ⟨e, rfl⟩)
    | ok t' => exact .inr (.inr ⟨t', rfl, FileTree.writes_of_write h⟩)

/-- A file can be written at the path. -/
structure FileTree.Takes (t : FileTree) (path : Path) : Prop where
  hasNull_eq : path.hasNull = false
  place_eq : ∃ place, t.place path = .ok place ∧ t.isDirectory place = false

theorem FileTree.Takes.exists_write {t : FileTree} {path : Path} (h : t.Takes path)
    (bytes : ByteArray) : ∃ t', t.write path bytes = .ok t' := by
  obtain ⟨place, hplace, hdirectory⟩ := h.place_eq
  by_cases sink : t.sinks.contains place = true
  · refine ⟨t, bind_eq_ok_iff.mpr ⟨place, hplace, ?_⟩⟩
    rw [hdirectory, sink]
    rfl
  · refine ⟨{ t with files := t.files.insert place bytes }, bind_eq_ok_iff.mpr ⟨place, hplace, ?_⟩⟩
    rw [hdirectory, eq_false_of_ne_true sink]
    rfl

/-- Where one text can be written, every text can. -/
theorem FileTree.takes_of_run_writeText {t t' : FileTree} {path : Path} {text : String}
    {fault : Path → FileFault → Fault}
    (h : ((writeText path text fault : StateM FileTree _).run t : Except Fault Unit × FileTree) =
      (.ok (), t')) : t.Takes path := by
  rw [writeText] at h
  by_cases hnull : path.hasNull = true
  · rw [if_pos hnull] at h
    cases h
  · rw [if_neg hnull, StateT.run_bind, run_write] at h
    cases hwrite : t.write path text.toUTF8 with
    | error e =>
        rw [hwrite] at h
        cases h
    | ok _ =>
        obtain ⟨place, hplace, hwrite⟩ := bind_eq_ok_iff.mp hwrite
        refine ⟨eq_false_of_ne_true hnull, place, hplace, ?_⟩
        split at hwrite
        · cases hwrite
        · exact eq_false_of_ne_true ‹_›

theorem FileTree.Takes.run_writeText {t : FileTree} {path : Path} (h : t.Takes path)
    (text : String) (fault : Path → FileFault → Fault) :
    ∃ t', ((writeText path text fault : StateM FileTree _).run t :
      Except Fault Unit × FileTree) = (.ok (), t') ∧ t.Writes path text.toUTF8 t' := by
  obtain ⟨t', hwrite⟩ := h.exists_write text.toUTF8
  refine ⟨t', ?_, writes_of_write hwrite⟩
  rw [writeText, h.hasNull_eq, if_neg Bool.false_ne_true, StateT.run_bind, run_write, hwrite]
  rfl

end Writing

end BackwardInduction
