import BackwardInduction.Proofs.FileDocuments
import BackwardInduction.Proofs.WholeNumbers

/-!
Documents that are written to files and read again. What is legible is written in ASCII and
without carriage returns, so that neither decoding nor making all ends of lines alike changes
it. And a file that was written is found again where it was put, since it bars no way through
the directories.
-/

namespace BackwardInduction

open Text

/-- The character is left alone by encoding, decoding and making all ends of lines alike. -/
def IsPlain (c : Char) : Prop :=
  c.toNat < 128 ∧ c ≠ '\r'

instance (c : Char) : Decidable (IsPlain c) :=
  inferInstanceAs (Decidable (c.toNat < 128 ∧ c ≠ '\r'))

section Bytes

theorem toList_loop (bytes : ByteArray) (i : Nat) (read : List UInt8) :
    ByteArray.toList.loop bytes i read = read.reverse ++ bytes.data.toList.drop i := by
  fun_induction ByteArray.toList.loop bytes i read with
  | case1 i read h ih =>
      have bound : i < bytes.data.toList.length := h
      have byte : bytes.get! i = bytes.data.toList[i] := getElem!_pos bytes.data i h
      rw [ih, byte, List.drop_eq_getElem_cons bound, List.reverse_cons, List.append_assoc,
        List.singleton_append]
  | case2 i read h =>
      have past : bytes.data.toList.length ≤ i := Nat.not_lt.mp h
      rw [List.drop_eq_nil_of_le past, List.append_nil]

theorem toList_eq_data (bytes : ByteArray) : bytes.toList = bytes.data.toList :=
  toList_loop bytes 0 []

/-- An ASCII character is encoded as its code. -/
theorem bytes_utf8Encode {cs : List Char} (h : ∀ c ∈ cs, c.toNat < 128) :
    cs.utf8Encode.data.toList.map (·.toNat) = cs.map Char.toNat := by
  induction cs with
  | nil => rfl
  | cons c cs ih =>
      obtain ⟨hc, hcs⟩ := List.forall_mem_cons.mp h
      have code : String.utf8EncodeChar c = [UInt8.ofNat c.toNat] := by
        rw [String.utf8EncodeChar]
        exact if_pos (Nat.le_of_lt_succ hc)
      have byte : [c].utf8Encode.data.toList = [UInt8.ofNat c.toNat] := by
        simp [List.utf8Encode, code]
      have small : (UInt8.ofNat c.toNat).toNat = c.toNat :=
        UInt8.toNat_ofNat_of_lt' (Nat.lt_trans hc (by decide))
      rw [List.utf8Encode_cons, ByteArray.toList_data_append, List.map_append, ih hcs, byte,
        List.map_singleton, small, List.map_cons, List.singleton_append]

theorem decodeChar_ascii {b : Nat} (h : b < 128) (bs : List Nat) :
    decodeChar b bs = .ok (Char.ofNat b, 1, bs) := by
  rw [decodeChar, continuationsOf?, if_pos h]
  rfl

theorem decodeFrom_ascii {cs : List Char} (h : ∀ c ∈ cs, c.toNat < 128) {steps : Nat}
    (hsteps : cs.length ≤ steps) (pos : Nat) :
    decodeFrom steps pos (cs.map Char.toNat) = .ok cs := by
  induction cs generalizing steps pos with
  | nil => cases steps <;> rfl
  | cons c cs ih =>
      obtain ⟨hc, hcs⟩ := List.forall_mem_cons.mp h
      cases steps with
      | zero => cases hsteps
      | succ steps =>
          rw [List.map_cons, decodeFrom, decodeChar_ascii hc]
          dsimp only
          rw [ih hcs (Nat.le_of_succ_le_succ hsteps), Char.ofNat_toNat]

/-- ASCII is decoded as it was encoded. -/
theorem decodeUtf8_ascii {s : String} (h : ∀ c ∈ s.toList, c.toNat < 128) :
    decodeUtf8 s.toUTF8 = .ok s.toList := by
  have encoded : s.toUTF8 = s.toList.utf8Encode := by
    rw [String.toUTF8_eq_toByteArray, String.utf8Encode_toList]
  have codes : s.toUTF8.toList.map (·.toNat) = s.toList.map Char.toNat := by
    rw [encoded, toList_eq_data, bytes_utf8Encode h]
  have size : s.toUTF8.size = s.toList.length := by
    rw [← List.length_map (f := Char.toNat), ← codes, List.length_map, toList_eq_data]
    rfl
  rw [decodeUtf8, codes, size]
  exact decodeFrom_ascii h (Nat.le_refl _) 0

theorem unifyNewlines_eq_self {cs : List Char} (h : '\r' ∉ cs) : unifyNewlines cs = cs := by
  fun_induction unifyNewlines cs with
  | case1 => rfl
  | case2 cs _ | case3 cs _ _ => exact absurd List.mem_cons_self h
  | case4 c cs _ _ ih => rw [ih fun hr => h (List.mem_cons_of_mem c hr)]

end Bytes

namespace Json

section Unbroken

/-- What stands in front of the rest of the text has no carriage return. -/
def Unbroken (cs rest : List Char) : Prop :=
  ∃ front, cs = front ++ rest ∧ '\r' ∉ front

theorem Unbroken.refl (cs : List Char) : Unbroken cs cs :=
  ⟨[], rfl, List.not_mem_nil⟩

theorem Unbroken.trans {cs ds es : List Char} (h : Unbroken cs ds) (h' : Unbroken ds es) :
    Unbroken cs es := by
  obtain ⟨front, rfl, hfront⟩ := h
  obtain ⟨front', rfl, hfront'⟩ := h'
  exact ⟨front ++ front', by rw [List.append_assoc], by simp [hfront, hfront']⟩

theorem Unbroken.cons {c : Char} (hc : c ≠ '\r') {cs rest : List Char} (h : Unbroken cs rest) :
    Unbroken (c :: cs) rest :=
  Unbroken.trans ⟨[c], rfl, by simpa using hc.symm⟩ h

theorem unbroken_digits (cs : List Char) : Unbroken cs (cs.span isDigit).2 := by
  rw [List.span_eq_takeWhile_dropWhile]
  refine ⟨cs.takeWhile isDigit, List.takeWhile_append_dropWhile.symm, fun hr => ?_⟩
  exact absurd (List.mem_takeWhile_imp hr) (by decide)

theorem unbroken_after? {word : String} (hword : '\r' ∉ word.toList) {cs rest : List Char}
    (h : after? word cs = some rest) : Unbroken cs rest := by
  unfold after? at h
  split at h
  · rename_i front
    cases h
    obtain ⟨rest, rfl⟩ := List.isPrefixOf_iff_prefix.mp front
    exact ⟨word.toList, by rw [List.drop_left], hword⟩
  · cases h

theorem unbroken_spellWhole? {cs ds rest : List Char} (h : spellWhole? cs = some (ds, rest)) :
    Unbroken cs rest := by
  obtain ⟨rfl, digits⟩ := spellWhole?_eq_some h
  exact ⟨ds, rfl, fun hr => absurd (digits _ hr) (by decide)⟩

theorem unbroken_spellSigned? {cs ds rest : List Char} (h : spellSigned? cs = some (ds, rest)) :
    Unbroken cs rest := by
  unfold spellSigned? at h
  split at h
  · obtain ⟨found, hfound, heq⟩ := Option.map_eq_some_iff.mp h
    cases heq
    exact (unbroken_spellWhole? hfound).cons (by decide)
  · exact unbroken_spellWhole? h

theorem unbroken_spellFraction (cs : List Char) : Unbroken cs (spellFraction cs).2 := by
  unfold spellFraction
  split
  · rename_i rest
    dsimp only
    split
    · exact .refl _
    · exact (unbroken_digits rest).cons (by decide)
  · exact .refl _

theorem unbroken_spellExponent (cs : List Char) : Unbroken cs (spellExponent cs).2 := by
  unfold spellExponent
  split
  · rename_i e rest
    split
    · rename_i mark
      have letter : e ≠ '\r' := by
        rintro rfl
        exact absurd mark (by decide)
      split
      rename_i sign rest' hsign
      have signed : Unbroken rest rest' := by
        split at hsign
        · split at hsign
          · rename_i s _ hs
            cases hsign
            refine .cons ?_ (.refl _)
            rintro rfl
            exact absurd hs (by decide)
          · cases hsign
            exact .refl _
        · cases hsign
          exact .refl _
      dsimp only
      split
      · exact .refl _
      · exact (signed.trans (unbroken_digits rest')).cons letter
    · exact .refl _
  · exact .refl _

theorem unbroken_spell? {cs rest : List Char} {s : Spelling} (h : spell? cs = some (s, rest)) :
    Unbroken cs rest := by
  simp only [spell?, Option.bind_eq_bind, Option.bind_eq_some_iff] at h
  obtain ⟨whole, hwhole, heq⟩ := h
  cases heq
  exact (unbroken_spellSigned? hwhole).trans
    ((unbroken_spellFraction _).trans (unbroken_spellExponent _))

variable {α : Type} [Scalar α]

/-- No word and no number has a carriage return in it. -/
theorem unbroken_readAtom {cs rest : List Char} {v : Value α}
    (h : readAtom cs = .ok (v, rest)) : Unbroken cs rest := by
  unfold readAtom at h
  dsimp only at h
  split at h
  · rename_i hword
    cases h
    exact unbroken_after? (by decide) hword
  · rename_i hword _
    cases h
    exact unbroken_after? (by decide) hword
  · rename_i hword _ _
    cases h
    exact unbroken_after? (by decide) hword
  · split at h
    · rename_i hword
      obtain ⟨word, hmem, hword⟩ := List.exists_of_findSome?_eq_some hword
      obtain ⟨rest', hrest, heq⟩ := Option.map_eq_some_iff.mp hword
      cases heq
      have plain : ∀ w ∈ ["NaN", "Infinity", "-Infinity"], '\r' ∉ w.toList := by decide
      split at h
      · cases h
        exact unbroken_after? (plain _ hmem) hrest
      · cases h
    · split at h
      · cases h
      · rename_i hspell
        split at h
        · obtain ⟨_, _, heq⟩ := bind_eq_ok_iff.mp h
          cases heq
          exact unbroken_spell? hspell
        · split at h
          · cases h
            exact unbroken_spell? hspell
          · cases h

theorem unbroken_writeNumber {n : Number α} (h : n.Legible) :
    ∀ c ∈ writeNumber n, c ≠ '\r' := by
  obtain ⟨front, heq, hfront⟩ := unbroken_readAtom (h.reads ['\n'] (.inr rfl))
  rw [List.append_cancel_right_eq] at heq
  rw [heq]
  rintro c hc rfl
  exact hfront hc

end Unbroken

section Plain

variable {α : Type} [Scalar α]

theorem isPlain_of_isPrintable {c : Char} (h : IsPrintable c) : IsPlain c := by
  refine ⟨Nat.lt_succ_of_lt h.2, ?_⟩
  rintro rfl
  exact absurd h (by decide)

/-- Whatever is legible is written in plain characters. -/
theorem writeValue_plain {v : Value α} (h : v.Legible) (depth : Nat) :
    ∀ c ∈ writeValue depth v, IsPlain c :=
  writeValue_forall (fun _ => isPlain_of_isPrintable) (by decide)
    (fun _ hn c hc => ⟨hn.ascii c hc, unbroken_writeNumber hn c hc⟩) h depth

theorem fileText_plain {v : Value α} (h : v.Legible) : ∀ c ∈ (fileText v).toList, IsPlain c := by
  rw [fileText, String.toList_ofList]
  exact List.forall_mem_append.mpr
    ⟨writeValue_plain h 0, List.forall_mem_singleton.mpr (by decide)⟩

theorem brokenText_plain (name : String) {before : List (String × Value α)}
    (h : ∀ b ∈ before, b.2.Legible) :
    ∀ c ∈ (String.ofList (brokenText name before)).toList, IsPlain c := by
  have text (s : String) : ∀ c ∈ writeText s, IsPlain c :=
    fun c hc => isPlain_of_isPrintable (writeText_printable s c hc)
  have line : ∀ c ∈ newLine 1, IsPlain c := by simp [newLine, IsPlain]
  have members : ∀ c ∈ brokenMembers 1 name before, IsPlain c := by
    induction before with
    | nil =>
        simp only [brokenMembers, List.forall_mem_append, List.forall_mem_cons]
        exact ⟨text name, by decide, by decide, by simp⟩
    | cons b bs ih =>
        obtain ⟨hb, hbs⟩ := List.forall_mem_cons.mp h
        simp only [brokenMembers, memberText, List.forall_mem_append, List.forall_mem_cons]
        exact ⟨⟨text b.1, by decide, by decide, writeValue_plain hb 1⟩, by decide, line, ih hbs⟩
  rw [String.toList_ofList, brokenText]
  simp only [List.forall_mem_append, List.forall_mem_cons]
  exact ⟨by decide, line, members⟩

end Plain

end Json

section Files

variable {α : Type} [Scalar α]

/-- The bytes of plain characters are read as the characters. -/
theorem exists_decoded {s : String} (h : ∀ c ∈ s.toList, IsPlain c) :
    ∃ cs, decodeUtf8 s.toUTF8 = .ok cs ∧ String.ofList (unifyNewlines cs) = s := by
  refine ⟨s.toList, decodeUtf8_ascii fun c hc => (h c hc).1, ?_⟩
  rw [unifyNewlines_eq_self fun hc => (h _ hc).2 rfl, String.ofList_toList]

/-- The bytes that are written for a legible value hold it as a document. -/
theorem documentOfBytes_fileText {v : Value α} (h : v.Legible) (path : Path) :
    documentOfBytes path (Json.fileText v).toUTF8 = .ok v := by
  obtain ⟨cs, decoded, text⟩ := exists_decoded (Json.fileText_plain h)
  simp only [documentOfBytes, decoded, text, Json.document_fileText h]

/-- Those of a text that breaks off hold no document. -/
theorem documentOfBytes_brokenText (name : String) {before : List (String × Value α)}
    (h : ∀ b ∈ before, b.2.Legible) (path : Path) :
    ∃ fault, (documentOfBytes path (String.ofList (Json.brokenText name before)).toUTF8 :
      Except Fault (Value α)) = .error (.badJsonFile path fault) := by
  obtain ⟨cs, decoded, text⟩ := exists_decoded (Json.brokenText_plain name h)
  obtain ⟨fault, complaint⟩ := Json.document_brokenText name h .null
  exact ⟨fault, by simp only [documentOfBytes, decoded, text, complaint]⟩

namespace FileTree

/-- A way through directories stays open as long as none of them becomes a file. -/
theorem walk_eq_ok {t t' : FileTree} (hdirectories : t'.directories = t.directories)
    (hfiles : ∀ place, t.isDirectory place = true → t'.isFile place = t.isFile place)
    {start names goal : List String} (h : t.walk start names = .ok goal) :
    t'.walk start names = .ok goal := by
  have isDirectory (place : List String) : t'.isDirectory place = t.isDirectory place := by
    rw [FileTree.isDirectory, hdirectories, FileTree.isDirectory]
  induction names generalizing start with
  | nil => exact h
  | cons name names ih =>
      rw [walk] at h ⊢
      split at h
      · cases h
      · rename_i hfile
        split at h
        · cases h
        · rename_i hdirectory
          have directory : t.isDirectory start = true := by simpa using hdirectory
          rw [hfiles start directory, if_neg hfile, isDirectory, if_neg hdirectory]
          split at h
          · rename_i hup
            rw [if_pos hup]
            exact ih h
          · rename_i hup
            rw [if_neg hup]
            split at h
            · cases h
            · rename_i hlong
              rw [if_neg hlong]
              exact ih h

theorem place_eq_ok {t t' : FileTree} (hhome : t'.home = t.home)
    (hdirectories : t'.directories = t.directories)
    (hfiles : ∀ place, t.isDirectory place = true → t'.isFile place = t.isFile place)
    {path : Path} {place : List String} (h : t.place path = .ok place) :
    t'.place path = .ok place := by
  unfold FileTree.place at h ⊢
  split at h
  · cases h
  · rename_i hlong
    rw [if_neg hlong, hhome]
    exact walk_eq_ok hdirectories hfiles h

theorem isFile_congr {t t' : FileTree} (hsinks : t'.sinks = t.sinks) {place : List String}
    (h : t'.files.get? place = t.files.get? place) : t'.isFile place = t.isFile place := by
  have files (d : Dict (List String) ByteArray) :
      d.contains place = true ↔ ∃ bytes, d.get? place = some bytes := by
    rw [Dict.contains_iff, Dict.mem_keys]
    simp only [Dict.get?_eq_some_iff]
  have same : t'.files.contains place = t.files.contains place := by
    rw [Bool.eq_iff_iff, files, files, h]
  rw [FileTree.isFile, hsinks, same, FileTree.isFile]

/-- A document can be written at the path and is kept there. -/
structure Keeps (t : FileTree) (path : Path) : Prop where
  takes : t.Takes path
  kept : ∀ place, t.place path = .ok place → place ∉ t.sinks

/-- What was written is read again. -/
theorem Keeps.read_eq {t t' : FileTree} {path : Path} {bytes : ByteArray} (h : t.Keeps path)
    (hwrites : t.Writes path bytes t') : t'.read path = .ok bytes := by
  obtain ⟨place, hplace, others, written⟩ := hwrites.files_eq
  obtain ⟨place', hplace', hdirectory⟩ := h.takes.place_eq
  obtain rfl : place = place' := Except.ok.inj (hplace.symm.trans hplace')
  have sink := h.kept place hplace
  have found : t'.files.get? place = some bytes := written.resolve_left fun empty => sink empty.1
  have files (other : List String) (hother : t.isDirectory other = true) :
      t'.isFile other = t.isFile other := by
    refine isFile_congr hwrites.sinks_eq (others other ?_)
    rintro rfl
    rw [hdirectory] at hother
    cases hother
  have again := place_eq_ok hwrites.home_eq hwrites.directories_eq files hplace
  have directory : t'.isDirectory place = false := by
    rw [FileTree.isDirectory, hwrites.directories_eq]
    exact hdirectory
  have kept : t'.sinks.contains place = false := by
    rw [hwrites.sinks_eq]
    simpa [List.contains_iff_mem] using sink
  refine bind_eq_ok_iff.mpr ⟨place, again, ?_⟩
  simp only [directory, kept, found, Bool.false_eq_true, if_false]

/-- Once a text is written, reading the file comes down to its bytes. -/
theorem Keeps.run_writeText {t : FileTree} {path : Path} (h : t.Keeps path) (text : String)
    (fault : Path → FileFault → Fault) :
    ∃ t', ((writeText path text fault : StateM FileTree _).run t :
        Except Fault Unit × FileTree) = (.ok (), t') ∧
      ((readDocument path : StateM FileTree (Except Fault (Value α))).run t' :
        Except Fault (Value α) × FileTree) = (documentOfBytes path text.toUTF8, t') := by
  obtain ⟨t', run, writes⟩ := h.takes.run_writeText text fault
  refine ⟨t', run, ?_⟩
  rw [readDocument, h.takes.hasNull_eq, if_neg Bool.false_ne_true, StateT.run_bind, run_read,
    h.read_eq writes]
  rfl

/-- A problem is loaded by reading the document, which is named like its file. -/
theorem result_load {t : FileTree} {path : Path} {r : Except Fault (Value α)}
    (h : ((readDocument path : StateM FileTree (Except Fault (Value α))).run t :
      Except Fault (Value α) × FileTree) = (r, t)) (override : Option String) :
    ((Problem.load path override : StateM FileTree (Traced α (Problem α))).run t).1.result =
      r >>= fun v => (Problem.ofDocument v path.text override).result := by
  rw [Problem.load, StateT.run_bind, h]
  cases r <;> rfl

end FileTree

end Files

end BackwardInduction
