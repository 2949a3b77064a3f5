import BackwardInduction.Proofs.DocumentParts
import BackwardInduction.Scalar.Binary64

/-!
Names in one text, with commas between them. The text is cut at its commas, each piece is
trimmed by itself and a blank piece is dropped, so that texts put together with a comma
give their names in turn. A document may as well list the pieces: it is read by another
path, which leads to the same names.
-/

namespace BackwardInduction

namespace Text

/-- The texts between the commas. -/
def fields (s : String) : List String :=
  (pieces ',' s.toList).map String.ofList

/-- A name that stands in a comma-separated text as it is. -/
structure IsListed (name : String) : Prop where
  ne_empty : name ≠ ""
  no_comma : ',' ∉ name.toList
  first : ∀ c, name.toList.head? = some c → isBlank c = false
  last : ∀ c, name.toList.getLast? = some c → isBlank c = false

section Pieces

theorem pieces_eq_splitOn (sep : Char) (cs : List Char) : pieces sep cs = cs.splitOn sep := by
  induction cs with
  | nil => rfl
  | cons c cs ih =>
      rw [pieces, ih, List.splitOn_cons_eq_if_modifyHead]
      by_cases h : c = sep
      · simp [h]
      · have kept : ¬ (c == sep) = true := by simpa using h
        rw [if_neg h, if_neg kept]
        cases hs : cs.splitOn sep with
        | nil => exact absurd hs (List.splitOn_ne_nil sep cs)
        | cons p ps => rfl

theorem pieces_append (sep : Char) (xs ys : List Char) :
    pieces sep (xs ++ sep :: ys) = pieces sep xs ++ pieces sep ys := by
  simp only [pieces_eq_splitOn, List.splitOn_eq_splitOnP]
  exact List.splitOnP_append_cons xs ys (beq_self_eq_true sep)

theorem not_mem_of_mem_pieces {sep : Char} {cs piece : List Char} (h : piece ∈ pieces sep cs) :
    sep ∉ piece := by
  induction cs generalizing piece with
  | nil => simp_all [pieces]
  | cons c cs ih =>
      rw [pieces] at h
      split at h
      · rcases List.mem_cons.mp h with rfl | h
        · exact List.not_mem_nil
        · exact ih h
      · rename_i hc
        -- the character joins the first of the pieces that follow
        split at h
        · obtain rfl := List.mem_singleton.mp h
          simpa using Ne.symm hc
        · rename_i p ps hps
          rcases List.mem_cons.mp h with rfl | h
          · have tail := ih (hps ▸ List.mem_cons_self)
            simpa [tail] using Ne.symm hc
          · exact ih (hps ▸ List.mem_cons_of_mem p h)

end Pieces

section Names

theorem strip_eq_self_iff {p : Char → Bool} {cs : List Char} :
    strip p cs = cs ↔ (∀ c, cs.head? = some c → p c = false) ∧
      (∀ c, cs.getLast? = some c → p c = false) := by
  have left : cs.dropWhile p = cs ↔ ∀ c, cs.head? = some c → p c = false := by
    rw [List.dropWhile_eq_self_iff]
    cases cs <;> simp
  have right : cs.rdropWhile p = cs ↔ ∀ c, cs.getLast? = some c → p c = false := by
    rw [List.rdropWhile_eq_self_iff]
    cases cs <;> simp [List.getLast?_eq_some_getLast]
  rw [← left, ← right]
  constructor
  · intro h
    have kept : cs.dropWhile p = cs := by
      conv_lhs => rw [← h]
      exact (dropWhile_strip cs).trans h
    rw [strip_eq_rdropWhile, kept] at h
    exact ⟨kept, h⟩
  · rintro ⟨hleft, hright⟩
    rw [strip_eq_rdropWhile, hleft, hright]

theorem isListed_iff (name : String) :
    IsListed name ↔ IsName name ∧ ',' ∉ name.toList := by
  have ends : trim name = name ↔ strip isBlank name.toList = name.toList := by
    rw [trim, ← String.toList_inj, String.toList_ofList]
  have filled : name.isEmpty = false ↔ name ≠ "" := by simp
  rw [IsName, ends, strip_eq_self_iff, filled]
  constructor
  · intro h
    exact ⟨⟨⟨h.first, h.last⟩, h.ne_empty⟩, h.no_comma⟩
  · rintro ⟨⟨⟨first, last⟩, ne_empty⟩, no_comma⟩
    exact ⟨ne_empty, no_comma, first, last⟩

theorem mem_of_mem_strip {p : Char → Bool} {c : Char} {cs : List Char} (h : c ∈ strip p cs) :
    c ∈ cs := by
  rw [strip_eq_rdropWhile] at h
  exact (List.dropWhile_sublist p).subset ((List.rdropWhile_prefix p _).subset h)

theorem names_eq (s : String) : names s = ((fields s).map trim).filter (!·.isEmpty) := by
  have trimmed (cs : List Char) : trim (.ofList cs) = .ofList (strip isBlank cs) := by
    rw [trim, String.toList_ofList]
  have empty (cs : List Char) : (String.ofList cs).isEmpty = cs.isEmpty := by
    rw [Bool.eq_iff_iff, String.isEmpty_iff, List.isEmpty_iff, String.ofList_eq_empty_iff]
  simp only [names, fields, List.map_map, List.filter_map, Function.comp_def, trimmed, empty]

theorem isListed_of_mem_names {s name : String} (h : name ∈ names s) : IsListed name := by
  refine (isListed_iff name).mpr ⟨isName_of_mem_names h, ?_⟩
  simp only [names, List.mem_map, List.mem_filter] at h
  obtain ⟨_, ⟨⟨piece, hpiece, rfl⟩, _⟩, rfl⟩ := h
  rw [String.toList_ofList]
  exact fun comma => not_mem_of_mem_pieces hpiece (mem_of_mem_strip comma)

theorem fields_append (x y : String) : fields (x ++ "," ++ y) = fields x ++ fields y := by
  have chars : (x ++ "," ++ y).toList = x.toList ++ ',' :: y.toList := by simp
  rw [fields, chars, pieces_append, List.map_append]
  rfl

/-- Texts that are put together with a comma give their names in turn. -/
theorem names_append (x y : String) : names (x ++ "," ++ y) = names x ++ names y := by
  simp only [names_eq, fields_append, List.map_append, List.filter_append]

theorem intercalate_fields (s : String) : ",".intercalate (fields s) = s := by
  rw [← String.toList_inj, String.toList_intercalate, fields, List.map_map, pieces_eq_splitOn]
  simp [Function.comp_def, List.intercalate_splitOn]

theorem no_comma_of_mem_fields {s field : String} (h : field ∈ fields s) :
    ',' ∉ field.toList := by
  obtain ⟨piece, hpiece, rfl⟩ := List.mem_map.mp h
  rw [String.toList_ofList]
  exact not_mem_of_mem_pieces hpiece

/-- Texts without a comma are what a text of them is cut into. -/
theorem fields_intercalate {parts : List String} (hne : parts ≠ [])
    (h : ∀ part ∈ parts, ',' ∉ part.toList) : fields (",".intercalate parts) = parts := by
  have cut : ([','].intercalate (parts.map String.toList)).splitOn ',' =
      parts.map String.toList :=
    List.splitOn_intercalate ',' (by simpa using h) (by simpa using hne)
  have chars : (",".intercalate parts).toList = [','].intercalate (parts.map String.toList) :=
    String.toList_intercalate
  rw [fields, chars, pieces_eq_splitOn, cut]
  simp

/-- Names are read back from one text of them. -/
theorem names_intercalate {listed : List String} (h : ∀ name ∈ listed, IsListed name) :
    names (",".intercalate listed) = listed := by
  rcases eq_or_ne listed [] with rfl | hne
  · rfl
  · rw [names_eq, fields_intercalate hne fun name hname => (h name hname).no_comma]
    have names (name : String) (hname : name ∈ listed) : IsName name :=
      ((isListed_iff name).mp (h name hname)).1
    rw [List.map_congr_left fun name hname => (names name hname).1, List.map_id',
      List.filter_eq_self]
    intro name hname
    simp [(names name hname).2]

end Names

end Text

namespace Problem

variable {α : Type}

theorem namesOf_namesValue_fields (source entry s : String) :
    namesOf source entry (namesValue (Text.fields s) : Value α) =
      namesOf source entry (.text s : Value α) := by
  simp only [namesOf, namesValue, mapM_textOf?_texts, Text.names_eq]

variable [Scalar α]

/-- Documents that differ in an entry of names alone are read alike, if the names are. -/
theorem ofEntries_set_congr {name : String} (hname : name ∈ ["states", "actions"])
    {v w : Value α} (h : ∀ source, namesOf source name v = namesOf source name w)
    (source : String) (override : Option String) (entries : Entries α) :
    ofEntries source override (entries.set name v) =
      ofEntries source override (entries.set name w) := by
  have missing_eq : missing (entries.set name v) = missing (entries.set name w) := by
    have entry (other : String) :
        (entries.set name v).contains other = (entries.set name w).contains other := by
      simp only [contains_eq_isSome, Entries.get?_set]
      split <;> rfl
    simp only [missing, entry]
  have names_eq (other : String) :
      namesOf source other (((entries.set name v).get? other).getD .null) =
        namesOf source other (((entries.set name w).get? other).getD .null) := by
    simp only [Entries.get?_set]
    split
    · rename_i hother
      rw [← hother]
      exact h source
    · rfl
  have others (other : String) (hother : other ∉ ["states", "actions"]) :
      (entries.set name v).get? other = (entries.set name w).get? other := by
    have hne : name ≠ other := fun heq => hother (heq ▸ hname)
    simp only [Entries.get?_set, if_neg hne]
  simp only [ofEntries, missing_eq, names_eq, horizonEntry, layoutOf, tableEntry,
    others "horizon" (by decide), others "stages" (by decide), others "discount" (by decide),
    others "layout" (by decide), others "costs" (by decide),
    others "transitions" (by decide), others "salvage" (by decide)]

/-- Comma-separated names: putting texts together with a comma puts their names together; the
names are without commas and blank ends, and any such names are read back from a text of them;
and a document may give names as a text or as the list of what stands between its commas. -/
theorem comma_separated_names :
    (∀ x y, Text.names (x ++ "," ++ y) = Text.names x ++ Text.names y) ∧
    (∀ x, ∀ name ∈ Text.names x, Text.IsListed name) ∧
    (∀ listed : List String, (∀ name ∈ listed, Text.IsListed name) →
      Text.names (",".intercalate listed) = listed) ∧
    (∀ x, Text.names (",".intercalate (Text.names x)) = Text.names x) ∧
    (∀ x, ",".intercalate (Text.fields x) = x ∧ ∀ field ∈ Text.fields x, ',' ∉ field.toList) ∧
    ∀ (entries : Entries α) (x source : String) (override : Option String),
      ∀ name ∈ ["states", "actions"],
        ofDocument (.map (entries.set name (.text x))) source override =
          ofDocument (.map (entries.set name (namesValue (Text.fields x)))) source override := by
  have listed (x : String) : ∀ name ∈ Text.names x, Text.IsListed name :=
    fun _ => Text.isListed_of_mem_names
  refine ⟨Text.names_append, listed, fun _ => Text.names_intercalate,
    fun x => Text.names_intercalate (listed x),
    fun x => ⟨Text.intercalate_fields x, fun _ => Text.no_comma_of_mem_fields⟩, ?_⟩
  intro entries x source override name hname
  exact ofEntries_set_congr hname
    (fun source => (namesOf_namesValue_fields source name x).symm) source override entries

theorem names_with_inner_blank :
    (∀ name ∈ ["07", "a b"], Text.IsListed name) ∧
      Text.names (",".intercalate ["07", "a b"]) = ["07", "a b"] := by
  have listed : ∀ name ∈ ["07", "a b"], Text.IsListed name := by
    simp only [Text.isListed_iff, Text.IsName]
    decide +kernel
  exact ⟨listed, (comma_separated_names (α := Float)).2.2.1 _ listed⟩

end Problem

end BackwardInduction
