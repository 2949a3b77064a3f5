import BackwardInduction.Proofs.JsonNumbers
import BackwardInduction.Proofs.OptionTexts

/-!
Whole numbers in JSON. Up to the digit limit they are legible. Beyond it none is written: the
text of an object breaks off at the first such number among its members, and what stands in
front of it is not read as anything.
-/

namespace BackwardInduction.Json

open Text

variable {α : Type} [Scalar α]

section Numbers

theorem isWhole_toDigits (n : Nat) : IsWhole (Nat.toDigits 10 n) := by
  by_cases hn : n = 0
  · rw [hn]
    exact .inl rfl
  · obtain ⟨c, cs, heq, hc⟩ := Decimal.toDigits_eq_cons hn
    exact .inr ⟨c, cs, heq, hc, fun d => isDigit_of_mem_toDigits⟩

/-- A whole number is written as its sign and its digits. -/
theorem writeNumber_whole (i : Int) :
    writeNumber (.whole i : Number α) =
      (if decide (i < 0) then ['-'] else []) ++ Nat.toDigits 10 i.natAbs := by
  cases i with
  | ofNat n => exact Nat.toList_repr
  | negSucc n =>
      change ("-" ++ Nat.repr (n + 1)).toList = _
      rw [String.toList_append, Nat.toList_repr, decide_eq_true (Int.negSucc_lt_zero n)]
      rfl

theorem starts_whole (i : Int) :
    ∃ c cs, writeNumber (.whole i : Number α) = c :: cs ∧ startsAtom c = true := by
  obtain ⟨d, ds, heq, digit⟩ := (isWhole_toDigits i.natAbs).head
  rw [writeNumber_whole, heq]
  cases decide (i < 0) with
  | true => exact ⟨'-', _, rfl, by decide⟩
  | false => exact ⟨d, ds, rfl, startsAtom_of_isDigit digit⟩

theorem printable_whole (i : Int) :
    ∀ c ∈ writeNumber (.whole i : Number α), IsPrintable c := by
  have digits : ∀ c ∈ Nat.toDigits 10 i.natAbs, IsPrintable c := by
    intro c hc
    have digit := isDigit_of_mem_toDigits hc
    simp only [isDigit, Bool.and_eq_true, decide_eq_true_eq] at digit
    exact ⟨by omega, by omega⟩
  rw [writeNumber_whole]
  refine List.forall_mem_append.mpr ⟨?_, digits⟩
  cases decide (i < 0) with
  | true => exact List.forall_mem_singleton.mpr (by decide)
  | false => simp

theorem takeSign_writeNumber (i : Int) :
    Numeral.takeSign (writeNumber (.whole i : Number α)) =
      (decide (i < 0), Nat.toDigits 10 i.natAbs) := by
  rw [writeNumber_whole]
  cases decide (i < 0) with
  | true => rfl
  | false => exact Numeral.takeSign_digits fun d => isDigit_of_mem_toDigits

theorem wholeOf_writeNumber {i : Int} (h : i.natAbs < stageBound) :
    wholeOf (writeNumber (.whole i : Number α)) = .ok i := by
  have length : (Nat.toDigits 10 i.natAbs).length ≤ Numeral.digitLimit :=
    (Nat.length_toDigits_le_iff (by decide) (by decide)).mpr h
  have value : Numeral.applySign (decide (i < 0)) i.natAbs = i := by
    by_cases hi : i < 0
    · rw [decide_eq_true hi, Numeral.applySign, if_pos rfl]
      omega
    · rw [decide_eq_false hi, Numeral.applySign, if_neg Bool.false_ne_true]
      omega
  simp only [wholeOf, takeSign_writeNumber, Nat.not_lt.mpr length, if_false,
    digitsValue_toDigits, value]

theorem wholeOf_long {i : Int} (h : stageBound ≤ i.natAbs) :
    wholeOf (writeNumber (.whole i : Number α)) =
      .error (.tooLong (Nat.toDigits 10 i.natAbs).length) := by
  have length : Numeral.digitLimit < (Nat.toDigits 10 i.natAbs).length := by
    by_contra short
    have bounded := (Nat.length_toDigits_le_iff (by decide) (by decide)).mp (Nat.not_lt.mp short)
    exact absurd bounded (Nat.not_lt.mpr h)
  simp only [wholeOf, takeSign_writeNumber, length, if_true]

/-- A whole number is taken off the front of a text as far as it was written. -/
theorem readAtom_whole (i : Int) {rest : List Char} (hrest : Delimited rest) :
    readAtom (α := α) (writeNumber (.whole i : Number α) ++ rest) =
      (wholeOf (writeNumber (.whole i : Number α))).map
        fun i => (.number (.whole i), rest) := by
  have whole := isWhole_toDigits i.natAbs
  obtain ⟨d, ds, heq, digit⟩ := whole.head
  have ends := endsDigits_of_delimited hrest
  have point : rest.head? ≠ some '.' := by
    cases rest with
    | nil => cases hrest
    | cons c cs => rcases hrest with rfl | rfl <;> simp
  have fraction : spellFraction rest = ([], rest) := spellFraction_append (.inl rfl) ends point
  have exponent : spellExponent rest = ([], rest) := spellExponent_append (.inl rfl) hrest
  have spelled : spell? (writeNumber (.whole i : Number α) ++ rest) =
      some (⟨writeNumber (.whole i : Number α), [], []⟩, rest) := by
    rw [writeNumber_whole, spell?, spellSigned?_append whole ends]
    simp only [Option.bind_eq_bind, Option.bind_some, fraction, exponent]
    rfl
  have words := after?_number digit (decide (i < 0)) (ds ++ rest)
  have front : (if decide (i < 0) then ['-'] else []) ++ d :: (ds ++ rest) =
      writeNumber (.whole i : Number α) ++ rest := by
    rw [writeNumber_whole, heq, List.append_assoc, List.cons_append]
  rw [front] at words
  simp only [List.forall_mem_cons, List.not_mem_nil, false_imp_iff, implies_true,
    and_true] at words
  obtain ⟨null, true, false, nan, infinity, negativeInfinity⟩ := words
  unfold readAtom
  simp only [null, true, false, List.findSome?_cons, List.findSome?_nil, nan, infinity,
    negativeInfinity, Option.map_none, spelled, List.isEmpty_nil, Bool.and_self, if_true]
  rfl

/-- Whole numbers are legible just within the digit limit. -/
theorem legible_whole_iff (i : Int) :
    (Number.whole i : Number α).Legible ↔ i.natAbs < stageBound := by
  constructor
  · intro legible
    by_contra long
    have ends : Delimited ['\n'] := .inr rfl
    have read := legible.reads _ ends
    rw [readAtom_whole i ends, wholeOf_long (Nat.not_lt.mp long)] at read
    cases read
  · intro h
    refine ⟨starts_whole i, fun c hc => Nat.lt_succ_of_lt (printable_whole i c hc).2, ?_⟩
    intro rest hrest
    rw [readAtom_whole i hrest, wholeOf_writeNumber h]
    rfl

omit [Scalar α] in
theorem isOverlong_whole_iff (i : Int) :
    isOverlong (.number (.whole i) : Value α) = true ↔ stageBound ≤ i.natAbs := by
  have length := Nat.length_toDigits_le_iff (b := 10) (n := i.natAbs) (k := Numeral.digitLimit)
    (by decide) (by decide)
  rw [isOverlong, decide_eq_true_eq, ← Nat.not_le, length, Nat.not_lt]
  rfl

theorem isOverlong_of_legible {v : Value α} (h : v.Legible) : isOverlong v = false := by
  cases h with
  | @number n hn =>
      cases n with
      | whole i =>
          rw [Bool.eq_false_iff, ne_eq, isOverlong_whole_iff, Nat.not_le]
          exact (legible_whole_iff i).mp hn
      | real x => rfl
  | null | bool | text | list | map => rfl

end Numbers

section Broken

theorem brokenText?_members_eq_none {es : List (String × Value α)}
    (h : ∀ e ∈ es, e.2.Legible) : brokenText? (.map (members es)) = none := by
  have found : (members es).find? (fun e => isOverlong e.2) = none := by
    refine List.find?_eq_none.mpr (List.forall_mem_map.mpr fun e he => ?_)
    rw [isOverlong_of_legible (h e he)]
    exact Bool.false_ne_true
  rw [brokenText?, found, Option.map_none]

/-- Members of an object that break off behind the name of one. -/
def brokenMembers (depth : Nat) (name : String) : List (String × Value α) → List Char
  | [] => writeText name ++ [':', ' ']
  | b :: bs => memberText depth b ++ ',' :: (newLine depth ++ brokenMembers depth name bs)

/-- The text of an object that breaks off so. -/
def brokenText (name : String) (before : List (String × Value α)) : List Char :=
  '\x7b' :: (newLine 1 ++ brokenMembers 1 name before)

section Members

variable (depth : Nat) (name : String) (before : List (String × Value α))

theorem flatMap_memberText : (before.map (memberText depth)).flatMap (· ++ ',' :: newLine depth) ++
    (writeText name ++ [':', ' ']) = brokenMembers depth name before := by
  induction before with
  | nil => rfl
  | cons b bs ih =>
      rw [List.map_cons, List.flatMap_cons, List.append_assoc, ih, List.append_assoc,
        List.cons_append, brokenMembers]

theorem weight_lt_length_brokenMembers :
    weight (before.map (memberText depth)) < (brokenMembers depth name before).length := by
  induction before with
  | nil => exact Nat.succ_pos _
  | cons b bs ih =>
      rw [List.map_cons, weight_cons, brokenMembers]
      simp only [List.length_append, List.length_cons]
      omega

theorem exists_brokenMembers : ∃ cs, brokenMembers depth name before = '"' :: cs := by
  cases before with
  | nil => exact ⟨_, rfl⟩
  | cons b bs => exact ⟨_, rfl⟩

theorem skip_brokenMembers (depth' : Nat) :
    skip (newLine depth' ++ brokenMembers depth name before) = brokenMembers depth name before := by
  obtain ⟨cs, heq⟩ := exists_brokenMembers depth name before
  rw [skip_newLine, heq, skip_cons (by decide)]

end Members

theorem brokenText?_members {e : String × Value α} (he : isOverlong e.2 = true)
    {before : List (String × Value α)} (hbefore : ∀ b ∈ before, b.2.Legible)
    (after : List (String × Value α)) :
    brokenText? (.map (members (before ++ e :: after))) =
      some (String.ofList (brokenText e.1 before)) := by
  have entries : members (before ++ e :: after) =
      members before ++ (Key.text e.1, e.2) :: members after := by
    rw [members, List.map_append, List.map_cons]
    rfl
  have short : ∀ b ∈ members before, isOverlong b.2 = false :=
    List.forall_mem_map.mpr fun b hb => isOverlong_of_legible (hbefore b hb)
  have found : (members (before ++ e :: after)).find? (fun e => isOverlong e.2) =
      some (Key.text e.1, e.2) := by
    have none_before : (members before).find? (fun e => isOverlong e.2) = none :=
      List.find?_eq_none.mpr fun b hb => by rw [short b hb]; exact Bool.false_ne_true
    rw [entries, List.find?_append, none_before, Option.none_or]
    exact List.find?_cons_of_pos he
  have front : (members (before ++ e :: after)).takeWhile (fun e => !isOverlong e.2) =
      members before := by
    rw [entries, List.takeWhile_append_of_pos fun b hb => by rw [short b hb]; rfl,
      List.takeWhile_cons_of_neg (by simp [he]), List.append_nil]
  rw [brokenText?, found, front, writeMembers_members, Option.map_some]
  simp only [writeName, List.cons_append, List.append_assoc, flatMap_memberText, brokenText]

/-- The members in front of the break are read, but then there is no value. -/
theorem readMembers_broken (depth : Nat) (name : String) {before : List (String × Value α)}
    (hbefore : ∀ b ∈ before, b.2.Legible) (d : Dict String (Value α)) {fuel : Nat}
    (hfuel : weight (before.map (memberText depth)) < fuel) :
    readMembers fuel d.toEntries (brokenMembers depth name before) =
      .error (.complaint .noValue 0) := by
  induction before generalizing d fuel with
  | nil =>
      cases fuel with
      | zero => cases hfuel
      | succ fuel =>
          have stopped : readValue (α := α) fuel [] = .error (.complaint .noValue 0) := by
            cases fuel <;> rfl
          have space : skip [' '] = [] := by decide
          rw [brokenMembers, writeText_append, readMembers, readText_writeText]
          simp only [bind, Except.bind, skip_cons (c := ':') rfl, space, stopped]
  | cons b bs ih =>
      obtain ⟨hb, hbs⟩ := List.forall_mem_cons.mp hbefore
      rw [List.map_cons, weight_cons] at hfuel
      cases fuel with
      | zero => cases hfuel
      | succ fuel =>
          have others : weight (bs.map (memberText depth)) < fuel := by omega
          have stopped := ih hbs (d.insert b.1 b.2) others
          have enough : (memberText depth b).length ≤ fuel := by omega
          have ends : Delimited (',' :: (newLine depth ++ brokenMembers depth name bs)) := .inl rfl
          rw [brokenMembers, readMembers_member hb (readsBack hb) d enough ends,
            skip_cons (by decide)]
          simp only [skip_brokenMembers, stopped]

/-- A text that breaks off is complained about. -/
theorem document_brokenText (name : String) {before : List (String × Value α)}
    (hbefore : ∀ b ∈ before, b.2.Legible) (fallback : Value α) :
    ∃ fault, document (some (String.ofList (brokenText name before))) fallback =
      .error (.badJson fault) := by
  have enough : weight (before.map (memberText 1)) < 2 * (brokenText name before).length := by
    have parts := weight_lt_length_brokenMembers 1 name before
    simp only [brokenText, List.length_append, List.length_cons]
    omega
  have stopped : readMembers _ [] (brokenMembers 1 name before) =
      (.error (.complaint .noValue 0) : Except Stop (Entries α × List Char)) :=
    readMembers_broken 1 name hbefore ∅ enough
  have skipped := skip_brokenMembers 1 name before 1
  have opened : ∃ cs, skip (newLine 1 ++ brokenMembers 1 name before) = '"' :: cs := by
    rw [skipped]
    exact exists_brokenMembers 1 name before
  have read : readAll (α := α) (brokenText name before) = .error (.complaint .noValue 0) := by
    rw [brokenText] at stopped ⊢
    unfold readAll
    split
    · rename_i hmark
      exact absurd (List.cons.inj hmark).1 (by decide)
    · rw [skip_cons (by decide), readValue_members opened, skipped, stopped]
      rfl
  have blank : isBlankText (String.ofList (brokenText name before)) = false :=
    isBlankText_ofList (by decide) _
  refine ⟨.locate (brokenText name before) .noValue 0, ?_⟩
  simp only [document, blank, String.toList_ofList, read, Bool.false_eq_true, if_false]

end Broken

end BackwardInduction.Json
