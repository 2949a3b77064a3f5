import BackwardInduction.Json.Reader
import BackwardInduction.Json.Writer

/-!
Texts as they are written in JSON. Every character is escaped into ASCII by itself, one beyond
the sixteen bits as a pair of surrogates, and the reader gets the codes of all characters back,
which it joins to the same text. No character of a text is half of a pair, so that no two
neighbours are taken for one.
-/

namespace BackwardInduction.Json

open Text

/-- The UTF-16 units of a character. -/
def units (c : Char) : List Nat :=
  if c.toNat < 0x10000 then [c.toNat]
  else [0xD800 + (c.toNat - 0x10000) / 0x400, 0xDC00 + (c.toNat - 0x10000) % 0x400]

/-- The character is the space or has a picture of its own in ASCII. -/
def IsPrintable (c : Char) : Prop :=
  32 ≤ c.toNat ∧ c.toNat < 127

instance (c : Char) : Decidable (IsPrintable c) :=
  inferInstanceAs (Decidable (_ ∧ _))

/-- The code `n`, with these codes in front of it and behind it, is a surrogate that has not the
other half of a pair beside it. -/
def IsLone (front : List Nat) (n : Nat) (back : List Nat) : Prop :=
  isHighSurrogate n = true ∧ (∀ m ∈ back.head?, isLowSurrogate m = false) ∨
    isLowSurrogate n = true ∧ ∀ m ∈ front.getLast?, isHighSurrogate m = false

/-- There is a lone surrogate among the codes. -/
def HasLone (codes : List Nat) : Prop :=
  ∃ front n back, codes = front ++ n :: back ∧ IsLone front n back

/-- Characters are no halves of surrogate pairs. -/
theorem toNat_cases (c : Char) :
    c.toNat < 0xD800 ∨ 0xDFFF < c.toNat ∧ c.toNat < 0x110000 :=
  c.valid

section Escapes

theorem hexValue?_hexDigitChar : ∀ d < 16, hexValue? (hexDigitChar d) = some d := by
  decide

theorem hexDigitChar_printable : ∀ d < 16, IsPrintable (hexDigitChar d) := by
  decide

theorem hex_four (n : Nat) :
    hex 4 n = [hexDigitChar (n / 16 / 16 / 16 % 16), hexDigitChar (n / 16 / 16 % 16),
      hexDigitChar (n / 16 % 16), hexDigitChar (n % 16)] :=
  rfl

theorem codeOf?_hex {n : Nat} (h : n < 0x10000) :
    codeOf? (hexDigitChar (n / 16 / 16 / 16 % 16)) (hexDigitChar (n / 16 / 16 % 16))
      (hexDigitChar (n / 16 % 16)) (hexDigitChar (n % 16)) = some n := by
  have digit (m : Nat) : hexValue? (hexDigitChar (m % 16)) = some (m % 16) :=
    hexValue?_hexDigitChar _ (Nat.mod_lt _ (by decide))
  simp only [codeOf?, digit, Option.bind_eq_bind, Option.bind_some, Option.pure_def,
    Option.some.injEq]
  omega

variable {rest tail : List Char} {codes : List Nat} (h : readCodes rest = .ok (codes, tail))
include h

theorem readCodes_codeEscape {n : Nat} (hn : n < 0x10000) :
    readCodes (codeEscape n ++ rest) = .ok (n :: codes, tail) := by
  cases rest with
  | nil => cases h
  | cons c rest =>
      rw [codeEscape, hex_four]
      simp only [List.cons_append, List.nil_append]
      rw [readCodes, h]
      · rfl
      · exact codeOf?_hex hn

theorem readCodes_escaped {e c : Char} (he : escaped? e = some c) (hu : e ≠ 'u') :
    readCodes ('\\' :: e :: rest) = .ok (c.toNat :: codes, tail) := by
  rw [readCodes.eq_def]
  simp [hu, he, h, bind, Except.bind]

theorem readCodes_plain {c : Char} (hquote : c ≠ '"') (hslash : c ≠ '\\')
    (hcontrol : 32 ≤ c.toNat) : readCodes (c :: rest) = .ok (c.toNat :: codes, tail) := by
  have control : ¬ c.toNat < 32 := Nat.not_lt.mpr hcontrol
  rw [readCodes.eq_def]
  simp only [hquote, hslash, control, if_false, h]
  rfl

/-- What an escape is read as in front of the rest of a text. -/
theorem readCodes_escape (c : Char) :
    readCodes (escape c ++ rest) = .ok (units c ++ codes, tail) := by
  have unit (hc : c.toNat < 0x10000) : units c ++ codes = c.toNat :: codes := by
    rw [units, if_pos hc, List.singleton_append]
  unfold escape
  dsimp only
  split
  · rename_i hc
    have letter : c = '"' ∨ c = '\\' := by simpa using hc
    rw [unit (by rcases letter with rfl | rfl <;> decide)]
    exact readCodes_escaped h (by rcases letter with rfl | rfl <;> rfl)
      (by rcases letter with rfl | rfl <;> decide)
  rename_i hletter
  split
  · rename_i hc
    subst hc
    exact readCodes_escaped h rfl (by decide)
  split
  · rename_i hc
    subst hc
    exact readCodes_escaped h rfl (by decide)
  split
  · rename_i hc
    subst hc
    exact readCodes_escaped h rfl (by decide)
  split
  · rename_i hc
    rw [unit (by omega), hc]
    exact readCodes_escaped h (c := '\x08') rfl (by decide)
  split
  · rename_i hc
    rw [unit (by omega), hc]
    exact readCodes_escaped h (c := '\x0c') rfl (by decide)
  split
  · rename_i hc
    simp only [Bool.or_eq_true, decide_eq_true_eq, not_or] at hletter
    simp only [Bool.and_eq_true, decide_eq_true_eq] at hc
    rw [unit (by omega)]
    exact readCodes_plain h hletter.1 hletter.2 hc.1
  split
  · rename_i hc
    rw [unit hc]
    exact readCodes_codeEscape h hc
  · rename_i hc
    have range := toNat_cases c
    rw [units, if_neg hc, List.append_assoc]
    exact readCodes_codeEscape (readCodes_codeEscape h (by omega)) (by omega)

end Escapes

section Units

theorem joinCodes_cons {n : Nat} {c : Char} (h : ofCode? n = some c) (codes : List Nat) :
    joinCodes (n :: codes) = (joinCodes codes).map (c :: ·) := by
  have high : isHighSurrogate n = false := by
    unfold ofCode? at h
    split at h
    · cases h
    · simp_all
  cases codes with
  | nil =>
      rw [joinCodes, joinCodes, h]
      rfl
  | cons m codes => rw [joinCodes, high, Bool.false_and, if_neg Bool.false_ne_true, h]

theorem joinCodes_units (c : Char) (codes : List Nat) :
    joinCodes (units c ++ codes) = (joinCodes codes).map (c :: ·) := by
  have range := toNat_cases c
  unfold units
  split
  · rename_i hc
    have high : isHighSurrogate c.toNat = false := by
      simp only [isHighSurrogate, Bool.and_eq_false_iff, decide_eq_false_iff_not]
      omega
    have low : isLowSurrogate c.toNat = false := by
      simp only [isLowSurrogate, Bool.and_eq_false_iff, decide_eq_false_iff_not]
      omega
    have char : ofCode? c.toNat = some c := by
      rw [ofCode?, high, low]
      exact congrArg some c.ofNat_toNat
    rw [List.singleton_append, joinCodes_cons char]
  · rename_i hc
    have high : isHighSurrogate (0xD800 + (c.toNat - 0x10000) / 0x400) = true := by
      simp only [isHighSurrogate, Bool.and_eq_true, decide_eq_true_eq]
      omega
    have low : isLowSurrogate (0xDC00 + (c.toNat - 0x10000) % 0x400) = true := by
      simp only [isLowSurrogate, Bool.and_eq_true, decide_eq_true_eq]
      omega
    have joined : 0x10000 + (0xD800 + (c.toNat - 0x10000) / 0x400 - 0xD800) * 0x400 +
        (0xDC00 + (c.toNat - 0x10000) % 0x400 - 0xDC00) = c.toNat := by
      omega
    rw [List.cons_append, List.singleton_append, joinCodes, high, low, joined, c.ofNat_toNat]
    rfl

theorem joinCodes_flatMap_units (cs : List Char) : joinCodes (cs.flatMap units) = some cs := by
  induction cs with
  | nil => rfl
  | cons c cs ih => rw [List.flatMap_cons, joinCodes_units, ih, Option.map_some]

end Units

section Surrogates

variable {n m : Nat} {front back codes : List Nat}

theorem isLowSurrogate_of_high (h : isHighSurrogate n = true) : isLowSurrogate n = false := by
  simp only [isHighSurrogate, Bool.and_eq_true, decide_eq_true_eq] at h
  simp only [isLowSurrogate, Bool.and_eq_false_iff, decide_eq_false_iff_not]
  omega

theorem isHighSurrogate_of_low (h : isLowSurrogate n = true) : isHighSurrogate n = false := by
  cases high : isHighSurrogate n with
  | false => rfl
  | true =>
      rw [isLowSurrogate_of_high high] at h
      cases h

theorem ofCode?_eq_none_iff :
    ofCode? n = none ↔ isHighSurrogate n = true ∨ isLowSurrogate n = true := by
  rw [← Bool.or_eq_true, ofCode?]
  split <;> simp_all

/-- What stands in front matters by its last code alone, and that only if it is a high
surrogate. -/
theorem isLone_cons_iff (h : front = [] → isHighSurrogate m = false) :
    IsLone (m :: front) n back ↔ IsLone front n back := by
  refine or_congr_right (and_congr_right fun _ => ?_)
  cases front with
  | nil => simp [h rfl]
  | cons k front => rw [List.getLast?_cons_cons]

theorem hasLone_cons_iff :
    HasLone (n :: codes) ↔ IsLone [] n codes ∨
      ∃ front m back, codes = front ++ m :: back ∧ IsLone (n :: front) m back := by
  constructor
  · rintro ⟨front, m, back, heq, lone⟩
    cases front with
    | nil =>
        cases heq
        exact .inl lone
    | cons k front =>
        cases heq
        exact .inr ⟨front, m, back, rfl, lone⟩
  · rintro (lone | ⟨front, m, back, rfl, lone⟩)
    · exact ⟨[], n, codes, rfl, lone⟩
    · exact ⟨n :: front, m, back, rfl, lone⟩

theorem hasLone_cons_of_char (high : isHighSurrogate n = false) (low : isLowSurrogate n = false) :
    HasLone (n :: codes) ↔ HasLone codes := by
  have not_lone : ¬ IsLone [] n codes := by simp [IsLone, high, low]
  rw [hasLone_cons_iff, or_iff_right not_lone]
  simp only [isLone_cons_iff fun _ => high]
  rfl

theorem hasLone_pair (hn : isHighSurrogate n = true) (hm : isLowSurrogate m = true) :
    HasLone (n :: m :: codes) ↔ HasLone codes := by
  have first : ¬ IsLone [] n (m :: codes) := by
    simp [IsLone, hm, isLowSurrogate_of_high hn]
  have second : ¬ IsLone [n] m codes := by
    simp [IsLone, hn, isHighSurrogate_of_low hm]
  have inner {front back : List Nat} {k : Nat} :
      IsLone (n :: m :: front) k back ↔ IsLone front k back := by
    rw [isLone_cons_iff fun h => absurd h (List.cons_ne_nil m front),
      isLone_cons_iff fun _ => isHighSurrogate_of_low hm]
  constructor
  · rintro ⟨front, k, back, heq, lone⟩
    rcases front with _ | ⟨a, _ | ⟨b, front⟩⟩
    · cases heq
      exact absurd lone first
    · cases heq
      exact absurd lone second
    · cases heq
      exact ⟨front, k, back, rfl, inner.mp lone⟩
  · rintro ⟨front, k, back, rfl, lone⟩
    exact ⟨n :: m :: front, k, back, rfl, inner.mpr lone⟩

/-- Codes give characters exactly if no surrogate among them is alone. -/
theorem joinCodes_eq_none_iff (codes : List Nat) : joinCodes codes = none ↔ HasLone codes := by
  fun_induction joinCodes codes with
  | case1 => simp [HasLone]
  | case2 n =>
      rw [Option.map_eq_none_iff, ofCode?_eq_none_iff, hasLone_cons_iff]
      simp [IsLone]
  | case3 n m ns hpair ih =>
      rw [Bool.and_eq_true] at hpair
      rw [Option.map_eq_none_iff, ih, hasLone_pair hpair.1 hpair.2]
  | case4 n m ns hpair c hc ih =>
      have char : ¬ (isHighSurrogate n = true ∨ isLowSurrogate n = true) := by
        rw [← ofCode?_eq_none_iff, hc]
        exact Option.some_ne_none c
      rw [not_or, Bool.not_eq_true, Bool.not_eq_true] at char
      rw [Option.map_eq_none_iff, ih, hasLone_cons_of_char char.1 char.2]
  | case5 n m ns hpair hn =>
      refine iff_of_true rfl (hasLone_cons_iff.mpr (.inl ?_))
      rcases ofCode?_eq_none_iff.mp hn with high | low
      · exact .inl ⟨high, by simpa [high] using hpair⟩
      · exact .inr ⟨low, by simp⟩

end Surrogates

theorem readCodes_flatMap_escape (cs rest : List Char) :
    readCodes (cs.flatMap escape ++ '"' :: rest) = .ok (cs.flatMap units, rest) := by
  induction cs with
  | nil =>
      rw [List.flatMap_nil, List.nil_append, readCodes.eq_def]
      rfl
  | cons c cs ih =>
      rw [List.flatMap_cons, List.flatMap_cons, List.append_assoc]
      exact readCodes_escape ih c

/-- A text is read back as it was written, whatever characters it has. -/
theorem readText_writeText (s : String) (rest : List Char) :
    readText (s.toList.flatMap escape ++ '"' :: rest) = .ok (s, rest) := by
  rw [readText, readCodes_flatMap_escape]
  dsimp only
  simp only [joinCodes_flatMap_units, String.ofList_toList]

theorem writeText_append (s : String) (rest : List Char) :
    writeText s ++ rest = '"' :: (s.toList.flatMap escape ++ '"' :: rest) := by
  simp [writeText]

section Printable

theorem codeEscape_printable (n : Nat) : ∀ c ∈ codeEscape n, IsPrintable c := by
  have digit (m : Nat) : IsPrintable (hexDigitChar (m % 16)) :=
    hexDigitChar_printable _ (Nat.mod_lt _ (by decide))
  rw [codeEscape, hex_four]
  simp only [List.forall_mem_cons, List.not_mem_nil, false_imp_iff, implies_true, and_true]
  exact ⟨by decide, by decide, digit _, digit _, digit _, digit _⟩

theorem escape_printable (c : Char) : ∀ e ∈ escape c, IsPrintable e := by
  unfold escape
  dsimp only
  split
  · rename_i hc
    have letter : c = '"' ∨ c = '\\' := by simpa using hc
    rcases letter with rfl | rfl <;> simp [IsPrintable]
  iterate 5 (split; · simp [IsPrintable])
  split
  · rename_i hc
    simp only [Bool.and_eq_true, decide_eq_true_eq] at hc
    exact List.forall_mem_singleton.mpr ⟨hc.1, by omega⟩
  split
  · exact codeEscape_printable _
  · exact List.forall_mem_append.mpr ⟨codeEscape_printable _, codeEscape_printable _⟩

/-- A text is written in printable characters, whatever is in it. -/
theorem writeText_printable (s : String) : ∀ c ∈ writeText s, IsPrintable c := by
  intro c hc
  rw [writeText, List.cons_append, List.mem_cons, List.mem_append, List.mem_flatMap,
    List.mem_singleton] at hc
  rcases hc with rfl | ⟨e, _, hc⟩ | rfl
  · decide
  · exact escape_printable e c hc
  · decide

end Printable

end BackwardInduction.Json
