import Mathlib
import BackwardInduction.Proofs.JsonRoundTrip
import BackwardInduction.Proofs.ScalarOrder

/-!
Doubles as they are written in JSON. The reader takes a number off the front of a text just as
far as it was written, whatever form it has: with zeros in front or behind, with a point
inside, or with an exponent. Of a finite double it is then assumed that its text reads back as
it; the two infinities are written as words and read back without such an assumption. That a
double is told by its sign, exponent and mantissa is a fact that comes with the whole library
and with no part of it.
-/

namespace BackwardInduction

open Text

namespace Json

section Spellings

/-- Digits without a needless zero in front. -/
def IsWhole (ds : List Char) : Prop :=
  ds = ['0'] ∨ ∃ c cs, ds = c :: cs ∧ c ≠ '0' ∧ ∀ d ∈ ds, isDigit d = true

/-- Nothing, or a point with digits after it. -/
def IsFraction (cs : List Char) : Prop :=
  cs = [] ∨ ∃ ds, cs = '.' :: ds ∧ ds ≠ [] ∧ ∀ d ∈ ds, isDigit d = true

/-- Nothing, or the mark of an exponent with its sign and digits. -/
def IsExponent (cs : List Char) : Prop :=
  cs = [] ∨ ∃ sign ds, cs = 'e' :: sign :: ds ∧ (sign = '+' ∨ sign = '-') ∧ ds ≠ [] ∧
    ∀ d ∈ ds, isDigit d = true

/-- A number that is not whole, as it is written without its sign. -/
structure Spelling.Unsigned (s : Spelling) : Prop where
  whole : IsWhole s.whole
  fraction : IsFraction s.fraction
  exponent : IsExponent s.exponent
  notWhole : s.fraction ≠ [] ∨ s.exponent ≠ []

def Spelling.chars (s : Spelling) : List Char :=
  s.whole ++ s.fraction ++ s.exponent

def Spelling.signed (negative : Bool) (s : Spelling) : Spelling :=
  if negative then { s with whole := '-' :: s.whole } else s

theorem Spelling.chars_signed (negative : Bool) (s : Spelling) :
    (s.signed negative).chars = (if negative then ['-'] else []) ++ s.chars := by
  cases negative <;> rfl

/-- The text does not go on with a digit. -/
def EndsDigits (cs : List Char) : Prop :=
  ∀ c ∈ cs.head?, isDigit c = false

theorem span_digits {ds tail : List Char} (h : ∀ d ∈ ds, isDigit d = true)
    (htail : EndsDigits tail) : (ds ++ tail).span isDigit = (ds, tail) := by
  rw [List.span_eq_takeWhile_dropWhile, List.takeWhile_append_of_pos h,
    List.dropWhile_append_of_pos h]
  cases tail with
  | nil => rw [List.takeWhile_nil, List.append_nil, List.dropWhile_nil]
  | cons c cs =>
      have stop : ¬ isDigit c = true := by simp [htail c rfl]
      rw [List.takeWhile_cons_of_neg stop, List.append_nil, List.dropWhile_cons_of_neg stop]

theorem endsDigits_of_delimited {cs : List Char} (h : Delimited cs) : EndsDigits cs := by
  cases cs with
  | nil => cases h
  | cons c cs =>
      rintro _ ⟨⟩
      rcases h with rfl | rfl <;> decide

theorem IsWhole.head {ds : List Char} (h : IsWhole ds) :
    ∃ c cs, ds = c :: cs ∧ isDigit c = true := by
  rcases h with rfl | ⟨c, cs, rfl, _, digits⟩
  · exact ⟨'0', [], rfl, rfl⟩
  · exact ⟨c, cs, rfl, digits c List.mem_cons_self⟩

theorem IsWhole.digits {ds : List Char} (h : IsWhole ds) : ∀ d ∈ ds, isDigit d = true := by
  rcases h with rfl | ⟨c, cs, rfl, _, digits⟩
  · exact List.forall_mem_singleton.mpr rfl
  · exact digits

theorem spellWhole?_append {ds tail : List Char} (h : IsWhole ds) (htail : EndsDigits tail) :
    spellWhole? (ds ++ tail) = some (ds, tail) := by
  rcases h with rfl | ⟨c, cs, rfl, hc, digits⟩
  · rfl
  · have digit := digits c List.mem_cons_self
    have taken := span_digits digits htail
    rw [List.cons_append] at taken ⊢
    rw [spellWhole?, if_neg hc, if_pos digit, taken]

theorem spellSigned?_append {ds tail : List Char} (h : IsWhole ds) (htail : EndsDigits tail)
    (negative : Bool) :
    spellSigned? ((if negative then ['-'] else []) ++ ds ++ tail) =
      some ((if negative then ['-'] else []) ++ ds, tail) := by
  have taken := spellWhole?_append h htail
  cases negative with
  | true => simp [spellSigned?, taken]
  | false =>
      obtain ⟨c, cs, rfl, digit⟩ := h.head
      simp only [Bool.false_eq_true, if_false, List.nil_append] at taken ⊢
      rw [← taken]
      unfold spellSigned?
      split
      · rename_i heq
        cases heq
        cases digit
      · rfl

theorem spellFraction_append {cs tail : List Char} (h : IsFraction cs)
    (htail : EndsDigits tail) (hpoint : tail.head? ≠ some '.') :
    spellFraction (cs ++ tail) = (cs, tail) := by
  rcases h with rfl | ⟨ds, rfl, hne, digits⟩
  · rw [List.nil_append]
    unfold spellFraction
    split
    · exact absurd rfl hpoint
    · rfl
  · rw [List.cons_append, spellFraction, span_digits digits htail]
    simp [hne]

theorem spellExponent_append {cs tail : List Char} (h : IsExponent cs) (htail : Delimited tail) :
    spellExponent (cs ++ tail) = (cs, tail) := by
  rcases h with rfl | ⟨sign, ds, rfl, hsign, hne, digits⟩
  · cases tail with
    | nil => rfl
    | cons c cs =>
        have mark : ¬ (c = 'e' ∨ c = 'E') := by rcases htail with rfl | rfl <;> decide
        simp [spellExponent, mark]
  · have taken := span_digits digits (endsDigits_of_delimited htail)
    have mark : (decide (sign = '+') || decide (sign = '-')) = true := by simpa using hsign
    simp only [List.cons_append, spellExponent, mark, decide_true, Bool.true_or, if_true, taken]
    simp [hne]

/-- The reader takes a number as far as it was written. -/
theorem spell?_append {s : Spelling} (h : s.Unsigned) (negative : Bool) {rest : List Char}
    (hrest : Delimited rest) :
    spell? ((s.signed negative).chars ++ rest) = some (s.signed negative, rest) := by
  have afterFraction : EndsDigits (s.exponent ++ rest) ∧
      (s.exponent ++ rest).head? ≠ some '.' := by
    rcases h.exponent with heq | ⟨sign, ds, heq, _⟩
    · rw [heq, List.nil_append]
      refine ⟨endsDigits_of_delimited hrest, ?_⟩
      cases rest with
      | nil => cases hrest
      | cons c cs => rcases hrest with rfl | rfl <;> simp
    · rw [heq]
      exact ⟨by rintro _ ⟨⟩; rfl, by simp⟩
  have afterWhole : EndsDigits (s.fraction ++ (s.exponent ++ rest)) := by
    rcases h.fraction with heq | ⟨ds, heq, _⟩
    · rw [heq]
      exact afterFraction.1
    · rw [heq]
      rintro _ ⟨⟩
      rfl
  have parts : (s.signed negative).chars ++ rest =
      (if negative then ['-'] else []) ++ s.whole ++ (s.fraction ++ (s.exponent ++ rest)) := by
    rw [Spelling.chars_signed]
    simp [Spelling.chars]
  rw [parts, spell?, spellSigned?_append h.whole afterWhole]
  simp only [bind, Option.bind, spellFraction_append h.fraction afterFraction.1 afterFraction.2,
    spellExponent_append h.exponent hrest]
  cases negative <;> rfl

end Spellings

section Atoms

variable {α : Type} [Scalar α]

theorem after?_eq_none {word : String} {c d : Char} {cs : List Char}
    (h : word.toList.head? = some d) (hc : d ≠ c) : after? word (c :: cs) = none := by
  rw [after?, if_neg]
  intro front
  obtain ⟨_, heq⟩ := List.isPrefixOf_iff_prefix.mp front
  obtain ⟨ds, hword⟩ := List.head?_eq_some_iff.mp h
  rw [hword, List.cons_append, List.cons.injEq] at heq
  exact hc heq.1

/-- No word begins like a number. -/
theorem after?_number {c : Char} (h : isDigit c = true) (negative : Bool) (cs : List Char) :
    ∀ word ∈ ["null", "true", "false", "NaN", "Infinity", "-Infinity"],
      after? word ((if negative then ['-'] else []) ++ c :: cs) = none := by
  have letter (d : Char) (hd : isDigit d = false) : d ≠ c := by
    rintro rfl
    rw [hd] at h
    cases h
  simp only [List.forall_mem_cons, List.not_mem_nil, false_imp_iff, implies_true, and_true]
  cases negative with
  | false =>
      exact ⟨after?_eq_none rfl (letter 'n' rfl), after?_eq_none rfl (letter 't' rfl),
        after?_eq_none rfl (letter 'f' rfl), after?_eq_none rfl (letter 'N' rfl),
        after?_eq_none rfl (letter 'I' rfl), after?_eq_none rfl (letter '-' rfl)⟩
  | true =>
      refine ⟨after?_eq_none rfl (by decide), after?_eq_none rfl (by decide),
        after?_eq_none rfl (by decide), after?_eq_none rfl (by decide),
        after?_eq_none rfl (by decide), ?_⟩
      simp [after?, letter 'I' rfl]

/-- A number is read off the front of a text as what its characters are read as. -/
theorem readAtom_number {s : Spelling} (h : s.Unsigned) {negative : Bool} {x : α}
    (hx : Scalar.ofText? (String.ofList (s.signed negative).chars) = some x) {rest : List Char}
    (hrest : Delimited rest) :
    readAtom ((s.signed negative).chars ++ rest) = .ok (.number (.real x), rest) := by
  have whole : ((s.signed negative).fraction.isEmpty && (s.signed negative).exponent.isEmpty) =
      false := by
    cases negative <;> simpa [Spelling.signed, or_iff_not_imp_left] using h.notWhole
  obtain ⟨c, cs, heq, digit⟩ := h.whole.head
  have front : (s.signed negative).chars ++ rest =
      (if negative then ['-'] else []) ++ c :: (cs ++ s.fraction ++ s.exponent ++ rest) := by
    rw [Spelling.chars_signed, Spelling.chars, heq]
    simp
  have words := after?_number digit negative (cs ++ s.fraction ++ s.exponent ++ rest)
  rw [← front] at words
  simp only [List.forall_mem_cons, List.not_mem_nil, false_imp_iff, implies_true,
    and_true] at words
  obtain ⟨null, true, false, nan, infinity, negativeInfinity⟩ := words
  unfold readAtom
  simp only [null, true, false, List.findSome?_cons, List.findSome?_nil, nan, infinity,
    negativeInfinity, Option.map_none, spell?_append h negative hrest, whole,
    Bool.false_eq_true, if_false]
  rw [Spelling.chars] at hx
  simp only [hx]

theorem startsAtom_of_isDigit {c : Char} (h : isDigit c = true) : startsAtom c = true := by
  have blank := isBlank_of_isDigit h
  have others : c ∉ ['"', '[', ']', '\x7b'] := by
    simp only [List.mem_cons, List.not_mem_nil, or_false]
    rintro (rfl | rfl | rfl | rfl) <;> cases h
  simp [startsAtom, blank, others]

end Atoms

section Legible

variable {α : Type} [Scalar α]

theorem digits_ascii {ds : List Char} (h : ∀ d ∈ ds, isDigit d = true) :
    ∀ d ∈ ds, d.toNat < 128 := by
  intro d hd
  have digit := h d hd
  simp only [isDigit, Bool.and_eq_true, decide_eq_true_eq] at digit
  omega

theorem Spelling.Unsigned.ascii {s : Spelling} (h : s.Unsigned) (negative : Bool) :
    ∀ c ∈ (s.signed negative).chars, c.toNat < 128 := by
  have sign : ∀ c ∈ if negative then ['-'] else [], c.toNat < 128 := by
    cases negative <;> simp
  have fraction : ∀ c ∈ s.fraction, c.toNat < 128 := by
    rcases h.fraction with heq | ⟨ds, heq, _, digits⟩
    · simp [heq]
    · rw [heq]
      exact List.forall_mem_cons.mpr ⟨by decide, digits_ascii digits⟩
  have exponent : ∀ c ∈ s.exponent, c.toNat < 128 := by
    rcases h.exponent with heq | ⟨sign, ds, heq, hsign, _, digits⟩
    · simp [heq]
    · rw [heq]
      refine List.forall_mem_cons.mpr ⟨by decide, List.forall_mem_cons.mpr
        ⟨?_, digits_ascii digits⟩⟩
      rcases hsign with rfl | rfl <;> decide
  rw [Spelling.chars_signed, Spelling.chars]
  simp only [List.forall_mem_append]
  exact ⟨sign, ⟨digits_ascii h.whole.digits, fraction⟩, exponent⟩

/-- A number that is written in some form is legible once its text reads back. -/
theorem legible_of_unsigned {s : Spelling} (h : s.Unsigned) (negative : Bool) {x : α}
    (written : writeNumber (.real x) = (s.signed negative).chars)
    (hx : Scalar.ofText? (String.ofList (s.signed negative).chars) = some x) :
    (Number.real x).Legible := by
  refine ⟨?_, ?_, ?_⟩
  · obtain ⟨c, cs, heq, digit⟩ := h.whole.head
    rw [written, Spelling.chars_signed, Spelling.chars, heq]
    cases negative with
    | true => exact ⟨'-', _, rfl, by decide⟩
    | false => exact ⟨c, _, rfl, startsAtom_of_isDigit digit⟩
  · rw [written]
    exact h.ascii negative
  · intro rest hrest
    rw [written]
    exact readAtom_number h hx hrest

theorem readAtom_infinity {x : α} (hx : Scalar.ofText? "Infinity" = some x) (rest : List Char) :
    readAtom ("Infinity".toList ++ rest) = .ok (.number (.real x), rest) := by
  have null : after? "null" ("Infinity".toList ++ rest) = none := rfl
  have true : after? "true" ("Infinity".toList ++ rest) = none := rfl
  have false : after? "false" ("Infinity".toList ++ rest) = none := rfl
  have nan : after? "NaN" ("Infinity".toList ++ rest) = none := rfl
  unfold readAtom
  simp only [null, true, false, List.findSome?_cons, nan, after?_append, Option.map_none,
    Option.map_some, hx]

theorem readAtom_negativeInfinity {x : α} (hx : Scalar.ofText? "-Infinity" = some x)
    (rest : List Char) :
    readAtom ("-Infinity".toList ++ rest) = .ok (.number (.real x), rest) := by
  have null : after? "null" ("-Infinity".toList ++ rest) = none := rfl
  have true : after? "true" ("-Infinity".toList ++ rest) = none := rfl
  have false : after? "false" ("-Infinity".toList ++ rest) = none := rfl
  have nan : after? "NaN" ("-Infinity".toList ++ rest) = none := rfl
  have infinity : after? "Infinity" ("-Infinity".toList ++ rest) = none := rfl
  unfold readAtom
  simp only [null, true, false, List.findSome?_cons, nan, infinity, after?_append,
    Option.map_none, Option.map_some, hx]

theorem legible_of_infinity {x : α} (written : writeNumber (.real x) = "Infinity".toList)
    (hx : Scalar.ofText? "Infinity" = some x) : (Number.real x).Legible where
  starts := ⟨'I', _, written, by decide⟩
  ascii := by
    rw [written]
    simp
  reads rest _ := by
    rw [written]
    exact readAtom_infinity hx rest

theorem legible_of_negativeInfinity {x : α}
    (written : writeNumber (.real x) = "-Infinity".toList)
    (hx : Scalar.ofText? "-Infinity" = some x) : (Number.real x).Legible where
  starts := ⟨'-', _, written, by decide⟩
  ascii := by
    rw [written]
    simp
  reads rest _ := by
    rw [written]
    exact readAtom_negativeInfinity hx rest

end Legible

end Json

namespace Decimal

open Json

theorem toDigits_zero : Nat.toDigits 10 0 = ['0'] :=
  rfl

/-- The digits of a number that is not zero do not begin with a zero. -/
theorem toDigits_eq_cons {n : Nat} (hn : n ≠ 0) :
    ∃ c cs, Nat.toDigits 10 n = c :: cs ∧ c ≠ '0' := by
  cases hdigits : Nat.toDigits 10 n with
  | nil => exact absurd hdigits Nat.toDigits_ne_nil
  | cons c cs =>
      refine ⟨c, cs, rfl, ?_⟩
      rintro rfl
      have digits : ∀ d ∈ cs, isDigit d = true := fun d hd =>
        isDigit_of_mem_toDigits (n := n) (by rw [hdigits]; exact List.mem_cons_of_mem _ hd)
      have value : n = digitsValue cs := by
        rw [← digitsValue_toDigits n, hdigits]
        rfl
      have small : n < 10 ^ cs.length := by
        rw [value]
        exact digitsValue_lt digits
      have short : (Nat.toDigits 10 n).length ≤ cs.length := by
        refine (Nat.length_toDigits_le_iff (by decide) ?_).mpr small
        rcases cs with _ | _
        · exact absurd value hn
        · exact Nat.succ_pos _
      rw [hdigits, List.length_cons] at short
      omega

theorem zeroDigits_digits (n : Int) : ∀ d ∈ (zeroDigits n).toList, isDigit d = true := by
  intro d hd
  rw [zeroDigits, String.toList_ofList] at hd
  rw [List.eq_of_mem_replicate hd]
  decide

theorem exponentText_spelled (e : Int) :
    ∃ sign ds, (exponentText e).toList = 'e' :: sign :: ds ∧ (sign = '+' ∨ sign = '-') ∧
      ds ≠ [] ∧ ∀ d ∈ ds, isDigit d = true := by
  have digits : ∀ d ∈ Nat.toDigits 10 e.natAbs, isDigit d = true :=
    fun d => isDigit_of_mem_toDigits
  have padded : ∃ ds, (if (toString e.natAbs).length < 2 then "0" ++ toString e.natAbs
      else toString e.natAbs).toList = ds ∧ ds ≠ [] ∧ ∀ d ∈ ds, isDigit d = true := by
    split
    · refine ⟨_, by rw [String.toList_append, toList_toString], by simp, ?_⟩
      exact List.forall_mem_append.mpr ⟨List.forall_mem_singleton.mpr rfl, digits⟩
    · exact ⟨_, toList_toString _, Nat.toDigits_ne_nil, digits⟩
  obtain ⟨ds, heq, hne, hds⟩ := padded
  refine ⟨if e < 0 then '-' else '+', ds, ?_, by split <;> simp, hne, hds⟩
  rw [exponentText, String.toList_append, heq]
  split <;> rfl

theorem isWhole_singleton {d : Char} (h : isDigit d = true) : IsWhole [d] := by
  by_cases hd : d = '0'
  · exact .inl (by rw [hd])
  · exact .inr ⟨d, [], rfl, hd, List.forall_mem_singleton.mpr h⟩

/-- The form with an exponent: one digit is in front of the point. -/
theorem unsigned_exponent {d : Char} {fraction : List Char} (hd : isDigit d = true)
    (hfraction : IsFraction fraction) (e : Int) :
    ∃ s : Spelling, s.Unsigned ∧ d :: (fraction ++ (exponentText e).toList) = s.chars := by
  obtain ⟨sign, ds, heq, hsign, hne, digits⟩ := exponentText_spelled e
  exact ⟨⟨[d], fraction, (exponentText e).toList⟩, ⟨isWhole_singleton hd, hfraction,
    .inr ⟨sign, ds, heq, hsign, hne, digits⟩, .inr (by simp [heq])⟩, by simp [Spelling.chars]⟩

/-- The form with a point only. -/
theorem unsigned_point {whole ds : List Char} (hwhole : IsWhole whole) (hne : ds ≠ [])
    (digits : ∀ d ∈ ds, isDigit d = true) :
    ∃ s : Spelling, s.Unsigned ∧ whole ++ '.' :: ds = s.chars :=
  ⟨⟨whole, '.' :: ds, []⟩, ⟨hwhole, .inr ⟨ds, rfl, hne, digits⟩, .inl rfl, .inl (by simp)⟩,
    by simp [Spelling.chars]⟩

/-- A whole number, with zeros behind it that are not needless. -/
theorem isWhole_padded {n : Nat} {k : Int} (h : n = 0 → k = 0) :
    IsWhole (Nat.toDigits 10 n ++ (zeroDigits k).toList) := by
  by_cases hn : n = 0
  · rw [hn, h hn]
    exact .inl rfl
  · obtain ⟨c, cs, heq, hc⟩ := toDigits_eq_cons hn
    exact .inr ⟨c, cs ++ (zeroDigits k).toList, by rw [heq, List.cons_append], hc,
      List.forall_mem_append.mpr ⟨fun d => isDigit_of_mem_toDigits, zeroDigits_digits k⟩⟩

/-- The digits in front of a point that stands among the digits of a number. -/
theorem isWhole_take {n w : Nat} (hn : n ≠ 0) (hw : 0 < w) :
    IsWhole ((Nat.toDigits 10 n).take w) := by
  obtain ⟨c, cs, heq, hc⟩ := toDigits_eq_cons hn
  obtain ⟨w, rfl⟩ := Nat.exists_eq_succ_of_ne_zero hw.ne'
  refine .inr ⟨c, cs.take w, by rw [heq, List.take_succ_cons], hc, fun d hd => ?_⟩
  exact isDigit_of_mem_toDigits (List.mem_of_mem_take hd)

/-- In every form but one a decimal has no needless zero in front: zeros after the single
digit of zero would make one. -/
theorem written_unsigned {n : Nat} {k : Int} (h : n = 0 → k < 1 ∨ 15 < k) :
    ∃ s : Spelling, s.Unsigned ∧ (written n k).toList = s.chars := by
  have digits : ∀ d ∈ Nat.toDigits 10 n, isDigit d = true := fun d => isDigit_of_mem_toDigits
  have length : (toString n).length = (Nat.toDigits 10 n).length := by
    rw [← String.length_toList, toList_toString]
  unfold written
  simp only [toList_toString, length, positionalFrom, positionalBelow]
  split
  · split
    · rename_i heq
      exact absurd heq Nat.toDigits_ne_nil
    · rename_i d heq
      obtain ⟨s, hs, chars⟩ := unsigned_exponent (digits d (by simp [heq])) (.inl rfl)
        (k + (Nat.toDigits 10 n).length - 1)
      exact ⟨s, hs, by simpa using chars⟩
    · rename_i d ds single heq
      obtain ⟨s, hs, chars⟩ := unsigned_exponent (digits d (by simp [heq]))
        (.inr ⟨ds, rfl, single, fun d' hd' => digits d' (by simp [heq, hd'])⟩)
        (k + (Nat.toDigits 10 n).length - 1)
      exact ⟨s, hs, by simpa using chars⟩
  · rename_i scale
    simp only [Bool.or_eq_true, decide_eq_true_eq, not_or, not_lt, not_le] at scale
    split
    · have hne : (zeroDigits (-(k + (Nat.toDigits 10 n).length - 1) - 1)).toList ++
          Nat.toDigits 10 n ≠ [] := by simp [Nat.toDigits_ne_nil]
      obtain ⟨s, hs, chars⟩ := unsigned_point (.inl rfl) hne
        (List.forall_mem_append.mpr ⟨zeroDigits_digits _, digits⟩)
      exact ⟨s, hs, by simpa [toList_toString] using chars⟩
    · split
      · have whole : IsWhole (Nat.toDigits 10 n ++ (zeroDigits k).toList) := by
          refine isWhole_padded fun hn => ?_
          rw [hn, toDigits_zero, List.length_singleton] at scale
          rcases h hn with h | h <;> omega
        obtain ⟨s, hs, chars⟩ := unsigned_point whole (List.cons_ne_nil '0' [])
          (List.forall_mem_singleton.mpr rfl)
        exact ⟨s, hs, by simpa [toList_toString] using chars⟩
      · rename_i hlead hk
        have hn : n ≠ 0 := by
          rintro rfl
          rw [toDigits_zero, List.length_singleton] at hlead
          omega
        have hne : (Nat.toDigits 10 n).drop ((Nat.toDigits 10 n).length + k).toNat ≠ [] := by
          rw [ne_eq, List.drop_eq_nil_iff]
          omega
        have hpos : 0 < ((Nat.toDigits 10 n).length + k).toNat := by omega
        obtain ⟨s, hs, chars⟩ := unsigned_point (isWhole_take hn hpos) hne
          fun d hd => digits d (List.mem_of_mem_drop hd)
        exact ⟨s, hs, by simpa using chars⟩

end Decimal

namespace Binary64

open Float.Model Json

theorem eq_of_unpack_eq {x y : Float} (h : x.toModel.unpack = y.toModel.unpack) : x = y :=
  Float.toBits_inj.mp (UInt64.toBitVec_inj.mp
    ((UnpackedFloat.unpack_inj_of_valid x.toModel.valid y.toModel.valid (by decide)).mp h))

theorem not_isNaN_of_isFinite {x : Float} (h : x.isFinite = true) : x.isNaN = false := by
  change x.toModel.unpack.isFinite = true at h
  change x.toModel.unpack.isNaN = false
  cases hx : x.toModel.unpack with
  | notANumber =>
      rw [hx] at h
      cases h
  | zero sign | infinity sign | finite sign m e hm => rfl

theorem unpack_infinity : infinity.toModel.unpack = .infinity .positive :=
  rfl

theorem unpack_negativeInfinity : (-infinity).toModel.unpack = .infinity .negative :=
  rfl

/-- What is neither finite nor not a number is one of the infinities. -/
theorem eq_infinity {x : Float} (hnan : x.isNaN = false) (hfinite : x.isFinite = false) :
    x = infinity ∨ x = -infinity := by
  have nan : x.toModel.unpack.isNaN = false := hnan
  have finite : x.toModel.unpack.isFinite = false := hfinite
  cases hx : x.toModel.unpack with
  | notANumber =>
      rw [hx] at nan
      cases nan
  | zero sign =>
      rw [hx] at finite
      cases finite
  | finite sign m e hm =>
      rw [hx] at finite
      cases finite
  | infinity sign =>
      cases sign with
      | positive => exact .inl (eq_of_unpack_eq (hx.trans unpack_infinity.symm))
      | negative => exact .inr (eq_of_unpack_eq (hx.trans unpack_negativeInfinity.symm))

/-- A decimal without digits of its own reads as zero in the one form that is no JSON. -/
theorem parts_written_zero : ∀ k : Fin 16, ∀ negative : Bool,
    (Numeral.read? ((if negative then "-" else "") ++ Decimal.written 0 (k.val : Int))).map
      (fun n => (parts (ofNumeral n)).1) = some 0 := by
  decide +kernel

theorem sizeText_unsigned {x : Float}
    (reads : Scalar.ofText? ((if isNegative x then "-" else "") ++ sizeText x) = some x) :
    ∃ s : Spelling, s.Unsigned ∧ (sizeText x).toList = s.chars := by
  unfold sizeText at reads ⊢
  dsimp only at reads ⊢
  split
  · exact ⟨⟨['0'], ['.', '0'], []⟩, ⟨.inl rfl, .inr ⟨['0'], rfl, by simp, by simp; rfl⟩, .inl rfl,
      .inl (by simp)⟩, rfl⟩
  · rename_i hm
    rw [if_neg hm] at reads
    refine Decimal.written_unsigned fun hn => ?_
    by_contra hk
    simp only [not_or, not_lt] at hk
    generalize (Decimal.shortest (parts x).1 (parts x).2 (isNarrow (parts x).1 (parts x).2)).2 = k
      at hk reads
    obtain ⟨k, rfl⟩ := Int.eq_ofNat_of_zero_le (by omega : 0 ≤ k)
    rw [hn] at reads
    have zero := parts_written_zero ⟨k, by omega⟩ (isNegative x)
    have value := congrArg (Option.map fun y => (parts y).1) reads
    change ((Numeral.read? _).map ofNumeral).map _ = _ at value
    rw [Option.map_map] at value
    exact hm (Option.some.inj (value.symm.trans zero))

/-- A double is legible if it is a number that reads back where it is finite. -/
theorem legible {x : Float} (hnan : Scalar.isNaN x = false)
    (reads : Scalar.isFinite x = true → Scalar.ofText? (Scalar.text x) = some x) :
    (Number.real x).Legible := by
  cases hfinite : Scalar.isFinite x with
  | true =>
      have written : Scalar.text x = (if isNegative x then "-" else "") ++ sizeText x := by
        have nan : x.isNaN = false := hnan
        have finite : x.isFinite = true := hfinite
        change text x = _
        rw [text, nan, finite]
        rfl
      have back := reads hfinite
      rw [written] at back
      obtain ⟨s, hs, chars⟩ := sizeText_unsigned back
      have all : (Scalar.text x).toList = (s.signed (isNegative x)).chars := by
        rw [written, String.toList_append, chars, Spelling.chars_signed]
        cases isNegative x <;> rfl
      refine legible_of_unsigned hs (isNegative x) ?_ ?_
      · rw [writeNumber, hnan, hfinite, ← all]
        rfl
      · rw [← all, String.ofList_toList]
        exact reads hfinite
  | false =>
      rcases eq_infinity hnan hfinite with rfl | rfl
      · exact legible_of_infinity rfl rfl
      · exact legible_of_negativeInfinity rfl rfl

end Binary64

end BackwardInduction
