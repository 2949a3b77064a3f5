import Mathlib.Algebra.Group.Nat.Defs
import Mathlib.Data.List.DropRight
import BackwardInduction.Layout

/-!
Trimmed texts and the texts of stages. Trimming is done once and for all, and the
plain digits of a stage are a text that names it, as long as the digits keep to
the limit; a text within the limit names no stage beyond them.
-/

namespace BackwardInduction

namespace Text

section Strip

variable {p : Char → Bool}

theorem strip_eq_rdropWhile (cs : List Char) :
    strip p cs = (cs.dropWhile p).rdropWhile p :=
  rfl

theorem strip_eq_self {cs : List Char} (h : ∀ c ∈ cs, p c = false) : strip p cs = cs := by
  have left : cs.dropWhile p = cs := by
    rw [List.dropWhile_eq_self_iff]
    intro hl
    simp [h _ (List.getElem_mem hl)]
  rw [strip_eq_rdropWhile, left, List.rdropWhile_eq_self_iff]
  intro hl
  simp [h _ (List.getLast_mem hl)]

/-- What is left after both ends were dropped still begins as it did after the first. -/
theorem dropWhile_strip (cs : List Char) : (strip p cs).dropWhile p = strip p cs := by
  rw [strip_eq_rdropWhile, List.dropWhile_eq_self_iff]
  intro hl
  rw [(List.rdropWhile_prefix p _).getElem hl]
  exact List.dropWhile_get_zero_not p cs _

theorem strip_strip (cs : List Char) : strip p (strip p cs) = strip p cs := by
  rw [strip_eq_rdropWhile (strip p cs), dropWhile_strip, strip_eq_rdropWhile,
    List.rdropWhile_idempotent]

end Strip

/-- A text that trimming leaves alone, with something in it. -/
def IsName (s : String) : Prop :=
  trim s = s ∧ s.isEmpty = false

@[simp]
theorem trim_trim (s : String) : trim (trim s) = trim s := by
  simp [trim, strip_strip]

theorem isName_trim {s : String} (h : (trim s).isEmpty = false) : IsName (trim s) :=
  ⟨trim_trim s, h⟩

theorem isName_of_mem_names {s name : String} (h : name ∈ names s) : IsName name := by
  simp only [names, List.mem_map, List.mem_filter] at h
  obtain ⟨cs, ⟨⟨piece, _, rfl⟩, hne⟩, rfl⟩ := h
  refine ⟨?_, ?_⟩
  · simp [trim, strip_strip]
  · simpa [String.isEmpty_iff] using hne

end Text

section Digits

open Text

theorem isBlank_of_isDigit {c : Char} (h : isDigit c = true) : isBlank c = false := by
  simp only [isDigit, Bool.and_eq_true, decide_eq_true_eq] at h
  obtain ⟨low, high⟩ := h
  simp only [isBlank, Bool.or_eq_false_iff, Bool.and_eq_false_iff, decide_eq_false_iff_not,
    beq_eq_false_iff_ne]
  omega

theorem isDigit_of_mem_toDigits {n : Nat} {c : Char} (h : c ∈ Nat.toDigits 10 n) :
    isDigit c = true := by
  have digit := Nat.isDigit_of_mem_toDigits (by decide) (by decide) h
  simpa [Char.isDigit, isDigit, UInt32.le_iff_toNat_le] using digit

theorem toList_toString (n : Nat) : (toString n).toList = Nat.toDigits 10 n := by
  rw [Nat.toString_eq_repr, Nat.toList_repr]

theorem strip_toString (n : Nat) :
    strip isBlank (toString n).toList = Nat.toDigits 10 n := by
  rw [toList_toString]
  exact strip_eq_self fun c hc => isBlank_of_isDigit (isDigit_of_mem_toDigits hc)

theorem trim_toString (n : Nat) : trim (toString n) = toString n := by
  rw [trim, strip_toString, Nat.toString_eq_ofList_toDigits]

theorem digitsValue_toDigits (n : Nat) : digitsValue (Nat.toDigits 10 n) = n :=
  Nat.ofDigitChars_ten_toDigits

theorem toString_injective : Function.Injective fun n : Nat => toString n := by
  intro m n h
  have digits := congrArg (fun s : String => digitsValue (strip isBlank s.toList)) h
  simpa only [strip_toString, digitsValue_toDigits] using digits

theorem digitsValue_append (cs : List Char) (c : Char) :
    digitsValue (cs ++ [c]) = 10 * digitsValue cs + (c.toNat - 48) := by
  simp [digitsValue]

theorem digitsValue_lt {cs : List Char} (h : ∀ c ∈ cs, isDigit c = true) :
    digitsValue cs < 10 ^ cs.length := by
  induction cs using List.reverseRecOn with
  | nil => exact Nat.one_pos
  | append_singleton cs c ih =>
      have front := ih fun c' hc' => h c' (List.mem_append_left _ hc')
      have last := h c (by simp)
      simp only [isDigit, Bool.and_eq_true, decide_eq_true_eq] at last
      rw [digitsValue_append, List.length_append, List.length_singleton, Nat.pow_succ]
      omega

/-- The bound that the digit limit puts on the stages that a text can name. -/
def stageBound : Nat :=
  10 ^ Numeral.digitLimit

theorem stageOfText_toString {n : Nat} (h : n < stageBound) :
    stageOfText (toString n) = .ok (some n) := by
  have digits : ∀ c ∈ Nat.toDigits 10 n, isDigit c = true := fun c hc =>
    isDigit_of_mem_toDigits hc
  have length : (Nat.toDigits 10 n).length ≤ Numeral.digitLimit :=
    (Nat.length_toDigits_le_iff (by decide) (by decide)).mpr h
  have all : (Nat.toDigits 10 n).all isDigit = true := List.all_eq_true.mpr digits
  simp only [stageOfText, strip_toString, all, List.isEmpty_eq_false_iff.mpr Nat.toDigits_ne_nil,
    Bool.not_true, Bool.or_false, Bool.false_eq_true, if_false, Nat.not_lt.mpr length,
    digitsValue_toDigits]

theorem lt_stageBound {s : String} {n : Nat} (h : stageOfText s = .ok (some n)) :
    n < stageBound := by
  simp only [stageOfText] at h
  split at h
  · cases h
  · rename_i digits
    split at h
    · cases h
    · rename_i length
      cases h
      simp only [Bool.or_eq_true, not_or, Bool.not_eq_true', Bool.not_eq_false,
        List.all_eq_true] at digits
      calc digitsValue (strip isBlank s.toList)
          < 10 ^ (strip isBlank s.toList).length := digitsValue_lt digits.2
        _ ≤ 10 ^ Numeral.digitLimit := Nat.pow_le_pow_right (by decide) (Nat.not_lt.mp length)

/-- The text is that of a stage with so many digits, beyond the limit. -/
structure Text.IsLongStage (s : String) (digits : Nat) : Prop where
  length_eq : (strip isBlank s.toList).length = digits
  isDigit : ∀ c ∈ strip isBlank s.toList, isDigit c = true
  long : Numeral.digitLimit < digits

theorem stageOfText_error {s : String} {e : Fault} (h : stageOfText s = .error e) :
    ∃ digits, e = .tooManyDigits digits ∧ Text.IsLongStage s digits := by
  simp only [stageOfText] at h
  split at h
  · cases h
  · rename_i digits
    split at h
    · rename_i long
      cases h
      simp only [Bool.or_eq_true, not_or, Bool.not_eq_true', Bool.not_eq_false,
        List.all_eq_true] at digits
      exact ⟨_, rfl, rfl, digits.2, long⟩
    · cases h

end Digits

end BackwardInduction
