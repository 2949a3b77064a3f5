import BackwardInduction.Proofs.DocumentFaults

/-!
Which keys name a stage. A whole number names itself, and a text the number whose decimal
digits it holds, with any zeros in front of them and white space around. Whatever is read
as a stage is of this form, and all that is of this form is read as the stage it names, up
to the limit on digits.
-/

namespace BackwardInduction

namespace Text

section Surroundings

variable {p : Char → Bool} {front back : List Char}

theorem strip_append (hback : ∀ c ∈ back, p c = true) (cs : List Char) :
    strip p (cs ++ back) = strip p cs := by
  have blank : back.dropWhile p = [] := List.dropWhile_eq_nil_iff.mpr hback
  rw [strip_eq_rdropWhile, strip_eq_rdropWhile, List.dropWhile_append, blank]
  split
  · rename_i hempty
    rw [List.isEmpty_iff.mp hempty]
  · rw [List.rdropWhile, List.reverse_append, List.dropWhile_append_of_pos (by simpa using hback)]
    rfl

/-- What surrounds a text within the class makes no difference to what is left of it. -/
theorem strip_surrounded (hfront : ∀ c ∈ front, p c = true) (hback : ∀ c ∈ back, p c = true)
    (cs : List Char) : strip p (front ++ cs ++ back) = strip p cs := by
  rw [strip_append hback, strip, List.dropWhile_append_of_pos hfront]
  rfl

/-- Only characters of the class are dropped. -/
theorem exists_surroundings (p : Char → Bool) (cs : List Char) :
    ∃ front back, cs = front ++ strip p cs ++ back ∧
      (∀ c ∈ front, p c = true) ∧ ∀ c ∈ back, p c = true := by
  refine ⟨cs.takeWhile p, (cs.dropWhile p).rtakeWhile p, ?_, fun c => List.mem_takeWhile_imp,
    fun c => List.mem_rtakeWhile_imp⟩
  rw [List.append_assoc, strip_eq_rdropWhile, List.rdropWhile_append_rtakeWhile,
    List.takeWhile_append_dropWhile]

end Surroundings

section Zeros

theorem digitsValue_zeros (zeros : Nat) (cs : List Char) :
    digitsValue (List.replicate zeros '0' ++ cs) = digitsValue cs := by
  induction zeros with
  | zero => rfl
  | succ zeros ih =>
      rw [List.replicate_succ, List.cons_append]
      exact ih

theorem toDigits_digit {c : Char} (h : isDigit c = true) :
    Nat.toDigits 10 (c.toNat - 48) = [c] := by
  simp only [isDigit, Bool.and_eq_true, decide_eq_true_eq] at h
  have small : c.toNat - 48 < 10 := by omega
  have same : (c.toNat - 48).digitChar = c := by
    rw [← Char.toNat_inj, Nat.toNat_digitChar_of_lt_ten small]
    omega
  rw [Nat.toDigits_of_lt_base small, same]

/-- Digits are those of the number they denote, behind zeros. -/
theorem exists_zeros {cs : List Char} (hne : cs ≠ []) (h : ∀ c ∈ cs, isDigit c = true) :
    ∃ zeros, cs = List.replicate zeros '0' ++ Nat.toDigits 10 (digitsValue cs) := by
  induction cs using List.reverseRecOn with
  | nil => exact absurd rfl hne
  | append_singleton cs c ih =>
      have digit := h c (by simp)
      have last := toDigits_digit digit
      rw [digitsValue_append]
      by_cases hnil : cs = []
      · subst hnil
        refine ⟨0, ?_⟩
        simpa [digitsValue] using last.symm
      · obtain ⟨zeros, heq⟩ := ih hnil fun c hc => h c (List.mem_append_left _ hc)
        rcases Nat.eq_zero_or_pos (digitsValue cs) with hzero | hpos
        · -- nothing but zeros so far
          rw [hzero, Nat.toDigits_zero, ← List.replicate_succ'] at heq
          rw [hzero, Nat.mul_zero, Nat.zero_add, last]
          exact ⟨zeros + 1, congrArg (· ++ [c]) heq⟩
        · have small : c.toNat - 48 < 10 := by
            simp only [isDigit, Bool.and_eq_true, decide_eq_true_eq] at digit
            omega
          refine ⟨zeros, ?_⟩
          rw [← Nat.toDigits_append_toDigits (by decide) hpos small, last, ← List.append_assoc,
            ← heq]

end Zeros

/-- White space, the decimal digits of the number behind any zeros, and white space. -/
def SpellsStage (s : String) (n : Nat) : Prop :=
  ∃ front zeros back, s.toList = front ++ (List.replicate zeros '0' ++ (toString n).toList) ++ back ∧
    (∀ c ∈ front, isBlank c = true) ∧ ∀ c ∈ back, isBlank c = true

theorem spellsStage_toString (n : Nat) : SpellsStage (toString n) n :=
  ⟨[], 0, [], by simp, nofun, nofun⟩

theorem length_trim (s : String) : (trim s).length = (strip isBlank s.toList).length := by
  rw [trim, String.length_ofList]

theorem spellsStage_iff (s : String) (n : Nat) :
    SpellsStage s n ↔ strip isBlank s.toList ≠ [] ∧
      (∀ c ∈ strip isBlank s.toList, isDigit c = true) ∧
      digitsValue (strip isBlank s.toList) = n := by
  rw [SpellsStage, toList_toString]
  constructor
  · rintro ⟨front, zeros, back, hs, hfront, hback⟩
    have digits : ∀ c ∈ List.replicate zeros '0' ++ Nat.toDigits 10 n, isDigit c = true := by
      refine List.forall_mem_append.mpr ⟨fun c hc => ?_, fun c => isDigit_of_mem_toDigits⟩
      rw [List.eq_of_mem_replicate hc]
      rfl
    have core : strip isBlank s.toList = List.replicate zeros '0' ++ Nat.toDigits 10 n := by
      rw [hs, strip_surrounded hfront hback]
      exact strip_eq_self fun c hc => isBlank_of_isDigit (digits c hc)
    rw [core, digitsValue_zeros, digitsValue_toDigits]
    exact ⟨List.append_ne_nil_of_right_ne_nil _ Nat.toDigits_ne_nil, digits, rfl⟩
  · rintro ⟨hne, digits, rfl⟩
    obtain ⟨front, back, hs, hfront, hback⟩ := exists_surroundings isBlank s.toList
    obtain ⟨zeros, hzeros⟩ := exists_zeros hne digits
    exact ⟨front, zeros, back, by rw [← hzeros]; exact hs, hfront, hback⟩

theorem SpellsStage.unique {s : String} {m n : Nat} (hm : SpellsStage s m)
    (hn : SpellsStage s n) : m = n :=
  ((spellsStage_iff s m).mp hm).2.2.symm.trans ((spellsStage_iff s n).mp hn).2.2

end Text

section Stages

open Text

variable {s : String}

theorem stageOfText_of_length_le (h : (trim s).length ≤ Numeral.digitLimit) :
    ∃ stage?, stageOfText s = .ok stage? := by
  cases hstage : stageOfText s with
  | ok stage? => exact ⟨stage?, rfl⟩
  | error e =>
      obtain ⟨digits, _, hlong⟩ := stageOfText_error hstage
      rw [length_trim, hlong.length_eq] at h
      exact absurd hlong.long (Nat.not_lt.mpr h)

/-- A text that is read as a stage or as none spells what it is read as. -/
theorem spellsStage_iff_of_ok {stage? : Option Nat} (h : stageOfText s = .ok stage?) (n : Nat) :
    SpellsStage s n ↔ stage? = some n := by
  rw [spellsStage_iff]
  rw [stageOfText] at h
  split at h
  · rename_i other
    cases h
    simp only [Bool.or_eq_true, List.isEmpty_iff, Bool.not_eq_true', List.all_eq_false] at other
    refine iff_of_false ?_ (by simp)
    rintro ⟨hne, digits, _⟩
    obtain ⟨c, hc, hdigit⟩ := other.resolve_left hne
    exact hdigit (digits c hc)
  · rename_i digits
    simp only [Bool.or_eq_true, not_or, List.isEmpty_iff, Bool.not_eq_true', Bool.not_eq_false,
      List.all_eq_true] at digits
    split at h
    · cases h
    · cases h
      rw [Option.some.injEq]
      exact ⟨fun spelled => spelled.2.2, fun heq => ⟨digits.1, digits.2, heq⟩⟩

theorem Text.IsLongStage.ne_nil {digits : Nat} (h : Text.IsLongStage s digits) :
    strip isBlank s.toList ≠ [] := by
  rw [← List.length_pos_iff, h.length_eq]
  exact Nat.zero_lt_of_lt h.long

theorem Text.IsLongStage.spellsStage {digits : Nat} (h : Text.IsLongStage s digits) :
    ∃ n, SpellsStage s n :=
  ⟨_, (spellsStage_iff s _).mpr ⟨h.ne_nil, h.isDigit, rfl⟩⟩

/-- The text of a stage beyond the digit limit is not read. -/
theorem stageOfText_of_isLongStage {digits : Nat} (h : Text.IsLongStage s digits) :
    stageOfText s = .error (.tooManyDigits digits) := by
  have digit : (strip isBlank s.toList).all isDigit = true := List.all_eq_true.mpr h.isDigit
  rw [stageOfText]
  simp [h.ne_nil, digit, h.length_eq, h.long]

end Stages

namespace Key

variable {α : Type} {k : Key α}

/-- The key is the number itself or a text that spells it. -/
inductive IsStage : Key α → Nat → Prop
  | whole (n : Nat) : IsStage (.number (.whole n)) n
  | text {s : String} {n : Nat} (h : Text.SpellsStage s n) : IsStage (.text s) n

/-- A key that is read as a stage or as none is what it is read as. -/
theorem isStage_iff_of_ok {stage? : Option Nat} (h : k.stage = .ok stage?) (n : Nat) :
    k.IsStage n ↔ stage? = some n := by
  have other (hk : ∀ n, ¬k.IsStage n) (hnone : stage? = none) : k.IsStage n ↔ stage? = some n :=
    iff_of_false (hk n) (hnone ▸ nofun)
  cases k with
  | null | bool _ =>
      cases h
      exact other nofun rfl
  | text s =>
      rw [← spellsStage_iff_of_ok h n]
      exact ⟨fun | .text hs => hs, .text⟩
  | number number =>
      cases number with
      | real x =>
          cases h
          exact other nofun rfl
      | whole i =>
          have whole : (Key.number (.whole i) : Key α).IsStage n ↔ i = n :=
            ⟨fun | .whole _ => rfl, fun heq => heq ▸ .whole n⟩
          rw [stage, Except.ok.injEq] at h
          rw [whole, ← h]
          split
          · rw [Option.some.injEq]
            omega
          · refine iff_of_false ?_ nofun
            omega

theorem exists_isStage_iff : (∃ n, k.IsStage n) ↔ k.stage ≠ .ok none := by
  constructor
  · rintro ⟨n, hn⟩ hstage
    cases (isStage_iff_of_ok hstage n).mp hn
  · intro hne
    cases hstage : k.stage with
    | ok stage? =>
        cases stage? with
        | none => exact absurd hstage hne
        | some n => exact ⟨n, (isStage_iff_of_ok hstage n).mpr rfl⟩
    | error e =>
        obtain ⟨s, digits, rfl, _, hlong⟩ := stage_error hstage
        obtain ⟨n, hn⟩ := hlong.spellsStage
        exact ⟨n, .text hn⟩

instance (k : Key α) : Decidable (∃ n, k.IsStage n) :=
  decidable_of_iff (k.stage ≠ .ok none) exists_isStage_iff.symm

end Key

end BackwardInduction
