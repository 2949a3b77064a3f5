import Mathlib.Data.List.TakeDrop
import Mathlib.Data.List.TakeWhile
import BackwardInduction.Options
import BackwardInduction.Proofs.Outcomes
import BackwardInduction.Proofs.StageTexts

/-!
Arguments, taken from the front. A long option takes for its value whatever an equals sign parts
from its spelling, and an option that is given alone takes the next argument, if that is an
operand by its form. Either way what stands behind is parsed as it would be without them, from
the settings that they leave. The same goes for what stands behind any arguments of a command
without operands that are accepted by themselves. A whole number that is written out is read as
itself, within the digit limit.
-/

namespace BackwardInduction

namespace Options

namespace Grammar

variable {κ : Type} (g : Grammar κ)

theorem splitValue_attached {name : String} (h : '=' ∉ name.toList) (text : String) :
    splitValue (name ++ "=" ++ text) = (name, some text) := by
  have parted : (name ++ "=" ++ text).toList.span (· != '=') =
      (name.toList, '=' :: text.toList) := by
    have before : ∀ c ∈ name.toList, (c != '=') = true := fun c hc => by
      simpa using fun heq : c = '=' => h (heq ▸ hc)
    have chars : (name ++ "=" ++ text).toList = name.toList ++ '=' :: text.toList := by
      simp [String.toList_append]
    rw [chars, List.span_eq_takeWhile_dropWhile, List.takeWhile_append_of_pos before,
      List.dropWhile_append_of_pos before]
    simp
  simp only [splitValue, parted, String.ofList_toList]

/-- No option is spelt with an equals sign. -/
def Unequal : Prop :=
  ∀ e ∈ g.spellings, '=' ∉ e.1.toList

variable {g}

theorem find?_eq_none_of_unequal (h : g.Unequal) {arg : String} (harg : '=' ∈ arg.toList) :
    g.find? arg = none := by
  rw [find?, List.lookup_eq_none_iff]
  intro e he
  simpa using fun heq : arg = e.1 => h e he (heq ▸ harg)

theorem mem_of_find? {name : String} {key : κ} (h : g.find? name = some key) :
    (name, key) ∈ g.spellings := by
  obtain ⟨before, after, heq, _⟩ := List.lookup_eq_some_iff.mp h
  rw [heq]
  exact List.mem_append_right _ List.mem_cons_self

theorem isLong_iff (arg : String) : isLong arg = true ↔ "--".toList <+: arg.toList := by
  rw [isLong, String.isPrefixOf, String.startsWith_string_iff]

/-- What does not begin with a dash is no option. -/
theorem form_operand {arg : String} (h : "-".isPrefixOf arg = false) :
    g.form arg = .operand arg := by
  have operand : arg ≠ "--" := by
    rintro rfl
    exact absurd h (by decide +kernel)
  rw [form, if_neg operand]
  simp only [h, Bool.not_false, Bool.true_or, if_true]

/-- A spelling of an option is that option. -/
theorem form_spelling {arg : String} {key : κ} (hdash : "-".isPrefixOf arg = true)
    (hone : arg ≠ "-") (htwo : arg ≠ "--") (hkey : g.find? arg = some key) :
    g.form arg = .option key (isLong arg) none := by
  rw [form, if_neg htwo]
  simp only [hdash, hone, hkey, Bool.not_true, Bool.false_or, decide_false, Bool.false_eq_true,
    if_false]

variable (g) in
/-- The spelling is a long one, of an option that takes a value. -/
structure Attaches (name : String) (key : κ) : Prop where
  find?_eq : g.find? name = some key
  isLong_eq : isLong name = true
  takesValue_eq : g.takesValue key = true

/-- A long option takes what is attached to it by an equals sign. -/
theorem form_attached (h : g.Unequal) {name : String} {key : κ} (hname : g.Attaches name key)
    (text : String) : g.form (name ++ "=" ++ text) = .option key true (some text) := by
  have equals : '=' ∈ (name ++ "=" ++ text).toList := by simp [String.toList_append]
  have long : isLong (name ++ "=" ++ text) = true := by
    rw [isLong_iff, String.toList_append, String.toList_append, List.append_assoc]
    exact ((isLong_iff _).mp hname.isLong_eq).trans (List.prefix_append _ _)
  have front : ("-".isPrefixOf (name ++ "=" ++ text)) = true := by
    rw [String.isPrefixOf, String.startsWith_string_iff]
    exact List.IsPrefix.trans (by decide) ((isLong_iff _).mp long)
  have other (arg : String) (harg : '=' ∉ arg.toList) : name ++ "=" ++ text ≠ arg :=
    fun heq => harg (heq ▸ equals)
  have two := other "--" (by decide)
  have one := other "-" (by decide)
  have spelt := splitValue_attached (h _ (mem_of_find? hname.find?_eq)) text
  rw [form, if_neg two]
  simp only [front, one, Bool.not_true, Bool.false_or, decide_false, Bool.false_eq_true, if_false,
    find?_eq_none_of_unequal h equals, spelt, hname.find?_eq, long]

end Grammar

section Parsing

variable {κ σ : Type} {g : Grammar κ} {option : σ → κ → Option String → Except Stop σ}
  {operand : σ → String → Except Stop σ} {key : κ} {name text : String} {s s' : σ}

theorem apply_cons_given {value : Option String} (hs : option s key value = .ok s')
    (events : List (Event κ)) (surplus : Bool) :
    apply option operand (.given key value :: events) surplus s =
      apply option operand events surplus s' := by
  rw [apply, hs]
  rfl

/-- The arguments behind an option with its value attached are parsed from what it sets. -/
theorem parse_cons_attached (h : g.Unequal) (hname : g.Attaches name key) (wanted : Nat)
    (hs : option s key (Grammar.valueOf text) = .ok s') (args : List String) :
    parse g wanted option operand s ((name ++ "=" ++ text) :: args) =
      parse g wanted option operand s' args := by
  have forms : g.forms ((name ++ "=" ++ text) :: args) =
      .option key true (some text) :: g.forms args := by
    rw [Grammar.forms, Grammar.form_attached h hname]
  have events : g.events wanted (.option key true (some text) :: g.forms args) =
      .given key (Grammar.valueOf text) :: g.events wanted (g.forms args) := by
    rw [Grammar.events, Grammar.expand, if_pos hname.takesValue_eq]
    rfl
  simp only [parse, forms, events, apply_cons_given hs, List.any_cons, Form.isAmbiguous,
    Bool.false_or]

/-- The arguments behind an option and the next argument, its value, are parsed from what it
sets. -/
theorem parse_cons_next {long : Bool} (hname : g.form name = .option key long none)
    (htakes : g.takesValue key = true) (htext : g.form text = .operand text) (wanted : Nat)
    (hs : option s key (Grammar.valueOf text) = .ok s') (args : List String) :
    parse g wanted option operand s (name :: text :: args) =
      parse g wanted option operand s' args := by
  have forms : g.forms (name :: text :: args) =
      .option key long none :: .operand text :: g.forms args := by
    rw [Grammar.forms, hname, Grammar.forms, htext]
  have events : g.events wanted (.option key long none :: .operand text :: g.forms args) =
      .given key (Grammar.valueOf text) :: g.events wanted (g.forms args) := by
    rw [Grammar.events, Grammar.expand, Grammar.cluster, if_pos htakes]
    rfl
  simp only [parse, forms, events, apply_cons_given hs, List.any_cons, Form.isAmbiguous,
    Bool.false_or]

end Parsing

section Appending

variable {κ σ : Type} {g : Grammar κ} {option : σ → κ → Option String → Except Stop σ}
  {operand : σ → String → Except Stop σ} {s s' : σ}

/-- The event sets something, or may do so. -/
def Event.isUse : Event κ → Bool
  | .given .. | .operand _ => true
  | .surplus | .misuse => false

theorem isUse_of_apply {events : List (Event κ)} {surplus : Bool}
    (h : apply option operand events surplus s = .ok s') :
    surplus = false ∧ ∀ event ∈ events, event.isUse = true := by
  induction events generalizing surplus s with
  | nil =>
      cases surplus with
      | true => cases h
      | false => exact ⟨rfl, nofun⟩
  | cons event events ih =>
      rw [List.forall_mem_cons]
      cases event with
      | given key value =>
          obtain ⟨_, _, h⟩ := bind_eq_ok_iff.mp h
          exact ⟨(ih h).1, rfl, (ih h).2⟩
      | operand text =>
          obtain ⟨_, _, h⟩ := bind_eq_ok_iff.mp h
          exact ⟨(ih h).1, rfl, (ih h).2⟩
      | surplus => exact absurd (ih h).1 (by decide)
      | misuse => cases h

/-- Events behind others are applied to what these leave. -/
theorem apply_append {events : List (Event κ)}
    (h : apply option operand events false s = .ok s') (rest : List (Event κ)) :
    apply option operand (events ++ rest) false s = apply option operand rest false s' := by
  induction events generalizing s with
  | nil =>
      cases h
      rfl
  | cons event events ih =>
      cases event with
      | given key value =>
          obtain ⟨_, hs, h⟩ := bind_eq_ok_iff.mp h
          rw [List.cons_append, apply_cons_given hs, ih h]
      | operand text =>
          obtain ⟨_, hs, h⟩ := bind_eq_ok_iff.mp h
          rw [List.cons_append, apply, hs]
          exact ih h
      | surplus => exact absurd ((isUse_of_apply h).2 _ List.mem_cons_self) Bool.false_ne_true
      | misuse => cases h

namespace Grammar

theorem forms_append {args : List String} (h : .dashes ∉ g.forms args) (rest : List String) :
    g.forms (args ++ rest) = g.forms args ++ g.forms rest := by
  induction args with
  | nil => rfl
  | cons arg args ih =>
      rw [List.cons_append, forms, forms]
      rw [forms] at h
      split at h
      · exact absurd List.mem_cons_self h
      · rw [ih fun hmem => h (List.mem_cons_of_mem _ hmem), List.cons_append]

/-- Where no operand is wanted, no two dashes are. -/
theorem not_mem_dashes {forms : List (Form κ)}
    (h : ∀ event ∈ g.events 0 forms, event.isUse = true) : .dashes ∉ forms := by
  generalize hw : 0 = wanted at h
  fun_induction g.events wanted forms
  case case1 => exact List.not_mem_nil
  case case2 | case5 => exact absurd (h .misuse List.mem_cons_self) Bool.false_ne_true
  case case3 ih =>
      simpa using ih hw fun event hevent => h event (List.mem_append_right _ hevent)
  case case4 ih =>
      simpa using ih hw fun event hevent =>
        h event (List.mem_append_right _ (List.mem_cons_of_mem _ hevent))
  -- the cases of a wanted operand
  case case6 | case7 | case8 => cases hw
  case case9 => exact absurd (h .surplus List.mem_cons_self) Bool.false_ne_true

/-- What stands behind arguments of which each has its use makes no difference to them. -/
theorem events_append {forms : List (Form κ)}
    (h : ∀ event ∈ g.events 0 forms, event.isUse = true) (rest : List (Form κ)) :
    g.events 0 (forms ++ rest) = g.events 0 forms ++ g.events 0 rest := by
  generalize hw : 0 = wanted at h ⊢
  fun_induction g.events wanted forms
  case case1 => rfl
  case case2 | case5 => exact absurd (h .misuse List.mem_cons_self) Bool.false_ne_true
  case case3 hexpand ih =>
      rw [List.cons_append, events, hexpand]
      simp only [ih hw fun event hevent => h event (List.mem_append_right _ hevent),
        List.append_assoc]
  case case4 hexpand _ _ ih =>
      rw [List.cons_append, events, hexpand]
      simp only [List.cons_append, List.append_assoc, ih hw fun event hevent =>
        h event (List.mem_append_right _ (List.mem_cons_of_mem _ hevent))]
  case case6 | case7 | case8 => cases hw
  case case9 => exact absurd (h .surplus List.mem_cons_self) Bool.false_ne_true

end Grammar

/-- Arguments behind others are parsed from what these set, where no operand is wanted. -/
theorem parse_append {args : List String} (h : parse g 0 option operand s args = .ok s')
    (rest : List String) :
    parse g 0 option operand s (args ++ rest) = parse g 0 option operand s' rest := by
  simp only [parse] at h
  split at h
  · cases h
  · rename_i clear
    have uses := (isUse_of_apply h).2
    simp only [parse, Grammar.forms_append (Grammar.not_mem_dashes uses), List.any_append,
      Bool.not_eq_true] at clear ⊢
    rw [clear, Bool.false_or, Grammar.events_append uses, apply_append h]

end Appending

end Options

namespace Numeral

open Text

theorem plainDigit_of_isDigit {c : Char} (h : isDigit c = true) : plainDigit c = c := by
  simp only [isDigit, Bool.and_eq_true, decide_eq_true_eq] at h
  have value : digitValue? c = some (c.toNat - 48) := by
    simp only [digitValue?, zeros, List.find?_cons]
    simp [h.1, show c.toNat < 58 by omega]
  simp only [plainDigit, value]
  rw [digitChar, Nat.add_sub_cancel' h.1, Char.ofNat_toNat]

theorem isPadding_of_isDigit {c : Char} (h : isDigit c = true) : isPadding c = false := by
  rw [isPadding, isBlank_of_isDigit h, Bool.false_and]

/-- A text of characters that stand for themselves is read as it is. -/
theorem plain_eq_self {s : String}
    (h : ∀ c ∈ s.toList, plainDigit c = c ∧ isPadding c = false) : plain s = s.toList := by
  have same : s.toList.map plainDigit = s.toList :=
    (List.map_congr_left fun c hc => (h c hc).1).trans (List.map_id _)
  rw [plain, same, strip_eq_self fun c hc => (h c hc).2]

theorem ungroup?_digits {before : Char} (hbefore : before ≠ '_') {ds : List Char}
    (h : ∀ d ∈ ds, isDigit d = true) : ungroup? before ds = some ds := by
  induction ds generalizing before with
  | nil => rw [ungroup?, if_neg hbefore]
  | cons d ds ih =>
      have digit := h d List.mem_cons_self
      have grouped : d ≠ '_' := by
        rintro rfl
        exact absurd digit (by decide)
      rw [ungroup?, if_neg grouped, digit,
        ih grouped fun d' hd' => h d' (List.mem_cons_of_mem _ hd')]
      simp

theorem takeSign_digits {ds : List Char} (h : ∀ d ∈ ds, isDigit d = true) :
    takeSign ds = (false, ds) := by
  unfold takeSign
  split
  · exact absurd (h '-' List.mem_cons_self) (by decide)
  · exact absurd (h '+' List.mem_cons_self) (by decide)
  · rfl

theorem readWhole_signed {s : String} {negative : Bool} {n : Nat} (h : n < stageBound)
    (hs : takeSign (plain s) = (negative, Nat.toDigits 10 n)) :
    readWhole s = .ok (applySign negative n) := by
  have digits : ∀ d ∈ Nat.toDigits 10 n, isDigit d = true := fun d hd =>
    isDigit_of_mem_toDigits hd
  have length : (Nat.toDigits 10 n).length ≤ digitLimit :=
    (Nat.length_toDigits_le_iff (by decide) (by decide)).mpr h
  have run : (Nat.toDigits 10 n).span (fun c => isDigit c || c = '_') =
      (Nat.toDigits 10 n, []) := by
    rw [List.span_eq_takeWhile_dropWhile,
      List.takeWhile_eq_self_iff.mpr fun d hd => by rw [digits d hd, Bool.true_or],
      List.dropWhile_eq_nil_iff.mpr fun d hd => by rw [digits d hd, Bool.true_or]]
  have ungrouped : ungroup? ' ' (Nat.toDigits 10 n) = some (Nat.toDigits 10 n) :=
    ungroup?_digits (by decide) digits
  simp only [readWhole, hs, run, ungrouped, Nat.not_lt.mpr length, if_false,
    List.isEmpty_eq_false_iff.mpr Nat.toDigits_ne_nil, List.isEmpty_nil, Bool.not_true,
    Bool.or_false, Bool.false_eq_true, digitsValue_toDigits]

/-- A whole number that is written out is read as itself. -/
theorem readWhole_toString {i : Int} (h : i.natAbs < stageBound) :
    readWhole (toString i) = .ok i := by
  have digit {n : Nat} : ∀ d ∈ Nat.toDigits 10 n, plainDigit d = d ∧ isPadding d = false :=
    fun d hd =>
      ⟨plainDigit_of_isDigit (isDigit_of_mem_toDigits hd),
        isPadding_of_isDigit (isDigit_of_mem_toDigits hd)⟩
  cases i with
  | ofNat n =>
      have chars : (toString (Int.ofNat n)).toList = Nat.toDigits 10 n := Nat.toList_repr
      have unsigned : takeSign (plain (toString (Int.ofNat n))) = (false, Nat.toDigits 10 n) := by
        rw [plain_eq_self (chars ▸ digit), chars]
        exact takeSign_digits fun d hd => isDigit_of_mem_toDigits hd
      exact readWhole_signed h unsigned
  | negSucc n =>
      have chars : (toString (Int.negSucc n)).toList = '-' :: Nat.toDigits 10 (n + 1) := by
        change ("-" ++ Nat.repr (n + 1)).toList = _
        rw [String.toList_append, Nat.toList_repr]
        rfl
      have signed : takeSign (plain (toString (Int.negSucc n))) =
          (true, Nat.toDigits 10 (n + 1)) := by
        rw [plain_eq_self, chars]
        · rfl
        · rw [chars, List.forall_mem_cons]
          exact ⟨by decide, digit⟩
      exact readWhole_signed h signed

end Numeral

end BackwardInduction
