import Mathlib.Data.List.Infix
import Mathlib.Data.List.TakeDrop
import Mathlib.Data.List.TakeWhile
import BackwardInduction.Problem.Document
import BackwardInduction.Proofs.JsonTexts
import BackwardInduction.Proofs.JsonValues

/-!
What the reader of JSON makes of a text. Each part of it takes a value off the front
of the text and leaves an end of it; the value is a decoded one, and reading stops
at a whole number only if the text has more digits in a row than the limit, and for a
lone surrogate only if one of its texts has one.
-/

namespace BackwardInduction.Json

open Text

variable {α : Type}

/-- A text begins here that has a lone surrogate. -/
def OpensLone (cs : List Char) : Prop :=
  ∃ body codes rest, cs = '"' :: body ∧ readCodes body = .ok (codes, rest) ∧ HasLone codes

/-- One of the texts in the JSON has a lone surrogate. -/
def HasLoneSurrogate (cs : List Char) : Prop :=
  ∃ text, text <:+ cs ∧ OpensLone text

/-- What a stop says about the text: it is too long a number, or a lone surrogate, only if the
text has one. -/
def Stop.Genuine (cs : List Char) : Stop → Prop
  | .complaint c _ => c = .loneSurrogate → HasLoneSurrogate cs
  | .tooLong digits => Numeral.digitLimit < digits ∧
      ∃ ds, ds <:+: cs ∧ ds.length = digits ∧ ∀ c ∈ ds, isDigit c = true

/-- Reading takes a result off the text and leaves an end of it, or stops for a reason. -/
abbrev Reads {β : Type} (P : β → Prop) (cs : List Char) (r : Except Stop (β × List Char)) :
    Prop :=
  Ends (Stop.Genuine cs) (fun x => P x.1 ∧ x.2 <:+ cs) r

theorem not_hasLoneSurrogate {cs : List Char}
    (h : ∀ text ∈ cs.tails, text.head? = some '"' →
      ∀ r ∈ (readCodes text.tail).toOption, joinCodes r.1 ≠ none) : ¬ HasLoneSurrogate cs := by
  rintro ⟨_, suffix, body, codes, rest, rfl, hcodes, lone⟩
  refine h _ ((List.mem_tails _ _).mpr suffix) rfl (codes, rest) ?_
    ((joinCodes_eq_none_iff codes).mpr lone)
  rw [List.tail_cons, hcodes]
  rfl

theorem HasLoneSurrogate.of_suffix {cs rest : List Char} (h : rest <:+ cs)
    (hrest : HasLoneSurrogate rest) : HasLoneSurrogate cs := by
  obtain ⟨text, suffix, lone⟩ := hrest
  exact ⟨text, suffix.trans h, lone⟩

theorem ends_complaint {β : Type} {P : β → Prop} {c : Complaint} (h : c ≠ .loneSurrogate)
    (cs : List Char) (left : Nat) :
    Ends (Stop.Genuine cs) P (.error (.complaint c left)) :=
  fun hc => absurd hc h

theorem Stop.Genuine.of_suffix {cs rest : List Char} (h : rest <:+ cs) {s : Stop}
    (hs : s.Genuine rest) : s.Genuine cs := by
  cases s with
  | complaint c left => exact fun hc => (hs hc).of_suffix h
  | tooLong digits =>
      obtain ⟨hlong, ds, hds, hlength, hdigits⟩ := hs
      exact ⟨hlong, ds, hds.trans h.isInfix, hlength, hdigits⟩

/-- What reads an end of the text reads the text. -/
theorem Reads.of_suffix {β : Type} {P : β → Prop} {cs rest : List Char}
    {r : Except Stop (β × List Char)} (h : rest <:+ cs) (hr : Reads P rest r) : Reads P cs r :=
  hr.imp (fun _ => Stop.Genuine.of_suffix h) fun _ hx => ⟨hx.1, hx.2.trans h⟩

theorem skip_suffix (cs : List Char) : skip cs <:+ cs :=
  List.dropWhile_suffix _

theorem suffix_of_skip_eq {cs rest : List Char} {c : Char} (h : skip cs = c :: rest) :
    rest <:+ cs := by
  have skipped := skip_suffix cs
  rw [h] at skipped
  exact (List.suffix_cons c rest).trans skipped

theorem after?_suffix {word : String} {cs rest : List Char} (h : after? word cs = some rest) :
    rest <:+ cs := by
  unfold after? at h
  split at h
  · cases h
    exact List.drop_suffix _ _
  · cases h

section Texts

theorem ends_readCodes (cs : List Char) :
    Ends (fun e : Option Stop => ∀ s ∈ e, ∀ text, s.Genuine text) (fun r => r.2 <:+ cs)
      (readCodes cs) := by
  fun_induction readCodes cs with
  | case1 | case3 => exact nofun
  | case2 => exact List.suffix_cons _ _
  | case4 h i j k _ _ _ _ _ ih =>
      exact ih.bind fun r hr => hr.trans (List.suffix_append ['\\', 'u', h, i, j, k] _)
  | case7 e _ _ _ _ _ ih =>
      exact ih.bind fun r hr => hr.trans (List.suffix_append ['\\', e] _)
  | case10 _ _ _ _ _ ih =>
      exact ih.bind fun r hr => hr.trans (List.suffix_cons _ _)
  | case5 | case6 | case8 | case9 =>
      intro s hs text
      cases hs
      exact fun hc => absurd hc (by decide)

/-- Reading a text takes it off behind its opening quote. -/
theorem reads_readText (cs : List Char) : Reads (fun _ => True) ('"' :: cs) (readText cs) := by
  have codes := ends_readCodes cs
  unfold readText
  split
  · rename_i h
    rw [h] at codes
    split
    · exact ⟨trivial, codes.trans (List.suffix_cons _ _)⟩
    · rename_i lone
      rw [joinCodes_eq_none_iff] at lone
      exact fun _ => ⟨_, List.suffix_refl _, _, _, _, rfl, h, lone⟩
  · rename_i e h
    rw [h] at codes
    exact codes e rfl _
  · exact ends_complaint (by decide) _ _

end Texts

section Numbers

theorem spellWhole?_eq_some {cs ds rest : List Char} (h : spellWhole? cs = some (ds, rest)) :
    cs = ds ++ rest ∧ ∀ c ∈ ds, isDigit c = true := by
  unfold spellWhole? at h
  split at h
  · cases h
  · rename_i c rest'
    split at h
    · rename_i hc
      cases h
      refine ⟨rfl, fun c' hc' => ?_⟩
      rw [List.mem_singleton.mp hc', hc]
      rfl
    · split at h
      · rw [List.span_eq_takeWhile_dropWhile] at h
        cases h
        exact ⟨List.takeWhile_append_dropWhile.symm, fun c' => List.mem_takeWhile_imp⟩
      · cases h

theorem takeSign_suffix (cs : List Char) : (Numeral.takeSign cs).2 <:+ cs := by
  unfold Numeral.takeSign
  split
  · exact List.suffix_cons _ _
  · exact List.suffix_cons _ _
  · exact List.suffix_refl _

theorem spellSigned?_eq_some {cs whole rest : List Char}
    (h : spellSigned? cs = some (whole, rest)) :
    cs = whole ++ rest ∧ ∀ c ∈ (Numeral.takeSign whole).2, isDigit c = true := by
  unfold spellSigned? at h
  split at h
  · obtain ⟨⟨ds, rest'⟩, hds, heq⟩ := Option.map_eq_some_iff.mp h
    cases heq
    obtain ⟨rfl, digits⟩ := spellWhole?_eq_some hds
    exact ⟨rfl, digits⟩
  · obtain ⟨rfl, digits⟩ := spellWhole?_eq_some h
    exact ⟨rfl, fun c hc => digits c ((takeSign_suffix whole).subset hc)⟩

theorem spellFraction_suffix (cs : List Char) : (spellFraction cs).2 <:+ cs := by
  unfold spellFraction
  split
  · dsimp only
    split
    · exact List.suffix_refl _
    · rw [List.span_eq_takeWhile_dropWhile]
      exact (List.dropWhile_suffix _).trans (List.suffix_cons _ _)
  · exact List.suffix_refl _

theorem spellExponent_suffix (cs : List Char) : (spellExponent cs).2 <:+ cs := by
  unfold spellExponent
  split
  · rename_i e rest
    split
    · split
      rename_i sign rest' hsign
      have unsigned : rest' <:+ rest := by
        split at hsign
        · split at hsign
          · cases hsign
            exact List.suffix_cons _ _
          · cases hsign
            exact List.suffix_refl _
        · cases hsign
          exact List.suffix_refl _
      rw [List.span_eq_takeWhile_dropWhile]
      dsimp only
      split
      · exact List.suffix_refl _
      · exact ((List.dropWhile_suffix _).trans unsigned).trans (List.suffix_cons _ _)
    · exact List.suffix_refl _
  · exact List.suffix_refl _

theorem spell?_eq_some {cs rest : List Char} {s : Spelling} (h : spell? cs = some (s, rest)) :
    rest <:+ cs ∧ ∃ rest', cs = s.whole ++ rest' ∧
      ∀ c ∈ (Numeral.takeSign s.whole).2, isDigit c = true := by
  simp only [spell?, Option.bind_eq_bind, Option.bind_eq_some_iff] at h
  obtain ⟨⟨whole, rest'⟩, hwhole, heq⟩ := h
  cases heq
  obtain ⟨rfl, digits⟩ := spellSigned?_eq_some hwhole
  refine ⟨?_, rest', rfl, digits⟩
  exact ((spellExponent_suffix _).trans (spellFraction_suffix _)).trans
    (List.suffix_append whole rest')

theorem reads_wholeOf {cs whole rest : List Char} (h : cs = whole ++ rest)
    (digits : ∀ c ∈ (Numeral.takeSign whole).2, isDigit c = true) :
    Ends (Stop.Genuine cs) (fun _ => True) (wholeOf whole) := by
  unfold wholeOf
  dsimp only
  split
  · rename_i hlong
    have whole_infix : whole <:+: cs := h ▸ (List.prefix_append whole rest).isInfix
    exact ⟨hlong, _, (takeSign_suffix whole).isInfix.trans whole_infix, rfl, digits⟩
  · trivial

end Numbers

section Values

variable [Scalar α]

theorem reads_readAtom (cs : List Char) :
    Reads (fun v : Value α => v.Decoded) cs (readAtom cs) := by
  unfold readAtom
  dsimp only
  split
  · rename_i h
    exact ⟨.null, after?_suffix h⟩
  · rename_i h _
    exact ⟨.bool true, after?_suffix h⟩
  · rename_i h _ _
    exact ⟨.bool false, after?_suffix h⟩
  · split
    · rename_i h
      obtain ⟨word, _, hword⟩ := List.exists_of_findSome?_eq_some h
      obtain ⟨rest, hrest, heq⟩ := Option.map_eq_some_iff.mp hword
      cases heq
      split
      · exact ⟨.number _, after?_suffix hrest⟩
      · exact ends_complaint (by decide) _ _
    · split
      · exact ends_complaint (by decide) _ _
      · rename_i h
        obtain ⟨hrest, rest', hcs, digits⟩ := spell?_eq_some h
        split
        · exact (reads_wholeOf hcs digits).bind fun i _ => ⟨.number (.whole i), hrest⟩
        · split
          · exact ⟨.number _, hrest⟩
          · exact ends_complaint (by decide) _ _

/-- What reading a value with this fuel gives, from wherever it is read. -/
def ReadsValue (fuel : Nat) : Prop :=
  ∀ cs, Reads (fun v : Value α => v.Decoded) cs (readValue fuel cs)

def ReadsItems (fuel : Nat) : Prop :=
  ∀ cs, Reads (fun vs : List (Value α) => ∀ v ∈ vs, v.Decoded) cs (readItems fuel cs)

/-- Members are read over those read before, which must be decoded already. -/
def ReadsMembers (fuel : Nat) : Prop :=
  ∀ (d : Dict String (Value α)) (cs : List Char), (∀ e ∈ d.entries, e.2.Decoded) →
    Reads (fun entries : Entries α => (Value.map entries).Decoded) cs
      (readMembers fuel d.toEntries cs)

theorem reads_readValue {fuel : Nat} (items : ReadsItems (α := α) fuel)
    (members : ReadsMembers (α := α) fuel) : ReadsValue (α := α) (fuel + 1) := by
  intro cs
  unfold readValue
  split
  · refine (reads_readText _).bind fun r hr => ?_
    exact ⟨.text r.1, hr.2⟩
  · rename_i rest
    have opened := List.suffix_cons '[' rest
    split
    · rename_i h
      exact ⟨.list nofun, (suffix_of_skip_eq h).trans opened⟩
    · refine ((items _).of_suffix ((skip_suffix rest).trans opened)).bind fun r hr => ?_
      exact ⟨.list hr.1, hr.2⟩
  · rename_i rest
    have opened := List.suffix_cons '\x7b' rest
    split
    · rename_i h
      exact ⟨.map (d := ∅) nofun, (suffix_of_skip_eq h).trans opened⟩
    · exact ((members ∅ _ nofun).of_suffix ((skip_suffix rest).trans opened)).bind
        fun r hr => hr
  · exact reads_readAtom _

theorem reads_readItems {fuel : Nat} (value : ReadsValue (α := α) fuel)
    (items : ReadsItems (α := α) fuel) : ReadsItems (α := α) (fuel + 1) := by
  intro cs
  unfold readItems
  refine (value cs).bind fun r hr => ?_
  dsimp only
  split
  · rename_i h
    refine ⟨fun v hv => ?_, (suffix_of_skip_eq h).trans hr.2⟩
    rw [List.mem_singleton.mp hv]
    exact hr.1
  · rename_i h
    have next := (suffix_of_skip_eq h).trans hr.2
    refine ((items _).of_suffix ((skip_suffix _).trans next)).bind fun r' hr' => ?_
    refine ⟨fun v hv => ?_, hr'.2⟩
    rcases List.mem_cons.mp hv with rfl | hv
    · exact hr.1
    · exact hr'.1 v hv
  · exact ends_complaint (by decide) _ _

theorem reads_readMembers {fuel : Nat} (value : ReadsValue (α := α) fuel)
    (members : ReadsMembers (α := α) fuel) : ReadsMembers (α := α) (fuel + 1) := by
  intro d cs hd
  unfold readMembers
  split
  · rename_i rest
    refine (reads_readText _).bind fun name hname => ?_
    dsimp only
    split
    · rename_i h
      have colon := (suffix_of_skip_eq h).trans hname.2
      refine ((value _).of_suffix ((skip_suffix _).trans colon)).bind fun r hr => ?_
      have inserted : ∀ e ∈ (d.insert name.1 r.1).entries, e.2.Decoded :=
        Dict.all_insert hd name.1 hr.1
      rw [Entries.set_toEntries]
      split
      · rename_i h
        exact ⟨.map inserted, (suffix_of_skip_eq h).trans hr.2⟩
      · rename_i h
        have next := (suffix_of_skip_eq h).trans hr.2
        exact (members _ _ inserted).of_suffix ((skip_suffix _).trans next)
      · exact ends_complaint (by decide) _ _
    · exact ends_complaint (by decide) _ _
  · exact ends_complaint (by decide) _ _

/-- Induction on the fuel, which the three readers share. -/
theorem reads_readers (fuel : Nat) :
    ReadsValue (α := α) fuel ∧ ReadsItems (α := α) fuel ∧ ReadsMembers (α := α) fuel := by
  induction fuel with
  | zero =>
      exact ⟨fun _ => ends_complaint (by decide) _ _,
        fun _ => ends_complaint (by decide) _ _,
        fun _ _ _ => ends_complaint (by decide) _ _⟩
  | succ fuel ih =>
      obtain ⟨value, items, members⟩ := ih
      exact ⟨reads_readValue items members, reads_readItems value items,
        reads_readMembers value members⟩

theorem ends_readAll (cs : List Char) :
    Ends (Stop.Genuine cs) (fun v : Value α => v.Decoded) (readAll cs) := by
  unfold readAll
  split
  · exact ends_complaint (by decide) _ _
  · refine (((reads_readers _).1 _).of_suffix (skip_suffix cs)).bind fun r hr => ?_
    dsimp only
    split
    · exact hr.1
    · exact ends_complaint (by decide) _ _

/-- A document is a decoded value, or what stands in for it. Its text is at fault if it is no
JSON, which is reported, or has a number that is too long or a lone surrogate. -/
theorem ends_document (text : String) {fallback : Value α} (h : fallback.Decoded) :
    Ends (fun e => e.isReported = true ∨
        (∃ digits, e = .tooManyDigits digits ∧ (Stop.tooLong digits).Genuine text.toList) ∨
        e = .loneSurrogate ∧ HasLoneSurrogate text.toList)
      Value.Decoded (document (some text) fallback) := by
  have all := ends_readAll (α := α) text.toList
  unfold document
  dsimp only
  split
  · split
    · exact .map (d := ∅) fun e he => absurd he List.not_mem_nil
    · exact h
  · split
    · rename_i v hv
      rw [hv] at all
      exact all
    · rename_i hlone
      rw [hlone] at all
      exact .inr (.inr ⟨rfl, all rfl⟩)
    · exact .inl rfl
    · rename_i digits hd
      rw [hd] at all
      exact .inr (.inl ⟨digits, rfl, all⟩)

end Values

end BackwardInduction.Json
