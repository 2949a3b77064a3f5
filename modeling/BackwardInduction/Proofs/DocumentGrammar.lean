import BackwardInduction.Proofs.ClampedDiscounts
import BackwardInduction.Proofs.InstanceRequirements
import BackwardInduction.Proofs.ModelGrammar

/-!
Which decoded values are problem documents. Each entry is told by itself, without its
reader, but for the models, which are read with the names of the states and under the layout
that is asked for or given. A value is accepted exactly if it is a document in this sense,
and all that is found wrong with another one is a fault of the document or of a model in it.
-/

namespace BackwardInduction

variable {α : Type}

/-- Faults of a document, or of a model in it. -/
def Fault.IsFormat (e : Fault) : Prop :=
  e.kind = .document ∨ e.kind = .model ∨ e.kind = .ambiguity ∨ e.kind = .emptyRow

namespace Problem

section Entries

/-- The value lists the names: in one text, or in texts of their own. -/
inductive ListsNames : Value α → List String → Prop
  | text (s : String) : ListsNames (.text s) (Text.names s)
  | list (texts : List String) :
      ListsNames (.list (texts.map .text)) ((texts.map Text.trim).filter (!·.isEmpty))

/-- The value is a whole number, or a text that reads as one between its blank ends. -/
inductive StatesHorizon : Value α → Int → Prop
  | number (i : Int) : StatesHorizon (.number (.whole i)) i
  | text {s : String} {i : Int} (h : Numeral.readWhole (Text.trim s) = .ok i) :
      StatesHorizon (.text s) i

variable [Scalar α]

/-- The value is a number, or a text that reads as one between its blank ends. -/
inductive IsDiscount : Value α → Prop
  | number (n : Number α) : IsDiscount (.number n)
  | text {s : String} {g : α} (h : Scalar.ofText? (Text.trim s) = some g) : IsDiscount (.text s)

/-- The layout is one of the three, and it is asked for or else given by the document. -/
structure GivesLayout (override : Option String) (entries : Entries α) (layout : Layout) :
    Prop where
  known : layout.isKnown = true
  given : match override.filter (!·.isEmpty) with
    | some name => name = layout.name
    | none => givenLayout entries = .text layout.name

/-- A mapping to amounts. -/
def IsSalvage (v : Value α) : Prop :=
  ∃ entries, v = .map entries ∧ ∀ e ∈ entries, e.2.IsAmount

/-- An entry that is missing or counts as nothing, or else has the property. -/
def EntryIs (entries : Entries α) (name : String) (P : Value α → Prop) : Prop :=
  ∀ v, entries.get? name = some v → v.isNothing = true ∨ P v

/-- Both models are accepted with the states and under the layout of the document. -/
def GivesModels (override : Option String) (entries : Entries α) : Prop :=
  ∃ v states layout, entries.get? "states" = some v ∧ ListsNames v states ∧
    GivesLayout override entries layout ∧
    EntryIs entries "costs" (fun w => ∃ m, (readCosts w states layout).result = .ok m) ∧
    EntryIs entries "transitions" (fun w => ∃ m, (readTransitions w states layout).result = .ok m)

/-- The entries are those of a problem document. -/
structure IsDocument (override : Option String) (entries : Entries α) : Prop where
  actions : ∃ v actions, entries.get? "actions" = some v ∧ ListsNames v actions
  horizon : ∃ v i, (entries.get? "horizon").or (entries.get? "stages") = some v ∧
    StatesHorizon v i
  discount : ∀ v, entries.get? "discount" = some v → IsDiscount v
  models : GivesModels override entries
  salvage : EntryIs entries "salvage" IsSalvage

/-- The discount of the document is in the range of the arithmetic, and no key of its models
is a stage beyond the digit limit. -/
structure WithinLimits (entries : Entries α) : Prop where
  discount : ∀ v, entries.get? "discount" = some v → ¬v.IsBeyondRange
  keys : ∀ name ∈ ["costs", "transitions"], ∀ v, entries.get? name = some v → v.KeysWithin

end Entries

section Reading

theorem mapM_textOf?_eq_some_iff (items : List (Value α)) (texts : List String) :
    items.mapM textOf? = some texts ↔ items = texts.map .text := by
  constructor
  · intro h
    induction items generalizing texts with
    | nil =>
        cases h
        rfl
    | cons item items ih =>
        rw [List.mapM_cons] at h
        obtain ⟨s, hs, h⟩ := Option.bind_eq_some_iff.mp h
        obtain ⟨rest, hrest, h⟩ := Option.bind_eq_some_iff.mp h
        cases h
        rw [ih rest hrest, List.map_cons]
        cases item with
        | text _ =>
            cases hs
            rfl
        | _ => cases hs
  · rintro rfl
    exact mapM_textOf?_texts texts

theorem namesOf_eq_ok_iff (source entry : String) (v : Value α) (names : List String) :
    namesOf source entry v = .ok names ↔ ListsNames v names := by
  constructor
  · intro h
    unfold namesOf at h
    split at h
    · cases h
      exact .text _
    · split at h
      · rename_i texts htexts
        cases h
        rw [(mapM_textOf?_eq_some_iff _ texts).mp htexts]
        exact .list texts
      · cases h
    · cases h
  · rintro (s | texts)
    · rfl
    · simp only [namesOf, mapM_textOf?_texts]

theorem horizonOf_eq_ok_iff (source : String) (v : Value α) (i : Int) :
    horizonOf source v = .ok i ↔ StatesHorizon v i := by
  constructor
  · intro h
    unfold horizonOf at h
    split at h
    · cases h
      exact .number i
    · split at h
      · rename_i hs
        cases h
        exact .text hs
      · cases h
    · cases h
  · rintro (i | h)
    · rfl
    · rw [horizonOf, h]

variable [Scalar α]

theorem exists_discountOf_iff (source : String) {v : Value α} (hv : ¬v.IsBeyondRange) :
    (∃ g, discountOf source v = .ok g) ↔ IsDiscount v := by
  simp only [discountOf_eq_ok_iff]
  constructor
  · rintro ⟨g, g | _ | h⟩
    · exact .number _
    · exact .number _
    · exact .text h
  · rintro (n | h)
    · cases n with
      | real g => exact ⟨g, .real g⟩
      | whole i =>
          obtain ⟨g, hg⟩ := Option.ne_none_iff_exists'.mp fun hi => hv ⟨i, rfl, hi⟩
          exact ⟨g, .whole hg⟩
    · exact ⟨_, .text h⟩

omit [Scalar α] in
theorem ofName_eq_iff {name : String} {layout : Layout} (h : layout.isKnown = true) :
    Layout.ofName name = layout ↔ name = layout.name := by
  constructor
  · rintro rfl
    unfold Layout.ofName at h ⊢
    split
    · assumption
    · split
      · assumption
      · split
        · assumption
        · simp_all [Layout.isKnown]
  · rintro rfl
    cases layout with
    | unknown name => cases h
    | auto | stationary | timeVarying => rfl

theorem layoutOf_eq_ok_iff (source : String) (override : Option String) (entries : Entries α)
    (layout : Layout) :
    layoutOf source override entries = .ok layout ↔ GivesLayout override entries layout := by
  constructor
  · intro h
    unfold layoutOf at h
    dsimp only at h
    split at h
    · cases h
    · rename_i known' hchosen
      cases h
      have known : layout.isKnown = true := by
        cases layout with
        | unknown name => exact (known' name rfl).elim
        | auto | stationary | timeVarying => rfl
      obtain ⟨s, hs, named⟩ := Option.map_eq_some_iff.mp hchosen
      have name_eq := (ofName_eq_iff known).mp named
      refine ⟨known, ?_⟩
      cases hasked : override.filter (!·.isEmpty) with
      | some name =>
          rw [hasked] at hs
          cases hs
          exact name_eq
      | none =>
          rw [hasked] at hs
          change textOf? (givenLayout entries) = some s at hs
          cases hgiven : givenLayout entries with
          | text t =>
              rw [hgiven] at hs
              cases hs
              exact congrArg Value.text name_eq
          | _ =>
              rw [hgiven] at hs
              cases hs
    · cases h
  · rintro ⟨known, given⟩
    have named : Layout.ofName layout.name = layout := (ofName_eq_iff known).mpr rfl
    unfold layoutOf
    cases hasked : override.filter (!·.isEmpty) with
    | some name =>
        rw [hasked] at given
        dsimp only at given
        subst given
        simp only [textOf?, Option.map_some, named]
        cases layout <;> first | rfl | cases known
    | none =>
        rw [hasked] at given
        change (entries.get? "layout").getD _ = _ at given
        simp only [given, textOf?, Option.map_some, named]
        cases layout <;> first | rfl | cases known

/-- A missing entry counts as the empty mapping, which has the property. -/
theorem tableEntry_iff {P : Value α → Prop} (hempty : P (.map [])) (entries : Entries α)
    (name : String) : P (tableEntry entries name) ↔ EntryIs entries name P := by
  unfold tableEntry EntryIs
  cases entries.get? name with
  | none => simp [hempty]
  | some v =>
      by_cases hv : v.isNothing = true
      · simp [hv, hempty]
      · simp [hv]

theorem exists_model_empty {β : Type} (r : CellReader α β) (states : List String)
    {layout : Layout} (hlayout : layout.isKnown = true) :
    ∃ m, (r.model (.map []) states layout).result = .ok m := by
  cases layout with
  | unknown name => cases hlayout
  | auto | stationary | timeVarying => exact ⟨_, rfl⟩

theorem exists_readSalvage_iff (hfinite : Scalar.isFinite (0 : α) = true) {v : Value α}
    (hv : v ≠ .null) : (∃ d, readSalvage v = .ok d) ↔ IsSalvage v := by
  unfold readSalvage
  split
  · exact absurd rfl hv
  · rw [exists_readDict_iff]
    simp only [readNumber_eq_ok_iff, IsSalvage, Value.isAmount_iff hfinite, Value.Amount]

theorem horizonEntry_of_or {entries : Entries α} {v : Value α}
    (h : (entries.get? "horizon").or (entries.get? "stages") = some v) :
    horizonEntry entries = v := by
  unfold horizonEntry
  cases hentry : entries.get? "horizon" with
  | none =>
      rw [hentry, Option.none_or] at h
      rw [Option.getD_none, h, Option.getD_some]
  | some w =>
      rw [hentry, Option.some_or] at h
      exact Option.some.inj h

end Reading

variable [Scalar α] {source : String} {override : Option String} {entries : Entries α}

theorem IsDocument.missing_eq (h : IsDocument override entries) : missing entries = [] := by
  obtain ⟨_, _, _, states, _⟩ := h.models
  obtain ⟨_, _, actions, _⟩ := h.actions
  obtain ⟨_, _, horizon, _⟩ := h.horizon
  rw [missing_eq_nil_iff, ← Bool.or_eq_true, ← Option.isSome_or, states, actions, horizon]
  exact ⟨rfl, rfl, rfl⟩

section Acceptance

variable (hfinite : Scalar.isFinite (0 : α) = true)
  (hrange : ∀ v, entries.get? "discount" = some v → ¬v.IsBeyondRange)
include hfinite hrange

theorem Describes.isDocument {p : Problem α} (h : Describes source override entries p) :
    IsDocument override entries := by
  obtain ⟨someStates, someActions, someHorizon⟩ := (missing_eq_nil_iff entries).mp h.missing_eq
  obtain ⟨v, hstates⟩ := Option.isSome_iff_exists.mp someStates
  obtain ⟨w, hactions⟩ := Option.isSome_iff_exists.mp someActions
  rw [← Bool.or_eq_true, ← Option.isSome_or] at someHorizon
  obtain ⟨u, hhorizon⟩ := Option.isSome_iff_exists.mp someHorizon
  have states := h.states_eq
  rw [hstates, Option.getD_some, namesOf_eq_ok_iff] at states
  have actions := h.actions_eq
  rw [hactions, Option.getD_some, namesOf_eq_ok_iff] at actions
  have horizon := h.horizon_eq
  rw [horizonEntry_of_or hhorizon, horizonOf_eq_ok_iff] at horizon
  obtain ⟨layout, hlayout, hcosts, htransitions⟩ := h.models_eq
  have given := (layoutOf_eq_ok_iff source override entries layout).mp hlayout
  refine ⟨⟨w, _, hactions, actions⟩, ⟨u, _, hhorizon, horizon⟩, ?_,
    ⟨v, _, layout, hstates, states, given, ?_, ?_⟩, ?_⟩
  · intro x hx
    obtain ⟨g, hg, _⟩ := h.discount_eq
    rw [hx, Option.getD_some] at hg
    exact (exists_discountOf_iff source (hrange x hx)).mp ⟨g, hg⟩
  · exact (tableEntry_iff (exists_model_empty costCells _ given.known) entries _).mp ⟨_, hcosts⟩
  · exact (tableEntry_iff (exists_model_empty transitionCells _ given.known) entries _).mp
      ⟨_, htransitions⟩
  · intro x hx
    by_cases nothing : x.isNothing = true
    · exact .inl nothing
    · have filled : x ≠ .null := fun hnull => nothing (hnull ▸ rfl)
      have salvage := h.salvage_eq
      rw [tableEntry, hx] at salvage
      simp only [nothing, Bool.false_eq_true, if_false] at salvage
      exact .inr ((exists_readSalvage_iff hfinite filled).mp ⟨_, salvage⟩)

theorem IsDocument.exists_describes (h : IsDocument override entries) :
    ∃ p, Describes source override entries p := by
  obtain ⟨v, states, layout, hstates, names, given, costs, transitions⟩ := h.models
  obtain ⟨w, actions, hactions, actionNames⟩ := h.actions
  obtain ⟨u, i, hhorizon, horizon⟩ := h.horizon
  obtain ⟨m, hm⟩ :=
    (tableEntry_iff (exists_model_empty costCells states given.known) entries _).mpr costs
  obtain ⟨t, ht⟩ :=
    (tableEntry_iff (exists_model_empty transitionCells states given.known) entries _).mpr
      transitions
  have discount : ∃ g,
      discountOf source ((entries.get? "discount").getD (.number (.real 1))) = .ok g := by
    cases hentry : entries.get? "discount" with
    | none => exact ⟨1, rfl⟩
    | some x => exact (exists_discountOf_iff source (hrange x hentry)).mpr (h.discount x hentry)
  obtain ⟨g, hg⟩ := discount
  have salvage : ∃ d, readSalvage (tableEntry entries "salvage") = .ok d := by
    refine (tableEntry_iff (P := fun x => ∃ d, readSalvage x = .ok d) ⟨∅, rfl⟩ entries _).mpr
      fun x hx => ?_
    rcases h.salvage x hx with nothing | amounts
    · exact .inl nothing
    · have filled : x ≠ .null := by
        rintro rfl
        obtain ⟨_, hnull, _⟩ := amounts
        cases hnull
      exact .inr ((exists_readSalvage_iff hfinite filled).mpr amounts)
  obtain ⟨d, hd⟩ := salvage
  refine ⟨{ states, actions, horizon := i, discount := .real g, costs := m, transitions := t,
            salvage := d }, h.missing_eq, ?_, ?_, ?_, ⟨g, hg, rfl⟩,
    ⟨layout, (layoutOf_eq_ok_iff source override entries layout).mpr given, hm, ht⟩, hd⟩
  · rw [hstates, Option.getD_some, namesOf_eq_ok_iff]
    exact names
  · rw [hactions, Option.getD_some, namesOf_eq_ok_iff]
    exact actionNames
  · rw [horizonEntry_of_or hhorizon, horizonOf_eq_ok_iff]
    exact horizon

end Acceptance

section Faults

omit [Scalar α] in
theorem isFormat_namesOf (source entry : String) (v : Value α) :
    Ends Fault.IsFormat (fun _ => True) (namesOf source entry v) := by
  unfold namesOf
  split
  · trivial
  · split
    · trivial
    · exact .inl rfl
  · exact .inl rfl

omit [Scalar α] in
theorem isFormat_horizonOf (source : String) (v : Value α) :
    Ends Fault.IsFormat (fun _ => True) (horizonOf source v) := by
  unfold horizonOf
  split
  · trivial
  · split
    · trivial
    · exact .inl rfl
  · exact .inl rfl

theorem isFormat_discountOf (source : String) {v : Value α} (hv : ¬v.IsBeyondRange) :
    Ends Fault.IsFormat (fun _ => True) (discountOf source v) := by
  unfold discountOf
  split
  · trivial
  · rename_i i
    split
    · trivial
    · rename_i hi
      exact absurd ⟨i, rfl, hi⟩ hv
  · split
    · trivial
    · exact .inl rfl
  · exact .inl rfl

theorem isFormat_layoutOf (source : String) (override : Option String) (entries : Entries α) :
    Ends Fault.IsFormat (fun layout => layout.isKnown = true)
      (layoutOf source override entries) := by
  cases h : layoutOf source override entries with
  | ok layout => exact ((layoutOf_eq_ok_iff source override entries layout).mp h).known
  | error e =>
      unfold layoutOf at h
      dsimp only at h
      split at h <;> cases h <;> exact .inl rfl

theorem keysWithin_tableEntry {name : String}
    (h : ∀ v, entries.get? name = some v → v.KeysWithin) :
    (tableEntry entries name).KeysWithin := by
  refine (tableEntry_iff (P := Value.KeysWithin) ?_ entries name).mpr fun v hv => .inr (h v hv)
  intro raw hraw key hkey
  obtain ⟨v, hv⟩ := (raw.mem_keys key).mp hkey
  have none : raw.entries = [] := List.map_eq_nil_iff.mp (Value.map.inj hraw).symm
  rw [none] at hv
  cases hv

/-- What is wrong with the entries is wrong with the document or with a model in it. -/
theorem isFormat_ofEntries (hentries : ∀ e ∈ entries, e.2.Decoded)
    (hlimits : WithinLimits entries) (source : String) (override : Option String) :
    Ends Fault.IsFormat (fun _ => True) (ofEntries source override entries).result := by
  have model {β : Type} {r : CellReader α β} (hr : r.MalformsCells) (states : List String)
      {layout : Layout} (hlayout : layout.isKnown = true) {name : String}
      (hname : name ∈ ["costs", "transitions"]) :
      Ends Fault.IsFormat (fun _ => True)
        (r.model (tableEntry entries name) states layout).result := by
    cases h : (r.model (tableEntry entries name) states layout).result with
    | ok m => trivial
    | error e =>
        rcases CellReader.kind_of_model_error hr (decoded_tableEntry hentries name)
          (keysWithin_tableEntry (hlimits.keys name hname)) hlayout h with he | he
        · exact .inr (.inr (.inl he.1))
        · exact .inr (.inl he.1)
  have discount : ¬((entries.get? "discount").getD (.number (.real 1))).IsBeyondRange := by
    cases hentry : entries.get? "discount" with
    | none => exact nofun
    | some v => exact hlimits.discount v hentry
  have salvage (v : Value α) : Ends Fault.IsFormat (fun _ => True) (readSalvage v) := by
    unfold readSalvage
    split
    · trivial
    · exact (malforms_readDict malforms_readNumber _ _).imp (fun _ he => .inr (.inl he))
        fun _ => id
  by_cases hmissing : missing entries = []
  · rw [result_ofEntries hmissing]
    refine (isFormat_namesOf _ _ _).bind fun states _ => ?_
    refine (isFormat_namesOf _ _ _).bind fun actions _ => ?_
    refine (isFormat_horizonOf _ _).bind fun horizon _ => ?_
    refine (isFormat_discountOf source discount).bind fun g _ => ?_
    refine (isFormat_layoutOf source override entries).bind fun layout hlayout => ?_
    refine (model malforms_costCells states hlayout (by simp)).bind fun costs _ => ?_
    refine (model malforms_transitionCells states hlayout (by simp)).bind fun transitions _ => ?_
    exact (salvage _).bind fun _ _ => trivial
  · rw [result_ofEntries_missing hmissing]
    exact .inl rfl

end Faults

/-- A decoded value is accepted exactly if it is a problem document, and if it is not, a fault of
the document or of a model in it says so. -/
theorem accepts_documents (hfinite : Scalar.isFinite (0 : α) = true) {document : Value α}
    (hdocument : document.Decoded)
    (hlimits : ∀ entries, document = .map entries → WithinLimits entries) (source : String)
    (override : Option String) :
    ((∃ p, (ofDocument document source override).result = .ok p) ↔
      ∃ entries, document = .map entries ∧ IsDocument override entries) ∧
    ∀ e, (ofDocument document source override).result = .error e → e.IsFormat := by
  cases hdocument with
  | @map d hd =>
      have limits := hlimits _ rfl
      constructor
      · have accepted := exists_congr fun p =>
          ofEntries_eq_ok_iff source override d.toEntries p
        refine accepted.trans ⟨fun ⟨p, h⟩ => ⟨_, rfl, h.isDocument hfinite limits.discount⟩, ?_⟩
        rintro ⟨_, ⟨⟩, h⟩
        exact h.exists_describes hfinite limits.discount
      · intro e he
        have ends := isFormat_ofEntries (Dict.forall_toEntries hd) limits source override
        change (ofEntries source override _).result = .error e at he
        rw [he] at ends
        exact ends
  | null | bool _ | number _ | text _ | list _ =>
      refine ⟨iff_of_false ?_ ?_, ?_⟩
      · rintro ⟨p, hp⟩
        cases hp
      · rintro ⟨entries, h, _⟩
        cases h
      · rintro e ⟨⟩
        exact .inl rfl

section Examples

/-- A document with the other spelling of each entry, and without those it may leave out. -/
def looseEntries : Dict String (Value Float) :=
  .ofList
    [ ("states", .text " A, 1 ,"), ("actions", .list [.text " go "]), ("stages", .text " 0_7 "),
      ("discount", .text " 5e-1 "), ("costs", .bool false), ("layout", .text "stationary") ]

theorem decoded_looseEntries : (Value.map looseEntries.toEntries).Decoded := by
  refine Value.decoded_ofList ?_
  simp only [List.forall_mem_cons, List.not_mem_nil, false_imp_iff, implies_true, and_true]
  refine ⟨.text _, .list ?_, .text _, .text _, .bool _, .text _⟩
  exact List.forall_mem_singleton.mpr (.text _)

theorem withinLimits_looseEntries : WithinLimits looseEntries.toEntries := by
  constructor
  · rintro v hv ⟨i, rfl, _⟩
    cases hv
  · intro name hname v hv raw hraw
    subst hraw
    rcases List.mem_pair.mp hname with rfl | rfl <;> cases hv

theorem looseEntries_accepted :
    IsDocument none looseEntries.toEntries ∧
      ∃ e, (ofDocument (.map looseEntries.toEntries) "loose" (some "flat")).result =
        .error e ∧
        e.IsFormat := by
  have accepts := accepts_documents (α := Float) (by decide +kernel) decoded_looseEntries
    (fun _ h => Value.map.inj h ▸ withinLimits_looseEntries) "loose"
  constructor
  · obtain ⟨p, hp, _⟩ := exists_ok_of_map_toOption (f := fun _ => ()) (c := ())
      (x := (ofDocument (.map looseEntries.toEntries) "loose").result) (by decide +kernel)
    obtain ⟨_, heq, h⟩ := (accepts none).1.mp ⟨p, hp⟩
    exact Value.map.inj heq ▸ h
  · have refused : (ofDocument (.map looseEntries.toEntries) "loose"
      (some "flat")).result.toOption.isNone = true := by decide +kernel
    cases he : (ofDocument (.map looseEntries.toEntries) "loose" (some "flat")).result with
    | ok p =>
        rw [he] at refused
        cases refused
    | error e => exact ⟨e, rfl, (accepts (some "flat")).2 e he⟩

/-- A document whose discount has a separator in front, which is blank and no part of a numeral. -/
def separatedEntries : Dict String (Value Float) :=
  .ofList
    [ ("states", .list [.text "A"]), ("actions", .list [.text "a"]),
      ("horizon", .number (.whole 1)), ("discount", .text "\u001c0.5") ]

/-- The document is accepted though its discount as it stands does not read as a number. -/
theorem separatedEntries_accepted :
    (Value.map separatedEntries.toEntries).Decoded ∧ WithinLimits separatedEntries.toEntries ∧
      (∃ p, (ofDocument (.map separatedEntries.toEntries)).result = .ok p) ∧
      separatedEntries.toEntries.get? "discount" = some (.text "\u001c0.5") ∧
      (Scalar.ofText? "\u001c0.5" : Option Float) = none := by
  refine ⟨Value.decoded_ofList ?_, ⟨?_, ?_⟩, ?_, rfl, by decide +kernel⟩
  · simp only [List.forall_mem_cons, List.not_mem_nil, false_imp_iff, implies_true, and_true]
    exact ⟨.list (List.forall_mem_singleton.mpr (.text _)),
      .list (List.forall_mem_singleton.mpr (.text _)), .number _, .text _⟩
  · rintro v hv ⟨i, rfl, _⟩
    cases hv
  · intro name hname v hv
    rcases List.mem_pair.mp hname with rfl | rfl <;> cases hv
  · obtain ⟨p, hp, _⟩ := exists_ok_of_map_toOption (f := fun _ => ()) (c := ())
      (x := (ofDocument (.map separatedEntries.toEntries)).result) (by decide +kernel)
    exact ⟨p, hp⟩

end Examples

end Problem

end BackwardInduction
