import BackwardInduction.Proofs.FlattenedModels
import BackwardInduction.Proofs.JsonValues

/-!
What a problem document must be to describe a problem, and that a problem written as
a document is described by it again. The stages come back in ascending order; only a
stage whose text is the name of a state makes the document ambiguous.
-/

namespace BackwardInduction

variable {α β : Type}

namespace Problem

section Parts

theorem mapM_textOf?_texts (names : List String) :
    (names.map Value.text).mapM (textOf? (α := α)) = some names := by
  induction names with
  | nil => rfl
  | cons name names ih =>
      rw [List.map_cons, List.mapM_cons, ih]
      rfl

theorem isName_of_namesOf {source entry : String} {v : Value α} {names : List String}
    (h : namesOf source entry v = .ok names) : ∀ name ∈ names, Text.IsName name := by
  intro name hname
  unfold namesOf at h
  split at h
  · cases h
    exact Text.isName_of_mem_names hname
  · split at h
    · cases h
      obtain ⟨hm, hne⟩ := List.mem_filter.mp hname
      obtain ⟨s, _, rfl⟩ := List.mem_map.mp hm
      exact Text.isName_trim (by simpa using hne)
    · cases h
  · cases h

/-- Names are read back as they were written. -/
theorem namesOf_namesValue (source entry : String) {names : List String}
    (h : ∀ name ∈ names, Text.IsName name) :
    namesOf source entry (namesValue names : Value α) = .ok names := by
  have trimmed : names.map Text.trim = names := by
    conv_rhs => rw [← List.map_id names]
    exact List.map_congr_left fun name hname => (h name hname).1
  have kept : names.filter (!·.isEmpty) = names :=
    List.filter_eq_self.mpr fun name hname => by simp [(h name hname).2]
  simp only [namesOf, namesValue, mapM_textOf?_texts, trimmed, kept]

end Parts

variable [Scalar α]

/-- The entries are those of a document of this problem. -/
structure Describes (source : String) (override : Option String) (entries : Entries α)
    (p : Problem α) : Prop where
  missing_eq : missing entries = []
  states_eq : namesOf source "states" ((entries.get? "states").getD .null) = .ok p.states
  actions_eq : namesOf source "actions" ((entries.get? "actions").getD .null) = .ok p.actions
  horizon_eq : horizonOf source (horizonEntry entries) = .ok p.horizon
  discount_eq : ∃ g, discountOf source ((entries.get? "discount").getD (.number (.real 1))) =
    .ok g ∧ p.discount = .real g
  models_eq : ∃ layout, layoutOf source override entries = .ok layout ∧
    (readCosts (tableEntry entries "costs") p.states layout).result = .ok p.costs ∧
    (readTransitions (tableEntry entries "transitions") p.states layout).result =
      .ok p.transitions
  salvage_eq : readSalvage (tableEntry entries "salvage") = .ok p.salvage

theorem result_ofEntries {source : String} {override : Option String} {entries : Entries α}
    (hmissing : missing entries = []) :
    (ofEntries source override entries).result =
      namesOf source "states" ((entries.get? "states").getD .null) >>= fun states =>
      namesOf source "actions" ((entries.get? "actions").getD .null) >>= fun actions =>
      horizonOf source (horizonEntry entries) >>= fun horizon =>
      discountOf source ((entries.get? "discount").getD (.number (.real 1))) >>= fun discount =>
      layoutOf source override entries >>= fun layout =>
      (readCosts (tableEntry entries "costs") states layout).result >>= fun costs =>
      (readTransitions (tableEntry entries "transitions") states layout).result >>=
        fun transitions =>
      readSalvage (tableEntry entries "salvage") >>= fun salvage =>
      .ok { states, actions, horizon, discount := .real discount, costs, transitions,
            salvage } := by
  simp only [ofEntries, hmissing, List.isEmpty_nil, Bool.not_true, Bool.false_eq_true, if_false,
    Traced.result_bind, Traced.result_liftM, Traced.result_pure]

theorem result_ofEntries_missing {source : String} {override : Option String}
    {entries : Entries α} (hmissing : missing entries ≠ []) :
    (ofEntries source override entries).result =
      .error (.missingEntries source (missing entries)) := by
  have some_missing : (!(missing entries).isEmpty) = true := by simp [hmissing]
  simp only [ofEntries, some_missing, if_true]
  rfl

theorem ofEntries_eq_ok_iff (source : String) (override : Option String)
    (entries : Entries α) (p : Problem α) :
    (ofEntries source override entries).result = .ok p ↔
      Describes source override entries p := by
  by_cases hmissing : missing entries = []
  · rw [result_ofEntries hmissing]
    simp only [bind_eq_ok_iff]
    constructor
    · intro h
      obtain ⟨states, hs, actions, ha, horizon, hh, g, hg, layout, hl, costs, hc,
        transitions, ht, salvage, hz, heq⟩ := h
      cases heq
      exact ⟨hmissing, hs, ha, hh, ⟨g, hg, rfl⟩, ⟨layout, hl, hc, ht⟩, hz⟩
    · intro h
      obtain ⟨g, hg, hp⟩ := h.discount_eq
      obtain ⟨layout, hl, hc, ht⟩ := h.models_eq
      exact ⟨_, h.states_eq, _, h.actions_eq, _, h.horizon_eq, g, hg, layout, hl, _, hc, _, ht,
        _, h.salvage_eq, by rw [← hp]⟩
  · constructor
    · intro h
      rw [result_ofEntries_missing hmissing] at h
      cases h
    · intro h
      exact absurd h.missing_eq hmissing

theorem decoded_tableEntry {entries : Entries α} (h : ∀ e ∈ entries, e.2.Decoded)
    (name : String) : (tableEntry entries name).Decoded := by
  rw [tableEntry]
  split
  · split
    · exact .map (d := ∅) nofun
    · rename_i hv _
      exact h _ (Entries.mem_of_get? hv)
  · exact .map (d := ∅) nofun

section Writing

/-- The entries of the document that is written for a problem. -/
def documentEntries (p : Problem α) : Entries α :=
  [ Value.entry "states" (namesValue p.states),
    Value.entry "actions" (namesValue p.actions),
    Value.entry "horizon" (.number (.whole p.horizon)),
    Value.entry "discount" (.number p.discount),
    Value.entry "costs" (flatValue (Model.flatten scalarValue p.costs)),
    Value.entry "transitions" (flatValue (Model.flatten Row.toValue p.transitions)),
    Value.entry "salvage" (Dict.toValue scalarValue p.salvage) ] ++
  p.layoutEntry

/-- The layout under which the written document is read. -/
def writtenLayout (p : Problem α) : Layout :=
  match p.costs, p.transitions with
  | .stationary _, .stationary _ => .stationary
  | _, _ => .auto

omit [Scalar α] in
theorem decoded_namesValue (names : List String) : (namesValue names : Value α).Decoded := by
  refine .list fun v hv => ?_
  obtain ⟨name, _, rfl⟩ := List.mem_map.mp hv
  exact .text name

omit [Scalar α] in
theorem decoded_flatten {write : β → Value α} (h : ∀ b, (write b).Decoded) (m : Model β) :
    (flatValue (m.flatten write)).Decoded := by
  have cells (t : Table β) :
      (t.mapValues fun _ cells => Dict.toValue write cells).All Value.Decoded :=
    Dict.all_mapValues fun e _ => Value.decoded_toValue h e.2
  have flat : (m.flatten write).All Value.Decoded := by
    cases m with
    | stationary table => exact cells table
    | timeVarying stages fallback =>
        refine Dict.all_update (Dict.all_ofList fun e he => ?_) (cells fallback)
        obtain ⟨e', _, rfl⟩ := List.mem_map.mp he
        exact Value.decoded_toValue (Value.decoded_toValue h) e'.2
  exact .map flat

omit [Scalar α] in
/-- The entries that are written for a problem hold decoded values. -/
theorem decoded_documentEntries (p : Problem α) : ∀ e ∈ p.documentEntries, e.2.Decoded := by
  have layout : ∀ e ∈ p.layoutEntry, e.2.Decoded := by
    unfold layoutEntry
    split
    · simp [Value.entry, Value.Decoded.text]
    · nofun
  have cost := decoded_flatten Value.decoded_scalarValue p.costs
  have row : (flatValue (p.transitions.flatten Row.toValue)).Decoded :=
    decoded_flatten (Value.decoded_toValue Value.decoded_scalarValue) p.transitions
  simp only [documentEntries, Value.entry, List.forall_mem_append, List.forall_mem_cons,
    List.not_mem_nil, false_imp_iff, implies_true, and_true]
  exact ⟨⟨decoded_namesValue _, decoded_namesValue _, .number _, .number _, cost, row,
    Value.decoded_toValue Value.decoded_scalarValue _⟩, layout⟩

theorem get?_entry_cons (key name : String) (v : Value α) (es : Entries α) :
    Entries.get? (Value.entry key v :: es) name =
      if key = name then some v else Entries.get? es name := by
  rw [Entries.get?_cons, Value.entry, Key.same_text]
  by_cases h : key = name <;> simp [h]

theorem get?_nil (name : String) : Entries.get? ([] : Entries α) name = none :=
  rfl

theorem missing_documentEntries (p : Problem α) : missing p.documentEntries = [] := by
  simp [missing, documentEntries, Entries.contains, Value.entry, Key.same_text]

theorem tableEntry_of_map {entries es : Entries α} {name : String}
    (h : entries.get? name = some (.map es)) : tableEntry entries name = .map es := by
  rw [tableEntry, h]
  cases es <;> rfl

theorem layoutOf_documentEntries (source : String) (p : Problem α) :
    layoutOf source none p.documentEntries = .ok p.writtenLayout := by
  obtain ⟨states, actions, horizon, discount, costs, transitions, salvage⟩ := p
  cases costs <;> cases transitions <;>
    simp [layoutOf, documentEntries, layoutEntry, writtenLayout, get?_entry_cons, get?_nil,
      textOf?, Layout.ofName, Layout.name]

/-- Reading a written document comes down to reading its models, whatever it is named. -/
theorem result_toDocument_named (source : String) {p : Problem α}
    (hstates : ∀ name ∈ p.states, Text.IsName name)
    (hactions : ∀ name ∈ p.actions, Text.IsName name) {g : α} (hdiscount : p.discount = .real g)
    (hsalvage : readSalvage (Dict.toValue scalarValue p.salvage) = .ok p.salvage) :
    (ofDocument p.toDocument source).result =
      (readCosts (flatValue (p.costs.flatten scalarValue)) p.states p.writtenLayout).result >>=
        fun costs =>
      (readTransitions (flatValue (p.transitions.flatten Row.toValue)) p.states
        p.writtenLayout).result >>= fun transitions =>
      .ok { p with costs, transitions } := by
  have states : p.documentEntries.get? "states" = some (namesValue p.states) := by
    simp [documentEntries, get?_entry_cons]
  have actions : p.documentEntries.get? "actions" = some (namesValue p.actions) := by
    simp [documentEntries, get?_entry_cons]
  have horizon : horizonEntry p.documentEntries = .number (.whole p.horizon) := by
    simp [horizonEntry, documentEntries, get?_entry_cons]
  have discount : p.documentEntries.get? "discount" = some (.number (.real g)) := by
    simp [documentEntries, get?_entry_cons, ← hdiscount]
  have costs : tableEntry p.documentEntries "costs" =
      flatValue (p.costs.flatten scalarValue) :=
    tableEntry_of_map (by simp [documentEntries, get?_entry_cons, flatValue, Dict.toValue])
  have transitions : tableEntry p.documentEntries "transitions" =
      flatValue (p.transitions.flatten Row.toValue) :=
    tableEntry_of_map (by simp [documentEntries, get?_entry_cons, flatValue, Dict.toValue])
  have salvage : tableEntry p.documentEntries "salvage" =
      Dict.toValue scalarValue p.salvage :=
    tableEntry_of_map (by simp [documentEntries, get?_entry_cons, Dict.toValue])
  change (ofEntries source none p.documentEntries).result = _
  simp only [result_ofEntries p.missing_documentEntries, states, actions, horizon, discount,
    costs, transitions, salvage, Option.getD_some, namesOf_namesValue _ _ hstates,
    namesOf_namesValue _ _ hactions, horizonOf, discountOf, layoutOf_documentEntries, hsalvage,
    hdiscount]
  rfl

theorem result_toDocument {p : Problem α} (hstates : ∀ name ∈ p.states, Text.IsName name)
    (hactions : ∀ name ∈ p.actions, Text.IsName name) {g : α} (hdiscount : p.discount = .real g)
    (hsalvage : readSalvage (Dict.toValue scalarValue p.salvage) = .ok p.salvage) :
    (ofDocument p.toDocument).result =
      (readCosts (flatValue (p.costs.flatten scalarValue)) p.states p.writtenLayout).result >>=
        fun costs =>
      (readTransitions (flatValue (p.transitions.flatten Row.toValue)) p.states
        p.writtenLayout).result >>= fun transitions =>
      .ok { p with costs, transitions } :=
  result_toDocument_named defaultSource hstates hactions hdiscount hsalvage

end Writing

end Problem

end BackwardInduction
