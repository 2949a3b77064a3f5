import BackwardInduction.Proofs.ProblemDocuments

/-!
The parts of a problem and the entries of a document that they are read from. Most parts have
one entry to themselves; the horizon has two, and a model is read with the states and under
the layout that the document gives. A part depends on nothing else: documents that are alike
there give the same part, and a document describes a problem if each part of it does so in
some document.
-/

namespace BackwardInduction
namespace Problem

variable {α : Type}

inductive Part where
  | states
  | actions
  | horizon
  | discount
  | costs
  | transitions
  | salvage
deriving DecidableEq

namespace Part

/-- The entry of a part in a document. -/
@[reducible]
def name : Part → String
  | .states => "states"
  | .actions => "actions"
  | .horizon => "horizon"
  | .discount => "discount"
  | .costs => "costs"
  | .transitions => "transitions"
  | .salvage => "salvage"

theorem name_injective : Function.Injective name := by
  intro part part' h
  cases part <;> cases part' <;> first | rfl | exact absurd h (by decide)

theorem name_ne_stages (part : Part) : part.name ≠ "stages" := by
  cases part <;> decide

theorem name_ne_layout (part : Part) : part.name ≠ "layout" := by
  cases part <;> decide

/-- Whether the part is read with the states and under a layout. -/
def isModel : Part → Bool
  | .costs | .transitions => true
  | _ => false

/-- The problems have this part in common. -/
def Same : Part → Problem α → Problem α → Prop
  | .states, p, q => p.states = q.states
  | .actions, p, q => p.actions = q.actions
  | .horizon, p, q => p.horizon = q.horizon
  | .discount, p, q => p.discount = q.discount
  | .costs, p, q => p.costs = q.costs
  | .transitions, p, q => p.transitions = q.transitions
  | .salvage, p, q => p.salvage = q.salvage

end Part

variable [Scalar α]

/-- The layout that a document gives for its models, where none is asked for besides. -/
def givenLayout (entries : Entries α) : Value α :=
  (entries.get? "layout").getD (.text Layout.auto.name)

theorem layoutOf_congr {entries entries' : Entries α}
    (h : givenLayout entries' = givenLayout entries) (source : String)
    (override : Option String) :
    layoutOf source override entries' = layoutOf source override entries := by
  unfold givenLayout at h
  simp only [layoutOf, h]

theorem layoutOf_of_auto {entries : Entries α} (h : givenLayout entries = .text Layout.auto.name)
    (source : String) : layoutOf source none entries = .ok .auto := by
  unfold givenLayout at h
  simp only [layoutOf, Option.filter_none, h]
  rfl

/-- The model that the document has for this part is the one of the problem, if it is read under
the layout. -/
def Part.IsRead (layout : Layout) (entries : Entries α) (p : Problem α) : Part → Prop
  | .costs => (readCosts (tableEntry entries "costs") p.states layout).result = .ok p.costs
  | .transitions =>
      (readTransitions (tableEntry entries "transitions") p.states layout).result =
        .ok p.transitions
  | _ => False

/-- What the part is read from is the same in both documents. -/
structure Part.ReadsAlike (part : Part) (entries entries' : Entries α) : Prop where
  entry_eq : entries'.get? part.name = entries.get? part.name
  stages_eq : part = .horizon → entries'.get? "stages" = entries.get? "stages"
  states_eq : part.isModel = true → entries'.get? "states" = entries.get? "states"
  layout_eq : part.isModel = true → givenLayout entries' = givenLayout entries

section Reading

theorem contains_eq_isSome (entries : Entries α) (name : String) :
    entries.contains name = (entries.get? name).isSome := by
  rw [Entries.contains, Entries.get?, Option.isSome_map, List.isSome_find?]

/-- Names, and a horizon under either of its names, must be there. -/
theorem missing_eq_nil_iff (entries : Entries α) :
    missing entries = [] ↔ (entries.get? "states").isSome = true ∧
      (entries.get? "actions").isSome = true ∧
        ((entries.get? "horizon").isSome = true ∨ (entries.get? "stages").isSome = true) := by
  simp only [missing, contains_eq_isSome, List.append_eq_nil_iff, List.filter_eq_nil_iff,
    List.mem_cons, List.not_mem_nil, or_false, forall_eq_or_imp, forall_eq, Bool.not_eq_true',
    Bool.not_eq_false, and_assoc]
  refine and_congr_right fun _ => and_congr_right fun _ => ?_
  split <;> simp_all

theorem tableEntry_congr {entries entries' : Entries α} {name : String}
    (h : entries'.get? name = entries.get? name) :
    tableEntry entries' name = tableEntry entries name := by
  rw [tableEntry, tableEntry, h]

theorem Part.ReadsAlike.horizonEntry_eq {entries entries' : Entries α}
    (h : Part.horizon.ReadsAlike entries entries') :
    horizonEntry entries' = horizonEntry entries := by
  have entry : entries'.get? "horizon" = entries.get? "horizon" := h.entry_eq
  rw [horizonEntry, horizonEntry, entry, h.stages_eq rfl]

end Reading

variable {source : String} {override : Option String} {entries entries' : Entries α}
  {p p' : Problem α}

theorem Describes.states_eq_of_get? (h : Describes source override entries p)
    (h' : Describes source override entries' p')
    (heq : entries'.get? "states" = entries.get? "states") : p'.states = p.states := by
  have states := h'.states_eq
  rw [heq, h.states_eq] at states
  exact (Except.ok.inj states).symm

/-- Documents that are alike in what a part is read from give the same part. -/
theorem Describes.same (h : Describes source override entries p)
    (h' : Describes source override entries' p') {part : Part}
    (alike : part.ReadsAlike entries entries') : part.Same p' p := by
  have entry := alike.entry_eq
  cases part with
  | states => exact h.states_eq_of_get? h' entry
  | actions =>
      have actions := h'.actions_eq
      rw [entry, h.actions_eq] at actions
      exact (Except.ok.inj actions).symm
  | horizon =>
      have horizon := h'.horizon_eq
      rw [alike.horizonEntry_eq, h.horizon_eq] at horizon
      exact (Except.ok.inj horizon).symm
  | discount =>
      obtain ⟨g, hg, hp⟩ := h.discount_eq
      obtain ⟨g', hg', hp'⟩ := h'.discount_eq
      rw [entry, hg] at hg'
      exact hp'.trans (Except.ok.inj hg' ▸ hp.symm)
  | costs =>
      obtain ⟨layout, hlayout, hcosts, _⟩ := h.models_eq
      obtain ⟨layout', hlayout', hcosts', _⟩ := h'.models_eq
      rw [layoutOf_congr (alike.layout_eq rfl), hlayout, Except.ok.injEq] at hlayout'
      rw [tableEntry_congr entry, ← hlayout', h.states_eq_of_get? h' (alike.states_eq rfl),
        hcosts] at hcosts'
      exact (Except.ok.inj hcosts').symm
  | transitions =>
      obtain ⟨layout, hlayout, _, htransitions⟩ := h.models_eq
      obtain ⟨layout', hlayout', _, htransitions'⟩ := h'.models_eq
      rw [layoutOf_congr (alike.layout_eq rfl), hlayout, Except.ok.injEq] at hlayout'
      rw [tableEntry_congr entry, ← hlayout', h.states_eq_of_get? h' (alike.states_eq rfl),
        htransitions] at htransitions'
      exact (Except.ok.inj htransitions').symm
  | salvage =>
      have salvage := h'.salvage_eq
      rw [tableEntry_congr entry, h.salvage_eq] at salvage
      exact (Except.ok.inj salvage).symm

/-- A document describes a problem if what each part is read from is that of a document that
does. -/
theorem exists_describes (h : ∀ part : Part, ∃ (entries : Entries α) (p : Problem α),
      Describes source override entries p ∧ part.ReadsAlike entries entries') :
    ∃ p', Describes source override entries' p' := by
  choose base p describes alike using h
  have entry (part : Part) : entries'.get? part.name = (base part).get? part.name :=
    (alike part).entry_eq
  -- both models are read with the same states and under the same layout
  have states (part : Part) (hpart : part.isModel = true) :
      (p part).states = (p .states).states :=
    (describes .states).states_eq_of_get? (describes part)
      (((alike part).states_eq hpart).symm.trans (entry .states))
  obtain ⟨layout, hlayout, hcosts, _⟩ := (describes .costs).models_eq
  obtain ⟨layout', hlayout', _, htransitions⟩ := (describes .transitions).models_eq
  rw [← layoutOf_congr ((alike .costs).layout_eq rfl)] at hlayout
  rw [← layoutOf_congr ((alike .transitions).layout_eq rfl), hlayout, Except.ok.injEq] at hlayout'
  subst hlayout'
  refine ⟨{ states := (p .states).states, actions := (p .actions).actions,
            horizon := (p .horizon).horizon, discount := (p .discount).discount,
            costs := (p .costs).costs, transitions := (p .transitions).transitions,
            salvage := (p .salvage).salvage }, ?_, ?_, ?_, ?_, ?_, ⟨layout, hlayout, ?_, ?_⟩, ?_⟩
  · rw [missing_eq_nil_iff, entry .states, entry .actions, entry .horizon,
      (alike .horizon).stages_eq rfl]
    have missing (part : Part) := (missing_eq_nil_iff _).mp (describes part).missing_eq
    exact ⟨(missing .states).1, (missing .actions).2.1, (missing .horizon).2.2⟩
  · rw [entry .states]
    exact (describes .states).states_eq
  · rw [entry .actions]
    exact (describes .actions).actions_eq
  · rw [(alike .horizon).horizonEntry_eq]
    exact (describes .horizon).horizon_eq
  · rw [entry .discount]
    exact (describes .discount).discount_eq
  · rw [tableEntry_congr (entry .costs), ← states .costs rfl]
    exact hcosts
  · rw [tableEntry_congr (entry .transitions), ← states .transitions rfl]
    exact htransitions
  · rw [tableEntry_congr (entry .salvage)]
    exact (describes .salvage).salvage_eq

end Problem
end BackwardInduction
