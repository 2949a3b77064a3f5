import BackwardInduction.Proofs.AssembledDocuments
import BackwardInduction.Proofs.DocumentParts
import BackwardInduction.Scalar.Binary64

/-!
Parts of a problem document that options override. What an option gives takes the place of
the entry of its part, and the other parts are what the document says, with one exception: an
option that gives a model drops the layout of the document, so that this model is read as in
a document without one. Where the document gives no layout but the automatic one, nothing is
dropped. Else a model that no option gives, while the other one is replaced, stays what it is
if it is read alike without the layout; what becomes of it otherwise is not said here.
-/

namespace BackwardInduction.Command

open Options Problem

variable {α : Type} [Scalar α]

section Given

/-- The value that an option gives for an entry. A blank option gives the empty list. -/
def entryOf? {β : Type} (toValue : β → Value α) : Setting β → Option (Value α)
  | .unset => none
  | .blank => some (.list [])
  | .value b => some (toValue b)

/-- The value is what the file holds that an option names, and there is none if it names
none. -/
def FromFile (t : FileTree) : Setting Path → Option (Value α) → Prop
  | .unset, v? => v? = none
  | .blank, _ => False
  | .value path, v? => ∃ v, v? = some v ∧ t.Holds path v

/-- The options give these values for the parts, and nothing for those without one. -/
structure Settings.Gives (s : Settings α) (t : FileTree) (given : Part → Option (Value α)) :
    Prop where
  states_eq : given .states = entryOf? (fun text => namesValue (Text.names text)) s.states
  actions_eq : given .actions = entryOf? (fun text => namesValue (Text.names text)) s.actions
  horizon_eq : given .horizon = entryOf? (fun i => .number (.whole i)) s.horizon
  discount_eq : given .discount = entryOf? scalarValue s.discount
  costs : FromFile t s.costs (given .costs)
  transitions : FromFile t s.transitions (given .transitions)
  salvage : FromFile t s.salvage (given .salvage)

/-- The document with what is given for one part in the place of its entry. -/
def replaced (given : Part → Option (Value α)) (part : Part) (entries : Entries α) :
    Entries α :=
  match given part with
  | none => entries
  | some v => entries.set part.name v

/-- Whether a model is given. -/
def givesModel (given : Part → Option (Value α)) : Bool :=
  (given .costs).isSome || (given .transitions).isSome

/-- The document with all that is given in its place, and without its layout if a model is. -/
def overridden (given : Part → Option (Value α)) (base : Entries α) : Entries α :=
  let entries := replaced given .actions (replaced given .states base)
  let entries := replaced given .discount (replaced given .horizon entries)
  let entries := if givesModel given then entries.erase "layout" else entries
  replaced given .salvage (replaced given .transitions (replaced given .costs entries))

/-- The document without its layout, and with the models that are given in their place. -/
def unlaid (given : Part → Option (Value α)) (base : Entries α) : Entries α :=
  replaced given .transitions (replaced given .costs (base.erase "layout"))

variable (given : Part → Option (Value α)) (base : Entries α)

theorem get?_replaced_of_ne {part : Part} {name : String} (h : part.name ≠ name) :
    (replaced given part base).get? name = base.get? name := by
  unfold replaced
  split
  · rfl
  · rw [Entries.get?_set, if_neg h]

theorem get?_replaced (part part' : Part) :
    (replaced given part base).get? part'.name =
      if part = part' then (given part').or (base.get? part'.name)
      else base.get? part'.name := by
  split
  · rename_i h
    subst h
    unfold replaced
    split
    · rename_i h
      rw [h, Option.none_or]
    · rename_i v h
      rw [h, Option.some_or, Entries.get?_set, if_pos rfl]
  · rename_i h
    exact get?_replaced_of_ne given base fun heq => h (Part.name_injective heq)

theorem get?_dropped {name : String} (h : name ≠ "layout") (drop : Bool) :
    (if drop then base.erase "layout" else base).get? name = base.get? name := by
  split
  · exact base.get?_erase (Ne.symm h)
  · rfl

theorem get?_unlaid {name : String} (hcosts : Part.costs.name ≠ name)
    (htransitions : Part.transitions.name ≠ name) (hlayout : "layout" ≠ name) :
    (unlaid given base).get? name = base.get? name := by
  rw [unlaid, get?_replaced_of_ne _ _ htransitions, get?_replaced_of_ne _ _ hcosts,
    base.get?_erase hlayout]

theorem get?_unlaid_model {part : Part} (h : part.isModel = true) :
    (unlaid given base).get? part.name = (given part).or (base.get? part.name) := by
  simp only [unlaid, get?_replaced, base.get?_erase part.name_ne_layout.symm]
  cases part <;> first | rfl | cases h

/-- Under the name of a part stands what is given for it, or else what was there. -/
theorem get?_overridden (part : Part) :
    (overridden given base).get? part.name = (given part).or (base.get? part.name) := by
  simp only [overridden, get?_replaced, get?_dropped _ (Part.name_ne_layout _)]
  cases part <;> rfl

theorem get?_overridden_stages :
    (overridden given base).get? "stages" = base.get? "stages" := by
  simp only [overridden, get?_replaced_of_ne _ _ (Part.name_ne_stages _)]
  rw [get?_dropped _ (by decide)]
  simp only [get?_replaced_of_ne _ _ (Part.name_ne_stages _)]

theorem get?_overridden_layout :
    (overridden given base).get? "layout" =
      if givesModel given then none else base.get? "layout" := by
  simp only [overridden, get?_replaced_of_ne _ _ (Part.name_ne_layout _)]
  split
  · exact Entries.get?_erase_self _ _
  · simp only [get?_replaced_of_ne _ _ (Part.name_ne_layout _)]

end Given

section Assembly

variable {t : FileTree} {s : Settings α}

theorem leaves_of_holds {path : Path} {v : Value α} (h : t.Holds path v) :
    Leaves t (fun _ => False) (· = v)
      (ExceptT.mk (readDocument path : StateM FileTree (Except Fault (Value α)))) :=
  ⟨.ok v, h, rfl⟩

theorem override_eq_replaced {β : Type} {toValue : β → Value α} {setting : Setting β}
    {given : Part → Option (Value α)} {part : Part} (h : given part = entryOf? toValue setting)
    (entries : Entries α) :
    override part.name setting toValue entries = replaced given part entries := by
  rw [replaced, h]
  cases setting <;> rfl

theorem leaves_overrideFrom_replaced {setting : Setting Path}
    {given : Part → Option (Value α)} {part : Part} (h : FromFile t setting (given part))
    (entries : Entries α) :
    Leaves t (fun _ => False) (· = replaced given part entries)
      (overrideFrom part.name setting entries) := by
  unfold replaced
  cases setting with
  | unset =>
      rw [show given part = none from h]
      exact leaves_pure rfl
  | blank => exact h.elim
  | value path =>
      obtain ⟨v, hv, holds⟩ := h
      rw [hv]
      refine (leaves_of_holds holds).bind fun v' hv' => ?_
      exact leaves_pure (hv' ▸ rfl)

theorem isSet_eq_isSome {setting : Setting Path} {v? : Option (Value α)}
    (h : FromFile t setting v?) : setting.isSet = v?.isSome := by
  cases setting with
  | unset =>
      rw [show v? = none from h]
      rfl
  | blank => exact h.elim
  | value path =>
      obtain ⟨v, rfl, _⟩ := h
      rfl

/-- The document that a run puts together out of the one it starts from and what is given. -/
theorem assembles_of_leaves {base : Entries α} {source : String}
    {given : Part → Option (Value α)}
    (document : Leaves t (fun _ => False) (· = (base, source)) (baseDocument s))
    (hgiven : s.Gives t given) : s.Assembles t (overridden given base) source := by
  have models : (s.costs.isSet || s.transitions.isSet) = givesModel given := by
    rw [isSet_eq_isSome hgiven.costs, isSet_eq_isSome hgiven.transitions, givesModel]
  have assembled : Leaves t (fun _ => False) (· = (overridden given base, source))
      (assemble s) := by
    unfold assemble
    refine document.bind fun x hx => ?_
    subst hx
    dsimp only
    rw [models, override_eq_replaced hgiven.states_eq, override_eq_replaced hgiven.actions_eq,
      override_eq_replaced hgiven.horizon_eq, override_eq_replaced hgiven.discount_eq]
    refine (leaves_overrideFrom_replaced hgiven.costs _).bind fun costs hcosts => ?_
    refine (leaves_overrideFrom_replaced hgiven.transitions _).bind
      fun transitions htransitions => ?_
    refine (leaves_overrideFrom_replaced hgiven.salvage _).bind fun salvage hsalvage => ?_
    refine leaves_pure ?_
    rw [hsalvage, htransitions, hcosts, overridden]
  obtain ⟨r, run, hr⟩ := assembled
  cases r with
  | error e => exact hr.elim
  | ok x =>
      obtain rfl : x = _ := hr
      exact run

theorem leaves_problemDocument {path : Path} {base : Entries α} (hproblem : s.problem = .value path)
    (hbundled : s.bundled = false) (hdoc : t.Holds path (.map base)) :
    Leaves t (fun _ => False) (· = (base, path.text)) (baseDocument s) := by
  unfold baseDocument
  rw [hbundled, hproblem]
  exact (leaves_of_holds hdoc).bind fun v hv => hv ▸ leaves_pure rfl

/-- The document that a run puts together out of a problem document and what is given. -/
theorem assembles_overridden {path : Path} {base : Entries α}
    {given : Part → Option (Value α)} (hproblem : s.problem = .value path)
    (hbundled : s.bundled = false) (hdoc : t.Holds path (.map base)) (hgiven : s.Gives t given) :
    s.Assembles t (overridden given base) path.text :=
  assembles_of_leaves (leaves_problemDocument hproblem hbundled hdoc) hgiven

theorem load_of_holds {path : Path} {v : Value α} (h : t.Holds path v) :
    ((Problem.load path : StateM FileTree (Traced α (Problem α))).run t).1 =
      ofDocument v path.text none := by
  unfold Problem.load
  rw [StateT.run_bind, h]
  rfl

/-- The problem is the one that the run puts together. -/
def Settings.Poses (s : Settings α) (t : FileTree) (p : Problem α) : Prop :=
  ∃ entries source, s.Assembles t entries source ∧
    (ofEntries source (s.layout.value?.map Layout.name) entries).result = .ok p

theorem poses_iff {path : Path} {base : Entries α} {given : Part → Option (Value α)}
    (hproblem : s.problem = .value path) (hbundled : s.bundled = false)
    (hlayout : s.layout = .unset) (hdoc : t.Holds path (.map base)) (hgiven : s.Gives t given)
    (p : Problem α) :
    s.Poses t p ↔ Describes path.text none (overridden given base) p := by
  have assembled := assembles_overridden hproblem hbundled hdoc hgiven
  rw [← ofEntries_eq_ok_iff]
  constructor
  · rintro ⟨entries, source, assembled', hp⟩
    have same := congrArg Prod.fst (assembled.symm.trans assembled')
    cases Except.ok.inj same
    rwa [hlayout] at hp
  · intro hp
    refine ⟨_, _, assembled, ?_⟩
    rwa [hlayout]

/-- The entries of a document. -/
def entriesOf : Value α → Except Fault (Entries α)
  | .map entries => .ok entries
  | _ => .error .noFileToRead

end Assembly

section Parts

variable {given : Part → Option (Value α)} {base entries : Entries α}

theorem givenLayout_replaced (part : Part) :
    givenLayout (replaced given part entries) = givenLayout entries := by
  rw [givenLayout, givenLayout, get?_replaced_of_ne _ _ part.name_ne_layout]

theorem givenLayout_erase : givenLayout (base.erase "layout") = .text Layout.auto.name := by
  rw [givenLayout, Entries.get?_erase_self, Option.getD_none]

/-- Nothing is dropped unless a model is given, and it makes no difference where the layout is
the automatic one. -/
theorem givenLayout_overridden
    (h : givesModel given = false ∨ givenLayout base = .text Layout.auto.name) :
    givenLayout (overridden given base) = givenLayout base := by
  rcases h with h | h
  · rw [givenLayout, get?_overridden_layout, h]
    rfl
  · rw [h, givenLayout, get?_overridden_layout]
    split
    · rfl
    · exact h

theorem givenLayout_overridden_of_givesModel (h : givesModel given = true) :
    givenLayout (overridden given base) = .text Layout.auto.name := by
  rw [givenLayout, get?_overridden_layout, if_pos h, Option.getD_none]

/-- A part is read off the document with all that is given as off one with what is given for
this part, if a model is read with the same states and under the same layout there. -/
theorem readsAlike_overridden (hstates : given .states = none) {part : Part}
    (entry : entries.get? part.name = (given part).or (base.get? part.name))
    (stages : entries.get? "stages" = base.get? "stages")
    (states : part.isModel = true → entries.get? "states" = base.get? "states")
    (layout : part.isModel = true →
      givenLayout (overridden given base) = givenLayout entries) :
    part.ReadsAlike entries (overridden given base) where
  entry_eq := by rw [get?_overridden, entry]
  stages_eq _ := by rw [get?_overridden_stages, stages]
  states_eq hpart := by
    have own := get?_overridden given base .states
    rw [hstates, Option.none_or] at own
    rw [own, states hpart]
  layout_eq := layout

theorem readsAlike_replaced (hstates : given .states = none)
    (hentries : ∀ name, name ≠ "layout" → entries.get? name = base.get? name) {part : Part}
    (layout : part.isModel = true →
      givenLayout (overridden given base) = givenLayout entries) :
    part.ReadsAlike (replaced given part entries) (overridden given base) := by
  refine readsAlike_overridden hstates ?_ ?_ (fun hpart => ?_) fun hpart => ?_
  · rw [get?_replaced, if_pos rfl, hentries _ part.name_ne_layout]
  · rw [get?_replaced_of_ne _ _ part.name_ne_stages, hentries _ (by decide)]
  · have ne : part.name ≠ "states" := by
      cases part <;> first | decide | cases hpart
    rw [get?_replaced_of_ne _ _ ne, hentries _ (by decide)]
  · rw [layout hpart, givenLayout_replaced]

/-- Both models are read as off the document without its layout in which they are replaced. -/
theorem readsAlike_unlaid (hstates : given .states = none) (hgiven : givesModel given = true)
    {part : Part} (hpart : part.isModel = true) :
    part.ReadsAlike (unlaid given base) (overridden given base) := by
  refine readsAlike_overridden hstates ?_ ?_ (fun _ => ?_) fun _ => ?_
  · exact get?_unlaid_model given base hpart
  · exact get?_unlaid given base (by decide) (by decide) (by decide)
  · exact get?_unlaid given base (by decide) (by decide) (by decide)
  · rw [givenLayout_overridden_of_givesModel hgiven, unlaid, givenLayout_replaced,
      givenLayout_replaced, givenLayout_erase]

omit [Scalar α] in
theorem givesModel_of_isModel {part : Part} (hpart : part.isModel = true) {v : Value α}
    (h : given part = some v) : givesModel given = true := by
  cases part with
  | costs => rw [givesModel, h, Option.isSome_some, Bool.true_or]
  | transitions => rw [givesModel, h, Option.isSome_some, Bool.or_true]
  | _ => cases hpart

end Parts

/-- The part of the one problem is that of the other if nothing is given for it, and else that
of the document with what is given in the place of its own entry alone. -/
def SettlesPart (source : String) (base : Entries α) (given : Part → Option (Value α))
    (p p' : Problem α) (part : Part) : Prop :=
  (given part = none → part.Same p' p) ∧
    ∀ v q, given part = some v →
      (ofDocument (.map (base.set part.name v)) source).result = .ok q → part.Same p' q

/-- What is given for the part is accepted in its place. -/
def AcceptsPart (source : String) (base : Entries α) (given : Part → Option (Value α))
    (part : Part) : Prop :=
  ∀ v, given part = some v →
    ∃ q, (ofDocument (.map (base.set part.name v)) source).result = .ok q

section Settled

variable {source : String} {base : Entries α} {given : Part → Option (Value α)}
  {p p' : Problem α} (loaded : Describes source none base p) (hstates : given .states = none)
  {part : Part}
include loaded

theorem exists_describes_replaced (h : AcceptsPart source base given part) :
    ∃ q, Describes source none (replaced given part base) q := by
  unfold replaced
  split
  · exact ⟨p, loaded⟩
  · rename_i v hv
    obtain ⟨q, hq⟩ := h v hv
    exact ⟨q, (ofEntries_eq_ok_iff _ _ _ q).mp hq⟩

include hstates

theorem settlesPart (h' : Describes source none (overridden given base) p')
    (layout : part.isModel = true → givenLayout (overridden given base) = givenLayout base) :
    SettlesPart source base given p p' part := by
  have alike := readsAlike_replaced hstates (fun _ _ => rfl) layout
  unfold replaced at alike
  constructor
  · intro hpart
    rw [hpart] at alike
    exact loaded.same h' alike
  · intro v q hpart hq
    rw [hpart] at alike
    exact ((ofEntries_eq_ok_iff _ _ _ q).mp hq).same h' alike

omit loaded in
/-- A model that is given is read as in the document that gives no layout. -/
theorem same_of_unlaid (h' : Describes source none (overridden given base) p')
    (hpart : part.isModel = true) {v : Value α} {q : Problem α} (hv : given part = some v)
    (hq : (ofDocument (.map ((base.erase "layout").set part.name v)) source).result = .ok q) :
    part.Same p' q := by
  have automatic : givenLayout (overridden given base) = givenLayout (base.erase "layout") :=
    (givenLayout_overridden_of_givesModel (givesModel_of_isModel hpart hv)).trans
      givenLayout_erase.symm
  have alike : part.ReadsAlike (replaced given part (base.erase "layout"))
      (overridden given base) :=
    readsAlike_replaced hstates (fun _ hname => base.get?_erase (Ne.symm hname)) fun _ => automatic
  rw [replaced, hv] at alike
  exact ((ofEntries_eq_ok_iff _ _ _ q).mp hq).same h' alike

/-- A model that is not given, while the other one is, is that of the document if it is read alike
without the layout. -/
theorem same_of_isRead (h' : Describes source none (overridden given base) p')
    (hgiven : givesModel given = true) (hpart : given part = none)
    (hread : part.IsRead .auto base p) : part.Same p' p := by
  have states : p'.states = p.states := by
    refine loaded.states_eq_of_get? h' ?_
    rw [get?_overridden given base .states, hstates, Option.none_or]
  have entry : (overridden given base).get? part.name = base.get? part.name := by
    rw [get?_overridden, hpart, Option.none_or]
  obtain ⟨layout, hlayout, hcosts, htransitions⟩ := h'.models_eq
  rw [layoutOf_of_auto (givenLayout_overridden_of_givesModel hgiven), Except.ok.injEq] at hlayout
  subst hlayout
  cases part with
  | costs =>
      rw [tableEntry_congr entry, states] at hcosts
      exact Except.ok.inj (hcosts.symm.trans hread)
  | transitions =>
      rw [tableEntry_congr entry, states] at htransitions
      exact Except.ok.inj (htransitions.symm.trans hread)
  | _ => cases hread

/-- Where the models are accepted without a layout, there is a problem with these models. -/
theorem exists_describes_unlaid {q : Problem α} (hgiven : givesModel given = true)
    (hq : (ofDocument (.map (unlaid given base)) source).result = .ok q)
    (accepts : ∀ part, part.isModel = false → AcceptsPart source base given part) :
    ∃ p', Describes source none (overridden given base) p' ∧
      ∀ part : Part, part.isModel = true → part.Same p' q := by
  have models : Describes source none (unlaid given base) q :=
    (ofEntries_eq_ok_iff _ _ _ q).mp hq
  obtain ⟨p', h'⟩ := exists_describes fun part => by
    cases hpart : part.isModel with
    | true => exact ⟨_, q, models, readsAlike_unlaid hstates hgiven hpart⟩
    | false =>
        obtain ⟨q', hq'⟩ := exists_describes_replaced loaded (accepts part hpart)
        exact ⟨_, q', hq', readsAlike_replaced hstates (fun _ _ => rfl)
          fun h => absurd (h.symm.trans hpart) (by decide)⟩
  exact ⟨p', h', fun part hpart => models.same h' (readsAlike_unlaid hstates hgiven hpart)⟩

end Settled

/-- A problem document with options that give parts of it. If no model is given, or the
document gives no layout but the automatic one, then the run puts a problem together whenever
what is given is accepted, and every part of it is settled. In any case the parts besides the
models are, a model that is given is that of the document in which it is replaced and which
gives no layout, and a model that is not given is that of the document if it is read alike
without the layout. If a model is given, and both models are accepted without the layout, then
a problem is put together with the models that are given. -/
theorem assemble_overrides (t : FileTree) (s : Settings α) (path : Path) (base : Entries α)
    (p : Problem α) (given : Part → Option (Value α)) (hproblem : s.problem = .value path)
    (hbundled : s.bundled = false) (hstates : s.states = .unset) (hlayout : s.layout = .unset)
    (hdoc : t.Holds path (.map base))
    (hload : ((Problem.load path : StateM FileTree (Traced α (Problem α))).run t).1.result =
      .ok p)
    (hgiven : s.Gives t given) :
    (given .costs = none ∧ given .transitions = none ∨ givenLayout base = .text "auto" →
      (∀ part, AcceptsPart path.text base given part) →
        ∃ p', s.Poses t p' ∧ ∀ part, SettlesPart path.text base given p p' part) ∧
    (∀ p', s.Poses t p' →
      (∀ part, part.isModel = false → SettlesPart path.text base given p p' part) ∧
      (∀ part, part.isModel = true → ∀ v q, given part = some v →
        (ofDocument (.map ((base.erase "layout").set part.name v)) path.text).result = .ok q →
          part.Same p' q) ∧
      ∀ part, given part = none → part.IsRead .auto base p → part.Same p' p) ∧
    (givesModel given = true → ∀ q,
      (ofDocument (.map (unlaid given base)) path.text).result = .ok q →
      (∀ part, part.isModel = false → AcceptsPart path.text base given part) →
        ∃ p', s.Poses t p' ∧
          ∀ part, part.isModel = true → (given part).isSome = true → part.Same p' q) := by
  have loaded : Describes path.text none base p := by
    rw [← ofEntries_eq_ok_iff, ← hload, load_of_holds hdoc]
    rfl
  have none_given : given .states = none := by
    rw [hgiven.states_eq, hstates]
    rfl
  simp only [poses_iff hproblem hbundled hlayout hdoc hgiven]
  have settled {p' : Problem α} (h' : Describes path.text none (overridden given base) p')
      (h : givesModel given = false ∨ givenLayout base = .text Layout.auto.name) (part : Part) :
      SettlesPart path.text base given p p' part :=
    settlesPart loaded none_given h' fun _ => givenLayout_overridden h
  refine ⟨fun layout accepts => ?_, fun p' h' => ⟨fun part hpart => ?_, ?_, ?_⟩, ?_⟩
  · have plain : givesModel given = false ∨ givenLayout base = .text Layout.auto.name := by
      refine layout.imp_left fun h => ?_
      rw [givesModel, h.1, h.2]
      rfl
    obtain ⟨p', h'⟩ := exists_describes fun part =>
      have ⟨q, hq⟩ := exists_describes_replaced loaded (accepts part)
      ⟨_, q, hq, readsAlike_replaced none_given (fun _ _ => rfl)
        fun _ => givenLayout_overridden plain⟩
    exact ⟨p', h', settled h' plain⟩
  · exact settlesPart loaded none_given h' fun h => absurd (h.symm.trans hpart) (by decide)
  · exact fun part hpart v q => same_of_unlaid none_given h' hpart
  · intro part hpart hread
    cases models : givesModel given with
    | true => exact same_of_isRead loaded none_given h' models hpart hread
    | false => exact (settled h' (.inl models) part).1 hpart
  · intro models q hq accepts
    obtain ⟨p', h', same⟩ := exists_describes_unlaid loaded none_given models hq accepts
    exact ⟨p', h', fun part hpart _ => same part hpart⟩

section Examples

/-- Two problem documents with a layout that says what their one state is, which looks like a stage
in one of them; other costs for each, and a terminal value. -/
def laidFiles : FileTree :=
  let costs (state : String) (x : Int) : Value Float :=
    .map [ Value.entry state (.map [ Value.entry "a" (.number (.whole x)) ]) ]
  let document (state : String) (rest : Entries Float) : Value Float :=
    .map <|
      [ Value.entry "states" (.text state), Value.entry "actions" (.text "a"),
        Value.entry "horizon" (.number (.whole 1)), Value.entry "layout" (.text "stationary"),
        Value.entry "costs" (costs state 5) ] ++ rest
  let transitions : Value Float :=
    .map [ Value.entry "A" (.map
      [ Value.entry "a" (.map [ Value.entry "A" (.number (.whole 3)) ]) ]) ]
  let salvage : Value Float := .map [ Value.entry "0" (.number (.whole 4)) ]
  [ ("p", document "0" []), ("c", costs "0" 7), ("z", salvage),
    ("n", document "A" [ Value.entry "transitions" transitions ]), ("k", costs "A" 7) ].foldl
    (fun t file => t.add file.1 (Json.fileText file.2).toUTF8) (.fresh ["work"])

theorem holds_of_entriesOf {t : FileTree} {path : Path} {document : Value α} {base : Entries α}
    (hdocument : t.document path = .ok document) (hentries : entriesOf document = .ok base) :
    t.Holds path (.map base) := by
  cases document with
  | map entries =>
      cases hentries
      exact FileTree.holds_of_document hdocument
  | _ => cases hentries

theorem text_document_path : (Path.ofText "p").text = "p" := by
  decide +kernel

/-- What the files hold, and what the document comes to with parts of it replaced. -/
theorem exists_laidFiles :
    ∃ (base : Entries Float) (c z : Value Float) (p p₁ p₂ p₃ : Problem Float),
      (laidFiles.Holds (Path.ofText "p") (.map base) ∧ laidFiles.Holds (Path.ofText "c") c ∧
        laidFiles.Holds (Path.ofText "z") z) ∧
      (ofDocument (.map base) "p").result = .ok p ∧
      ((ofDocument (.map (base.set "costs" c)) "p").result = .ok p₁ ∧
        (ofDocument (.map ((base.erase "layout").set "costs" c)) "p").result.toOption.isNone =
          true) ∧
      ((ofDocument (.map (base.set "horizon" (.number (.whole 2)))) "p").result = .ok p₂ ∧
        p₂.horizon = 2) ∧
      (ofDocument (.map (base.set "salvage" z)) "p").result = .ok p₃ ∧
        p₃.salvage.keys = ["0"] := by
  obtain ⟨⟨base, c, z⟩, computed, facts⟩ := exists_ok_of_map_toOption
    (x := do
      let base : Entries Float ← laidFiles.document (Path.ofText "p") >>= entriesOf
      let c : Value Float ← laidFiles.document (Path.ofText "c")
      let z : Value Float ← laidFiles.document (Path.ofText "z")
      return (base, c, z))
    (f := fun (base, c, z) =>
      ((ofDocument (.map base) "p").result.toOption.map fun _ => (),
        ((ofDocument (.map (Entries.set base "costs" c)) "p").result.toOption.map fun _ => (),
          (ofDocument (.map (Entries.set (Entries.erase base "layout") "costs" c))
            "p").result.toOption.isNone),
        (ofDocument (.map (Entries.set base "horizon" (.number (.whole 2))))
          "p").result.toOption.map fun q => q.horizon,
        (ofDocument (.map (Entries.set base "salvage" z)) "p").result.toOption.map
          fun q => q.salvage.keys))
    (c := (some (), (some (), true), some 2, some ["0"])) (by decide +kernel)
  simp only [bind_eq_ok_iff] at computed
  obtain ⟨_, ⟨document, hdocument, hentries⟩, _, hc, _, hz, ⟨⟩⟩ := computed
  simp only [Prod.mk.injEq] at facts
  obtain ⟨plain, ⟨costs, ambiguous⟩, horizon, salvage⟩ := facts
  obtain ⟨p, hp, _⟩ := exists_ok_of_map_toOption plain
  obtain ⟨p₁, hp₁, _⟩ := exists_ok_of_map_toOption costs
  obtain ⟨p₂, hp₂, two⟩ := exists_ok_of_map_toOption horizon
  obtain ⟨p₃, hp₃, keys⟩ := exists_ok_of_map_toOption salvage
  exact ⟨base, c, z, p, p₁, p₂, p₃, ⟨holds_of_entriesOf hdocument hentries,
    FileTree.holds_of_document hc, FileTree.holds_of_document hz⟩, hp, ⟨hp₁, ambiguous⟩,
    ⟨hp₂, two⟩, hp₃, keys⟩

/-- What the files hold that belong to the document with the plain state, and what it comes to
with its costs replaced. -/
theorem exists_plainFiles :
    ∃ (base : Entries Float) (k : Value Float) (p q : Problem Float),
      (laidFiles.Holds (Path.ofText "n") (.map base) ∧ laidFiles.Holds (Path.ofText "k") k) ∧
      (ofDocument (.map base) (Path.ofText "n").text).result = .ok p ∧
      (ofDocument (.map ((base.erase "layout").set "costs" k)) (Path.ofText "n").text).result =
        .ok q ∧
      Part.IsRead .auto base p .transitions ∧ q.costs ≠ p.costs := by
  obtain ⟨⟨base, k, p, q, alike⟩, computed, facts⟩ := exists_ok_of_map_toOption
    (x := do
      let document : Value Float ← laidFiles.document (Path.ofText "n")
      let base ← entriesOf document
      let k : Value Float ← laidFiles.document (Path.ofText "k")
      let p ← (ofDocument (.map base) (Path.ofText "n").text).result
      let q ← (ofDocument (.map ((base.erase "layout").set "costs" k))
        (Path.ofText "n").text).result
      let alike ← (readTransitions (tableEntry base "transitions") p.states .auto).result
      return (base, k, p, q, alike))
    (f := fun (_, _, p, q, alike) => decide (alike = p.transitions ∧ q.costs ≠ p.costs))
    (c := true) (by decide +kernel)
  simp only [bind_eq_ok_iff] at computed
  obtain ⟨document, hdocument, _, hentries, _, hk, _, hp, _, hq, _, hread, ⟨⟩⟩ := computed
  obtain ⟨rfl, replaced⟩ := of_decide_eq_true facts
  exact ⟨base, k, p, q, ⟨holds_of_entriesOf hdocument hentries, FileTree.holds_of_document hk⟩,
    hp, hq, hread, replaced⟩

/-- The horizon and the terminal values are what is given, and the costs are those of the
document, whose state might be taken for a stage without its layout. Where no state might be,
costs can be given as well, and the transitions are those of the document. -/
theorem laidFiles_overridden :
    (∃ p p' : Problem Float,
      ((Problem.load (Path.ofText "p") : StateM FileTree _).run laidFiles).1.result = .ok p ∧
      Settings.Poses
        { problem := .value (Path.ofText "p"), horizon := .value 2,
          salvage := .value (Path.ofText "z") } laidFiles p' ∧
      p'.horizon = 2 ∧ p'.salvage.keys = ["0"] ∧ p'.costs = p.costs) ∧
    ∃ p p' : Problem Float,
      ((Problem.load (Path.ofText "n") : StateM FileTree _).run laidFiles).1.result = .ok p ∧
      Settings.Poses
        { problem := .value (Path.ofText "n"), costs := .value (Path.ofText "k") } laidFiles p' ∧
      p'.costs ≠ p.costs ∧ p'.transitions = p.transitions := by
  constructor
  · obtain ⟨base, _, z, p, _, p₂, p₃, ⟨hdoc, _, hz⟩, hp, _, ⟨hp₂, two⟩, hp₃, keys⟩ :=
      exists_laidFiles
    rw [← text_document_path] at hp hp₂ hp₃
    have hload : ((Problem.load (Path.ofText "p") : StateM FileTree _).run laidFiles).1.result =
        .ok p := by
      rw [load_of_holds hdoc, hp]
    let given : Part → Option (Value Float)
      | .horizon => some (.number (.whole 2))
      | .salvage => some z
      | _ => none
    let s : Settings Float :=
      { problem := .value (Path.ofText "p"), horizon := .value 2,
        salvage := .value (Path.ofText "z") }
    have hgiven : s.Gives laidFiles given := ⟨rfl, rfl, rfl, rfl, rfl, rfl, z, rfl, hz⟩
    obtain ⟨settles, _⟩ := assemble_overrides laidFiles s (Path.ofText "p") base p given rfl rfl
      rfl rfl hdoc hload hgiven
    obtain ⟨p', hp', settled⟩ := settles (.inl ⟨rfl, rfl⟩) fun part v hv => by
      cases part with
      | horizon =>
          cases hv
          exact ⟨p₂, hp₂⟩
      | salvage =>
          cases hv
          exact ⟨p₃, hp₃⟩
      | _ => cases hv
    have horizon : p'.horizon = p₂.horizon := (settled .horizon).2 _ p₂ rfl hp₂
    have salvage : p'.salvage = p₃.salvage := (settled .salvage).2 _ p₃ rfl hp₃
    exact ⟨p, p', hload, hp', horizon.trans two, salvage ▸ keys, (settled .costs).1 rfl⟩
  · obtain ⟨base, k, p, q, ⟨hdoc, hk⟩, hp, hq, hread, replaced⟩ := exists_plainFiles
    have hload : ((Problem.load (Path.ofText "n") : StateM FileTree _).run laidFiles).1.result =
        .ok p := by
      rw [load_of_holds hdoc, hp]
    let given : Part → Option (Value Float)
      | .costs => some k
      | _ => none
    let s : Settings Float :=
      { problem := .value (Path.ofText "n"), costs := .value (Path.ofText "k") }
    have hgiven : s.Gives laidFiles given := ⟨rfl, rfl, rfl, rfl, ⟨k, rfl, hk⟩, rfl, rfl⟩
    obtain ⟨_, posed, poses⟩ := assemble_overrides laidFiles s (Path.ofText "n") base p given rfl
      rfl rfl rfl hdoc hload hgiven
    obtain ⟨p', hp', same⟩ := poses rfl q hq fun part hpart v hv => by
      cases part with
      | costs => cases hpart
      | _ => cases hv
    have costs : p'.costs = q.costs := same .costs rfl rfl
    exact ⟨p, p', hload, hp', costs ▸ replaced, (posed p' hp').2.2 .transitions rfl hread⟩

/-- The document with its costs replaced is accepted, and yet the run that gives these costs
puts no problem together: they are read without the layout, and are ambiguous then. -/
theorem assemble_drops_layout :
    ∃ (base : Entries Float) (c : Value Float) (p q : Problem Float),
      laidFiles.Holds (Path.ofText "p") (.map base) ∧ laidFiles.Holds (Path.ofText "c") c ∧
      ((Problem.load (Path.ofText "p") : StateM FileTree _).run laidFiles).1.result = .ok p ∧
      (ofDocument (.map (base.set "costs" c)) "p").result = .ok q ∧
      ∀ p' : Problem Float, ¬ Settings.Poses
        { problem := .value (Path.ofText "p"), costs := .value (Path.ofText "c") } laidFiles
        p' := by
  obtain ⟨base, c, _, p, q, _, _, ⟨hdoc, hc, _⟩, hp, ⟨hq, ambiguous⟩, _⟩ := exists_laidFiles
  have hload : ((Problem.load (Path.ofText "p") : StateM FileTree _).run laidFiles).1.result =
      .ok p := by
    rw [load_of_holds hdoc, text_document_path, hp]
  refine ⟨base, c, p, q, hdoc, hc, hload, hq, fun p' posed => ?_⟩
  let given : Part → Option (Value Float)
    | .costs => some c
    | _ => none
  let s : Settings Float :=
    { problem := .value (Path.ofText "p"), costs := .value (Path.ofText "c") }
  have hgiven : s.Gives laidFiles given := ⟨rfl, rfl, rfl, rfl, ⟨c, rfl, hc⟩, rfl, rfl⟩
  have described := (poses_iff rfl rfl rfl hdoc hgiven p').mp posed
  rw [text_document_path] at described
  have result := (ofEntries_eq_ok_iff _ _ _ p').mpr described
  have refused : (ofEntries "p" none (overridden given base)).result.toOption.isNone = true :=
    ambiguous
  rw [result] at refused
  cases refused

end Examples

end BackwardInduction.Command
