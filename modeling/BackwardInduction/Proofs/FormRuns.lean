import BackwardInduction.Proofs.OptionTexts
import BackwardInduction.Proofs.OverriddenParts
import BackwardInduction.Proofs.SolveRuns

/-!
Problems given by options and problems given by a document. Options that give every part of a
problem make the same run as a document with these parts does: whatever else the arguments ask
for, the report is the same, and so are the files after it. The texts that options cannot take
are left out: two dashes leave an option blank, and a document is only found where its name is no
option itself.
-/

namespace BackwardInduction.Command

open Options Problem

variable {α : Type} [Scalar α]

section Arguments

/-- The option says how a problem is solved, and not what it is. -/
def SolveKey.concernsRun : SolveKey → Bool
  | .help | .layout | .clamp | .output | .debug => true
  | _ => false

def concernsRun : Event SolveKey → Bool
  | .given key _ => key.concernsRun
  | _ => true

/-- The arguments say how a problem is solved, and nothing of what it is. -/
def ConcernRun (args : List String) : Prop :=
  ∀ event ∈ solveGrammar.events 0 (solveGrammar.forms args), concernsRun event = true

/-- The settings of a problem, to be solved as others say. -/
def Settings.withRun (s r : Settings α) : Settings α :=
  { s with layout := r.layout, clamp := r.clamp, output := r.output, debug := r.debug }

theorem set_withRun (s r : Settings α) {key : SolveKey} (h : key.concernsRun = true)
    (value : Option String) : (s.withRun r).set key value = (r.set key value).map s.withRun := by
  cases key with
  | help | clamp | debug => rfl
  | layout =>
      simp only [Settings.set]
      cases Setting.read Settings.layoutOf value <;> rfl
  | output =>
      simp only [Settings.set]
      cases Setting.read Settings.pathOf value <;> rfl
  | _ => cases h

/-- What is set by such options is the same whatever the problem is. -/
theorem apply_withRun {events : List (Event SolveKey)}
    (h : ∀ event ∈ events, concernsRun event = true) (surplus : Bool) (s r : Settings α) :
    apply Settings.set (fun _ _ => .error .usage) events surplus (s.withRun r) =
      (apply Settings.set (fun _ _ => .error .usage) events surplus r).map s.withRun := by
  induction events generalizing surplus r with
  | nil =>
      rw [apply, apply]
      split <;> rfl
  | cons event events ih =>
      have rest := ih fun event hevent => h event (List.mem_cons_of_mem _ hevent)
      cases event with
      | given key value =>
          rw [apply, apply, set_withRun s r (h _ List.mem_cons_self)]
          cases r.set key value with
          | error stop => rfl
          | ok r => exact rest surplus r
      | operand text | misuse => rfl
      | surplus => exact rest true r

/-- The settings that arguments leave, from these on. -/
def Settings.after (s : Settings α) (args : List String) : Except Stop (Settings α) :=
  parse solveGrammar 0 Settings.set (fun _ _ => .error .usage) s args

theorem after_withRun {args : List String} (h : ConcernRun args) (s : Settings α) :
    (s.withRun {}).after args = (Settings.after {} args).map s.withRun := by
  unfold Settings.after parse
  dsimp only
  split
  · rfl
  · exact apply_withRun h false s {}

/-- Arguments that go on from settings of a problem, and only say how it is solved. -/
theorem ofArgs_withRun {args rest : List String} {s : Settings α} (hrest : ConcernRun rest)
    (h : Settings.after {} args = (s.withRun {}).after rest) (hsource : s.hasSource = true) :
    Settings.ofArgs args = (Settings.after {} rest).map s.withRun := by
  change (Settings.after {} args >>= fun s => if s.hasSource = true then .ok s else .error .usage) =
    _
  rw [h, after_withRun hrest]
  cases (Settings.after {} rest : Except Stop (Settings α)) with
  | error stop => rfl
  | ok r => exact if_pos (hsource : (s.withRun r).hasSource = true)

/-- The layout that is set is one of the three. -/
def KnowsLayout (s : Settings α) : Prop :=
  ∀ layout, s.layout = .value layout → layout.isKnown = true

theorem ends_settingRead_value {β : Type} (f : String → Option β) (value : Option String) :
    Ends (fun _ => True) (fun setting => ∀ b, setting = .value b → ∃ text, f text = some b)
      (Setting.read f value) := by
  cases value with
  | none => exact nofun
  | some text =>
      rw [Setting.read]
      split
      · rename_i b hb
        rintro b' ⟨⟩
        exact ⟨text, hb⟩
      · trivial

theorem isKnown_of_layoutOf {text : String} {layout : Layout}
    (h : Settings.layoutOf text = some layout) : layout.isKnown = true := by
  simp only [Settings.layoutOf] at h
  split at h
  · rename_i known
    cases h
    exact known
  · cases h

theorem knowsLayout_set {s : Settings α} (h : KnowsLayout s) (key : SolveKey)
    (value : Option String) : Ends (fun _ => True) KnowsLayout (s.set key value) := by
  by_cases hkey : key = .layout
  · subst hkey
    refine (ends_settingRead_value Settings.layoutOf value).bind fun setting hsetting => ?_
    intro layout hlayout
    obtain ⟨text, htext⟩ := hsetting layout hlayout
    exact isKnown_of_layoutOf htext
  · refine (ends_set_frame s key value).imp (fun _ => id) fun s' hs' => ?_
    rw [KnowsLayout, hs'.2.resolve_left hkey]
    exact h

theorem knowsLayout_after {args : List String} {r : Settings α}
    (h : Settings.after {} args = .ok r) : KnowsLayout r := by
  have start : KnowsLayout ({} : Settings α) := by
    intro layout hlayout
    cases hlayout
  have ends : Ends (fun _ => True) KnowsLayout (Settings.after ({} : Settings α) args) := by
    refine ends_parse solveGrammar 0 (fun _ key value hs => knowsLayout_set hs key value) ?_ start
      args
    intro _ _ _
    trivial
  rwa [h] at ends

end Arguments

section Documents

/-- The document with these parts and no layout. -/
def formEntries (states actions : String) (horizon : Int) (discount : α)
    (costs transitions salvage : Value α) : Entries α :=
  [ Value.entry "states" (.text states), Value.entry "actions" (.text actions),
    Value.entry "horizon" (.number (.whole horizon)),
    Value.entry "discount" (.number (.real discount)),
    Value.entry "costs" costs, Value.entry "transitions" transitions,
    Value.entry "salvage" salvage ]

/-- The document gives names, a horizon and a discount as they come out of these, and no
layout. -/
structure Frames (entries : Entries α) (states actions : String) (horizon : Int)
    (discount : α) : Prop where
  states_eq : ∃ v, entries.get? "states" = some v ∧
    ∀ source entry, namesOf source entry v = .ok (Text.names states)
  actions_eq : ∃ v, entries.get? "actions" = some v ∧
    ∀ source entry, namesOf source entry v = .ok (Text.names actions)
  horizon_eq : entries.get? "horizon" = some (.number (.whole horizon))
  discount_eq : entries.get? "discount" = some (.number (.real discount))
  layout_eq : entries.get? "layout" = none

variable {entries entries' : Entries α} {states actions : String} {horizon : Int} {discount : α}

theorem layoutOf_setting {setting : Setting Layout} (h : entries.get? "layout" = none)
    (hknown : ∀ layout, setting = .value layout → layout.isKnown = true) (source : String) :
    layoutOf source (setting.value?.map Layout.name) entries =
      .ok (setting.value?.getD .auto) := by
  cases setting with
  | unset | blank =>
      rw [layoutOf]
      simp only [Setting.value?, Option.map_none, Option.filter_none, h]
      rfl
  | value layout =>
      cases layout with
      | auto | stationary | timeVarying => rfl
      | unknown name => cases hknown _ rfl

/-- What is read off such a document depends on no name of its source. -/
theorem Frames.ofEntries_eq (h : Frames entries states actions horizon discount)
    {setting : Setting Layout}
    (hknown : ∀ layout, setting = .value layout → layout.isKnown = true) (source : String) :
    ofEntries source (setting.value?.map Layout.name) entries = (do
      let layout := setting.value?.getD .auto
      let costs ← readCosts (tableEntry entries "costs") (Text.names states) layout
      let transitions ← readTransitions (tableEntry entries "transitions") (Text.names states)
        layout
      let salvage ← readSalvage (tableEntry entries "salvage")
      return {
        states := Text.names states, actions := Text.names actions, horizon
        discount := .real discount, costs, transitions, salvage }) := by
  obtain ⟨v, hv, states⟩ := h.states_eq
  obtain ⟨w, hw, actions⟩ := h.actions_eq
  have present : missing entries = [] := by
    rw [missing_eq_nil_iff, hv, hw, h.horizon_eq]
    exact ⟨rfl, rfl, .inl rfl⟩
  have whole : horizonEntry entries = .number (.whole horizon) := by
    rw [horizonEntry, h.horizon_eq, Option.getD_some]
  -- the source is only named in faults, and up to the tables none arises
  simp only [ofEntries, present, hv, hw, h.discount_eq, Option.getD_some, states, actions, whole,
    horizonOf, discountOf, layoutOf_setting h.layout_eq hknown]
  rfl

theorem Frames.ofEntries_congr (h : Frames entries states actions horizon discount)
    (h' : Frames entries' states actions horizon discount)
    (tables : ∀ name ∈ ["costs", "transitions", "salvage"],
      entries'.get? name = entries.get? name) {setting : Setting Layout}
    (hknown : ∀ layout, setting = .value layout → layout.isKnown = true)
    (source source' : String) :
    ofEntries source' (setting.value?.map Layout.name) entries' =
      ofEntries source (setting.value?.map Layout.name) entries := by
  rw [h.ofEntries_eq hknown, h'.ofEntries_eq hknown, tableEntry_congr (tables "costs" (by simp)),
    tableEntry_congr (tables "transitions" (by simp)), tableEntry_congr (tables "salvage" (by simp))]

end Documents

section Runs

variable {t : FileTree} {states actions : String} {horizon : Int} {discount : α}
  {costs transitions salvage : Value α}

/-- What the options of a form give for the parts of a problem. -/
def formGiven (states actions : String) (horizon : Int) (discount : α)
    (costs transitions salvage : Value α) : Part → Option (Value α)
  | .states => some (namesValue (Text.names states))
  | .actions => some (namesValue (Text.names actions))
  | .horizon => some (.number (.whole horizon))
  | .discount => some (scalarValue discount)
  | .costs => some costs
  | .transitions => some transitions
  | .salvage => some salvage

/-- The settings of a problem that options give part by part. -/
def formSettings (states actions : String) (horizon : Int) (discount : α)
    (costs transitions salvage : Path) : Settings α :=
  { states := .value states, actions := .value actions, horizon := .value horizon,
    discount := .value discount, costs := .value costs, transitions := .value transitions,
    salvage := .value salvage }

theorem assembles_form {costsPath transitionsPath salvagePath : Path}
    (hcosts : t.Holds costsPath costs) (htransitions : t.Holds transitionsPath transitions)
    (hsalvage : t.Holds salvagePath salvage) :
    (formSettings states actions horizon discount costsPath transitionsPath
      salvagePath).Assembles t
        (overridden (formGiven states actions horizon discount costs transitions salvage) [])
        "command line" :=
  assembles_of_leaves (leaves_pure rfl)
    ⟨rfl, rfl, rfl, rfl, ⟨_, rfl, hcosts⟩, ⟨_, rfl, htransitions⟩, _, rfl, hsalvage⟩

theorem assembles_document {path : Path} {base : Entries α} (h : t.Holds path (.map base)) :
    Settings.Assembles ({ problem := .value path } : Settings α) t base path.text :=
  have nothing : Settings.Gives ({ problem := .value path } : Settings α) t fun _ => none :=
    ⟨rfl, rfl, rfl, rfl, rfl, rfl, rfl⟩
  assembles_overridden rfl rfl h nothing

theorem frames_form :
    Frames (overridden (formGiven states actions horizon discount costs transitions salvage) [])
      states actions horizon discount where
  states_eq := ⟨_, get?_overridden _ _ .states, fun source entry =>
    namesOf_namesValue source entry fun _ => Text.isName_of_mem_names⟩
  actions_eq := ⟨_, get?_overridden _ _ .actions, fun source entry =>
    namesOf_namesValue source entry fun _ => Text.isName_of_mem_names⟩
  horizon_eq := get?_overridden _ _ .horizon
  discount_eq := get?_overridden _ _ .discount
  layout_eq := get?_overridden_layout _ _

theorem frames_entries {base : Entries α} (h : ∀ name, base.get? name =
      (formEntries states actions horizon discount costs transitions salvage).get? name) :
    Frames base states actions horizon discount where
  states_eq := ⟨_, h "states", fun _ _ => rfl⟩
  actions_eq := ⟨.text actions, by simp [h, formEntries, get?_entry_cons], fun _ _ => rfl⟩
  horizon_eq := by simp [h, formEntries, get?_entry_cons]
  discount_eq := by simp [h, formEntries, get?_entry_cons]
  layout_eq := by simp [h, formEntries, get?_entry_cons, get?_nil]

theorem run_runSettings {s : Settings α} {entries : Entries α} {source : String}
    (h : s.Assembles t entries source) :
    (runSettings s : StateM FileTree Report).run t =
      (finish s
        (match (assembledProblem s source entries).result with
        | .ok p => debugText s p
        | .error _ => "")
        (assembledProblem s source entries >>= fun p => p.solve) :
          StateM FileTree Report).run t := by
  unfold runSettings
  rw [StateT.run_bind, h]
  rfl

/-- Settings whose documents come to the same run alike, solved in the same manner. -/
theorem run_withRun {s s' : Settings α} (r : Settings α) {entries entries' : Entries α}
    {source source' : String} (h : s.Assembles t entries source)
    (h' : s'.Assembles t entries' source')
    (same : ofEntries source' (r.layout.value?.map Layout.name) entries' =
      ofEntries source (r.layout.value?.map Layout.name) entries) :
    (runSettings (s'.withRun r) : StateM FileTree Report).run t =
      (runSettings (s.withRun r) : StateM FileTree Report).run t := by
  have problem : assembledProblem (s'.withRun r) source' entries' =
      assembledProblem (s.withRun r) source entries := by
    unfold assembledProblem
    change (ofEntries source' (r.layout.value?.map Layout.name) entries' >>= _) = _
    rw [same]
    rfl
  rw [run_runSettings (s := s.withRun r) h, run_runSettings (s := s'.withRun r) h', problem]
  rfl

end Runs

section Texts

/-- The arguments that give every part of a problem. -/
def formArgs (states actions horizon discount costs transitions salvage : String) :
    List String :=
  [ "--states" ++ "=" ++ states, "--actions" ++ "=" ++ actions, "--horizon" ++ "=" ++ horizon,
    "--discount" ++ "=" ++ discount, "--costs" ++ "=" ++ costs,
    "--transitions" ++ "=" ++ transitions, "--salvage" ++ "=" ++ salvage ]

theorem unequal_solveGrammar : solveGrammar.Unequal := by
  unfold Grammar.Unequal
  decide

theorem wholeOf_toString {i : Int} (h : i.natAbs < stageBound) :
    Settings.wholeOf (toString i) = some i := by
  rw [Settings.wholeOf, Numeral.readWhole_toString h]
  rfl

theorem toString_ne_dashes {i : Int} (h : i.natAbs < stageBound) : toString i ≠ "--" := by
  intro heq
  have unread : Settings.wholeOf "--" = none := by decide +kernel
  have read := wholeOf_toString h
  rw [heq, unread] at read
  cases read

theorem after_cons {s s' : Settings α} {name text : String} {key : SolveKey}
    (hname : solveGrammar.Attaches name key) (htext : text ≠ "--")
    (hs : s.set key (some text) = .ok s') (args : List String) :
    s.after ((name ++ "=" ++ text) :: args) = s'.after args := by
  refine parse_cons_attached unequal_solveGrammar hname 0 ?_ args
  rwa [Grammar.valueOf, if_neg htext]

theorem after_form {states actions discountText costs transitions salvage : String}
    {horizon : Int} {discount : α}
    (hplain : ∀ text ∈ [states, actions, discountText, costs, transitions, salvage],
      text ≠ "--")
    (hhorizon : horizon.natAbs < stageBound) (hdiscount : Scalar.ofText? discountText = some discount)
    (rest : List String) :
    Settings.after {} (formArgs states actions (toString horizon) discountText costs transitions
      salvage ++ rest) =
    ((formSettings states actions horizon discount (Path.ofText costs) (Path.ofText transitions)
      (Path.ofText salvage)).withRun {}).after rest := by
  simp only [List.forall_mem_cons, List.not_mem_nil, false_imp_iff, implies_true,
    and_true] at hplain
  obtain ⟨hstates, hactions, hdiscountText, hcosts, htransitions, hsalvage⟩ := hplain
  have setHorizon (s : Settings α) :
      s.set .horizon (some (toString horizon)) = .ok { s with horizon := .value horizon } := by
    simp only [Settings.set, Setting.read, wholeOf_toString hhorizon]
    rfl
  have setDiscount (s : Settings α) :
      s.set .discount (some discountText) = .ok { s with discount := .value discount } := by
    simp only [Settings.set, Setting.read, hdiscount]
    rfl
  simp only [formArgs, List.cons_append, List.nil_append]
  rw [after_cons ⟨rfl, by decide +kernel, rfl⟩ hstates rfl,
    after_cons ⟨rfl, by decide +kernel, rfl⟩ hactions rfl,
    after_cons ⟨rfl, by decide +kernel, rfl⟩ (toString_ne_dashes hhorizon) (setHorizon _),
    after_cons ⟨rfl, by decide +kernel, rfl⟩ hdiscountText (setDiscount _),
    after_cons ⟨rfl, by decide +kernel, rfl⟩ hcosts rfl,
    after_cons ⟨rfl, by decide +kernel, rfl⟩ htransitions rfl,
    after_cons ⟨rfl, by decide +kernel, rfl⟩ hsalvage rfl]
  rfl

theorem after_document {name : String} (h : solveGrammar.form name = .operand name)
    (rest : List String) :
    Settings.after {} (["-p", name] ++ rest) =
      (({ problem := .value (Path.ofText name) } : Settings α).withRun {}).after rest := by
  have operand : name ≠ "--" := by
    rintro rfl
    cases h
  have option : solveGrammar.form "-p" = .option .problem (Grammar.isLong "-p") none :=
    Grammar.form_spelling (by decide +kernel) (by decide) (by decide) rfl
  refine parse_cons_next option rfl h 0 ?_ rest
  rw [Grammar.valueOf, if_neg operand]
  rfl

end Texts

/-- A problem that is given part by part and one whose document has these parts are solved by
the same run, whatever else is asked for: with the same report and the same files after it. No
text of the form is two dashes, the horizon keeps to the digit limit, and the name of the
document is no option. -/
theorem solve_form (t : FileTree) (states actions discountText costsName transitionsName
      salvageName documentName : String) (horizon : Int) (discount : α)
    (costs transitions salvage : Value α) (base : Entries α) (rest : List String)
    (hnames : states ≠ "" ∨ actions ≠ "")
    (hplain : ∀ text ∈ [states, actions, discountText, costsName, transitionsName, salvageName],
      text ≠ "--")
    (hhorizon : horizon.natAbs < 10 ^ Numeral.digitLimit)
    (hdiscount : Scalar.ofText? discountText = some discount)
    (hcosts : t.Holds (Path.ofText costsName) costs)
    (htransitions : t.Holds (Path.ofText transitionsName) transitions)
    (hsalvage : t.Holds (Path.ofText salvageName) salvage)
    (hdocument : solveGrammar.form documentName = .operand documentName)
    (hbase : t.Holds (Path.ofText documentName) (.map base))
    (hentries : ∀ name, base.get? name =
      (formEntries states actions horizon discount costs transitions salvage).get? name)
    (hrest : ConcernRun rest) :
    ((solve α (formArgs states actions (toString horizon) discountText costsName transitionsName
      salvageName ++ rest) : StateM FileTree Report).run t : Report × FileTree) =
      (solve α (["-p", documentName] ++ rest) : StateM FileTree Report).run t := by
  -- both commands stop where the rest does, or go on with what it sets
  have form := ofArgs_withRun hrest (after_form hplain hhorizon hdiscount rest) (by
    simpa [formSettings, Settings.hasSource, Settings.hasNames, Setting.value?,
      String.isEmpty_iff] using hnames)
  have document := ofArgs_withRun hrest (after_document (α := α) hdocument rest) rfl
  rw [solve, solve, form, document]
  cases settled : (Settings.after {} rest : Except Stop (Settings α)) with
  | error stop => rfl
  | ok r =>
      have tables : ∀ name ∈ ["costs", "transitions", "salvage"],
          (overridden (formGiven states actions horizon discount costs transitions salvage)
            []).get? name = base.get? name := by
        simp only [List.forall_mem_cons, List.not_mem_nil, false_imp_iff, implies_true, and_true,
          hentries]
        exact ⟨get?_overridden _ _ .costs, get?_overridden _ _ .transitions,
          get?_overridden _ _ .salvage⟩
      exact run_withRun r (assembles_document hbase)
        (assembles_form hcosts htransitions hsalvage)
        ((frames_entries hentries).ofEntries_congr frames_form tables (knowsLayout_after settled) _ _)

section Examples

def stateCosts (state : String) : Value Float :=
  .map [ Value.entry state (.map [ Value.entry "a" (.number (.whole 5)) ]) ]

def stateEntries (state : String) : Entries Float :=
  formEntries state "a" 1 1 (stateCosts state) (.map []) (.map [])

/-- A document of a problem with one state, and its costs, both under two names: the second
name of each is no operand by its form. -/
def stateFiles (state : String) : FileTree :=
  [ ("p", .map (stateEntries state)), ("-d", .map (stateEntries state)),
    ("c", stateCosts state), ("--", stateCosts state), ("e", .map []) ].foldl
    (fun t file => t.add file.1 (Json.fileText file.2).toUTF8) (.fresh ["work"])

def isStateCosts (state : String) : Value Float → Bool
  | .map [(.text state', .map [(.text action, .number (.whole cost))])] =>
      state' = state && action = "a" && cost = 5
  | _ => false

theorem eq_stateCosts {state : String} {v : Value Float} (h : isStateCosts state v = true) :
    v = stateCosts state := by
  unfold isStateCosts at h
  split at h
  · simp only [Bool.and_eq_true, decide_eq_true_eq] at h
    obtain ⟨⟨rfl, rfl⟩, rfl⟩ := h
    rfl
  · cases h

def isStateDocument (state : String) : Value Float → Bool
  | .map [(.text "states", .text states), (.text "actions", .text actions),
      (.text "horizon", .number (.whole horizon)), (.text "discount", .number (.real discount)),
      (.text "costs", costs), (.text "transitions", .map []), (.text "salvage", .map [])] =>
      states = state && actions = "a" && horizon = 1 && discount = (1 : Float) &&
        isStateCosts state costs
  | _ => false

theorem eq_stateDocument {state : String} {v : Value Float} (h : isStateDocument state v = true) :
    v = .map (stateEntries state) := by
  unfold isStateDocument at h
  split at h
  · simp only [Bool.and_eq_true, decide_eq_true_eq] at h
    obtain ⟨⟨⟨⟨rfl, rfl⟩, rfl⟩, rfl⟩, costs⟩ := h
    rw [eq_stateCosts costs]
    rfl
  · cases h

def isEmptyMap : Value Float → Bool
  | .map [] => true
  | _ => false

theorem eq_emptyMap {v : Value Float} (h : isEmptyMap v = true) : v = .map [] := by
  unfold isEmptyMap at h
  split at h
  · rfl
  · cases h

/-- The file holds a document, and such a one. -/
def holdsSuch (t : FileTree) (name : String) (such : Value Float → Bool) : Bool :=
  (t.document (Path.ofText name)).toOption.any such

theorem holds_of_holdsSuch {t : FileTree} {name : String} {such : Value Float → Bool}
    {v : Value Float} (h : holdsSuch t name such = true) (heq : ∀ w, such w = true → w = v) :
    t.Holds (Path.ofText name) v := by
  unfold holdsSuch at h
  cases hread : (t.document (Path.ofText name) : Except Fault (Value Float)) with
  | error e =>
      rw [hread] at h
      cases h
  | ok w =>
      rw [hread] at h
      exact heq w h ▸ FileTree.holds_of_document hread

def endingOf (t : FileTree) (args : List String) : Ending :=
  ((solve Float args : StateM FileTree Report).run t).1.ending

theorem stateFiles_endings :
    (holdsSuch (stateFiles "A") "p" (isStateDocument "A") = true ∧
      holdsSuch (stateFiles "A") "-d" (isStateDocument "A") = true ∧
      holdsSuch (stateFiles "A") "c" (isStateCosts "A") = true ∧
      holdsSuch (stateFiles "A") "--" (isStateCosts "A") = true ∧
      holdsSuch (stateFiles "A") "e" isEmptyMap = true) ∧
    [ ["-p", "p"], ["-p", "p", "--layout=auto", "-o", "out"], ["-p", "-d"],
      formArgs "A" "a" "1" "1.0" "--" "e" "e", formArgs "A" "a" "1" "1.0" "c" "e" "e" ].map
        (endingOf (stateFiles "A")) =
      [ .returned 0, .returned 0, .stopped .usage, .escaped .noFileToRead, .returned 0 ] := by
  decide +kernel

/-- A problem of one state in a document and by options, written to a file that both runs are
told. -/
theorem stateFiles_form :
    ((solve Float (formArgs "A" "a" (toString (1 : Int)) "1.0" "c" "e" "e" ++
        ["--layout=auto", "-o", "out"]) : StateM FileTree Report).run (stateFiles "A") :
          Report × FileTree) =
      (solve Float (["-p", "p"] ++ ["--layout=auto", "-o", "out"]) :
        StateM FileTree Report).run (stateFiles "A") ∧
    endingOf (stateFiles "A") (["-p", "p"] ++ ["--layout=auto", "-o", "out"]) = .returned 0 := by
  obtain ⟨⟨p, _, c, _, e⟩, endings⟩ := stateFiles_endings
  simp only [List.map_cons, List.cons.injEq] at endings
  have empty := holds_of_holdsSuch e fun _ => eq_emptyMap
  refine ⟨?_, endings.2.1⟩
  refine solve_form (stateFiles "A") "A" "a" "1.0" "c" "e" "e" "p" 1 1 (stateCosts "A") (.map [])
    (.map []) (stateEntries "A") _ (.inl (by decide)) (by decide) (by decide +kernel)
    (by decide +kernel) (holds_of_holdsSuch c fun _ => eq_stateCosts) empty empty
    (Grammar.form_operand (by decide +kernel)) (holds_of_holdsSuch p fun _ => eq_stateDocument)
    (fun _ => rfl) ?_
  unfold ConcernRun
  decide +kernel

theorem stateFiles_dashes_endings :
    (holdsSuch (stateFiles "--") "p" (isStateDocument "--") = true ∧
      holdsSuch (stateFiles "--") "c" (isStateCosts "--") = true ∧
      holdsSuch (stateFiles "--") "e" isEmptyMap = true) ∧
    [ ["-p", "p"], formArgs "--" "a" "1" "1.0" "c" "e" "e" ].map (endingOf (stateFiles "--")) =
      [ .returned 0, .returned 1 ] := by
  decide +kernel

/-- A state that is called by two dashes is one to a document and none to a form. Costs in a file
of that name are not found, and a document that is called like an option is no document: in
either case the other way of giving the same problem succeeds. -/
theorem solve_dashes :
    (((stateFiles "--").Holds (Path.ofText "p") (.map (stateEntries "--")) ∧
        (stateFiles "--").Holds (Path.ofText "c") (stateCosts "--") ∧
        (stateFiles "--").Holds (Path.ofText "e") (.map [] : Value Float)) ∧
      endingOf (stateFiles "--") ["-p", "p"] = .returned 0 ∧
      endingOf (stateFiles "--") (formArgs "--" "a" "1" "1.0" "c" "e" "e") = .returned 1) ∧
    (((stateFiles "A").Holds (Path.ofText "p") (.map (stateEntries "A")) ∧
        (stateFiles "A").Holds (Path.ofText "--") (stateCosts "A") ∧
        (stateFiles "A").Holds (Path.ofText "e") (.map [] : Value Float)) ∧
      endingOf (stateFiles "A") ["-p", "p"] = .returned 0 ∧
      endingOf (stateFiles "A") (formArgs "A" "a" "1" "1.0" "--" "e" "e") =
        .escaped .noFileToRead) ∧
    (((stateFiles "A").Holds (Path.ofText "-d") (.map (stateEntries "A")) ∧
        (stateFiles "A").Holds (Path.ofText "c") (stateCosts "A") ∧
        (stateFiles "A").Holds (Path.ofText "e") (.map [] : Value Float)) ∧
      endingOf (stateFiles "A") ["-p", "-d"] = .stopped .usage ∧
      endingOf (stateFiles "A") (formArgs "A" "a" "1" "1.0" "c" "e" "e") = .returned 0) := by
  obtain ⟨⟨p', c', e'⟩, endings'⟩ := stateFiles_dashes_endings
  obtain ⟨⟨p, d, c, dashes, e⟩, endings⟩ := stateFiles_endings
  simp only [List.map_cons, List.map_nil, List.cons.injEq, and_true] at endings endings'
  obtain ⟨document, _, option, blank, form⟩ := endings
  have empty := holds_of_holdsSuch e fun _ => eq_emptyMap
  refine ⟨⟨⟨?_, ?_, holds_of_holdsSuch e' fun _ => eq_emptyMap⟩, endings'⟩,
    ⟨⟨?_, ?_, empty⟩, document, blank⟩, ⟨?_, ?_, empty⟩, option, form⟩
  · exact holds_of_holdsSuch p' fun _ => eq_stateDocument
  · exact holds_of_holdsSuch c' fun _ => eq_stateCosts
  · exact holds_of_holdsSuch p fun _ => eq_stateDocument
  · exact holds_of_holdsSuch dashes fun _ => eq_stateCosts
  · exact holds_of_holdsSuch d fun _ => eq_stateDocument
  · exact holds_of_holdsSuch c fun _ => eq_stateCosts

end Examples

end BackwardInduction.Command
