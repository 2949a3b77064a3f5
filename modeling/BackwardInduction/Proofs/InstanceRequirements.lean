import Mathlib.Algebra.Group.Int.Defs
import BackwardInduction.Proofs.DocumentFaults
import BackwardInduction.Proofs.MarkedTables
import BackwardInduction.Proofs.NormalizedModels
import BackwardInduction.Scalar.Binary64

/-!
What an instance is required to be. The requirements come in an order: an instance is solved
exactly if it meets them all, and otherwise the fault tells the first that it does not meet,
whatever else is wrong with it. A discount that is a whole number beyond the range of the
arithmetic is refused as such, and not as a discount.
-/

namespace BackwardInduction

section Requirements

/-- What is required, and which faults tell that it is not so. -/
structure Requirement where
  met : Prop
  tells : Fault → Prop

/-- The fault tells the first of the requirements that is not met. -/
inductive FirstUnmet : List Requirement → Fault → Prop
  | here {r : Requirement} {rs : List Requirement} {e : Fault} (hmet : ¬r.met)
      (he : r.tells e) : FirstUnmet (r :: rs) e
  | later {r : Requirement} {rs : List Requirement} {e : Fault} (hmet : r.met)
      (h : FirstUnmet rs e) : FirstUnmet (r :: rs) e

/-- The outcome is a success exactly if all is as required, and a fault tells what is not. -/
structure Enforces {β : Type} (rs : List Requirement) (outcome : Except Fault β) : Prop where
  accepts_iff : (∃ b, outcome = .ok b) ↔ ∀ r ∈ rs, r.met
  first_unmet : ∀ e, outcome = .error e → FirstUnmet rs e

variable {β γ : Type} {rs rs' : List Requirement}

theorem FirstUnmet.append_left {e : Fault} (h : FirstUnmet rs e) : FirstUnmet (rs ++ rs') e := by
  induction h with
  | here hmet he => exact .here hmet he
  | later hmet _ ih => exact .later hmet ih

theorem FirstUnmet.append_right {e : Fault} (hmet : ∀ r ∈ rs, r.met) (h : FirstUnmet rs' e) :
    FirstUnmet (rs ++ rs') e := by
  induction rs with
  | nil => exact h
  | cons r rs ih =>
      obtain ⟨hr, hrs⟩ := List.forall_mem_cons.mp hmet
      exact .later hr (ih hrs)

theorem Enforces.pure (b : β) : Enforces [] (.ok b : Except Fault β) :=
  ⟨⟨fun _ => nofun, fun _ => ⟨b, rfl⟩⟩, nofun⟩

theorem Enforces.single {r : Requirement} {outcome : Except Fault β}
    (accepts : (∃ b, outcome = .ok b) ↔ r.met) (tells : ∀ e, outcome = .error e → r.tells e) :
    Enforces [r] outcome := by
  refine ⟨accepts.trans List.forall_mem_singleton.symm, fun e he => .here (fun hmet => ?_)
    (tells e he)⟩
  obtain ⟨b, hb⟩ := accepts.mpr hmet
  rw [he] at hb
  cases hb

/-- What is required step by step is required in this order. -/
theorem Enforces.bind {x : Except Fault β} {f : β → Except Fault γ} (hx : Enforces rs x)
    (hf : ∀ b, x = .ok b → Enforces rs' (f b)) : Enforces (rs ++ rs') (x >>= f) := by
  cases x with
  | error e =>
      refine ⟨⟨nofun, fun hmet => ?_⟩, ?_⟩
      · have hrs := (List.forall_mem_append.mp hmet).1
        obtain ⟨b, hb⟩ := hx.accepts_iff.mpr hrs
        cases hb
      · rintro _ ⟨⟩
        exact (hx.first_unmet e rfl).append_left
  | ok b =>
      have hrs := hx.accepts_iff.mp ⟨b, rfl⟩
      refine ⟨?_, fun e he => .append_right hrs ((hf b rfl).first_unmet e he)⟩
      rw [List.forall_mem_append, and_iff_right hrs]
      exact (hf b rfl).accepts_iff

end Requirements

variable {α β : Type} [Scalar α]

section Statement

/-- What tells that a discount is none. -/
inductive DiscountFault (v : Value α) : Fault → Prop
  | refused {e : Fault} (hv : ¬v.IsBeyondRange) (he : e.kind = .discount) : DiscountFault v e
  | beyondRange (hv : v.IsBeyondRange) : DiscountFault v .beyondRange

namespace Requirement

def someNames (what : String) (names : List String) : Requirement :=
  ⟨names ≠ [], (· = .noNames what)⟩

def distinctNames (what : String) (names : List String) : Requirement :=
  ⟨names.Nodup, (· = .repeatedNames what (repeated names))⟩

def horizon (v : Value α) : Requirement :=
  ⟨∃ n : Nat, v = .number (.whole n) ∧ 1 ≤ n, (·.kind = .horizon)⟩

def discount (v : Value α) : Requirement :=
  ⟨∃ (g : α) (n : Number α), v = .number n ∧ n.TakenFor g ∧
      Scalar.isNaN g = false ∧ 0 ≤ g ∧ g ≤ 1, DiscountFault v⟩

/-- A model is read; what reading finds at fault is a fault of the model, or of its keys. -/
def model (outcome : Except Fault (Model β)) : Requirement :=
  ⟨∃ m, outcome = .ok m,
    fun e => outcome = .error e ∧ (e.kind = .model ∨ e.kind = .ambiguity)⟩

/-- No row that was read is empty, whichever stage, state and action it is for. -/
def filledRows (outcome : Except Fault (TransitionModel α)) : Requirement :=
  ⟨∀ m, outcome = .ok m → m.All (·.isEmpty = false), (·.kind = .emptyRow)⟩

/-- Null, or a mapping to finite numbers. -/
def salvage (v : Value α) : Requirement :=
  ⟨v = .null ∨ ∃ entries, v = .map entries ∧
      ∀ e ∈ entries, ∃ x : α, e.2.Denotes x ∧ Scalar.isFinite x = true,
    fun e => readSalvage v = .error e ∧ e.kind = .model⟩

end Requirement

/-- All that is required of an instance. -/
def Instance.requirements (inst : Instance α) : List Requirement :=
  [ .someNames "States" inst.states, .distinctNames "States" inst.states,
    .someNames "Actions" inst.actions, .distinctNames "Actions" inst.actions,
    .horizon inst.horizon, .discount inst.discount,
    .model (readCosts inst.costs inst.states inst.layout).result,
    .model (readTransitions inst.transitions inst.states inst.layout).result,
    .filledRows (readTransitions inst.transitions inst.states inst.layout).result,
    .salvage inst.salvage ]

/-- The keys that may name stages: those at the top of a plain model, or those of the stages
of a marked one. -/
def Value.stageKeys : Value α → List (Key α)
  | .map entries | .timeVarying (.map entries) _ => entries.map Prod.fst
  | _ => []

/-- None of these keys is a stage beyond the digit limit. -/
def Value.StagesWithin (v : Value α) : Prop :=
  ∀ s, Key.text s ∈ v.stageKeys → ∀ digits, ¬Text.IsLongStage s digits

end Statement

section Checks

open Requirement

theorem enforces_checkNames (what : String) (names : List String) :
    Enforces [someNames what names, distinctNames what names] (checkNames what names) := by
  constructor
  · have unit : (∃ b, checkNames what names = .ok b) ↔ checkNames what names = .ok () :=
      ⟨fun ⟨_, h⟩ => h, fun h => ⟨(), h⟩⟩
    rw [unit, checkNames_eq_ok_iff, List.forall_mem_cons, List.forall_mem_singleton]
    rfl
  · intro e he
    unfold checkNames at he
    split at he
    · rename_i hempty
      cases he
      exact .here (fun hne => hne (List.isEmpty_iff.mp hempty)) rfl
    · rename_i hempty
      split at he
      · rename_i hagain
        cases he
        refine .later (fun hnil => hempty (List.isEmpty_iff.mpr hnil)) (.here (fun hnodup => ?_) rfl)
        rw [(repeated_eq_nil_iff names).mpr hnodup] at hagain
        cases hagain
      · cases he

theorem enforces_checkHorizon (v : Value α) :
    Enforces [Requirement.horizon v] (checkHorizon v) := by
  refine .single (exists_congr fun n => checkHorizon_eq_ok_iff v n) fun e he => ?_
  unfold checkHorizon at he
  split at he
  · split at he <;> cases he
    rfl
  · cases he
    rfl

theorem enforces_checkDiscount (v : Value α) :
    Enforces [Requirement.discount v] (checkDiscount v) := by
  refine .single (exists_congr fun g => checkDiscount_eq_ok_iff v g) fun e he => ?_
  by_cases hv : v.IsBeyondRange
  · obtain ⟨i, rfl, hi⟩ := hv
    simp only [checkDiscount, hi] at he
    cases he
    exact .beyondRange ⟨i, rfl, hi⟩
  · have ends := ends_checkDiscount hv
    rw [he] at ends
    exact .refused hv ends

end Checks

section Models

namespace CellReader

variable {r : CellReader α β}

/-- Marked stages are malformed, or one of their keys fails as a stage. -/
theorem ends_markedLayers (entries : Entries α) :
    Ends (fun e => e.kind = .model ∨ ∃ entry ∈ entries, entry.1.stage = .error e)
      (fun _ => True) (r.markedLayers (.map entries)) := by
  rw [markedLayers_map]
  refine Ends.foldlM trivial fun layers _ e he => ?_
  rw [addMarked]
  cases hstage : e.1.stage with
  | error fault => exact .inr ⟨e, he, hstage⟩
  | ok stage? =>
      cases stage? with
      | none => exact .inl rfl
      | some stage => exact (malforms_addLayer layers stage e.2).imp (fun _ => .inl) fun _ => id

variable (hr : r.MalformsCells)
include hr

/-- Whatever goes wrong is a fault of the model or of its keys, unless a key is a stage beyond
the digit limit. -/
theorem ends_model_of_stagesWithin {v : Value α} (hv : v.StagesWithin) (states : List String)
    {layout : Layout} (hlayout : layout.isKnown = true) :
    Ends (fun e => e.kind = .model ∨ e.kind = .ambiguity) (fun _ => True)
      (r.model v states layout).result := by
  have within {k : Key α} (hk : k ∈ v.stageKeys) {e : Fault} : k.stage ≠ .error e := by
    intro he
    obtain ⟨s, digits, rfl, _, hlong⟩ := Key.stage_error he
    exact hv s hk digits hlong
  have plain {entries : Entries α} (h : PlainEntries v entries) :
      Ends (fun e => e.kind = .model ∨ e.kind = .ambiguity) (fun _ => True)
        (r.model v states layout).result := by
    refine (ends_model_plain hr h states hlayout).imp (fun e he => ?_) fun _ => id
    rcases he with he | he
    · exact .inl he
    · cases he with
      | malformed he => exact .inl he
      | ambiguous _ _ _ he => exact .inr he
      | stage hentry he =>
          cases h with
          | null => cases hentry
          | map => exact absurd he (within (List.mem_map_of_mem hentry))
  have malformed {x : Except Fault (Model β)} (h : Malforms x) :
      Ends (fun e => e.kind = .model ∨ e.kind = .ambiguity) (fun _ => True) x :=
    h.imp (fun _ => .inl) fun _ => id
  cases v with
  | null => exact plain .null
  | map entries => exact plain (.map entries)
  | bool _ | number _ | text _ | list _ => exact .inl rfl
  | stationary table => exact malformed (malforms_model_stationary hr table states layout)
  | timeVarying stages fallback =>
      refine malformed (malforms_model_timeVarying hr ?_ fallback states layout)
      cases stages with
      | map entries =>
          refine (ends_markedLayers entries).imp (fun e he => ?_) fun _ => id
          refine he.resolve_right ?_
          rintro ⟨entry, hentry, hstage⟩
          exact within (List.mem_map_of_mem hentry) hstage
      | null | bool _ | number _ | text _ | list _ | stationary _ | timeVarying _ _ => rfl

theorem enforces_model {v : Value α} (hv : v.StagesWithin) (states : List String)
    {layout : Layout} (hlayout : layout.isKnown = true) :
    Enforces [Requirement.model (r.model v states layout).result]
      (r.model v states layout).result := by
  refine .single Iff.rfl fun e he => ⟨he, ?_⟩
  have ends := ends_model_of_stagesWithin hr hv states hlayout
  rw [he] at ends
  exact ends

end CellReader

theorem enforces_normalize {outcome : Except Fault (TransitionModel α)} {m : TransitionModel α}
    (hm : outcome = .ok m) (states : List String) :
    Enforces [Requirement.filledRows outcome] (m.normalize states).result := by
  refine .single ((m.exists_normalize_iff states).trans ?_) fun e he => ?_
  · subst hm
    constructor
    · rintro h _ ⟨⟩
      exact h
    · exact fun h => h m rfl
  · have ends := ends_normalize m states
    rw [he] at ends
    exact ends

end Models

section Salvage

/-- A mapping is read exactly if each of its values is. -/
theorem exists_readDict_iff (item : Place → Value α → Except Fault β) (place : Place)
    (v : Value α) :
    (∃ d, readDict item place v = .ok d) ↔
      ∃ entries, v = .map entries ∧ ∀ e ∈ entries, ∃ b, item (place.under e.1) e.2 = .ok b := by
  have step (entries : Entries α) :
      (∃ es, List.Forall₂ (ReadsEntry item place) entries es) ↔
        ∀ e ∈ entries, ∃ b, item (place.under e.1) e.2 = .ok b := by
    rw [exists_forall₂_iff]
    refine forall₂_congr fun e _ => ?_
    exact ⟨fun ⟨e', he⟩ => ⟨e'.2, he.2⟩, fun ⟨b, hb⟩ => ⟨(e.1.display, b), rfl, hb⟩⟩
  simp only [readDict_eq_ok_iff, ← step]
  constructor
  · rintro ⟨_, entries, hv, es, hes, _⟩
    exact ⟨entries, hv, es, hes⟩
  · rintro ⟨entries, hv, es, hes⟩
    exact ⟨_, entries, hv, es, hes, rfl⟩

theorem enforces_readSalvage (v : Value α) :
    Enforces [Requirement.salvage v] (readSalvage v) := by
  refine .single ?_ fun e he => ⟨he, ?_⟩
  · unfold readSalvage
    split
    · exact iff_of_true ⟨∅, rfl⟩ (.inl rfl)
    · rename_i v hv
      rw [exists_readDict_iff]
      simp only [readNumber_eq_ok_iff]
      exact (or_iff_right hv).symm
  · unfold readSalvage at he
    split at he
    · cases he
    · have ends := malforms_readDict malforms_readNumber (Place.ofRoot "salvage") v
      rw [he] at ends
      exact ends

end Salvage

/-- Exactly the instances that are as required are solved, and otherwise the fault tells the
first requirement that is not met. -/
theorem solve_enforces (inst : Instance α) (hlayout : inst.layout.isKnown = true)
    (hcosts : inst.costs.StagesWithin) (htransitions : inst.transitions.StagesWithin) :
    Enforces inst.requirements (Solution.solve inst).result := by
  have prepared : Enforces inst.requirements (Solution.prepare inst).result := by
    simp only [Solution.prepare, Traced.result_bind, Traced.result_liftM, Traced.result_pure]
    refine (enforces_checkNames "States" inst.states).bind fun _ _ => ?_
    refine (enforces_checkNames "Actions" inst.actions).bind fun _ _ => ?_
    refine (enforces_checkHorizon inst.horizon).bind fun _ _ => ?_
    refine (enforces_checkDiscount inst.discount).bind fun _ _ => ?_
    refine (CellReader.enforces_model malforms_costCells hcosts _ hlayout).bind fun _ _ => ?_
    refine (CellReader.enforces_model malforms_transitionCells htransitions _ hlayout).bind
      fun m hm => ?_
    refine (enforces_normalize hm _).bind fun _ _ => ?_
    exact (enforces_readSalvage inst.salvage).bind fun _ _ => .pure _
  simp only [Solution.solve, Traced.result_bind, Traced.result_note, Traced.result_pure]
  rw [← List.append_nil inst.requirements]
  exact prepared.bind fun _ _ => .pure _

/-- The discount is beyond the range of doubles, and the salvage is no mapping. -/
def boundlessInstance : Instance Float where
  states := ["A"]
  actions := ["a"]
  horizon := .number (.whole 1)
  discount := .number (.whole (10 ^ 400))
  costs := .map [ Value.entry "A" (.map [ Value.entry "a" (.number (.whole 2)) ]) ]
  salvage := .bool true

theorem boundlessInstance_refused :
    (Solution.solve boundlessInstance).result = .error .beyondRange ∧
      FirstUnmet boundlessInstance.requirements .beyondRange ∧
      ∀ r ∈ { boundlessInstance with
        discount := .number (.whole 1), salvage := .null : Instance Float }.requirements, r.met := by
  have costs : boundlessInstance.costs.StagesWithin := by
    intro s hs digits hlong
    obtain rfl : s = "A" := Key.text.inj (List.mem_singleton.mp hs)
    have short := hlong.long
    rw [← hlong.length_eq] at short
    revert short
    decide +kernel
  have transitions : boundlessInstance.transitions.StagesWithin := nofun
  have refused : (Solution.solve boundlessInstance).result = .error .beyondRange := by
    have h : (match (Solution.solve boundlessInstance).result with
      | .error e => decide (e = .beyondRange)
      | .ok _ => false) = true := by decide +kernel
    split at h
    · rename_i he
      rw [he, of_decide_eq_true h]
    · cases h
  obtain ⟨s, hs, _⟩ := exists_ok_of_map_toOption
    (x := (Solution.solve { boundlessInstance with
      discount := .number (.whole 1), salvage := .null }).result)
    (f := fun _ => ()) (c := ()) (by decide +kernel)
  exact ⟨refused, (solve_enforces boundlessInstance rfl costs transitions).first_unmet _ refused,
    (solve_enforces { boundlessInstance with
      discount := .number (.whole 1), salvage := .null } rfl costs transitions).accepts_iff.mp
        ⟨s, hs⟩⟩

end BackwardInduction
