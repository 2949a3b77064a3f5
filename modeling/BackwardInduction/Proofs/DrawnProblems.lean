import BackwardInduction.Problem.Synthetic
import BackwardInduction.Proofs.CellInvariants
import BackwardInduction.Proofs.StageTexts

/-!
What is drawn at random. Of the source of numbers nothing is assumed but that each is below the
bound it is asked for. Drawing then fails from no state of the source as long as the bounds of
a draft are in order and its numbers are ones of the arithmetic; the problem has just the
states, actions and stages of its draft, in their order, and every number is between its bounds.
-/

namespace BackwardInduction

variable {α β γ σ : Type}

namespace Random

/-- No number that is drawn reaches its bound. -/
def Source.Bounded (source : Source σ) : Prop :=
  ∀ bound s, 0 < bound → (source.below bound s).1 < bound

theorem Twister.drawBelow_lt {bound : Nat} (h : 0 < bound) (tries : Nat) (t : Twister) :
    (drawBelow bound tries t).1 < bound := by
  induction tries generalizing t with
  | zero => exact h
  | succ tries ih =>
      rw [drawBelow]
      dsimp only
      split
      · assumption
      · exact ih _

theorem bounded_twister : twister.Bounded :=
  fun _ t h => Twister.drawBelow_lt h Twister.tries t

end Random

open BackwardInduction.Random

/-- The map has just these keys, in this order, and all its values have the property. -/
structure Dict.Covers {κ ν : Type} (keys : List κ) (P : ν → Prop) (d : Dict κ ν) : Prop where
  keys_eq : d.keys = keys
  all : d.All P

theorem Dict.Covers.imp {κ ν : Type} {keys : List κ} {P Q : ν → Prop} {d : Dict κ ν}
    (h : d.Covers keys P) (hPQ : ∀ v, P v → Q v) : d.Covers keys Q :=
  ⟨h.keys_eq, fun e he => hPQ e.2 (h.all e he)⟩

theorem Dict.covers_ofList {κ ν : Type} [DecidableEq κ] {P : ν → Prop} {keys : List κ}
    {es : List (κ × ν)} (hkeys : keys.Nodup)
    (h : List.Forall₂ (fun k e => e.1 = k ∧ P e.2) keys es) :
    (Dict.ofList es).Covers keys P := by
  have names : es.map Prod.fst = keys := by
    induction h with
    | nil => rfl
    | cons he _ ih => rw [List.map_cons, he.1, ih (List.nodup_cons.mp hkeys).2]
  have entries := Dict.entries_ofList (names.symm ▸ hkeys)
  refine ⟨by rw [Dict.keys, entries, names], Dict.all_ofList fun e he => ?_⟩
  obtain ⟨k, _, hk⟩ := exists_of_forall₂ h he
  exact hk.2

namespace Draft

section Drawing

/-- From every state of the source something is drawn, and it has the property. -/
def Draws (P : β → Prop) (x : Drawing σ β) : Prop :=
  ∀ s, ∃ b s', x.run s = .ok (b, s') ∧ P b

variable {P : β → Prop} {Q : γ → Prop}

theorem draws_pure {b : β} (h : P b) : Draws P (pure b : Drawing σ β) :=
  fun s => ⟨b, s, rfl, h⟩

theorem Draws.bind {x : Drawing σ β} {f : β → Drawing σ γ} (hx : Draws P x)
    (hf : ∀ b, P b → Draws Q (f b)) : Draws Q (x >>= f) := by
  intro s
  obtain ⟨b, s', run, hb⟩ := hx s
  obtain ⟨c, s'', run', hc⟩ := hf b hb s'
  refine ⟨c, s'', ?_, hc⟩
  rw [StateT.run_bind, run]
  exact run'

theorem draws_mapM {R : γ → β → Prop} {f : γ → Drawing σ β} {xs : List γ}
    (h : ∀ x ∈ xs, Draws (R x) (f x)) : Draws (List.Forall₂ R xs) (xs.mapM f) := by
  induction xs with
  | nil => exact draws_pure .nil
  | cons x xs ih =>
      obtain ⟨hx, hxs⟩ := List.forall_mem_cons.mp h
      rw [List.mapM_cons]
      exact hx.bind fun b hb => (ih hxs).bind fun bs hbs => draws_pure (.cons hb hbs)

theorem draws_entries {κ : Type} [DecidableEq κ] {keys : List κ} (hkeys : keys.Nodup)
    {item : Drawing σ β} (h : Draws P item) :
    Draws (Dict.Covers keys P)
      (do return Dict.ofList (← keys.mapM fun key => do return (key, ← item))) := by
  have entries : Draws (List.Forall₂ (fun key e => e.1 = key ∧ P e.2) keys)
      (keys.mapM fun key => do return (key, ← item)) :=
    draws_mapM fun key _ => h.bind fun b hb => draws_pure ⟨rfl, hb⟩
  exact entries.bind fun es hes => draws_pure (Dict.covers_ofList hkeys hes)

end Drawing

section Numbers

theorem draws_whole {source : Source σ} (hsource : source.Bounded) {low high : Int}
    (h : low ≤ high) : Draws (fun i => low ≤ i ∧ i ≤ high) (drawWhole source low high) := by
  intro s
  have below := hsource (high - low + 1).toNat s (by omega)
  generalize hdrawn : source.below (high - low + 1).toNat s = drawn at below
  have bounds : low ≤ low + (drawn.1 : Int) ∧ low + (drawn.1 : Int) ≤ high := by omega
  refine ⟨low + drawn.1, drawn.2, ?_, bounds⟩
  rw [← hdrawn]
  exact if_neg (Int.not_lt.mpr h)

variable [Scalar α]

/-- The number is a whole one between the bounds. -/
def Between (low high : Int) (x : α) : Prop :=
  ∃ i, low ≤ i ∧ i ≤ high ∧ Scalar.ofInt? i = some x

/-- There is something between the bounds, and all of it is in the arithmetic. -/
structure Spans (α : Type) [Scalar α] (low high : Int) : Prop where
  ordered : low ≤ high
  exists_ofInt? : ∀ i, low ≤ i → i ≤ high → ∃ x : α, Scalar.ofInt? i = some x

theorem draws_number {source : Source σ} (hsource : source.Bounded) {low high : Int}
    (h : Spans α low high) :
    Draws (Between low high) (drawNumber source low high : Drawing σ α) := by
  refine (draws_whole hsource h.ordered).bind fun i hi => ?_
  obtain ⟨x, hx⟩ := h.exists_ofInt? i hi.1 hi.2
  rw [hx]
  exact draws_pure ⟨i, hi.1, hi.2, hx⟩

end Numbers

variable [Scalar α]

section Names

theorem nodup_numbered (letter : String) (count : Int) : (numbered letter count).Nodup := by
  refine List.nodup_range.map fun i j h => toString_injective (String.toList_inj.mp ?_)
  have chars := congrArg String.toList h
  rw [String.toList_append, String.toList_append, List.append_cancel_left_eq] at chars
  exact chars

theorem mem_numbered {letter : String} {count : Int} {name : String}
    (h : name ∈ numbered letter count) : ∃ i : Nat, name = letter ++ toString i := by
  obtain ⟨i, _, rfl⟩ := List.mem_map.mp h
  exact ⟨i, rfl⟩

end Names

section Shapes

variable (d : Draft α)

/-- The table has a cell with the property for each state and action of the draft. -/
def IsTable (P : β → Prop) (t : Table β) : Prop :=
  Dict.Covers d.states (Dict.Covers d.actions P) t

/-- The model has a table for each stage of the draft if it changes with time, with nothing
behind them, and one table if it does not. -/
def IsModel (P : β → Prop) : Model β → Prop
  | .stationary t => d.timeVarying = false ∧ d.IsTable P t
  | .timeVarying stages fallback =>
      d.timeVarying = true ∧ stages.Covers (List.range d.horizon.toNat) (d.IsTable P) ∧
        fallback = ∅

/-- The problem is one that may be drawn for the draft. -/
structure IsProblem (p : Problem α) : Prop where
  states_eq : p.states = d.states
  actions_eq : p.actions = d.actions
  horizon_eq : p.horizon = d.horizon
  discount_eq : p.discount = d.discount
  costs : d.IsModel (Between d.costLow d.costHigh) p.costs
  transitions : d.IsModel (Dict.Covers d.states (Between d.weightLow d.weightHigh)) p.transitions
  salvage : p.salvage.Covers d.states (Between d.costLow d.costHigh)

end Shapes

variable {d : Draft α}

theorem draws_table {P : β → Prop} {cell : Drawing σ β} (h : Draws P cell) :
    Draws (d.IsTable P) (d.drawTable cell) :=
  draws_entries (nodup_numbered _ _) (draws_entries (nodup_numbered _ _) h)

theorem draws_model {P : β → Prop} {cell : Drawing σ β} (h : Draws P cell) :
    Draws (d.IsModel P) (d.drawModel cell) := by
  unfold drawModel
  cases htime : d.timeVarying with
  | false => exact (draws_table h).bind fun t ht => draws_pure ⟨htime, ht⟩
  | true =>
      have stages : Draws (List.Forall₂ (fun stage e => e.1 = stage ∧ d.IsTable P e.2)
            (List.range d.horizon.toNat))
          ((List.range d.horizon.toNat).mapM fun stage => do
            return (stage, ← d.drawTable cell)) :=
        draws_mapM fun stage _ => (draws_table h).bind fun t ht => draws_pure ⟨rfl, ht⟩
      exact stages.bind fun es hes =>
        draws_pure ⟨htime, Dict.covers_ofList List.nodup_range hes, rfl⟩

/-- Whatever numbers the source gives, a problem of the draft is drawn. -/
theorem exists_problem {source : Source σ} (hsource : source.Bounded)
    (hweights : Spans α d.weightLow d.weightHigh) (hcosts : Spans α d.costLow d.costHigh)
    (start : σ) : ∃ p, d.problem source start = .ok p ∧ d.IsProblem p := by
  have cost : Draws (Between d.costLow d.costHigh) (d.drawCost source) :=
    draws_number hsource hcosts
  have row : Draws (Dict.Covers d.states (Between d.weightLow d.weightHigh)) (d.drawRow source) :=
    draws_entries (nodup_numbered _ _) (draws_number hsource hweights)
  have drawn : Draws d.IsProblem (d.drawProblem source) := by
    refine (draws_model row).bind fun transitions htransitions => ?_
    refine (draws_model cost).bind fun costs hcosts => ?_
    refine Draws.bind (draws_entries (nodup_numbered _ _) cost) fun salvage hsalvage => ?_
    exact draws_pure ⟨rfl, rfl, rfl, rfl, hcosts, htransitions, hsalvage⟩
  obtain ⟨p, s, run, hp⟩ := drawn start
  have run : d.drawProblem source start = .ok (p, s) := run
  exact ⟨p, by rw [problem, run]; rfl, hp⟩

end Draft

end BackwardInduction
