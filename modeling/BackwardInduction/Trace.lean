import BackwardInduction.Dict
import BackwardInduction.Fault

/-!
Computations that leave notices behind, whether they succeed or fail. The result
of a sequence is that of its results, and its notices follow one another.
-/

namespace BackwardInduction

inductive Level where
  | debug
  | info
  | warning
deriving DecidableEq

namespace Level

def rank : Level → Nat
  | .debug => 0
  | .info => 1
  | .warning => 2

def name : Level → String
  | .debug => "DEBUG"
  | .info => "INFO"
  | .warning => "WARNING"

end Level

inductive Notice (α : Type) where
  /-- A model was taken to be time-varying for the sake of these keys. -/
  | layered (family : Family) (keys : List (Key α))
  /-- A row leads to states that are not declared; no stage means the stationary table. -/
  | undeclared (stage : Option Nat) (state action : String) (names : List String)
  | solving (states actions horizon : Nat) (discount : α)
  | solvedStage (stage : Nat) (values : Dict String α)
  | clamped (given used : Number α)
  | wrote (stages : Nat) (path : Path)

namespace Notice

variable {α : Type}

def level : Notice α → Level
  | .layered .. | .solving .. | .solvedStage .. => .debug
  | .undeclared .. => .warning
  | .clamped .. | .wrote .. => .info

def stageText : Option Nat → String
  | none => "*"
  | some stage => toString stage

variable [Scalar α]

def dictText (d : Dict String α) : String :=
  inBraces (d.entries.map fun e => Text.quoted e.1 ++ ": " ++ Scalar.text e.2)

def message : Notice α → String
  | .layered family keys =>
      s!"Treating {family.name} model as time-varying " ++
        s!"(stage keys: {inBrackets (keys.map Key.literal)})."
  | .undeclared stage state action names =>
      s!"Transition row ({stageText stage}, {state}, {action}) mentions undeclared states " ++
        s!"{Text.quotedList names}; their probability is dropped during solving."
  | .solving states actions horizon discount =>
      s!"Solving {states} states x {actions} actions over {horizon} stages " ++
        s!"(discount={Scalar.text discount})."
  | .solvedStage stage values => s!"Stage {stage} complete: {dictText values}"
  | .clamped given used => s!"Clamped discount {given.text} to {used.text}."
  | .wrote stages path =>
      s!"Wrote value and policy tables for {stages} stages to {path.text}"

end Notice

structure Traced (α β : Type) where
  notices : List (Notice α)
  result : Except Fault β

namespace Traced

variable {α β γ : Type}

def ok (b : β) : Traced α β :=
  ⟨[], .ok b⟩

def bind (t : Traced α β) (f : β → Traced α γ) : Traced α γ :=
  match t.result with
  | .ok b => ⟨t.notices ++ (f b).notices, (f b).result⟩
  | .error e => ⟨t.notices, .error e⟩

instance : Monad (Traced α) where
  pure := ok
  bind := bind

instance : MonadExceptOf Fault (Traced α) where
  throw e := ⟨[], .error e⟩
  tryCatch t handle :=
    match t.result with
    | .ok _ => t
    | .error e => ⟨t.notices ++ (handle e).notices, (handle e).result⟩

def ofResult (r : Except Fault β) : Traced α β :=
  ⟨[], r⟩

instance : MonadLift (Except Fault) (Traced α) where
  monadLift := ofResult

def note (n : Notice α) : Traced α Unit :=
  ⟨[n], .ok ()⟩

@[simp]
theorem result_pure (b : β) : (pure b : Traced α β).result = .ok b :=
  rfl

@[simp]
theorem result_bind (t : Traced α β) (f : β → Traced α γ) :
    (t >>= f).result = t.result >>= fun b => (f b).result := by
  change (bind t f).result = _
  unfold bind
  cases t.result <;> rfl

@[simp]
theorem result_ofResult (r : Except Fault β) : (ofResult r : Traced α β).result = r :=
  rfl

@[simp]
theorem result_throw (e : Fault) : (throw e : Traced α β).result = .error e :=
  rfl

@[simp]
theorem result_note (n : Notice α) : (note n).result = .ok () :=
  rfl

end Traced

end BackwardInduction
