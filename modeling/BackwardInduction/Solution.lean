import BackwardInduction.Model.Normal
import BackwardInduction.Model.Reading

/-!
Backward induction. The values of the last stage are the terminal ones; at each
stage before, a state is worth the least expected cost over the actions, and the
policy takes the first action that attains it.
-/

namespace BackwardInduction

variable {α : Type} [Scalar α]

/-- What is to be solved, as it was given. -/
structure Instance (α : Type) [Scalar α] where
  states : List String
  actions : List String
  horizon : Value α
  discount : Value α := .number (.real 1)
  costs : Value α := .null
  transitions : Value α := .null
  salvage : Value α := .null
  layout : Layout := .auto

section Checks

/-- The names that occur again, in the order in which they first do so. -/
def repeated (names : List String) : List String :=
  (names.foldl (fun (seen, again) name =>
    (name :: seen,
      if seen.contains name && !again.contains name then again ++ [name] else again))
    (([], []) : List String × List String)).2

/-- Names of a domain: at least one, and none twice. -/
def checkNames (what : String) (names : List String) : Except Fault Unit :=
  if names.isEmpty then .error (.noNames what)
  else if !(repeated names).isEmpty then .error (.repeatedNames what (repeated names))
  else .ok ()

/-- A horizon: a whole number from one on. -/
def checkHorizon (v : Value α) : Except Fault Nat :=
  match v with
  | .number (.whole i) => if i < 1 then .error (.horizonTooSmall i) else .ok i.toNat
  | v => .error (.horizonNotWhole v.literal)

/-- A discount: a number from zero to one. -/
def checkDiscount (v : Value α) : Except Fault α :=
  match v with
  | .number n => do
      let x ←
        match n with
        | .real x => pure x
        | .whole i =>
            match Scalar.ofInt? i with
            | some x => pure x
            | none => throw .beyondRange
      if Scalar.isNaN x || !(0 ≤ x && x ≤ 1) then throw (.discountOutside n.text)
      return x
  | v => .error (.discountNotNumber v.literal)

end Checks

/-- A checked problem: the parts of the recursion that do not change from stage to stage. -/
structure Process (α : Type) where
  states : List String
  actions : List String
  discount : α
  costs : CostModel α
  transitions : TransitionModel α

abbrev Values (α : Type) := Dict String α

abbrev Policy := Dict String String

/-- What a row leads to on average: next states of no value count as zero. -/
def expectedValue (row : Row α) (states : List String) (next : String → α) : α :=
  states.foldl (fun total s => total + row.getD s 0 * next s) 0

/-- The expectation over values that may lack a state. -/
def expectedValue? (row : Row α) (states : List String) (next : Values α) :
    Except Fault α :=
  match states.find? fun s => !next.contains s with
  | some s => .error (.missingKey s)
  | none => .ok (expectedValue row states fun s => next.getD s 0)

/-- The first of the candidates that are least, of those below infinity. -/
def leastFrom (best : Option (String × α)) : List (String × α) → Option (String × α)
  | [] => best
  | c :: cs =>
      match best with
      | none => leastFrom (if Scalar.belowInfinity c.2 then some c else none) cs
      | some b => leastFrom (if c.2 < b.2 then some c else some b) cs

/-- The least candidate with its value; the first one, at infinity, if none is below it. -/
def least (candidates : List (String × α)) : String × α :=
  match leastFrom none candidates with
  | some b => b
  | none => ((candidates.head?.map Prod.fst).getD "", Scalar.infinityOrZero)

namespace Process

variable (p : Process α)

/-- The cost of an action now and its expected discounted cost from the next stage on. -/
def actionValue (stage : Nat) (state action : String) (next : Values α) : α :=
  p.costs.cost stage state action +
    p.discount *
      expectedValue (p.transitions.row stage state action p.states) p.states
        fun s => next.getD s 0

def candidates (stage : Nat) (state : String) (next : Values α) : List (String × α) :=
  p.actions.map fun action => (action, p.actionValue stage state action next)

def choice (stage : Nat) (state : String) (next : Values α) : String × α :=
  least (p.candidates stage state next)

/-- The values and the policy of a stage, given the values of the next. -/
def backup (stage : Nat) (next : Values α) : Values α × Policy :=
  let choices := p.states.map fun s => (s, p.choice stage s next)
  (Dict.ofList (choices.map fun (s, c) => (s, c.2)),
    Dict.ofList (choices.map fun (s, c) => (s, c.1)))

/-- Puts the tables of the stages before `stage` in front of those from it on. -/
def sweep : (stage : Nat) → (next : Values α) → List (Values α) → List Policy →
    List (Values α) × List Policy
  | 0, _, values, policy => (values, policy)
  | stage + 1, next, values, policy =>
      let (v, d) := p.backup stage next
      sweep stage v (v :: values) (d :: policy)

/-- Values of stages `0` to `horizon`, and decisions of the stages before it. -/
def tables (horizon : Nat) (terminal : Values α) : List (Values α) × List Policy :=
  p.sweep horizon terminal [terminal] []

end Process

structure Solution (α : Type) extends Process α where
  values : List (Values α)
  policy : List Policy

namespace Solution

def horizon (s : Solution α) : Nat :=
  s.policy.length

/-- The terminal values of the states: what was given for them, and zero otherwise. -/
def terminal (states : List String) (salvage : Dict String α) : Values α :=
  Dict.ofKeys states fun s => salvage.getD s 0

/-- The process that an instance describes, its horizon and its terminal values. Whatever can be
at fault is found here, before the first stage. -/
def prepare (inst : Instance α) : Traced α (Process α × Nat × Values α) := do
  checkNames "States" inst.states
  checkNames "Actions" inst.actions
  let horizon ← checkHorizon inst.horizon
  let discount ← checkDiscount inst.discount
  let costs ← readCosts inst.costs inst.states inst.layout
  let raw ← readTransitions inst.transitions inst.states inst.layout
  let transitions ← raw.normalize inst.states
  let salvage ← readSalvage inst.salvage
  return (⟨inst.states, inst.actions, discount, costs, transitions⟩, horizon,
    terminal inst.states salvage)

/-- Notices of the stages, in the order in which they are solved. -/
def stageNotices (values : List (Values α)) : List (Notice α) :=
  (values.zipIdx.map fun (v, stage) => .solvedStage stage v).dropLast.reverse

def solve (inst : Instance α) : Traced α (Solution α) := do
  let (p, horizon, terminal) ← prepare inst
  Traced.note (.solving p.states.length p.actions.length horizon p.discount)
  let (values, policy) := p.tables horizon terminal
  Traced.mk (stageNotices values) (.ok ())
  return { p with values, policy }

/-- The values of all actions in a state at a stage. -/
def actionValues (s : Solution α) (stage : Int) (state : String) :
    Except Fault (Dict String α) :=
  if stage < 0 || s.horizon ≤ stage.toNat then .error (.noDecision stage s.horizon)
  else if !s.states.contains state then .error (.missingKey state)
  else
    .ok (Dict.ofList
      (s.candidates stage.toNat state (s.values.getD (stage.toNat + 1) ∅)))

def policyValue (d : Policy) : Value α :=
  Dict.toValue .text d

/-- Values and policy, stage by stage. -/
def toValue (s : Solution α) : Value α :=
  .map
    [ Value.entry "V" (.list (s.values.map (Dict.toValue scalarValue))),
      Value.entry "policy" (.list (s.policy.map policyValue)) ]

end Solution

end BackwardInduction
