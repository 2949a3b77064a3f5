import BackwardInduction.Options
import BackwardInduction.Trace

/-!
How a run of a command ends, and what it prints.
-/

namespace BackwardInduction.Command

inductive Ending where
  | stopped (stop : Options.Stop)
  | returned (status : Nat)
  /-- A fault that is not reported ends the run as it is. -/
  | escaped (fault : Fault)

structure Report where
  ending : Ending
  out : String
  err : String

def stopped (stop : Options.Stop) : Report :=
  ⟨.stopped stop, "", ""⟩

variable {α : Type} [Scalar α]

/-- The lines of the notices of this level and those above it. -/
def log (least : Level) (notices : List (Notice α)) : String :=
  String.join ((notices.filter fun n => least.rank ≤ n.level.rank).map fun n =>
    n.level.name ++ " " ++ n.message ++ "\n")

def failed (out err : String) (fault : Fault) : Report :=
  if fault.isReported then ⟨.returned 1, out, err ++ "Error: " ++ fault.message ++ "\n"⟩
  else ⟨.escaped fault, out, err⟩

end BackwardInduction.Command
