import BackwardInduction.Scalar
import BackwardInduction.Text.Quoted

/-!
Raw values, as they come out of a JSON text or are handed in by a caller: trees
of mappings and lists over numbers, texts and the like. Besides these a value may
be a model that is already marked as stationary or as time-varying.
-/

namespace BackwardInduction

/-- A number keeps the way it was given: as a whole number of any size or as one of the
arithmetic. -/
inductive Number (α : Type) where
  | whole (i : Int)
  | real (x : α)

inductive Key (α : Type) where
  | null
  | bool (b : Bool)
  | number (n : Number α)
  | text (s : String)

inductive Value (α : Type) where
  | null
  | bool (b : Bool)
  | number (n : Number α)
  | text (s : String)
  | list (items : List (Value α))
  | map (entries : List (Key α × Value α))
  | stationary (table : Value α)
  | timeVarying (stages fallback : Value α)

abbrev Entries (α : Type) := List (Key α × Value α)

variable {α : Type}

instance : Inhabited (Value α) :=
  ⟨.null⟩

namespace Key

/-- Lists, mappings and models are no keys. -/
def ofValue? : Value α → Option (Key α)
  | .null => some .null
  | .bool b => some (.bool b)
  | .number n => some (.number n)
  | .text s => some (.text s)
  | _ => none

variable [Scalar α]

/-- The whole number a key stands for, where it stands for one. -/
def whole? : Key α → Option Int
  | .bool b => some (if b then 1 else 0)
  | .number (.whole i) => some i
  | .number (.real x) => Scalar.toInt? x
  | _ => none

/-- Whether two keys name the same entry: numbers do so by their value, whichever way they
were given, and truth values count as the numbers one and zero. -/
def same (a b : Key α) : Bool :=
  match a.whole?, b.whole? with
  | some i, some j => i == j
  | some _, none => false
  | none, some _ => false
  | none, none =>
      match a, b with
      | .null, .null => true
      | .text s, .text t => s == t
      | .number (.real x), .number (.real y) =>
          (Scalar.isNaN x && Scalar.isNaN y) || (x ≤ y && y ≤ x)
      | _, _ => false

end Key

namespace Entries

variable [Scalar α]

/-- Entries with distinct keys: an entry written again keeps its place. -/
def write (k : Key α) (v : Value α) : Entries α → Entries α
  | [] => [(k, v)]
  | e :: es => if e.1.same k then (e.1, v) :: es else e :: write k v es

def ofList (es : Entries α) : Entries α :=
  es.foldl (fun acc e => write e.1 e.2 acc) []

def get? (es : Entries α) (name : String) : Option (Value α) :=
  (es.find? fun e => e.1.same (.text name)).map (·.2)

def contains (es : Entries α) (name : String) : Bool :=
  es.any fun e => e.1.same (.text name)

def set (es : Entries α) (name : String) (v : Value α) : Entries α :=
  write (.text name) v es

def erase (es : Entries α) (name : String) : Entries α :=
  es.filter fun e => !e.1.same (.text name)

end Entries

namespace Value

def entry (name : String) (v : Value α) : Key α × Value α :=
  (.text name, v)

/-- What kind of value this is, as messages name it. -/
def kind : Value α → String
  | .null => "NoneType"
  | .bool _ => "bool"
  | .number (.whole _) => "int"
  | .number (.real _) => "float"
  | .text _ => "str"
  | .list _ => "list"
  | .map _ => "dict"
  | .stationary _ => "StationaryModel"
  | .timeVarying _ _ => "TimeVaryingModel"

/-- Null, false, zero and whatever is empty count as nothing given. -/
def isNothing [Scalar α] : Value α → Bool
  | .null => true
  | .bool b => !b
  | .number (.whole i) => i == 0
  | .number (.real x) => x ≤ 0 && 0 ≤ x
  | .text s => s.isEmpty
  | .list items => items.isEmpty
  | .map entries => entries.isEmpty
  | .stationary _ => false
  | .timeVarying _ _ => false

end Value

end BackwardInduction
