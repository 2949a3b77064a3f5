import BackwardInduction.Text.Blank
import BackwardInduction.Text.Digit

/-!
Arguments of a command as options and operands. A long option may be shortened as
long as no other begins so. An option takes its value after an equals sign or as
the next argument, a short one also directly behind it, and short options without
values may be run together. Two dashes end the options; as the value of an option
they leave it blank. An argument that is a negative number is no option.
-/

namespace BackwardInduction.Options

structure Grammar (κ : Type) where
  /-- The spellings of the options, dashes included. -/
  spellings : List (String × κ)
  takesValue : κ → Bool

/-- What an argument is by its form. -/
inductive Form (κ : Type) where
  | operand (s : String)
  | dashes
  /-- An option, and what follows its spelling: what an equals sign parts from it, or what
  stands directly behind the letter of a short one. -/
  | option (key : κ) (long : Bool) (attached : Option String)
  | unknown
  | ambiguous

/-- What the arguments say, in order. -/
inductive Event (κ : Type) where
  /-- An option; there is no value where it takes none and where it is left blank. -/
  | given (key : κ) (value : Option String)
  | operand (s : String)
  /-- An argument that has no use. -/
  | surplus
  /-- An option without the value it takes, or with one it does not. -/
  | misuse

variable {κ : Type}

namespace Grammar

variable (g : Grammar κ)

def find? (spelling : String) : Option κ :=
  g.spellings.lookup spelling

/-- Splits at the first equals sign. -/
def splitValue (s : String) : String × Option String :=
  let (name, rest) := s.toList.span (· != '=')
  match rest with
  | [] => (s, none)
  | _ :: value => (String.ofList name, some (String.ofList value))

def isLong (s : String) : Bool :=
  "--".isPrefixOf s

/-- What an argument that starts with a dash and is no exact spelling can be short for. -/
def candidates (arg : String) : List (κ × Option String) :=
  if isLong arg then
    let (name, attached) := splitValue arg
    (g.spellings.filter fun e => name.isPrefixOf e.1).map fun e => (e.2, attached)
  else
    let short := String.ofList (arg.toList.take 2)
    g.spellings.filterMap fun e =>
      if e.1 = short then some (e.2, some (String.ofList (arg.toList.drop 2)))
      else if arg.isPrefixOf e.1 then some (e.2, none)
      else none

def isDigitOfAnyScript (c : Char) : Bool :=
  (Text.digitValue? c).isSome

/-- A dash and digits, perhaps with a point and digits after it; a final line feed does
not count. -/
def isNegativeNumber (arg : String) : Bool :=
  match arg.toList with
  | '-' :: cs =>
      let cs := if cs.getLast? = some '\n' then cs.dropLast else cs
      let (whole, rest) := cs.span isDigitOfAnyScript
      match rest with
      | [] => !whole.isEmpty
      | '.' :: fraction => !fraction.isEmpty && fraction.all isDigitOfAnyScript
      | _ => false
  | _ => false

/-- The form of an argument before the two dashes. -/
def form (arg : String) : Form κ :=
  if arg = "--" then .dashes
  else if !"-".isPrefixOf arg || arg = "-" then .operand arg
  else
    match g.find? arg with
    | some key => .option key (isLong arg) none
    | none =>
        match splitValue arg with
        | (_, none) => unspelled arg
        | (name, attached) =>
            match g.find? name with
            | some key => .option key (isLong arg) attached
            | none => unspelled arg
where
  unspelled (arg : String) : Form κ :=
    match g.candidates arg with
    | [(key, attached)] => .option key (isLong arg) attached
    | [] =>
        if isNegativeNumber arg || arg.toList.contains ' ' then .operand arg else .unknown
    | _ => .ambiguous

def forms : List String → List (Form κ)
  | [] => []
  | arg :: args =>
      match g.form arg with
      | .dashes => .dashes :: args.map .operand
      | f => f :: forms args

/-- The value of an option that is given this text; two dashes are none. -/
def valueOf (text : String) : Option String :=
  if text = "--" then none else some text

/-- Reads what follows the letter of a short option. It is the value of an option that takes
one, else letters of more options, all of which there must be. The key that is left takes its
value from the next argument. -/
def cluster (key : κ) : List Char → Option (List (Event κ) × Option κ)
  | [] => if g.takesValue key then some ([], some key) else some ([.given key none], none)
  | c :: cs =>
      if g.takesValue key then some ([.given key (valueOf (String.ofList (c :: cs)))], none)
      else
        (g.find? (String.ofList ['-', c])).bind fun next =>
          (cluster next cs).map fun (events, left) => (.given key none :: events, left)

/-- The events of one option, and the key that still wants its value. -/
def expand (key : κ) (long : Bool) : Option String → Option (List (Event κ) × Option κ)
  | none => g.cluster key []
  | some text =>
      if g.takesValue key then some ([.given key (valueOf text)], none)
      else if long || text.isEmpty then none
      else g.cluster key text.toList

/-- The events up to the first misuse, with so many operands wanted. -/
def events : (wanted : Nat) → List (Form κ) → List (Event κ)
  | _, [] => []
  | wanted, .option key long attached :: rest =>
      match g.expand key long attached with
      | none => [.misuse]
      | some (found, none) => found ++ events wanted rest
      | some (found, some key) =>
          match rest with
          | .operand s :: rest => found ++ .given key (valueOf s) :: events wanted rest
          | _ => [.misuse]
  | wanted + 1, .operand s :: .dashes :: rest => .operand s :: events wanted rest
  | wanted + 1, .operand s :: rest => .operand s :: events wanted rest
  | wanted + 1, .dashes :: .operand s :: rest => .operand s :: events wanted rest
  | wanted, _ :: rest => .surplus :: events wanted rest

end Grammar

/-- How a command ends before it starts: with the status of a request for help or of a
wrong use. -/
inductive Stop where
  | help
  | usage
deriving DecidableEq

def Stop.status : Stop → Nat
  | .help => 0
  | .usage => 2

/-- What the arguments say about one thing that they can set. -/
inductive Setting (β : Type) where
  | unset
  | blank
  | value (b : β)

namespace Setting

variable {β : Type}

def isSet : Setting β → Bool
  | .unset => false
  | _ => true

def value? : Setting β → Option β
  | .value b => some b
  | _ => none

/-- The setting that a text gives. A text that cannot be read is a wrong use, no text leaves
the setting blank. -/
def read (f : String → Option β) : Option String → Except Stop (Setting β)
  | none => .ok .blank
  | some text =>
      match f text with
      | some b => .ok (.value b)
      | none => .error .usage

end Setting

variable {σ : Type}

/-- Takes the events in order; arguments without use are refused at the end. -/
def apply (option : σ → κ → Option String → Except Stop σ)
    (operand : σ → String → Except Stop σ) : List (Event κ) → (surplus : Bool) → σ →
    Except Stop σ
  | [], surplus, s => if surplus then .error .usage else .ok s
  | .given key value :: events, surplus, s => do
      apply option operand events surplus (← option s key value)
  | .operand text :: events, surplus, s => do
      apply option operand events surplus (← operand s text)
  | .surplus :: events, _, s => apply option operand events true s
  | .misuse :: _, _, _ => .error .usage

def Form.isAmbiguous : Form κ → Bool
  | .ambiguous => true
  | _ => false

/-- Reads all arguments. An ambiguous one is refused before any other is looked at. -/
def parse (g : Grammar κ) (wanted : Nat) (option : σ → κ → Option String → Except Stop σ)
    (operand : σ → String → Except Stop σ) (start : σ) (args : List String) :
    Except Stop σ :=
  let forms := g.forms args
  if forms.any Form.isAmbiguous then .error .usage
  else apply option operand (g.events wanted forms) false start

end BackwardInduction.Options
