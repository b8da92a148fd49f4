import ReviewDiff.Text.Cut

/-!
# Reading the arguments of a program

A `Grammar` says which options a command has and what else it takes.
`Grammar.scan` reads arguments from left to right: `--name value`, `--name=value`,
letters behind one hyphen, operands, and after `--` operands only.  Reading stops
at the first argument that does not fit or that asks for help or for the version.
-/

namespace ReviewDiff.CommandLine

inductive Stop where
  | usage
  | help
  | version
  deriving DecidableEq, Repr

/-- Whether an option has a value and how often it may be given. -/
inductive Arity where
  | flag
  | single
  | many
  deriving DecidableEq, Repr

structure OptionRule where
  name : String
  letter : Option Char := none
  arity : Arity
  accepts : String → Bool := fun _ => true

/-- What a command takes besides options. -/
inductive Operands where
  | none
  | one
  | many
  | command
  deriving DecidableEq, Repr

/-- What a command takes, and whether what stands behind `--` is kept apart. -/
structure Grammar where
  options : List OptionRule
  operands : Operands
  accepts : String → Bool := fun _ => true
  keepsRest : Bool := false

structure Given where
  options : List (String × String) := []
  operands : List String := []
  rest : List String := []
  deriving DecidableEq, Repr

namespace Given

def has (given : Given) (name : String) : Bool :=
  given.options.any (·.1 = name)

def value? (given : Given) (name : String) : Option String :=
  given.options.lookup name

def values (given : Given) (name : String) : List String :=
  (given.options.filter (·.1 = name)).map (·.2)

end Given

namespace Grammar

/-! ## Single arguments -/

def takeOption (given : Given) (rule : OptionRule) (value : String) : Except Stop Given :=
  if rule.arity ≠ .many && given.has rule.name then .error .usage
  else if !rule.accepts value then .error .usage
  else .ok { given with options := given.options ++ [(rule.name, value)] }

def takeOperand (grammar : Grammar) (given : Given) (operand : String) : Except Stop Given :=
  let larger : Given := { given with operands := given.operands ++ [operand] }
  if !grammar.accepts operand then .error .usage
  else
    match grammar.operands with
    | .none | .command => .error .usage
    | .one => if given.operands.isEmpty then .ok larger else .error .usage
    | .many => .ok larger

/-- Takes what stands behind two hyphens.  The result may wait for a value. -/
def takeLong (grammar : Grammar) (given : Given) (text : String) :
    Except Stop (Given × Option OptionRule) :=
  let (name, value) := match Text.cut? "=" text with
    | some (name, value) => (name, some value)
    | none => (text, none)
  match grammar.options.find? (·.name = name), value with
  | some rule, none =>
      if rule.arity = .flag then (takeOption given rule "").map (·, none)
      else .ok (given, some rule)
  | some rule, some value =>
      if rule.arity = .flag then .error .usage else (takeOption given rule value).map (·, none)
  | none, some _ => .error .usage
  | none, none =>
      if name = "help" then .error .help
      else if name = "version" then .error .version
      else .error .usage

/-- Takes the letters behind one hyphen.  The result may wait for a value. -/
def takeLetters (grammar : Grammar) (given : Given) :
    List Char → Except Stop (Given × Option OptionRule)
  | [] => .ok (given, none)
  | c :: rest =>
      match grammar.options.find? (·.letter = some c) with
      | some rule =>
          if rule.arity = .flag then do takeLetters grammar (← takeOption given rule "") rest
          else
            match rest with
            | [] => .ok (given, some rule)
            | '=' :: value => (takeOption given rule (String.ofList value)).map (·, none)
            | value => (takeOption given rule (String.ofList value)).map (·, none)
      | none =>
          if c = 'h' then .error .help
          else if c = 'V' then .error .version
          else .error .usage

/-! ## All arguments -/

def takeRest (grammar : Grammar) (given : Given) (operands : List String) :
    Except Stop Given :=
  if grammar.keepsRest then .ok { given with rest := operands }
  else operands.foldlM (takeOperand grammar) given

/-- Reads arguments; `waiting` is the option that the next argument is the value
of. -/
def scanFrom (grammar : Grammar) :
    Given → (waiting : Option OptionRule) → List String → Except Stop Given
  | given, none, [] => .ok given
  | _, some _, [] => .error .usage
  | given, waiting, argument :: rest =>
      match argument.toList, waiting with
      | ['-', '-'], none => takeRest grammar given rest
      | '-' :: '-' :: text, none => do
          let (given, waiting) ← takeLong grammar given (String.ofList text)
          scanFrom grammar given waiting rest
      | '-' :: c :: letters, none => do
          let (given, waiting) ← takeLetters grammar given (c :: letters)
          scanFrom grammar given waiting rest
      | '-' :: _ :: _, some _ => .error .usage
      | _, some rule => do scanFrom grammar (← takeOption given rule argument) none rest
      | _, none =>
          if grammar.operands = .command then
            .ok { given with operands := [argument], rest := rest }
          else do scanFrom grammar (← takeOperand grammar given argument) none rest

def scan (grammar : Grammar) (arguments : List String) : Except Stop Given :=
  scanFrom grammar {} none arguments

end Grammar

end ReviewDiff.CommandLine
