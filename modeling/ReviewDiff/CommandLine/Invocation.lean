import ReviewDiff.Change.DiffResult
import ReviewDiff.CommandLine.Grammar
import ReviewDiff.Config.Basic
import ReviewDiff.Text.Number

/-!
# What the program is asked to do

Some options can stand before or behind the name of a command; behind it they win.
The kind of repository can also come from a variable of the environment, which
counts where no such option is given.
-/

namespace ReviewDiff.CommandLine

/-- The options that every command has. -/
structure Settings where
  kind : Option RepositoryKind := none
  config : Option String := none
  capabilities : Option String := none
  deriving DecidableEq, Repr

inductive Command where
  | diff (tokens : List String) (options : DiffOptions) (json : Bool)
  | revisions (tokens : List String)
  | patch (file : String) (stripCount : Option Nat) (revert : Bool) (basePath baseDir : String)
  | info
  deriving DecidableEq, Repr

structure Invocation where
  settings : Settings
  command : Command
  deriving DecidableEq, Repr

/-! ## Grammars -/

/-- The variable that can give the kind of repository. -/
def kindVariable : String := "RBSCM_REPOSITORY_TYPE"

def kind? (name : String) : Option RepositoryKind :=
  (RepositoryKind.ofArgument name).toOption

def commonOptions : List OptionRule :=
  [{ name := "repository-type", arity := .single
     accepts := fun value => (kind? value).isSome },
    { name := "config", arity := .single, accepts := (· ≠ "") },
    { name := "capabilities", arity := .single, accepts := (· ≠ "") },
    { name := "debug", letter := some 'd', arity := .flag }]

/-- The grammar up to the name of the command. -/
def outerGrammar : Grammar where
  options := commonOptions
  operands := .command

def diffGrammar : Grammar where
  options := commonOptions ++
    [{ name := "include", letter := some 'I', arity := .many },
      { name := "exclude", letter := some 'X', arity := .many },
      { name := "no-renames", arity := .flag },
      { name := "json", arity := .flag }]
  operands := .many
  keepsRest := true

def revisionsGrammar : Grammar where
  options := commonOptions
  operands := .many

def patchGrammar : Grammar where
  options := commonOptions ++
    [{ name := "px", arity := .single
       accepts := fun value => (Text.readNat64? value).isSome },
      { name := "revert", letter := some 'R', arity := .flag },
      { name := "base-path", arity := .single },
      { name := "base-dir", arity := .single }]
  operands := .one
  accepts := (· ≠ "")

def infoGrammar : Grammar where
  options := commonOptions
  operands := .none

/-! ## Commands -/

def diffCommand (given : Given) : Command :=
  let options : DiffOptions :=
    { includeFiles := given.values "include"
      excludePatterns := given.values "exclude"
      noRenames := given.has "no-renames"
      extraArguments := given.rest }
  .diff given.operands options (given.has "json")

/-- The command that was given to `patch`, which needs a file. -/
def patchCommand (given : Given) : Except Stop Command :=
  match given.operands with
  | [] => .error .usage
  | file :: _ =>
      .ok (.patch file ((given.value? "px").bind Text.readNat64?) (given.has "revert")
        ((given.value? "base-path").getD "") ((given.value? "base-dir").getD ""))

/-- A command with its grammar, and how it is made of what was given. -/
structure CommandRule where
  name : String
  grammar : Grammar
  command : Given → Except Stop Command

def commandRules : List CommandRule :=
  [⟨"diff", diffGrammar, fun given => .ok (diffCommand given)⟩,
    ⟨"revisions", revisionsGrammar, fun given => .ok (.revisions given.operands)⟩,
    ⟨"patch", patchGrammar, patchCommand⟩,
    ⟨"info", infoGrammar, fun _ => .ok .info⟩]

/-- The kind of repository that the environment gives, where an option does not.
-/
def kindFrom (fromEnvironment : Option String) (given : Given) :
    Except Stop (Option RepositoryKind) :=
  match given.value? "repository-type", fromEnvironment with
  | some name, _ => .ok (kind? name)
  | none, none => .ok none
  | none, some name =>
      match kind? name with
      | some kind => .ok (some kind)
      | none => .error .usage

/-- Why a call runs no command: the reason, and the command that it was about. -/
structure Refusal where
  stop : Stop
  command : Option String := none
  deriving DecidableEq, Repr

/-- The settings that were given before and behind the name of a command. -/
def settingsOf (fromEnvironment : Option String) (outer inner : Given) :
    Except Stop Settings := do
  let innerKind ← kindFrom fromEnvironment inner
  let outerKind ← kindFrom fromEnvironment outer
  let kind :=
    if outer.has "repository-type" && !inner.has "repository-type" then outerKind
    else innerKind
  let value (name : String) : Option String := inner.value? name <|> outer.value? name
  .ok { kind, config := value "config", capabilities := value "capabilities" }

def CommandRule.invocation
    (rule : CommandRule) (fromEnvironment : Option String) (outer : Given) :
    Except Stop Invocation := do
  let inner ← rule.grammar.scan outer.rest
  let command ← rule.command inner
  let settings ← settingsOf fromEnvironment outer inner
  .ok { settings, command }

/-- Reads the arguments of the program, given the value of the variable
`kindVariable`. -/
def Invocation.read (fromEnvironment : Option String) (arguments : List String) :
    Except Refusal Invocation :=
  match outerGrammar.scan arguments with
  | .error stop => .error { stop }
  | .ok outer =>
      match outer.operands.head? with
      | none => .error { stop := .usage }
      | some name =>
          match commandRules.find? (·.name = name) with
          | some rule =>
              (rule.invocation fromEnvironment outer).mapError fun stop =>
                { stop, command := some name }
          | none =>
              if name = "help" &&
                  outer.rest.all fun topic => commandRules.any (·.name = topic) then
                .error { stop := .help }
              else .error { stop := .usage }

end ReviewDiff.CommandLine
