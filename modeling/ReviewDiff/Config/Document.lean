import ReviewDiff.Config.Basic
import ReviewDiff.Failure
import ReviewDiff.Host
import ReviewDiff.Text.Debug
import ReviewDiff.Toml.Document

/-!
# Configuration files

A configuration is a TOML document with the sections `client`, `perforce`, `git`
and `patch`.  A section is a table, or a list that gives its values in order.
Whatever the document holds beyond that is an error, and an error is reported with
its line.
-/

namespace ReviewDiff.Config

inductive Problem where
  | invalid
  | unknownField (name : String) (expected : List String)
  | unknownVariant (name : String) (expected : List String)
  | wrongType (found expected : String)
  deriving DecidableEq, Repr

def listed (names : List String) : String :=
  let quoted := names.map fun name => "`" ++ name ++ "`"
  match quoted with
  | [one] => one
  | [one, other] => one ++ " or " ++ other
  | _ => "one of " ++ String.intercalate ", " quoted

def Problem.message : Problem → String
  | .invalid => "invalid TOML"
  | .unknownField name expected =>
      "unknown field `" ++ name ++ "`, expected " ++ listed expected
  | .unknownVariant name expected =>
      "unknown variant `" ++ name ++ "`, expected " ++ listed expected
  | .wrongType found expected => "invalid type: " ++ found ++ ", expected " ++ expected

structure Complaint where
  place : Toml.Place
  problem : Problem
  deriving DecidableEq, Repr

abbrev Decoded (α : Type) := Except Complaint α

/-! ## Values -/

/-- What a value is, in a message. -/
def describe : Toml.Item → String
  | .scalar _ (.text value) => "string " ++ Text.debug value
  | .scalar _ (.integer value) => "integer `" ++ toString value ++ "`"
  | .scalar _ (.floating value) => "floating point `" ++ value.text ++ "`"
  | .scalar _ (.bool value) => "boolean `" ++ toString value ++ "`"
  | .scalar _ .moment => "map"
  | .array .. | .tables _ => "sequence"
  | .table .. => "map"

/-- The place of an item; one without a place of its own is where its key is. -/
def placeOf (fallback : Toml.Place) (item : Toml.Item) : Toml.Place :=
  item.place?.getD fallback

def readText (fallback : Toml.Place) (item : Toml.Item) : Decoded String :=
  match item with
  | .scalar _ (.text value) => .ok value
  | _ => .error ⟨placeOf fallback item, .wrongType (describe item) "a string"⟩

/-- Whether an item is a table or a list without content. -/
def isHollow : Toml.Item → Bool
  | .table _ _ fields => fields.isEmpty
  | .array _ items => items.isEmpty
  | .tables items => items.isEmpty
  | .scalar .. => false

def kindNamed (place : Toml.Place) (name : String) : Decoded RepositoryKind :=
  match RepositoryKind.ofName? name with
  | some kind => .ok kind
  | none => .error ⟨place, .unknownVariant name (RepositoryKind.all.map RepositoryKind.name)⟩

/-- Reads a kind of repository: its name, or a table with the name as its only key
and nothing in it. -/
def readKind (fallback : Toml.Place) (item : Toml.Item) : Decoded RepositoryKind :=
  let place := placeOf fallback item
  match item with
  | .scalar _ (.text name) => kindNamed place name
  | .table _ _ [(key, inner)] => do
      let kind ← kindNamed key.place key.name
      if isHollow inner then .ok kind else .error ⟨placeOf place inner, .invalid⟩
  | _ => .error ⟨place, .invalid⟩

/-! ## Sections -/

/-- A field of a section: its name, and how its value is put into the section. -/
structure Field (σ : Type) where
  name : String
  take : Toml.Place → Toml.Item → σ → Decoded σ

def textField {σ : Type} (name : String) (set : String → σ → σ) : Field σ where
  name := name
  take fallback item settings := do
    let value ← readText fallback item
    .ok (set value settings)

/-- Takes the named fields of a table, in the order in which they stand there. -/
def takeNamed {σ : Type} (known : List (Field σ)) (settings : σ) : Toml.Fields → Decoded σ
  | [] => .ok settings
  | (key, item) :: rest =>
      match known.find? (·.name = key.name) with
      | some field => do takeNamed known (← field.take key.place item settings) rest
      | none => .error ⟨key.place, .unknownField key.name (known.map (·.name))⟩

/-- Takes the fields in the order in which a section declares them.  Further items
do not count. -/
def takeListed {σ : Type} (fallback : Toml.Place) (settings : σ) :
    List (Field σ) → List Toml.Item → Decoded σ
  | field :: known, item :: items => do
      takeListed fallback (← field.take (placeOf fallback item) item settings) known items
  | _, _ => .ok settings

/-- The key under which a date or a time presents itself as a table. -/
def momentKey : String := "$__toml_private_datetime"

def readSection {σ : Type}
    (name : String) (known : List (Field σ)) (settings : σ) (fallback : Toml.Place)
    (item : Toml.Item) : Decoded σ :=
  let place := placeOf fallback item
  match item with
  | .table _ _ fields => takeNamed known settings fields
  | .array _ items | .tables items => takeListed place settings known items
  | .scalar _ .moment => .error ⟨place, .unknownField momentKey (known.map (·.name))⟩
  | .scalar .. => .error ⟨place, .wrongType (describe item) ("struct " ++ name)⟩

def clientFields : List (Field RepositoryKind) :=
  [{ name := "kind", take := fun fallback item _ => readKind fallback item }]

def perforceFields : List (Field PerforceSection) :=
  [textField "executable" fun value settings => { settings with executable := value },
    textField "port" fun value settings => { settings with address := some value },
    textField "user" fun value settings => { settings with user := some value },
    textField "client" fun value settings => { settings with client := some value }]

def gitFields : List (Field GitSection) :=
  [textField "executable" fun value settings => { settings with executable := value },
    textField "parent_branch" fun value settings =>
      { settings with parentBranch := some value }]

def patchFields : List (Field PatchSection) :=
  [textField "program" fun value settings => { settings with program := value }]

def sections : List (Field Config) :=
  [{ name := "client"
     take := fun fallback item config => do
       .ok { config with
         kind := ← readSection "ClientConfig" clientFields config.kind fallback item } },
    { name := "perforce"
      take := fun fallback item config => do
        .ok { config with
          perforce :=
            ← readSection "PerforceConfig" perforceFields config.perforce fallback item } },
    { name := "git"
      take := fun fallback item config => do
        .ok { config with
          git := ← readSection "GitConfig" gitFields config.git fallback item } },
    { name := "patch"
      take := fun fallback item config => do
        .ok { config with
          patch := ← readSection "PatchConfig" patchFields config.patch fallback item } }]

/-! ## Documents -/

def ofDocument (text : List Char) : Decoded Config :=
  match Toml.readDocument text with
  | .ok fields => takeNamed sections {} fields
  | .error place => .error ⟨place, .invalid⟩

def Complaint.detail (complaint : Complaint) (text : List Char) : String :=
  s!"line {Toml.lineOf text complaint.place}: " ++ complaint.problem.message

def read (text : String) : Except Failure Config :=
  (ofDocument text.toList).mapError fun complaint => ⟨none, complaint.detail text.toList⟩

/-- The configuration in the content of a file.  Without a file everything has its
default. -/
def ofContents (contents : Except Host.Fault Bytes) : Except Failure Config :=
  match contents with
  | .error fault =>
      if fault = .os Host.notFound then .ok {}
      else .error ⟨none, "could not read file: " ++ fault.message⟩
  | .ok bytes =>
      match Utf8.decode? bytes with
      | some text => read text
      | none => .error ⟨none, "could not read file: " ++ Host.Fault.notUtf8.message⟩

def load (path : String) : Program Host.interface (Except Failure Config) := do
  let contents ← Program.request (I := Host.interface) (.contents path)
  return (ofContents contents).mapError fun failure => { failure with path := some path }

end ReviewDiff.Config
