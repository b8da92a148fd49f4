import ReviewDiff.Decimal.Shortest

/-!
# What a TOML document holds

An `Item` is a value or a table, together with the place where it was written.
Tables come about in four ways, and the way decides whether more can be put into
them: a header `[a.b]` states the table `b` and implies `a`, a dotted key
`a.b = 1` makes `a`, and an inline table is complete as it stands.

`Fields.insert`, `Fields.openTable` and `Fields.openElement` build tables and
refuse whatever is defined twice.
-/

namespace ReviewDiff.Toml

/-- A place in a text: how many characters are left from there on. -/
abbrev Place := Nat

def lineOf (text : List Char) (place : Place) : Nat :=
  (text.take (text.length - place)).count '\n' + 1

structure Key where
  name : String
  place : Place
  deriving DecidableEq, Repr

inductive Floating where
  | nan
  | infinite (negative : Bool)
  | finite (value : Decimal.Double)
  deriving DecidableEq, Repr

/-- The text of a floating point number.  Of two shortest decimals the greater one
is taken. -/
def Floating.text : Floating → String
  | .nan => "NaN"
  | .infinite negative => if negative then "-inf" else "inf"
  | .finite value =>
      let (mantissa, exponent) := Decimal.shortest (fun _ => true) value.magnitude
      (if value.negative then "-" else "") ++
        String.ofList (Decimal.positional mantissa exponent)

inductive Scalar where
  | text (value : String)
  | integer (value : Int)
  | floating (value : Floating)
  | bool (value : Bool)
  | moment
  deriving DecidableEq, Repr

/-- How a table came about: a header states it, a longer header implies it, a
dotted key leads through it, or it is written between braces. -/
inductive Origin where
  | stated
  | implied
  | dotted
  | inline
  deriving DecidableEq, Repr

/-- A value or a table.  A table that is implied or dotted has no place, and
`tables` are those that headers `[[a]]` make. -/
inductive Item where
  | scalar (place : Place) (value : Scalar)
  | array (place : Place) (items : List Item)
  | table (origin : Origin) (place : Option Place) (fields : List (Key × Item))
  | tables (items : List Item)

abbrev Fields := List (Key × Item)

/-- Where an item stands, if it has a place of its own. -/
def Item.place? : Item → Option Place
  | .scalar place _ => some place
  | .array place _ => some place
  | .table _ place _ => place
  | .tables (.table _ place _ :: _) => place
  | .tables _ => none

namespace Fields

def find? (name : String) (fields : Fields) : Option Item :=
  (List.find? (fun field : Key × Item => field.1.name = name) fields).map (·.2)

def erase (name : String) (fields : Fields) : Fields :=
  List.filter (fun field : Key × Item => field.1.name ≠ name) fields

def replace (name : String) (item : Item) (fields : Fields) : Fields :=
  List.map
    (fun field : Key × Item => if field.1.name = name then (field.1, item) else field) fields

def changeLast (change : Origin → Fields → Option Fields) : List Item → Option (List Item)
  | [] => none
  | [.table origin place fields] =>
      (change origin fields).map fun fields => [.table origin place fields]
  | [_] => none
  | item :: rest => (changeLast change rest).map (item :: ·)

/-- Changes the table at the end of a path, seen from a table of the given origin.
Tables that are not there are made with the origin `made`.  A dotted path leads
only through tables that are not complete. -/
def change (made : Origin) (alter : Origin → Fields → Option Fields) :
    (path : List Key) → Origin → Fields → Option Fields
  | [], origin, fields => alter origin fields
  | key :: path, _, fields =>
      match fields.find? key.name with
      | none =>
          (change made alter path made []).map fun inner =>
            fields ++ [(key, .table made none inner)]
      | some (.table .inline _ _) => none
      | some (.table origin place inner) =>
          if made = .dotted && origin = .stated then none
          else
            (change made alter path origin inner).map fun inner =>
              fields.replace key.name (.table origin place inner)
      | some (.tables items) =>
          (changeLast (change made alter path) items).map fun items =>
            fields.replace key.name (.tables items)
      | some _ => none

/-- A table with one more field.  A path of more than one key has to lead to a
table that dotted keys made. -/
def put (isDotted : Bool) (key : Key) (item : Item) (origin : Origin) (fields : Fields) :
    Option Fields :=
  if isDotted && origin ≠ .dotted then none
  else if (fields.find? key.name).isSome then none
  else some (fields ++ [(key, item)])

/-- Puts an item behind a key, or behind a dotted path of keys, into the table at
the end of a path of headers. -/
def insert (headers dots : List Key) (key : Key) (item : Item) (fields : Fields) :
    Option Fields :=
  let inTable (origin : Origin) (fields : Fields) : Option Fields :=
    change .dotted (put (!dots.isEmpty) key item) dots origin fields
  change .implied inTable headers .stated fields

/-- States a table by its header.  What an implied table holds is kept. -/
def stateTable (key : Key) (place : Place) (fields : Fields) : Option Fields :=
  match fields.find? key.name with
  | none => some (fields ++ [(key, .table .stated (some place) [])])
  | some (.table .implied _ inner) =>
      some (fields.erase key.name ++ [(key, .table .stated (some place) inner)])
  | some _ => none

def addElement (key : Key) (place : Place) (fields : Fields) : Option Fields :=
  let element : Item := .table .stated (some place) []
  match fields.find? key.name with
  | none => some (fields ++ [(key, .tables [element])])
  | some (.tables items) => some (fields.replace key.name (.tables (items ++ [element])))
  | some _ => none

def openTable (path : List Key) (key : Key) (place : Place) (fields : Fields) :
    Option Fields :=
  change .implied (fun _ fields => stateTable key place fields) path .stated fields

def openElement (path : List Key) (key : Key) (place : Place) (fields : Fields) :
    Option Fields :=
  change .implied (fun _ fields => addElement key place fields) path .stated fields

end Fields

end ReviewDiff.Toml
