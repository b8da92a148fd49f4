import ReviewDiff.Decimal.Double

/-!
# JSON values

A record keeps its fields in the order in which they were given; a record read
from a text has no key twice.
-/

namespace ReviewDiff.Json

/-- A whole number of 64 bits, or a double.  A whole number that is not negative
is always an unsigned one. -/
inductive Number where
  | unsigned (value : UInt64)
  | negative (value : Int64) (below : value < 0)
  | double (value : Decimal.Double)
  deriving DecidableEq, Repr

inductive Value where
  | null
  | bool (value : Bool)
  | number (value : Number)
  | text (value : String)
  | list (items : List Value)
  | record (fields : List (String × Value))
  deriving Repr

/-- Fields with one more.  An earlier field with the same key keeps its place and
gets the new value. -/
def putField (key : String) (value : Value) : List (String × Value) → List (String × Value)
  | [] => [(key, value)]
  | (k, v) :: rest =>
      if k = key then (key, value) :: rest else (k, v) :: putField key value rest

/-- A field that is left out when it has no value. -/
def optionalField (key : String) (value : Option Value) : List (String × Value) :=
  match value with
  | some value => [(key, value)]
  | none => []

namespace Value

def get? (key : String) : Value → Option Value
  | record fields => fields.lookup key
  | _ => none

def follow? : List String → Value → Option Value
  | [], value => some value
  | key :: path, value => (value.get? key).bind (follow? path)

/-- Puts a field before the first one with a greater key; an earlier field with
the same key is replaced. -/
def insertSorted (key : String) (value : Value) : List (String × Value) → List (String × Value)
  | [] => [(key, value)]
  | (k, v) :: rest =>
      if key = k then (key, value) :: rest
      else if key < k then (key, value) :: (k, v) :: rest
      else (k, v) :: insertSorted key value rest

mutual

/-- The value with the fields of every record in the order of their keys. -/
def sorted : Value → Value
  | list items => list (sortedItems items)
  | record fields => record (sortedFields fields [])
  | value => value

def sortedItems : List Value → List Value
  | [] => []
  | item :: rest => item.sorted :: sortedItems rest

/-- The fields put in order into a list that is in order; a later field replaces
an earlier one of the same key. -/
def sortedFields : List (String × Value) → List (String × Value) → List (String × Value)
  | [], ordered => ordered
  | (key, value) :: rest, ordered => sortedFields rest (insertSorted key value.sorted ordered)

end

end Value

end ReviewDiff.Json
