import Mathlib.Data.List.Forall2
import Mathlib.Data.Option.Basic
import Mathlib.Data.String.Basic
import ReviewDiff.Json.Value
import ReviewDiff.Proofs.Lookup

/-!
# JSON values and their order

In a record the order of the fields does not count, and of several fields with one
key only the last one does.  Putting a value in order keeps what counts and nothing
else.

* `Value.proper_sorted` says that a value in order has no key twice.
* `Value.same_iff_sorted_eq` says that values are the same if they are equal in
  order.
-/

namespace ReviewDiff.Json

namespace Value

/-- What holds of a value if it holds of the values in it holds of all values. -/
@[elab_as_elim, induction_eliminator]
theorem induction
    {motive : Value → Prop} (null : motive .null) (bool : ∀ b, motive (.bool b))
    (number : ∀ value, motive (.number value))
    (text : ∀ value, motive (.text value))
    (list : ∀ items, (∀ item ∈ items, motive item) → motive (.list items))
    (record : ∀ fields, (∀ field ∈ fields, motive field.2) → motive (.record fields))
    (value : Value) :
    motive value :=
  @Value.rec motive (fun items => ∀ item ∈ items, motive item)
    (fun fields => ∀ field ∈ fields, motive field.2) (fun field => motive field.2)
    null bool number text list record
    (List.forall_mem_nil _) (fun _ _ first rest => List.forall_mem_cons.mpr ⟨first, rest⟩)
    (List.forall_mem_nil _) (fun _ _ first rest => List.forall_mem_cons.mpr ⟨first, rest⟩)
    (fun _ _ holds => holds) value

/-- The value that counts for a key: of several ones the last. -/
def last? (key : String) (fields : List (String × Value)) : Option Value :=
  fields.reverse.lookup key

/-- The values differ at most in the order of the fields of their records, and in
fields that do not count. -/
inductive Same : Value → Value → Prop where
  | null : Same .null .null
  | bool (b : Bool) : Same (.bool b) (.bool b)
  | number (value : Number) : Same (.number value) (.number value)
  | text (value : String) : Same (.text value) (.text value)
  | list {items items' : List Value} (same : List.Forall₂ Same items items') :
      Same (.list items) (.list items')
  | record {fields fields' : List (String × Value)}
      (same : ∀ key, Option.Rel Same (last? key fields) (last? key fields')) :
      Same (.record fields) (.record fields')

/-- No record in the value has a key twice. -/
inductive Proper : Value → Prop where
  | null : Proper .null
  | bool (b : Bool) : Proper (.bool b)
  | number (value : Number) : Proper (.number value)
  | text (value : String) : Proper (.text value)
  | list {items : List Value} (proper : ∀ item ∈ items, Proper item) : Proper (.list items)
  | record {fields : List (String × Value)} (distinct : (fields.map Prod.fst).Nodup)
      (proper : ∀ field ∈ fields, Proper field.2) :
      Proper (.record fields)

/-! ## The values that count -/

theorem mem_of_last?
    {key : String} {value : Value} {fields : List (String × Value)}
    (found : last? key fields = some value) :
    (key, value) ∈ fields := by
  obtain ⟨before, behind, equal, -⟩ := List.lookup_eq_some_iff.mp found
  rw [← List.mem_reverse, equal]
  exact List.mem_append_right _ List.mem_cons_self

theorem last?_cons
    (key searched : String) (value : Value) (fields : List (String × Value)) :
    last? searched ((key, value) :: fields) =
      (last? searched fields).or (if searched = key then some value else none) := by
  rw [last?, List.reverse_cons, List.lookup_append, lookup_cons_eq]
  rfl

/-! ## Fields in order -/

/-- The fields stand in the order of their keys, and no key is there twice. -/
def Ordered (fields : List (String × Value)) : Prop :=
  fields.Pairwise fun first second => first.1 < second.1

theorem Ordered.nodup {fields : List (String × Value)} (ordered : Ordered fields) :
    (fields.map Prod.fst).Nodup :=
  List.pairwise_map.mpr (ordered.imp fun less => ne_of_lt less)

theorem last?_eq_lookup
    {fields : List (String × Value)} (distinct : (fields.map Prod.fst).Nodup) (key : String) :
    last? key fields = fields.lookup key := by
  induction fields with
  | nil => rfl
  | cons field fields inductionHypothesis =>
      obtain ⟨k, v⟩ := field
      obtain ⟨fresh, distinct⟩ := List.nodup_cons.mp distinct
      rw [last?_cons, inductionHypothesis distinct, lookup_cons_eq]
      split
      · rename_i same
        rw [lookup_eq_none (same ▸ fresh), Option.none_or]
      · exact Option.or_none

theorem lookup_eq_none_of_lt
    {key : String} {fields : List (String × Value)} (less : ∀ field ∈ fields, key < field.1) :
    fields.lookup key = none := by
  refine lookup_eq_none fun member => ?_
  obtain ⟨field, inside, same⟩ := List.mem_map.mp member
  exact ne_of_lt (less field inside) same.symm

theorem Ordered.head_le
    {key searched : String} {value : Value} {fields : List (String × Value)}
    (ordered : Ordered ((key, value) :: fields))
    (found : ((key, value) :: fields).lookup searched ≠ none) :
    key ≤ searched := by
  by_contra above
  have less : searched < key := not_le.mp above
  refine found (lookup_eq_none_of_lt (List.forall_mem_cons.mpr ⟨less, fun field member => ?_⟩))
  exact less.trans (List.rel_of_pairwise_cons ordered member)

/-- Fields in order are determined by what they have at each key. -/
theorem Ordered.ext
    {fields fields' : List (String × Value)} (ordered : Ordered fields)
    (ordered' : Ordered fields') (same : ∀ key, fields.lookup key = fields'.lookup key) :
    fields = fields' := by
  induction fields generalizing fields' with
  | nil =>
      cases fields' with
      | nil => rfl
      | cons field' fields' =>
          have found := same field'.1
          rw [lookup_cons_eq, if_pos rfl] at found
          cases found
  | cons field fields inductionHypothesis =>
      obtain ⟨k, v⟩ := field
      cases fields' with
      | nil =>
          have found := same k
          rw [lookup_cons_eq, if_pos rfl] at found
          cases found
      | cons field' fields' =>
          obtain ⟨k', v'⟩ := field'
          obtain ⟨least, orderedTail⟩ := List.pairwise_cons.mp ordered
          obtain ⟨least', orderedTail'⟩ := List.pairwise_cons.mp ordered'
          have absent : fields.lookup k = none := lookup_eq_none_of_lt least
          have absent' : fields'.lookup k' = none := lookup_eq_none_of_lt least'
          have equalKeys : k = k' := by
            refine le_antisymm (head_le ordered fun missing => ?_)
              (head_le ordered' fun missing => ?_)
            · rw [same, lookup_cons_eq, if_pos rfl] at missing
              cases missing
            · rw [← same, lookup_cons_eq, if_pos rfl] at missing
              cases missing
          subst equalKeys
          have equalValues : v = v' := by
            have found := same k
            rw [lookup_cons_eq, lookup_cons_eq, if_pos rfl, if_pos rfl] at found
            exact Option.some.inj found
          have equalTails : fields = fields' := by
            refine inductionHypothesis orderedTail orderedTail' fun key => ?_
            by_cases first : key = k
            · rw [first, absent, absent']
            · have found := same key
              rwa [lookup_cons_eq, lookup_cons_eq, if_neg first, if_neg first] at found
          rw [equalValues, equalTails]

theorem lookup_insertSorted
    (key searched : String) (value : Value) (fields : List (String × Value)) :
    (insertSorted key value fields).lookup searched =
      if searched = key then some value else fields.lookup searched := by
  induction fields with
  | nil => rw [insertSorted, lookup_cons_eq]
  | cons field fields inductionHypothesis =>
      obtain ⟨k, v⟩ := field
      rw [insertSorted]
      split
      · rename_i same
        rw [lookup_cons_eq, lookup_cons_eq, same]
        split
        · rfl
        · rfl
      · rename_i different
        split
        · rw [lookup_cons_eq]
        · rw [lookup_cons_eq, lookup_cons_eq, inductionHypothesis]
          split
          · rename_i found
            rw [if_neg fun equal => different (equal.symm.trans found)]
          · rfl

theorem forall_mem_insertSorted
    {p : String → Prop} {key : String} {value : Value} {fields : List (String × Value)}
    (all : ∀ field ∈ fields, p field.1) (holds : p key) :
    ∀ field ∈ insertSorted key value fields, p field.1 := by
  induction fields with
  | nil => exact List.forall_mem_singleton.mpr holds
  | cons field fields inductionHypothesis =>
      obtain ⟨first, others⟩ := List.forall_mem_cons.mp all
      rw [insertSorted]
      split
      · exact List.forall_mem_cons.mpr ⟨holds, others⟩
      · split
        · exact List.forall_mem_cons.mpr ⟨holds, all⟩
        · exact List.forall_mem_cons.mpr ⟨first, inductionHypothesis others⟩

theorem ordered_insertSorted
    {fields : List (String × Value)}
    (ordered : Ordered fields)
    (key : String)
    (value : Value) :
    Ordered (insertSorted key value fields) := by
  induction fields with
  | nil => exact List.pairwise_singleton _ _
  | cons field fields inductionHypothesis =>
      obtain ⟨k, v⟩ := field
      obtain ⟨least, orderedTail⟩ := List.pairwise_cons.mp ordered
      rw [insertSorted]
      split
      · rename_i same
        exact List.pairwise_cons.mpr
          ⟨fun field member => same ▸ least field member, orderedTail⟩
      · rename_i different
        split
        · rename_i less
          refine List.pairwise_cons.mpr ⟨List.forall_mem_cons.mpr ⟨less, ?_⟩, ordered⟩
          exact fun field member => less.trans (least field member)
        · rename_i notLess
          have less : k < key := lt_of_le_of_ne (not_lt.mp notLess) (Ne.symm different)
          exact List.pairwise_cons.mpr
            ⟨forall_mem_insertSorted least less, inductionHypothesis orderedTail⟩

theorem ordered_sortedFields
    (fields : List (String × Value)) {ordered : List (String × Value)}
    (inOrder : Ordered ordered) :
    Ordered (sortedFields fields ordered) := by
  induction fields generalizing ordered with
  | nil => rwa [sortedFields]
  | cons field fields inductionHypothesis =>
      obtain ⟨k, v⟩ := field
      rw [sortedFields]
      exact inductionHypothesis (ordered_insertSorted inOrder k v.sorted)

theorem lookup_sortedFields
    (key : String) (fields ordered : List (String × Value)) :
    (sortedFields fields ordered).lookup key =
      ((last? key fields).map sorted).or (ordered.lookup key) := by
  induction fields generalizing ordered with
  | nil => rw [sortedFields]; rfl
  | cons field fields inductionHypothesis =>
      obtain ⟨k, v⟩ := field
      rw [sortedFields, inductionHypothesis, lookup_insertSorted, last?_cons]
      cases last? key fields with
      | some value => rfl
      | none =>
          simp only [Option.map_none, Option.none_or]
          split <;> rfl

/-! ## Values in order -/

theorem sortedItems_eq_map (items : List Value) : sortedItems items = items.map sorted := by
  induction items with
  | nil => rfl
  | cons item items inductionHypothesis => rw [sortedItems, inductionHypothesis, List.map_cons]

/-- In order a record has at each key the value that counts, in order. -/
theorem lookup_sorted (key : String) (fields : List (String × Value)) :
    (sortedFields fields []).lookup key = (last? key fields).map sorted := by
  rw [lookup_sortedFields]
  exact Option.or_none

theorem ordered_sorted (fields : List (String × Value)) : Ordered (sortedFields fields []) :=
  ordered_sortedFields fields List.Pairwise.nil

theorem exists_of_mem_sortedFields
    {fields : List (String × Value)} {field : String × Value}
    (member : field ∈ sortedFields fields []) :
    ∃ value, (field.1, value) ∈ fields ∧ value.sorted = field.2 := by
  have found := lookup_of_mem (ordered_sorted fields).nodup member
  rw [lookup_sorted] at found
  obtain ⟨value, last, equal⟩ := Option.map_eq_some_iff.mp found
  exact ⟨value, mem_of_last? last, equal⟩

/-- A value in order has no key twice. -/
theorem proper_sorted (value : Value) : Proper value.sorted := by
  induction value with
  | null => exact .null
  | bool b => exact .bool b
  | number value => exact .number value
  | text value => exact .text value
  | list items inductionHypothesis =>
      rw [sorted, sortedItems_eq_map]
      exact .list (List.forall_mem_map.mpr inductionHypothesis)
  | record fields inductionHypothesis =>
      rw [sorted]
      refine .record (ordered_sorted fields).nodup fun field member => ?_
      obtain ⟨value, original, equal⟩ := exists_of_mem_sortedFields member
      rw [← equal]
      exact inductionHypothesis _ original

section Sameness

/-- For this value being the same means being equal in order. -/
def SameInOrder (value : Value) : Prop :=
  ∀ value', Same value value' ↔ value.sorted = value'.sorted

theorem forall₂_same_iff
    {items items' : List Value} (known : ∀ item ∈ items, SameInOrder item) :
    List.Forall₂ Same items items' ↔ sortedItems items = sortedItems items' := by
  induction items generalizing items' with
  | nil => cases items' <;> simp [sortedItems]
  | cons item items inductionHypothesis =>
      obtain ⟨first, others⟩ := List.forall_mem_cons.mp known
      cases items' with
      | nil => simp [sortedItems]
      | cons item' items' =>
          rw [List.forall₂_cons, first item', inductionHypothesis others, sortedItems,
            sortedItems, List.cons.injEq]

theorem rel_same_iff
    {value value' : Option Value} (known : ∀ inner ∈ value, SameInOrder inner) :
    Option.Rel Same value value' ↔ value.map sorted = value'.map sorted := by
  cases value with
  | none => cases value' <;> simp
  | some inner =>
      cases value' with
      | none => simp
      | some inner' =>
          rw [Option.rel_some_some, known inner rfl inner', Option.map_some, Option.map_some,
            Option.some.injEq]

theorem forall_rel_same_iff
    {fields fields' : List (String × Value)}
    (known : ∀ field ∈ fields, SameInOrder field.2) :
    (∀ key, Option.Rel Same (last? key fields) (last? key fields')) ↔
      sortedFields fields [] = sortedFields fields' [] := by
  have pointwise :
      ∀ key, Option.Rel Same (last? key fields) (last? key fields') ↔
        (sortedFields fields []).lookup key = (sortedFields fields' []).lookup key := by
    intro key
    rw [rel_same_iff fun value found => known _ (mem_of_last? found), lookup_sorted,
      lookup_sorted]
  rw [forall_congr' pointwise]
  constructor
  · exact (ordered_sorted fields).ext (ordered_sorted fields')
  · intro equal key
    rw [equal]

theorem sameInOrder (value : Value) : SameInOrder value := by
  intro value'
  induction value generalizing value' with
  | null =>
      cases value' with
      | null => exact iff_of_true .null rfl
      | _ => exact iff_of_false nofun nofun
  | bool b =>
      cases value' with
      | bool b' => exact ⟨fun | .bool _ => rfl, fun | rfl => .bool b⟩
      | _ => exact iff_of_false nofun nofun
  | number value =>
      cases value' with
      | number value' => exact ⟨fun | .number _ => rfl, fun | rfl => .number value⟩
      | _ => exact iff_of_false nofun nofun
  | text value =>
      cases value' with
      | text value' => exact ⟨fun | .text _ => rfl, fun | rfl => .text value⟩
      | _ => exact iff_of_false nofun nofun
  | list items inductionHypothesis =>
      cases value' with
      | list items' =>
          rw [sorted, sorted, list.injEq, ← forall₂_same_iff inductionHypothesis]
          exact ⟨fun | .list same => same, .list⟩
      | _ => exact iff_of_false nofun nofun
  | record fields inductionHypothesis =>
      cases value' with
      | record fields' =>
          rw [sorted, sorted, record.injEq, ← forall_rel_same_iff inductionHypothesis]
          exact ⟨fun | .record same => same, .record⟩
      | _ => exact iff_of_false nofun nofun

end Sameness

/-- Values are the same if and only if they are equal in order. -/
theorem same_iff_sorted_eq {value value' : Value} :
    Same value value' ↔ value.sorted = value'.sorted :=
  sameInOrder value value'

theorem rel_same_iff_map_sorted_eq {value value' : Option Value} :
    Option.Rel Same value value' ↔ value.map sorted = value'.map sorted :=
  rel_same_iff fun inner _ => sameInOrder inner

theorem sorted_sorted (value : Value) : value.sorted.sorted = value.sorted := by
  induction value with
  | null | bool _ | number _ | text _ => rfl
  | list items inductionHypothesis =>
      rw [sorted, sorted, sortedItems_eq_map, sortedItems_eq_map, List.map_map]
      exact congrArg list (List.map_congr_left inductionHypothesis)
  | record fields inductionHypothesis =>
      rw [sorted, sorted]
      refine congrArg record ((ordered_sorted _).ext (ordered_sorted _) fun key => ?_)
      rw [lookup_sorted, last?_eq_lookup (ordered_sorted fields).nodup, lookup_sorted,
        Option.map_map]
      refine Option.map_congr fun value found => ?_
      exact inductionHypothesis _ (mem_of_last? found)

/-- Putting a value in order keeps what counts. -/
theorem same_sorted (value : Value) : Same value value.sorted :=
  same_iff_sorted_eq.mpr (sorted_sorted value).symm

end Value

end ReviewDiff.Json
