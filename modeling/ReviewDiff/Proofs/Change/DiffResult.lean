import Mathlib.Data.List.Nodup
import ReviewDiff.Change.DiffResult
import ReviewDiff.Proofs.Json.Printed
import ReviewDiff.Proofs.Text.Utf8

/-!
# Results of diffs as JSON

A result is printed without blanks or with one field in each line.

* `DiffResult.texts_show` says what both texts denote, and that they tell results
  apart.
-/

namespace ReviewDiff

open Json (Value IsText)

namespace DiffResult

/-! ## What is shown -/

/-- These fields show the result and nothing else: its diffs as text, and what else
is set.  No key is there twice, neither here nor further inside. -/
structure Shows (result : DiffResult) (fields : List (String × Value)) : Prop where
  proper : (Value.record fields).Proper
  keys :
    ∀ field ∈ fields,
      field.1 ∈ ["diff", "parent_diff", "commit_id", "base_commit_id", "extra_data"]
  diff : fields.lookup "diff" = some (.text (Utf8.decodeLossy result.diff))
  parentDiff :
    fields.lookup "parent_diff" =
      result.parentDiff.map fun bytes => .text (Utf8.decodeLossy bytes)
  commitId : fields.lookup "commit_id" = result.commitId.map .text
  baseCommitId : fields.lookup "base_commit_id" = result.baseCommitId.map .text
  extraData :
    Option.Rel Value.Same (result.extraData.map .record) (fields.lookup "extra_data")

/-- The diffs are valid UTF-8. -/
structure IsUtf8 (result : DiffResult) : Prop where
  diff : ∃ text, result.diff = Utf8.encode text
  parentDiff : ∀ bytes ∈ result.parentDiff, ∃ text, bytes = Utf8.encode text

/-- The results are equal, with their extra data compared as JSON values. -/
structure SameAs (result other : DiffResult) : Prop where
  diff : result.diff = other.diff
  parentDiff : result.parentDiff = other.parentDiff
  commitId : result.commitId = other.commitId
  baseCommitId : result.baseCommitId = other.baseCommitId
  extraData :
    Option.Rel Value.Same (result.extraData.map .record) (other.extraData.map .record)

/-- The fields that are printed for a result. -/
def shown (result : DiffResult) : List (String × Value) :=
  ("diff", .text (Utf8.decodeLossy result.diff)) ::
    (Json.optionalField "parent_diff"
        (result.parentDiff.map fun diff => .text (Utf8.decodeLossy diff)) ++
      Json.optionalField "commit_id" (result.commitId.map .text) ++
      Json.optionalField "base_commit_id" (result.baseCommitId.map .text) ++
      Json.optionalField "extra_data"
        (result.extraData.map fun fields => (Value.record fields).sorted))

theorem json_eq (result : DiffResult) : result.json = .record result.shown :=
  rfl

section Fields

variable (key searched : String) (value : Option Value)

theorem lookup_optionalField :
    (Json.optionalField key value).lookup searched =
      if searched = key then value else none := by
  cases value with
  | none => exact (ite_self none).symm
  | some value => exact lookup_cons_eq key searched value []

theorem keys_optionalField : ((Json.optionalField key value).map Prod.fst).Sublist [key] := by
  cases value with
  | none => exact List.nil_sublist _
  | some value => exact List.Sublist.refl _

end Fields

theorem mem_of_mem_optionalField
    {key : String} {value : Option Value} {field : String × Value}
    (member : field ∈ Json.optionalField key value) :
    field.2 ∈ value := by
  cases value with
  | none => cases member
  | some value =>
      rw [List.mem_singleton.mp member]
      rfl

theorem keys_shown (result : DiffResult) :
    (result.shown.map Prod.fst).Sublist
      ["diff", "parent_diff", "commit_id", "base_commit_id", "extra_data"] := by
  rw [shown, List.map_cons, List.map_append, List.map_append, List.map_append]
  exact
    ((((keys_optionalField _ _).append (keys_optionalField _ _)).append
      (keys_optionalField _ _)).append (keys_optionalField _ _)).cons_cons _

theorem proper_of_mem_shown
    {result : DiffResult} {field : String × Value} (member : field ∈ result.shown) :
    field.2.Proper := by
  have printed :
      ∀ {α : Type} {key : String} {print : α → String} {item : Option α},
        field ∈ Json.optionalField key (item.map fun inner => .text (print inner)) →
          field.2.Proper := by
    intro α key print item inside
    obtain ⟨inner, -, equal⟩ := Option.map_eq_some_iff.mp (mem_of_mem_optionalField inside)
    rw [← equal]
    exact .text _
  simp only [shown, List.mem_cons, List.mem_append] at member
  rcases member with rfl | ((member | member) | member) | member
  · exact .text _
  · exact printed member
  · exact printed member
  · exact printed member
  · obtain ⟨fields, -, equal⟩ := Option.map_eq_some_iff.mp (mem_of_mem_optionalField member)
    rw [← equal]
    exact Value.proper_sorted _

theorem lookup_extraData (result : DiffResult) :
    result.shown.lookup "extra_data" = (result.extraData.map .record).map Value.sorted := by
  rw [Option.map_map]
  simp [shown, List.lookup_append, lookup_optionalField, lookup_cons_eq,
    Function.comp_def]

theorem shows_shown (result : DiffResult) : result.Shows result.shown where
  proper :=
    .record (result.keys_shown.nodup (by decide)) fun _ member => proper_of_mem_shown member
  keys field member := result.keys_shown.subset (List.mem_map_of_mem member)
  diff := rfl
  parentDiff := by
    simp [shown, List.lookup_append, lookup_optionalField, lookup_cons_eq]
  commitId := by
    simp [shown, List.lookup_append, lookup_optionalField, lookup_cons_eq]
  baseCommitId := by
    simp [shown, List.lookup_append, lookup_optionalField, lookup_cons_eq]
  extraData := by
    rw [lookup_extraData]
    cases result.extraData with
    | none => exact .none
    | some fields => exact .some (Value.same_sorted _)

/-! ## What the texts tell apart -/

/-- Reading valid UTF-8 as text loses nothing. -/
theorem eq_of_decodeLossy_eq
    {bytes bytes' : Bytes} (valid : ∃ text, bytes = Utf8.encode text)
    (valid' : ∃ text, bytes' = Utf8.encode text)
    (same : Utf8.decodeLossy bytes = Utf8.decodeLossy bytes') :
    bytes = bytes' := by
  obtain ⟨text, rfl⟩ := valid
  obtain ⟨text', rfl⟩ := valid'
  rw [Utf8.decodeLossy_encode, Utf8.decodeLossy_encode] at same
  rw [same]

theorem parentDiff_eq
    {result other : DiffResult} (valid : result.IsUtf8) (valid' : other.IsUtf8)
    (same :
      (result.parentDiff.map fun bytes => Value.text (Utf8.decodeLossy bytes)) =
        other.parentDiff.map fun bytes => .text (Utf8.decodeLossy bytes)) :
    result.parentDiff = other.parentDiff := by
  have texts := valid.parentDiff
  have texts' := valid'.parentDiff
  cases shape : result.parentDiff with
  | none =>
      rw [shape] at same
      exact (Option.map_eq_none_iff.mp same.symm).symm
  | some bytes =>
      rw [shape, Option.map_some] at same
      obtain ⟨bytes', shape', equal⟩ := Option.map_eq_some_iff.mp same.symm
      rw [shape', eq_of_decodeLossy_eq (texts bytes shape) (texts' bytes' shape')
        (Value.text.inj equal.symm)]

theorem shown_eq_iff
    {result other : DiffResult} (valid : result.IsUtf8) (valid' : other.IsUtf8) :
    result.shown = other.shown ↔ result.SameAs other := by
  constructor
  · intro equal
    have shows := result.shows_shown
    have shows' := other.shows_shown
    rw [equal] at shows
    have texts : ∀ {text text' : Option String}, text.map Value.text = text'.map Value.text →
        text = text' :=
      fun same => Option.map_injective (fun _ _ => Value.text.inj) same
    have diffs := Option.some.inj (shows.diff.symm.trans shows'.diff)
    have extraData := result.lookup_extraData
    rw [equal, other.lookup_extraData] at extraData
    exact
      { diff := eq_of_decodeLossy_eq valid.diff valid'.diff (Value.text.inj diffs)
        parentDiff :=
          parentDiff_eq valid valid' (shows.parentDiff.symm.trans shows'.parentDiff)
        commitId := texts (shows.commitId.symm.trans shows'.commitId)
        baseCommitId := texts (shows.baseCommitId.symm.trans shows'.baseCommitId)
        extraData := Value.rel_same_iff_map_sorted_eq.mpr extraData.symm }
  · rintro ⟨diff, parentDiff, commitId, baseCommitId, extraData⟩
    rw [Value.rel_same_iff_map_sorted_eq, Option.map_map, Option.map_map] at extraData
    have printed :
        (result.extraData.map fun fields => (Value.record fields).sorted) =
          other.extraData.map fun fields => (Value.record fields).sorted :=
      extraData
    rw [shown, shown, diff, parentDiff, commitId, baseCommitId, printed]

/-- Both texts denote one object, which shows the result, and nothing else.  If
the diffs are valid UTF-8, either text is that of another result if and only if the
results are equal. -/
theorem texts_show (result : DiffResult) :
    (∃ fields, result.Shows fields ∧
      (∀ value, IsText result.json.compact value ↔ value = .record fields) ∧
      ∀ value, IsText result.json.pretty value ↔ value = .record fields) ∧
    ∀ other : DiffResult, result.IsUtf8 → other.IsUtf8 →
      (result.json.compact = other.json.compact ↔ result.SameAs other) ∧
      (result.json.pretty = other.json.pretty ↔ result.SameAs other) := by
  refine ⟨⟨result.shown, result.shows_shown, ?_, ?_⟩, fun other valid valid' => ?_⟩
  · intro value
    constructor
    · exact fun isText => isText.unique (Json.isText_compact result.json)
    · rintro rfl
      exact Json.isText_compact result.json
  · intro value
    constructor
    · exact fun isText => isText.unique (Json.isText_pretty result.json)
    · rintro rfl
      exact Json.isText_pretty result.json
  · have equal : result.json = other.json ↔ result.SameAs other := by
      rw [json_eq, json_eq, Value.record.injEq, shown_eq_iff valid valid']
    rw [Json.compact_inj, Json.pretty_inj]
    exact ⟨equal, equal⟩

/-- A parent diff that is set is shown even if it is empty. -/
example :
    (DiffResult.mk [97, 9] (some []) none none (some [])).json.compact =
      "\x7b\"diff\":\"a\\t\",\"parent_diff\":\"\",\"extra_data\":\x7b\x7d\x7d" := by
  decide

end DiffResult

end ReviewDiff
