import Mathlib.Algebra.Ring.Nat
import Mathlib.Data.List.Induction
import Mathlib.Data.List.TakeDrop
import ReviewDiff.Text.Number

/-!
# Separators and digits

A written number is a block of digits, and what is not a digit ends it.  A
block without a separator can be told from what follows the separator, and
the digits of a number read back as that number.
-/

namespace ReviewDiff.Text

/-! ## Separators -/

section Separators

variable {α : Type} [DecidableEq α] {separator : α}

theorem span_separator
    {front : List α} (absent : separator ∉ front) (back : List α) :
    (front ++ separator :: back).span (· ≠ separator) =
      (front, separator :: back) := by
  have passes : ∀ item ∈ front, decide (item ≠ separator) = true := by
    intro item member
    have different : item ≠ separator := fun same => absent (same ▸ member)
    simpa using different
  rw [List.span_eq_takeWhile_dropWhile, List.takeWhile_append_of_pos passes,
    List.dropWhile_append_of_pos passes]
  simp

theorem span_of_notMem {list : List α} (absent : separator ∉ list) :
    list.span (· ≠ separator) = (list, []) := by
  have passes : ∀ item ∈ list, decide (item ≠ separator) = true := by
    intro item member
    have different : item ≠ separator := fun same => absent (same ▸ member)
    simpa using different
  have whole : (list ++ []).span (· ≠ separator) = (list ++ [], []) := by
    rw [List.span_eq_takeWhile_dropWhile, List.takeWhile_append_of_pos passes,
      List.dropWhile_append_of_pos passes]
    rfl
  rwa [List.append_nil] at whole

/-- The first separator divides a list in one way only. -/
theorem append_separator_inj
    {front front' back back' : List α}
    (absent : separator ∉ front) (absent' : separator ∉ front')
    (same : front ++ separator :: back = front' ++ separator :: back') :
    front = front' ∧ back = back' := by
  have spans := congrArg (List.span (· ≠ separator)) same
  rw [span_separator absent, span_separator absent'] at spans
  simpa using spans

/-- What ends at a separator, or with the list, can be told from what follows. -/
theorem append_end_inj
    {front front' back back' : List α}
    (absent : separator ∉ front) (absent' : separator ∉ front')
    (ended : ∀ item ∈ back.head?, item = separator)
    (ended' : ∀ item ∈ back'.head?, item = separator)
    (same : front ++ back = front' ++ back') :
    front = front' ∧ back = back' := by
  have spans : ∀ {front back : List α}, separator ∉ front →
      (∀ item ∈ back.head?, item = separator) →
        (front ++ back).span (· ≠ separator) = (front, back) := by
    intro front back absent ended
    cases back with
    | nil => rw [List.append_nil, span_of_notMem absent]
    | cons item back =>
        obtain rfl := ended item rfl
        exact span_separator absent back
  have both := congrArg (List.span (· ≠ separator)) same
  rw [spans absent ended, spans absent' ended'] at both
  simpa using both

end Separators

/-! ## Digits -/

theorem isDigit_of_mem_toString
    {n : Nat} {c : Char} (member : c ∈ (toString n).toList) :
    c.isDigit = true := by
  rw [Nat.toString_eq_repr, Nat.toList_repr] at member
  exact Nat.isDigit_of_mem_toDigits (by decide) (by decide) member

theorem notMem_toString_of_not_isDigit
    {c : Char} (other : c.isDigit = false) (n : Nat) :
    c ∉ (toString n).toList := by
  intro member
  rw [isDigit_of_mem_toString member] at other
  exact Bool.noConfusion other

theorem toString_ne_nil (n : Nat) : (toString n).toList ≠ [] := by
  rw [Nat.toString_eq_repr, Nat.toList_repr]
  exact Nat.toDigits_ne_nil

theorem decimalValue_toString (n : Nat) :
    decimalValue (toString n).toList = n := by
  have value := Nat.ofDigitChars_ten_toDigits (n := n)
  rw [Nat.ofDigitChars_eq_foldl] at value
  rw [Nat.toString_eq_repr, Nat.toList_repr]
  simpa only [decimalValue, digitValue, Nat.mul_comm] using value

theorem decimalValue_toDigits (n : Nat) : decimalValue (Nat.toDigits 10 n) = n := by
  have value := decimalValue_toString n
  rwa [Nat.toString_eq_repr, Nat.toList_repr] at value

theorem decimalValue_concat (digits : List Char) (c : Char) :
    decimalValue (digits ++ [c]) = decimalValue digits * 10 + digitValue c :=
  List.foldl_append

theorem decimalValue_append (digits more : List Char) :
    decimalValue (digits ++ more) =
      decimalValue digits * 10 ^ more.length + decimalValue more := by
  induction more using List.reverseRecOn with
  | nil => simp [decimalValue]
  | append_singleton more c inductionHypothesis =>
      rw [← List.append_assoc, decimalValue_concat, inductionHypothesis, decimalValue_concat,
        List.length_append, List.length_singleton, Nat.pow_succ, Nat.add_mul, Nat.mul_assoc,
        Nat.add_assoc]

theorem decimalValue_zeros (count : Nat) : decimalValue (List.replicate count '0') = 0 := by
  induction count with
  | zero => rfl
  | succ count inductionHypothesis =>
      rw [List.replicate_succ', decimalValue_concat, inductionHypothesis]
      rfl

theorem toString_injective {m n : Nat} (same : toString m = toString n) : m = n := by
  rw [← decimalValue_toString m, same, decimalValue_toString]

/-- The digits of a number read back as that number, up to the bound. -/
theorem readDigits?_toString
    {bound n : Nat} (fits : n ≤ bound) :
    readDigits? bound (toString n).toList = some n := by
  have nonempty : (toString n).toList.isEmpty = false :=
    List.isEmpty_eq_false_iff.mpr (toString_ne_nil n)
  have digits : (toString n).toList.all Char.isDigit = true :=
    List.all_eq_true.mpr fun c member => isDigit_of_mem_toString member
  rw [readDigits?, nonempty, digits, decimalValue_toString, if_pos fits]
  rfl

end ReviewDiff.Text
