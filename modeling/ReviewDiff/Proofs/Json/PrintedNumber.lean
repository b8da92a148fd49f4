import ReviewDiff.Json.Printer
import ReviewDiff.Proofs.Decimal.Shortest
import ReviewDiff.Proofs.Json.Numeral
import ReviewDiff.Proofs.Text.Digits

/-!
# Printed numbers

A double is printed with a point or with a power of ten, so that it is not taken for a
whole number, and its decimal is nearest to no other double.

* `exists_numeral` says that the text of a number is a numeral that means it.
-/

namespace ReviewDiff.Json

/-! ## Digits -/

theorem digits_of_forall
    {digits : List Char} (nonempty : digits ≠ []) (decimal : ∀ c ∈ digits, c.isDigit = true)
    (rest : List Char) :
    Digits (digits ++ rest) digits rest := by
  induction digits with
  | nil => exact absurd rfl nonempty
  | cons c digits inductionHypothesis =>
      obtain ⟨digit, others⟩ := List.forall_mem_cons.mp decimal
      cases digits with
      | nil => exact .last digit
      | cons next digits =>
          exact .cons digit (inductionHypothesis (List.cons_ne_nil _ _) others)

theorem isDigit_of_mem_toDigits {n : ℕ} {c : Char} (member : c ∈ Nat.toDigits 10 n) :
    c.isDigit = true :=
  Nat.isDigit_of_mem_toDigits (by decide) (by decide) member

theorem digits_toString (n : ℕ) (rest : List Char) :
    Digits ((toString n).toList ++ rest) (toString n).toList rest :=
  digits_of_forall (Text.toString_ne_nil n)
    (fun _ member => Text.isDigit_of_mem_toString member)
    rest

/-- The digits of a number do not begin with a zero, unless it is zero. -/
theorem head_toDigits_ne_zero {n : ℕ} (positive : 0 < n) :
    ∀ c ∈ (Nat.toDigits 10 n).head?, c ≠ '0' := by
  induction n using Nat.strongRecOn with
  | ind n inductionHypothesis =>
      have small : ∀ digit < 10, 0 < digit → Nat.digitChar digit ≠ '0' := by decide
      by_cases single : n < 10
      · rw [Nat.toDigits_of_lt_base single]
        rintro _ ⟨⟩
        exact small n single positive
      · have above : 10 ≤ n := Nat.not_lt.mp single
        rw [Nat.toDigits_of_base_le (by decide) above,
          List.head?_append_of_ne_nil _ Nat.toDigits_ne_nil]
        exact inductionHypothesis (n / 10) (Nat.div_lt_self positive (by decide))
          (Nat.div_pos above (by decide))

/-- Digits that do not begin with a zero may stand before the point. -/
theorem whole_of_head
    {digits : List Char} (nonempty : digits ≠ []) (decimal : ∀ c ∈ digits, c.isDigit = true)
    (head : ∀ c ∈ digits.head?, c ≠ '0') (rest : List Char) :
    Whole (digits ++ rest) digits rest := by
  have read := digits_of_forall nonempty decimal rest
  cases digits with
  | nil => exact absurd rfl nonempty
  | cons c digits => exact .other (head c rfl) read

theorem whole_toString (n : ℕ) (rest : List Char) :
    Whole ((toString n).toList ++ rest) (toString n).toList rest := by
  rw [Nat.toString_eq_repr, Nat.toList_repr]
  rcases Nat.eq_zero_or_pos n with rfl | positive
  · exact .zero
  · exact
      whole_of_head Nat.toDigits_ne_nil (fun _ => isDigit_of_mem_toDigits)
        (head_toDigits_ne_zero positive) rest

/-! ## Signs -/

theorem toList_toString_negSucc (n : ℕ) :
    (toString (Int.negSucc n)).toList = '-' :: (toString (n + 1)).toList := by
  change ("-" ++ toString (n + 1)).toList = _
  rw [String.toList_append]
  rfl

theorem power_toString (n : ℤ) (rest : List Char) :
    Power ('e' :: (toString n).toList ++ rest) (some n) rest := by
  cases n with
  | ofNat n =>
      have read := Power.mark (.inl rfl) .none (digits_toString n rest)
      rwa [signed, if_neg Bool.false_ne_true, Text.decimalValue_toString] at read
  | negSucc n =>
      have read := Power.mark (.inl rfl) .minus (digits_toString (n + 1) rest)
      rw [signed, if_pos rfl, Text.decimalValue_toString] at read
      rw [toList_toString_negSucc]
      exact read

/-- A minus may stand before a numeral without one. -/
theorem Spells.minus
    {text rest whole fraction : List Char} {power : Option ℤ}
    (spells : Spells text ⟨false, whole, fraction, power⟩ rest) :
    Spells ('-' :: text) ⟨true, whole, fraction, power⟩ rest := by
  cases spells with
  | mk sign first second third =>
      cases sign with
      | none => exact .mk .minus first second third
      | plus allowed => cases allowed

/-! ## Whole numbers -/

theorem spells_toString (n : ℕ) (rest : List Char) :
    Spells ((toString n).toList ++ rest) ⟨false, (toString n).toList, [], none⟩ rest :=
  .mk .none (whole_toString n rest) .none .none

theorem digits_toString_nil (minus : Bool) (n : ℕ) :
    (Numeral.mk minus (toString n).toList [] none).digits = n := by
  rw [Numeral.digits, List.append_nil, Text.decimalValue_toString]

theorem exists_numeral_unsigned (value : UInt64) (rest : List Char) :
    ∃ numeral, Spells (numberText (.unsigned value) ++ rest) numeral rest ∧
      numeral.Means (.unsigned value) := by
  have digits := digits_toString_nil false value.toNat
  refine ⟨_, spells_toString value.toNat rest, .unsigned ⟨rfl, rfl, ?_⟩ rfl digits.symm⟩
  rw [if_neg Bool.false_ne_true, digits]
  exact value.toNat_lt

theorem exists_numeral_negative (value : Int64) (below : value < 0) (rest : List Char) :
    ∃ numeral, Spells (numberText (.negative value below) ++ rest) numeral rest ∧
      numeral.Means (.negative value below) := by
  have negative : value.toInt < 0 := Int64.lt_iff_toInt_lt.mp below
  have least : -2 ^ 63 ≤ value.toInt := value.le_toInt
  obtain ⟨n, shape⟩ := Int.eq_negSucc_of_lt_zero negative
  have digits := digits_toString_nil true (n + 1)
  refine ⟨⟨true, (toString (n + 1)).toList, [], none⟩, ?_, .negative ⟨rfl, rfl, ?_⟩ rfl ?_⟩
  · rw [numberText, shape, toList_toString_negSucc]
    exact (spells_toString (n + 1) rest).minus
  · rw [if_pos rfl, digits]
    omega
  · rw [digits, shape, Int.negSucc_eq, Nat.cast_succ]

/-! ## Doubles -/

/-- The text spells, without a minus, what is not a whole number and has this size. -/
def SpellsSize (text : List Char) (q : ℚ) : Prop :=
  ∀ rest, ∃ whole fraction power,
    Spells (text ++ rest) ⟨false, whole, fraction, power⟩ rest ∧
      (fraction ≠ [] ∨ power ≠ none) ∧
        (Numeral.mk false whole fraction power).size = q

theorem size_point (minus : Bool) (whole fraction : List Char) :
    (Numeral.mk minus whole fraction none).size =
      Text.decimalValue (whole ++ fraction) * 10 ^ (-fraction.length : ℤ) := by
  rw [Numeral.size, Option.getD_none, zero_sub]
  rfl

/-- A point with digits on both sides of it. -/
theorem spellsSize_point
    {whole fraction : List Char} (front : ∀ rest, Whole (whole ++ rest) whole rest)
    (nonempty : fraction ≠ []) (decimal : ∀ c ∈ fraction, c.isDigit = true) :
    SpellsSize (whole ++ '.' :: fraction)
      (Text.decimalValue (whole ++ fraction) * 10 ^ (-fraction.length : ℤ)) := by
  intro rest
  refine ⟨whole, fraction, none, ?_, .inl nonempty, size_point false whole fraction⟩
  rw [List.append_assoc]
  exact .mk .none (front _) (.point (digits_of_forall nonempty decimal rest)) .none

section Positive

variable {mantissa : ℕ}

theorem whole_toDigits_append
    (positive : 0 < mantissa) {more : List Char} (decimal : ∀ c ∈ more, c.isDigit = true)
    (rest : List Char) :
    Whole (Nat.toDigits 10 mantissa ++ more ++ rest)
      (Nat.toDigits 10 mantissa ++ more) rest := by
  refine whole_of_head (List.append_ne_nil_of_left_ne_nil Nat.toDigits_ne_nil more) ?_ ?_ rest
  · exact List.forall_mem_append.mpr ⟨fun _ => isDigit_of_mem_toDigits, decimal⟩
  · rw [List.head?_append_of_ne_nil _ Nat.toDigits_ne_nil]
    exact head_toDigits_ne_zero positive

theorem isDigit_of_mem_zeros {count : ℕ} {c : Char} (member : c ∈ List.replicate count '0') :
    c.isDigit = true := by
  rw [List.eq_of_mem_replicate member]
  rfl

/-- Zeros behind the digits. -/
theorem spellsSize_positional_natCast (positive : 0 < mantissa) (exponent : ℕ) :
    SpellsSize (Decimal.positional mantissa exponent) (mantissa * 10 ^ (exponent : ℤ)) := by
  have zeros : ∀ c ∈ List.replicate exponent '0', c.isDigit = true :=
    fun _ => isDigit_of_mem_zeros
  have spells :=
    spellsSize_point (whole_toDigits_append positive zeros) (List.cons_ne_nil '0' [])
      (List.forall_mem_singleton.mpr rfl)
  have value :
      Text.decimalValue (Nat.toDigits 10 mantissa ++ List.replicate exponent '0' ++ ['0']) =
        mantissa * 10 ^ exponent * 10 := by
    rw [Text.decimalValue_concat, Text.decimalValue_append, Text.decimalValue_toDigits,
      Text.decimalValue_zeros, List.length_replicate]
    rfl
  have text :
      Decimal.positional mantissa exponent =
        Nat.toDigits 10 mantissa ++ List.replicate exponent '0' ++ '.' :: ['0'] := by
    rw [Decimal.positional, if_pos (Int.natCast_nonneg exponent), Int.toNat_natCast]
  have ten : (10 : ℚ) ≠ 0 := by norm_num
  rw [value, List.length_singleton, Nat.cast_one, zpow_neg_one, Nat.cast_mul, Nat.cast_mul,
    Nat.cast_pow, Nat.cast_ofNat, mul_inv_cancel_right₀ ten, ← zpow_natCast, ← text] at spells
  exact spells

/-- The digits with zeros before them, so that there is one before the point. -/
def padded (mantissa places : ℕ) : List Char :=
  List.replicate (places + 1 - (Nat.toDigits 10 mantissa).length) '0' ++
    Nat.toDigits 10 mantissa

theorem lt_length_padded (mantissa places : ℕ) : places < (padded mantissa places).length := by
  rw [padded, List.length_append, List.length_replicate]
  omega

theorem decimalValue_padded (mantissa places : ℕ) :
    Text.decimalValue (padded mantissa places) = mantissa := by
  rw [padded, Text.decimalValue_append, Text.decimalValue_zeros, Text.decimalValue_toDigits,
    Nat.zero_mul, Nat.zero_add]

theorem isDigit_of_mem_padded {places : ℕ} {c : Char} (member : c ∈ padded mantissa places) :
    c.isDigit = true := by
  rcases List.mem_append.mp member with zeros | digits
  · exact isDigit_of_mem_zeros zeros
  · exact isDigit_of_mem_toDigits digits

/-- What stands before the point is a zero, or does not begin with one. -/
theorem whole_take_padded (positive : 0 < mantissa) (places : ℕ) (rest : List Char) :
    Whole
      ((padded mantissa places).take ((padded mantissa places).length - places) ++ rest)
      ((padded mantissa places).take ((padded mantissa places).length - places)) rest := by
  rcases Nat.lt_or_ge places (Nat.toDigits 10 mantissa).length with long | short
  · have none : places + 1 - (Nat.toDigits 10 mantissa).length = 0 :=
      Nat.sub_eq_zero_of_le long
    have some : (Nat.toDigits 10 mantissa).length - places ≠ 0 := Nat.sub_ne_zero_of_lt long
    rw [padded, none, List.replicate_zero, List.nil_append]
    refine whole_of_head ?_ (fun c member => ?_) ?_ rest
    · exact mt List.take_eq_nil_iff.mp (not_or.mpr ⟨some, Nat.toDigits_ne_nil⟩)
    · exact isDigit_of_mem_toDigits (List.mem_of_mem_take member)
    · rw [List.head?_take, if_neg some]
      exact head_toDigits_ne_zero positive
  · have length : (padded mantissa places).length - places = 1 := by
      rw [padded, List.length_append, List.length_replicate]
      omega
    have zeros :
        places + 1 - (Nat.toDigits 10 mantissa).length =
          places - (Nat.toDigits 10 mantissa).length + 1 := Nat.succ_sub short
    rw [length, padded, zeros, List.replicate_succ]
    exact .zero

/-- The point stands among the digits. -/
theorem spellsSize_positional_neg
    (positive : 0 < mantissa) {places : ℕ} (some : 0 < places) :
    SpellsSize (Decimal.positional mantissa (-places)) (mantissa * 10 ^ (-places : ℤ)) := by
  have length :
      ((padded mantissa places).drop ((padded mantissa places).length - places)).length =
        places := by
    have long := lt_length_padded mantissa places
    rw [List.length_drop]
    omega
  have nonempty :
      (padded mantissa places).drop ((padded mantissa places).length - places) ≠ [] := by
    intro empty
    rw [empty] at length
    exact absurd length some.ne
  have spells :=
    spellsSize_point (whole_take_padded positive places) nonempty fun c member =>
      isDigit_of_mem_padded (List.mem_of_mem_drop member)
  have text :
      Decimal.positional mantissa (-places) =
        (padded mantissa places).take ((padded mantissa places).length - places) ++
          '.' :: (padded mantissa places).drop ((padded mantissa places).length - places) := by
    have negative : ¬ (0 : ℤ) ≤ -places := by omega
    rw [Decimal.positional, if_neg negative, neg_neg, Int.toNat_natCast]
    rfl
  rw [length, List.take_append_drop, decimalValue_padded, ← text] at spells
  exact spells

theorem spellsSize_positional (positive : 0 < mantissa) (exponent : ℤ) :
    SpellsSize (Decimal.positional mantissa exponent) (mantissa * 10 ^ exponent) := by
  rcases lt_or_ge exponent 0 with negative | nonnegative
  · obtain ⟨n, rfl⟩ := Int.eq_negSucc_of_lt_zero negative
    exact spellsSize_positional_neg positive n.succ_pos
  · obtain ⟨n, rfl⟩ := Int.eq_ofNat_of_zero_le nonnegative
    exact spellsSize_positional_natCast positive n

end Positive

theorem size_power (minus : Bool) (first : Char) (more : List Char) (exponent : ℤ) :
    (Numeral.mk minus [first] more (some exponent)).size =
      Text.decimalValue (first :: more) * 10 ^ (exponent + 1 - (first :: more).length) := by
  have places : exponent + 1 - (first :: more).length = exponent - more.length := by
    rw [List.length_cons]
    omega
  rw [places]
  rfl

/-- A point behind the first digit, unless that is the only one. -/
theorem spellsSize_scientific {mantissa : ℕ} (positive : 0 < mantissa) (exponent : ℤ) :
    SpellsSize (scientific (Nat.toDigits 10 mantissa) exponent)
      (mantissa * 10 ^ (exponent + 1 - (Nat.toDigits 10 mantissa).length)) := by
  intro rest
  have value := Text.decimalValue_toDigits mantissa
  have head := head_toDigits_ne_zero positive
  have decimal : ∀ c ∈ Nat.toDigits 10 mantissa, c.isDigit = true :=
    fun _ => isDigit_of_mem_toDigits
  have power := power_toString exponent rest
  cases shape : Nat.toDigits 10 mantissa with
  | nil => exact absurd shape Nat.toDigits_ne_nil
  | cons first more =>
      rw [shape] at value head decimal
      obtain ⟨digit, others⟩ := List.forall_mem_cons.mp decimal
      have whole : ∀ text, Whole (first :: text) [first] text :=
        fun _ => .other (head first rfl) (.last digit)
      have size := size_power false first more exponent
      rw [value] at size
      refine ⟨[first], more, some exponent, ?_, .inr nofun, size⟩
      cases more with
      | nil => exact .mk .none (whole _) .none power
      | cons second more =>
          have fraction := digits_of_forall (List.cons_ne_nil second more) others
          rw [scientific, List.append_assoc]
          exact .mk .none (whole _) (.point (fraction _)) power

/-- A decimal of every size is spelled by its text. -/
theorem spellsSize_decimalText
    {decimal : ℕ × ℤ} (form : decimal = (0, 0) ∨ 0 < decimal.1) :
    SpellsSize (decimalText decimal.1 decimal.2) (decimal.1 * 10 ^ decimal.2) := by
  rcases form with rfl | positive
  · have zero : ∀ rest, Whole (['0'] ++ rest) ['0'] rest := fun _ => .zero
    have spells :=
      spellsSize_point zero (List.cons_ne_nil '0' []) (List.forall_mem_singleton.mpr rfl)
    have value : Text.decimalValue (['0'] ++ ['0']) = 0 := rfl
    rw [value, Nat.cast_zero, zero_mul] at spells
    rw [Nat.cast_zero, zero_mul]
    exact spells
  · rw [decimalText]
    split
    · exact spellsSize_positional positive decimal.2
    · have spells :=
        spellsSize_scientific positive ((Nat.toDigits 10 decimal.1).length + decimal.2 - 1)
      rwa [sub_add_cancel, add_sub_cancel_left] at spells

/-- The text of a double has its size, and it is no whole number. -/
theorem exists_numeral_double (value : Decimal.Double) (rest : List Char) :
    ∃ numeral, Spells (numberText (.double value) ++ rest) numeral rest ∧
      numeral.Means (.double value) := by
  have nearest := Decimal.isNearest_shortest (fun below => below % 2 = 1) value.magnitude
  have form :=
    Decimal.shortest_eq_zero_or_pos (fun below => below % 2 = 1) value.magnitude
  obtain ⟨whole, fraction, power, spells, notWhole, size⟩ := spellsSize_decimalText form rest
  have other : ∀ minus, ¬ (Numeral.mk minus whole fraction power).IsInteger :=
    fun _ integer => notWhole.elim (absurd integer.noFraction) (absurd integer.noPower)
  rw [← size] at nearest
  rw [numberText, doubleText]
  dsimp only
  split
  · rename_i minus
    exact ⟨_, spells.minus, .double (other true) minus nearest⟩
  · rename_i plain
    exact ⟨_, spells, .double (other false) (Bool.eq_false_iff.mpr plain) nearest⟩

/-- The text of a number is a numeral that means it. -/
theorem exists_numeral (value : Number) (rest : List Char) :
    ∃ numeral, Spells (numberText value ++ rest) numeral rest ∧ numeral.Means value := by
  cases value with
  | unsigned value => exact exists_numeral_unsigned value rest
  | negative value below => exact exists_numeral_negative value below rest
  | double value => exact exists_numeral_double value rest

end ReviewDiff.Json
