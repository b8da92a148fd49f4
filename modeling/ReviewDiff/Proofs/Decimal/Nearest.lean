import Mathlib.Algebra.Order.Field.Power
import Mathlib.Algebra.Order.Ring.Rat
import Mathlib.Order.Monotone.Basic
import Mathlib.Tactic.FieldSimp
import Mathlib.Tactic.Linarith
import Mathlib.Tactic.Positivity
import Mathlib.Tactic.Ring
import ReviewDiff.Decimal.Shortest

/-!
# The nearest double

Half the way to its two neighbours lie the ends of what is rounded to a double.

* `isNearest_iff_readsBack` says that a double is nearest to what reads back as it.
* `Magnitude.IsNearest.unique` says that no other double is.
* `Magnitude.IsNearest.between` says that it is nearest to what lies between, too.
-/

namespace ReviewDiff.Decimal

/-! ## The sizes of doubles -/

/-- The size that these bits stand for, as if exponents had no bound. -/
def size (bits : ℕ) : ℚ :=
  if bits < 2 ^ 52 then bits * 2 ^ (-1074 : ℤ)
  else (2 ^ 52 + (bits % 2 ^ 52 : ℕ)) * 2 ^ ((bits / 2 ^ 52 : ℕ) - 1075 : ℤ)

/-- The double is the nearest one to the number.  A neighbour is equally near only if the
last bit is zero. -/
structure Magnitude.IsNearest (magnitude : Magnitude) (q : ℚ) : Prop where
  nearest : ∀ bits, |q - size magnitude.bits| ≤ |q - size bits|
  even : ∀ bits, bits ≠ magnitude.bits → |q - size bits| = |q - size magnitude.bits| →
    magnitude.bits % 2 = 0

theorem halfUnits_eq (bits : ℕ) :
    halfUnits bits =
      if bits < 2 ^ 52 then 2 * bits
      else (2 ^ 52 + bits % 2 ^ 52) * 2 ^ (bits / 2 ^ 52) :=
  rfl

theorem two_mul_div_pow (a : ℚ) (k : ℕ) : 2 * a / 2 ^ (k + 1) = a * 2 ^ (-k : ℤ) := by
  rw [zpow_neg, zpow_natCast, pow_succ]
  field_simp

theorem size_eq (bits : ℕ) : size bits = halfUnits bits / 2 ^ unitPower := by
  rw [size, halfUnits_eq]
  split
  · rw [Nat.cast_mul, Nat.cast_ofNat]
    exact (two_mul_div_pow bits 1074).symm
  · rw [Nat.cast_mul, Nat.cast_add, Nat.cast_pow, Nat.cast_pow, Nat.cast_ofNat, mul_div_assoc]
    congr 1
    exact zpow_natCast_sub_natCast₀ two_ne_zero (bits / 2 ^ 52) 1075

/-! ## One double after the other -/

theorem halfUnits_of_lt {bits : ℕ} (below : bits < 2 ^ 52) : halfUnits bits = 2 * bits :=
  if_pos below

theorem halfUnits_of_le {bits : ℕ} (above : 2 ^ 52 ≤ bits) :
    halfUnits bits = (2 ^ 52 + bits % 2 ^ 52) * 2 ^ (bits / 2 ^ 52) :=
  if_neg (Nat.not_lt.mpr above)

theorem halfUnits_succ_of_le {bits : ℕ} (above : 2 ^ 52 ≤ bits) :
    halfUnits (bits + 1) = halfUnits bits + 2 ^ (bits / 2 ^ 52) := by
  rw [halfUnits_of_le above, halfUnits_of_le (above.trans (Nat.le_add_right bits 1))]
  by_cases carries : bits % 2 ^ 52 + 1 = 2 ^ 52
  · have power : (bits + 1) / 2 ^ 52 = bits / 2 ^ 52 + 1 := by omega
    have fraction : (bits + 1) % 2 ^ 52 = 0 := by omega
    have significand : 2 ^ 52 + bits % 2 ^ 52 + 1 = 2 ^ 52 * 2 := by omega
    rw [power, fraction, ← Nat.succ_mul, Nat.succ_eq_add_one, significand, Nat.add_zero]
    ring
  · have power : (bits + 1) / 2 ^ 52 = bits / 2 ^ 52 := by omega
    have fraction : (bits + 1) % 2 ^ 52 = bits % 2 ^ 52 + 1 := by omega
    rw [power, fraction]
    ring

/-- From one double to the next. -/
theorem halfUnits_succ (bits : ℕ) :
    halfUnits (bits + 1) = halfUnits bits + 2 ^ max 1 (bits / 2 ^ 52) := by
  rcases Nat.lt_or_ge bits (2 ^ 52) with below | above
  · have power : bits / 2 ^ 52 = 0 := Nat.div_eq_of_lt below
    have first : halfUnits (bits + 1) = 2 * (bits + 1) := by
      rcases Nat.lt_or_eq_of_le (Nat.succ_le_of_lt below) with subnormal | normal
      · exact halfUnits_of_lt subnormal
      · rw [Nat.succ_eq_add_one] at normal
        rw [normal, halfUnits_of_le le_rfl, Nat.mod_self, Nat.div_self (by positivity)]
        ring
    rw [first, halfUnits_of_lt below, power, max_eq_left (Nat.zero_le 1), pow_one,
      Nat.mul_succ]
  · have power : 1 ≤ bits / 2 ^ 52 := Nat.div_pos above (by positivity)
    rw [halfUnits_succ_of_le above, max_eq_right power]

theorem strictMono_halfUnits : StrictMono halfUnits := by
  refine strictMono_nat_of_lt_succ fun bits => ?_
  rw [halfUnits_succ]
  exact Nat.lt_add_of_pos_right (by positivity)

theorem even_halfUnits (bits : ℕ) : 2 ∣ halfUnits bits := by
  induction bits with
  | zero => exact Nat.dvd_zero 2
  | succ bits inductionHypothesis =>
      rw [halfUnits_succ]
      have power : max 1 (bits / 2 ^ 52) ≠ 0 := by omega
      exact Nat.dvd_add inductionHypothesis (dvd_pow_self 2 power)

theorem strictMono_size : StrictMono size := by
  intro bits bits' less
  rw [size_eq, size_eq]
  have above : (halfUnits bits : ℚ) < halfUnits bits' :=
    Nat.cast_lt.mpr (strictMono_halfUnits less)
  exact div_lt_div_of_pos_right above (by positivity)

/-! ## Distances -/

section Distances

variable {K : Type} [Field K] [LinearOrder K] [IsStrictOrderedRing K] {a b q : K}

theorem abs_sub_le_of_middle_le (order : a ≤ b) (middle : a + b ≤ 2 * q) :
    |q - b| ≤ |q - a| := by
  refine le_trans (abs_le.mpr ⟨?_, ?_⟩) (le_abs_self (q - a))
  · linarith
  · linarith

theorem abs_sub_lt_of_middle_lt (order : a < b) (middle : a + b < 2 * q) :
    |q - b| < |q - a| := by
  refine lt_of_lt_of_le (abs_lt.mpr ⟨?_, ?_⟩) (le_abs_self (q - a))
  · linarith
  · linarith

theorem abs_sub_le_of_le_middle (order : a ≤ b) (middle : 2 * q ≤ a + b) :
    |q - a| ≤ |q - b| := by
  rw [abs_sub_comm q b]
  refine le_trans (abs_le.mpr ⟨?_, ?_⟩) (le_abs_self (b - q))
  · linarith
  · linarith

theorem abs_sub_lt_of_lt_middle (order : a < b) (middle : 2 * q < a + b) :
    |q - a| < |q - b| := by
  rw [abs_sub_comm q b]
  refine lt_of_lt_of_le (abs_lt.mpr ⟨?_, ?_⟩) (le_abs_self (b - q))
  · linarith
  · linarith

theorem abs_sub_le_iff_le_middle (order : a < b) : |q - a| ≤ |q - b| ↔ 2 * q ≤ a + b := by
  constructor
  · intro nearer
    by_contra above
    exact absurd nearer (not_le.mpr (abs_sub_lt_of_middle_lt order (not_le.mp above)))
  · exact abs_sub_le_of_le_middle order.le

theorem abs_sub_le_iff_middle_le (order : a < b) : |q - b| ≤ |q - a| ↔ a + b ≤ 2 * q := by
  constructor
  · intro nearer
    by_contra below
    exact absurd nearer (not_le.mpr (abs_sub_lt_of_lt_middle order (not_le.mp below)))
  · exact abs_sub_le_of_middle_le order.le

/-- What is equally far from two numbers is nearer to every number between them. -/
theorem abs_sub_lt_of_between
    {c : K} (above : a < c) (below : c < b) (equal : |q - b| = |q - a|) :
    |q - c| < |q - a| := by
  have middle : 2 * q = a + b := by
    rcases abs_eq_abs.mp equal with same | opposite
    · linarith
    · linarith
  refine lt_of_lt_of_le (abs_lt.mpr ⟨?_, ?_⟩) (le_abs_self (q - a))
  · linarith
  · linarith

end Distances

/-- At most one double is nearest to a number. -/
theorem Magnitude.IsNearest.unique
    {magnitude magnitude' : Magnitude} {q : ℚ} (nearest : magnitude.IsNearest q)
    (nearest' : magnitude'.IsNearest q) :
    magnitude = magnitude' := by
  have notBelow :
      ∀ {m m' : Magnitude}, m.IsNearest q → m'.IsNearest q → ¬ m.bits < m'.bits := by
    intro m m' near near' less
    have equal : |q - size m'.bits| = |q - size m.bits| :=
      le_antisymm (near'.nearest m.bits) (near.nearest m'.bits)
    have even := near.even m'.bits less.ne' equal
    have even' := near'.even m.bits less.ne equal.symm
    have between : m.bits + 1 < m'.bits := by omega
    have nearer :=
      abs_sub_lt_of_between (strictMono_size (Nat.lt_add_one m.bits))
        (strictMono_size between) equal
    exact absurd (near.nearest (m.bits + 1)) (not_le.mpr nearer)
  have same : magnitude.bits = magnitude'.bits :=
    le_antisymm (not_lt.mp (notBelow nearest' nearest)) (not_lt.mp (notBelow nearest nearest'))
  cases magnitude
  cases magnitude'
  cases same
  rfl

/-- A double that is nearest to two numbers is nearest to what lies between them. -/
theorem Magnitude.IsNearest.between
    {magnitude : Magnitude} {low q high : ℚ} (nearLow : magnitude.IsNearest low)
    (nearHigh : magnitude.IsNearest high) (above : low ≤ q) (below : q ≤ high) :
    magnitude.IsNearest q := by
  have notLower :
      ∀ {bits}, bits < magnitude.bits → size bits + size magnitude.bits ≤ 2 * low :=
    fun lower => (abs_sub_le_iff_middle_le (strictMono_size lower)).mp (nearLow.nearest _)
  have notHigher :
      ∀ {bits}, magnitude.bits < bits → 2 * high ≤ size magnitude.bits + size bits :=
    fun higher => (abs_sub_le_iff_le_middle (strictMono_size higher)).mp (nearHigh.nearest _)
  constructor
  · intro bits
    rcases Nat.lt_trichotomy bits magnitude.bits with lower | rfl | higher
    · rw [abs_sub_le_iff_middle_le (strictMono_size lower)]
      linarith [notLower lower]
    · rfl
    · rw [abs_sub_le_iff_le_middle (strictMono_size higher)]
      linarith [notHigher higher]
  · intro bits different equal
    rcases Nat.lt_or_gt_of_ne different with lower | higher
    · have reached := (abs_sub_le_iff_le_middle (strictMono_size lower)).mp equal.le
      have same : q = low := by linarith [notLower lower]
      rw [same] at equal
      exact nearLow.even bits different equal
    · have reached := (abs_sub_le_iff_middle_le (strictMono_size higher)).mp equal.le
      have same : q = high := by linarith [notHigher higher]
      rw [same] at equal
      exact nearHigh.even bits different equal

theorem isNearest_size (magnitude : Magnitude) :
    magnitude.IsNearest (size magnitude.bits) := by
  constructor
  · intro bits
    rw [sub_self, abs_zero]
    exact abs_nonneg _
  · intro bits different equal
    rw [sub_self, abs_zero, abs_eq_zero, sub_eq_zero] at equal
    exact absurd (strictMono_size.injective equal).symm different

/-! ## What reads back -/

/-- Half the way to the next double, in half units. -/
def middle (bits : ℕ) : ℕ :=
  (halfUnits bits + halfUnits (bits + 1)) / 2

theorem two_mul_middle (bits : ℕ) :
    2 * middle bits = halfUnits bits + halfUnits (bits + 1) :=
  Nat.mul_div_cancel' (Nat.dvd_add (even_halfUnits bits) (even_halfUnits (bits + 1)))

theorem halfUnits_lt_middle (bits : ℕ) : halfUnits bits < middle bits := by
  have less := strictMono_halfUnits (Nat.lt_add_one bits)
  have double := two_mul_middle bits
  omega

theorem middle_lt_halfUnits (bits : ℕ) : middle bits < halfUnits (bits + 1) := by
  have less := strictMono_halfUnits (Nat.lt_add_one bits)
  have double := two_mul_middle bits
  omega

section Fractions

variable {bits numerator denominator : ℕ}

/-- The fraction lies above the middle between two doubles. -/
theorem middle_mul_le_iff (positive : 0 < denominator) (bits : ℕ) :
    middle bits * denominator ≤ numerator ↔
      size bits + size (bits + 1) ≤ 2 * (numerator / denominator / 2 ^ unitPower : ℚ) := by
  have double : (2 * middle bits : ℚ) = halfUnits bits + halfUnits (bits + 1) := by
    exact_mod_cast two_mul_middle bits
  have denominatorPos : (0 : ℚ) < denominator := Nat.cast_pos.mpr positive
  rw [size_eq, size_eq, ← add_div, ← double, mul_div_assoc, mul_le_mul_iff_right₀ two_pos,
    div_le_div_iff_of_pos_right (by positivity), le_div_iff₀ denominatorPos]
  exact_mod_cast Iff.rfl

theorem le_middle_mul_iff (positive : 0 < denominator) (bits : ℕ) :
    numerator ≤ middle bits * denominator ↔
      2 * (numerator / denominator / 2 ^ unitPower : ℚ) ≤ size bits + size (bits + 1) := by
  have double : (2 * middle bits : ℚ) = halfUnits bits + halfUnits (bits + 1) := by
    exact_mod_cast two_mul_middle bits
  have denominatorPos : (0 : ℚ) < denominator := Nat.cast_pos.mpr positive
  rw [size_eq, size_eq, ← add_div, ← double, mul_div_assoc, mul_le_mul_iff_right₀ two_pos,
    div_le_div_iff_of_pos_right (by positivity), div_le_iff₀ denominatorPos]
  exact_mod_cast Iff.rfl

theorem readsBack_succ_iff :
    readsBack (bits + 1) numerator denominator = true ↔
      if (bits + 1) % 2 = 0 then
        middle bits * denominator ≤ numerator ∧ numerator ≤ middle (bits + 1) * denominator
      else
        middle bits * denominator < numerator ∧
          numerator < middle (bits + 1) * denominator := by
  rw [readsBack, Nat.add_sub_cancel]
  split
  · simp only [middle, Bool.and_eq_true, decide_eq_true_eq]
  · simp only [middle, Bool.and_eq_true, decide_eq_true_eq]

/-- What reads back as a double lies between the middles on both sides of it. -/
theorem between_of_readsBack
    (positive : 0 < denominator) (reads : readsBack (bits + 1) numerator denominator = true) :
    size bits + size (bits + 1) ≤ 2 * (numerator / denominator / 2 ^ unitPower : ℚ) ∧
      2 * (numerator / denominator / 2 ^ unitPower : ℚ) ≤
        size (bits + 1) + size (bits + 2) := by
  rw [← middle_mul_le_iff positive, ← le_middle_mul_iff positive]
  rw [readsBack_succ_iff] at reads
  split at reads
  · exact reads
  · exact ⟨reads.1.le, reads.2.le⟩

/-- The middles themselves read back only if the last bit is zero. -/
theorem strictly_between_of_readsBack
    (positive : 0 < denominator) (reads : readsBack (bits + 1) numerator denominator = true)
    (odd : (bits + 1) % 2 ≠ 0) :
    size bits + size (bits + 1) < 2 * (numerator / denominator / 2 ^ unitPower : ℚ) ∧
      2 * (numerator / denominator / 2 ^ unitPower : ℚ) <
        size (bits + 1) + size (bits + 2) := by
  rw [← not_le, ← not_le, ← middle_mul_le_iff positive, ← le_middle_mul_iff positive, not_le,
    not_le]
  rw [readsBack_succ_iff, if_neg odd] at reads
  exact reads

end Fractions

section Between

variable {bits other : ℕ} {q : ℚ}

theorem size_le_size {a b : ℕ} (le : a ≤ b) : size a ≤ size b :=
  strictMono_size.monotone le

theorem abs_sub_size_le
    (above : size bits + size (bits + 1) ≤ 2 * q)
    (below : 2 * q ≤ size (bits + 1) + size (bits + 2)) (other : ℕ) :
    |q - size (bits + 1)| ≤ |q - size other| := by
  rcases Nat.lt_or_ge other (bits + 1) with lower | notLower
  · have order : size other ≤ size bits := size_le_size (Nat.le_of_lt_succ lower)
    have step : size bits ≤ size (bits + 1) := size_le_size (Nat.le_add_right bits 1)
    exact abs_sub_le_of_middle_le (order.trans step) (by linarith)
  · rcases Nat.eq_or_lt_of_le notLower with rfl | higher
    · rfl
    · have order : size (bits + 2) ≤ size other := size_le_size higher
      have step : size (bits + 1) ≤ size (bits + 2) :=
        size_le_size (Nat.le_add_right (bits + 1) 1)
      exact abs_sub_le_of_le_middle (step.trans order) (by linarith)

theorem abs_sub_size_lt
    (above : size bits + size (bits + 1) < 2 * q)
    (below : 2 * q < size (bits + 1) + size (bits + 2)) (different : other ≠ bits + 1) :
    |q - size (bits + 1)| < |q - size other| := by
  rcases Nat.lt_or_gt_of_ne different with lower | higher
  · have order : size other ≤ size bits := size_le_size (Nat.le_of_lt_succ lower)
    have step : size bits < size (bits + 1) := strictMono_size (Nat.lt_add_one bits)
    exact abs_sub_lt_of_middle_lt (order.trans_lt step) (by linarith)
  · have order : size (bits + 2) ≤ size other := size_le_size higher
    have step : size (bits + 1) < size (bits + 2) :=
      strictMono_size (Nat.lt_add_one (bits + 1))
    exact abs_sub_lt_of_lt_middle (step.trans_le order) (by linarith)

/-- What reads back as a double is nearest to it. -/
theorem isNearest_of_readsBack
    {magnitude : Magnitude} {numerator denominator : ℕ} (nonzero : magnitude.bits ≠ 0)
    (positive : 0 < denominator)
    (reads : readsBack magnitude.bits numerator denominator = true) :
    magnitude.IsNearest (numerator / denominator / 2 ^ unitPower) := by
  obtain ⟨bits, succ⟩ := Nat.exists_eq_succ_of_ne_zero nonzero
  rw [Nat.succ_eq_add_one] at succ
  rw [succ] at reads
  constructor
  · obtain ⟨above, below⟩ := between_of_readsBack positive reads
    rw [succ]
    exact abs_sub_size_le above below
  · rw [succ]
    intro other different equal
    by_contra odd
    obtain ⟨above, below⟩ := strictly_between_of_readsBack positive reads odd
    exact (abs_sub_size_lt above below different).ne' equal

/-- What a double is nearest to reads back as it. -/
theorem readsBack_of_isNearest
    {magnitude : Magnitude} {numerator denominator : ℕ} (nonzero : magnitude.bits ≠ 0)
    (positive : 0 < denominator)
    (near : magnitude.IsNearest (numerator / denominator / 2 ^ unitPower)) :
    readsBack magnitude.bits numerator denominator = true := by
  obtain ⟨bits, succ⟩ := Nat.exists_eq_succ_of_ne_zero nonzero
  rw [Nat.succ_eq_add_one] at succ
  have nearest := near.nearest
  have even := near.even
  rw [succ] at nearest even ⊢
  have lower := strictMono_size (Nat.lt_add_one bits)
  have higher := strictMono_size (Nat.lt_add_one (bits + 1))
  rw [readsBack_succ_iff]
  split
  · rw [middle_mul_le_iff positive, le_middle_mul_iff positive]
    exact
      ⟨(abs_sub_le_iff_middle_le lower).mp (nearest bits),
        (abs_sub_le_iff_le_middle higher).mp (nearest (bits + 2))⟩
  · rename_i odd
    rw [← not_le, ← not_le, le_middle_mul_iff positive, middle_mul_le_iff positive]
    constructor
    · intro reached
      have equal :=
        le_antisymm ((abs_sub_le_iff_le_middle lower).mpr reached) (nearest bits)
      exact odd (even bits (Nat.lt_add_one bits).ne equal)
    · intro reached
      have equal :=
        le_antisymm ((abs_sub_le_iff_middle_le higher).mpr reached) (nearest (bits + 2))
      exact odd (even (bits + 2) (Nat.lt_add_one (bits + 1)).ne' equal)

theorem isNearest_iff_readsBack
    {magnitude : Magnitude} {numerator denominator : ℕ} (nonzero : magnitude.bits ≠ 0)
    (positive : 0 < denominator) :
    magnitude.IsNearest (numerator / denominator / 2 ^ unitPower) ↔
      readsBack magnitude.bits numerator denominator = true :=
  ⟨readsBack_of_isNearest nonzero positive, isNearest_of_readsBack nonzero positive⟩

end Between

theorem size_zero : size 0 = 0 := by
  rw [size_eq, halfUnits_of_lt (by positivity)]
  simp

theorem isNearest_zero : Magnitude.zero.IsNearest 0 := by
  have near := isNearest_size Magnitude.zero
  change Magnitude.zero.IsNearest (size 0) at near
  rw [size_zero] at near
  exact near

end ReviewDiff.Decimal
