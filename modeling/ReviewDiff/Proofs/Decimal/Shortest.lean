import ReviewDiff.Proofs.Decimal.Nearest

/-!
# The shortest decimal reads back

On the finest grid there is a point for every double, so that the search for a coarse
grid ends with one.  What reads back lies in an interval around the double, so that a
grid with a point in it has one next to the double.

* `isNearest_shortest` says that the double is the one nearest to its shortest decimal.
* `exponent_le_shortest` says that no decimal of a coarser grid reads back.
* `length_toDigits_shortest_le` says that no decimal with fewer digits reads back.
* `abs_sub_shortest_le` says that no decimal of its grid that reads back is nearer.
-/

namespace ReviewDiff.Decimal

variable {goesUp : ℕ → Bool} {bits point : ℕ} {exponent : ℤ} {magnitude : Magnitude}

/-! ## Points of a grid -/

/-- A point of a grid, in half units, as a fraction. -/
def ReadsBackAt (bits point : ℕ) (exponent : ℤ) : Prop :=
  readsBack bits (point * (gridStep exponent).1) (gridStep exponent).2 = true

instance (bits point : ℕ) (exponent : ℤ) : Decidable (ReadsBackAt bits point exponent) :=
  inferInstanceAs (Decidable (_ = true))

theorem gridStep_fst (exponent : ℤ) :
    (gridStep exponent).1 = 10 ^ exponent.toNat * 2 ^ unitPower := by
  simp only [gridStep, Nat.pow_eq]

theorem gridStep_fst_pos (exponent : ℤ) : 0 < (gridStep exponent).1 := by
  rw [gridStep_fst]
  positivity

theorem gridStep_snd_pos (exponent : ℤ) : 0 < (gridStep exponent).2 :=
  Nat.pow_pos (by decide)

theorem cancel_unit (point step parts : ℕ) {unit : ℚ} (nonzero : unit ≠ 0) :
    point * (step * unit) / parts / unit = point * (step / parts : ℚ) := by
  field_simp

theorem gridStep_value (point : ℕ) (exponent : ℤ) :
    ((point * (gridStep exponent).1 : ℕ) / (gridStep exponent).2 / 2 ^ unitPower : ℚ) =
      point * 10 ^ exponent := by
  have difference : (exponent.toNat - (-exponent).toNat : ℤ) = exponent := by omega
  have parts : (gridStep exponent).2 = 10 ^ (-exponent).toNat := rfl
  have ten : (10 : ℚ) ≠ 0 := by norm_num
  have power := zpow_natCast_sub_natCast₀ ten exponent.toNat (-exponent).toNat
  rw [difference] at power
  rw [gridStep_fst, parts, Nat.cast_mul, Nat.cast_mul, Nat.cast_pow 2, Nat.cast_ofNat,
    cancel_unit point _ _ (pow_ne_zero unitPower two_ne_zero), power, Nat.cast_pow,
    Nat.cast_pow, Nat.cast_ofNat]

theorem readsBackAt_iff
    (nonzero : magnitude.bits ≠ 0) (point : ℕ) (exponent : ℤ) :
    ReadsBackAt magnitude.bits point exponent ↔
      magnitude.IsNearest (point * 10 ^ exponent) := by
  rw [← gridStep_value]
  exact (isNearest_iff_readsBack nonzero (gridStep_snd_pos exponent)).symm

theorem grid_le_iff (bits point times : ℕ) (exponent : ℤ) :
    point * 10 ^ exponent ≤ times * size bits ↔
      point * (gridStep exponent).1 ≤ times * (halfUnits bits * (gridStep exponent).2) := by
  have partsPos : (0 : ℚ) < (gridStep exponent).2 :=
    Nat.cast_pos.mpr (gridStep_snd_pos exponent)
  rw [← gridStep_value, size_eq, ← mul_div_assoc,
    div_le_div_iff_of_pos_right (by positivity), div_le_iff₀ partsPos, mul_assoc]
  exact_mod_cast Iff.rfl

theorem le_grid_iff (bits point times : ℕ) (exponent : ℤ) :
    times * size bits ≤ point * 10 ^ exponent ↔
      times * (halfUnits bits * (gridStep exponent).2) ≤ point * (gridStep exponent).1 := by
  have partsPos : (0 : ℚ) < (gridStep exponent).2 :=
    Nat.cast_pos.mpr (gridStep_snd_pos exponent)
  rw [← gridStep_value, size_eq, ← mul_div_assoc,
    div_le_div_iff_of_pos_right (by positivity), le_div_iff₀ partsPos, mul_assoc]
  exact_mod_cast Iff.rfl

/-! ## The points next to a double -/

/-- The last point of a grid that does not lie above a double. -/
def under (bits : ℕ) (exponent : ℤ) : ℕ :=
  halfUnits bits * (gridStep exponent).2 / (gridStep exponent).1

theorem grid_le_size_iff (bits point : ℕ) (exponent : ℤ) :
    point * 10 ^ exponent ≤ size bits ↔ point ≤ under bits exponent := by
  have exact := grid_le_iff bits point 1 exponent
  rw [Nat.cast_one, one_mul, one_mul] at exact
  rw [exact, under, Nat.le_div_iff_mul_le (gridStep_fst_pos exponent)]

theorem under_le_size (bits : ℕ) (exponent : ℤ) :
    under bits exponent * 10 ^ exponent ≤ size bits :=
  (grid_le_size_iff bits _ exponent).mpr le_rfl

theorem size_le_over (bits : ℕ) (exponent : ℤ) :
    size bits ≤ (under bits exponent + 1 : ℕ) * 10 ^ exponent := by
  have notUnder : ¬ under bits exponent + 1 ≤ under bits exponent := Nat.not_succ_le_self _
  rw [← grid_le_size_iff] at notUnder
  exact (not_le.mp notUnder).le

/-- If a point of a grid reads back, then so does one next to the double. -/
theorem readsBackAt_under
    (nonzero : magnitude.bits ≠ 0) (reads : ReadsBackAt magnitude.bits point exponent)
    (low : point ≤ under magnitude.bits exponent) :
    ReadsBackAt magnitude.bits (under magnitude.bits exponent) exponent := by
  rw [readsBackAt_iff nonzero] at reads ⊢
  refine reads.between (isNearest_size magnitude) ?_ (under_le_size _ exponent)
  gcongr

theorem readsBackAt_over
    (nonzero : magnitude.bits ≠ 0) (reads : ReadsBackAt magnitude.bits point exponent)
    (high : under magnitude.bits exponent < point) :
    ReadsBackAt magnitude.bits (under magnitude.bits exponent + 1) exponent := by
  rw [readsBackAt_iff nonzero] at reads ⊢
  refine (isNearest_size magnitude).between reads (size_le_over _ exponent) ?_
  gcongr
  exact high

/-! ## The point that is taken -/

/-- Whether the point above is preferred. -/
def upNearer (goesUp : ℕ → Bool) (bits : ℕ) (exponent : ℤ) : Bool :=
  let (step, parts) := gridStep exponent
  let left := 2 * (halfUnits bits * parts % step)
  step < left || (left = step && goesUp (under bits exponent))

theorem le_of_upNearer (up : upNearer goesUp bits exponent = true) :
    (2 * under bits exponent + 1 : ℕ) * 10 ^ exponent ≤ (2 : ℕ) * size bits := by
  have whole := Nat.div_add_mod (halfUnits bits * (gridStep exponent).2) (gridStep exponent).1
  rw [upNearer, Bool.or_eq_true, Bool.and_eq_true, decide_eq_true_eq, decide_eq_true_eq] at up
  rw [grid_le_iff, Nat.succ_mul (2 * _), mul_assoc 2 (under bits exponent),
    mul_comm (under bits exponent)]
  change (gridStep exponent).1 * under bits exponent + _ = _ at whole
  omega

theorem le_of_not_upNearer (down : upNearer goesUp bits exponent = false) :
    (2 : ℕ) * size bits ≤ (2 * under bits exponent + 1 : ℕ) * 10 ^ exponent := by
  have whole := Nat.div_add_mod (halfUnits bits * (gridStep exponent).2) (gridStep exponent).1
  rw [upNearer, Bool.or_eq_false_iff, decide_eq_false_iff_not] at down
  rw [le_grid_iff, Nat.succ_mul (2 * _), mul_assoc 2 (under bits exponent),
    mul_comm (under bits exponent)]
  change (gridStep exponent).1 * under bits exponent + _ = _ at whole
  omega

theorem pointOn?_eq (goesUp : ℕ → Bool) (bits : ℕ) (exponent : ℤ) :
    pointOn? goesUp bits exponent =
      if ReadsBackAt bits (under bits exponent + 1) exponent ∧
          (upNearer goesUp bits exponent = true ∨
            ¬ ReadsBackAt bits (under bits exponent) exponent) then
        some (under bits exponent + 1)
      else if ReadsBackAt bits (under bits exponent) exponent then some (under bits exponent)
      else none := by
  refine if_congr ?_ rfl (if_congr Iff.rfl rfl rfl)
  rw [Bool.and_eq_true, Bool.or_eq_true, Bool.not_eq_true', ← Bool.not_eq_true]
  exact Iff.rfl

/-- The point that is taken is one of the two next to the double.  The other one
does not read back or is not preferred. -/
theorem pointOn?_eq_some (found : pointOn? goesUp bits exponent = some point) :
    (point = under bits exponent + 1 ∧ ReadsBackAt bits point exponent ∧
        (ReadsBackAt bits (under bits exponent) exponent →
          upNearer goesUp bits exponent = true)) ∨
      (point = under bits exponent ∧ ReadsBackAt bits point exponent ∧
        (ReadsBackAt bits (under bits exponent + 1) exponent →
          upNearer goesUp bits exponent = false)) := by
  rw [pointOn?_eq] at found
  split at found
  · rename_i above
    cases found
    refine .inl ⟨rfl, above.1, fun reads => ?_⟩
    rcases above.2 with up | notReads
    · exact up
    · exact absurd reads notReads
  · rename_i notAbove
    split at found
    · rename_i below
      cases found
      refine .inr ⟨rfl, below, fun reads => ?_⟩
      rw [← Bool.not_eq_true]
      exact fun up => notAbove ⟨reads, .inl up⟩
    · cases found

theorem readsBackAt_of_pointOn? (found : pointOn? goesUp bits exponent = some point) :
    ReadsBackAt bits point exponent := by
  rcases pointOn?_eq_some found with ⟨_, reads, _⟩ | ⟨_, reads, _⟩
  · exact reads
  · exact reads

/-- A grid on which a point reads back is not passed over. -/
theorem exists_pointOn?
    (goesUp : ℕ → Bool) (nonzero : magnitude.bits ≠ 0)
    (reads : ReadsBackAt magnitude.bits point exponent) :
    ∃ found, pointOn? goesUp magnitude.bits exponent = some found := by
  rw [pointOn?_eq]
  rcases Nat.lt_or_ge (under magnitude.bits exponent) point with high | low
  · have above := readsBackAt_over nonzero reads high
    by_cases below : ReadsBackAt magnitude.bits (under magnitude.bits exponent) exponent
    · rw [if_pos below]
      split
      · exact ⟨_, rfl⟩
      · exact ⟨_, rfl⟩
    · rw [if_pos ⟨above, .inr below⟩]
      exact ⟨_, rfl⟩
  · rw [if_pos (readsBackAt_under nonzero reads low)]
    split
    · exact ⟨_, rfl⟩
    · exact ⟨_, rfl⟩

/-- No other point of the grid that reads back is nearer. -/
theorem abs_sub_pointOn?_le
    {other : ℕ} (nonzero : magnitude.bits ≠ 0)
    (found : pointOn? goesUp magnitude.bits exponent = some point)
    (reads : ReadsBackAt magnitude.bits other exponent) :
    |size magnitude.bits - point * 10 ^ exponent| ≤
      |size magnitude.bits - other * 10 ^ exponent| := by
  have order :
      ∀ {a b : ℕ}, a ≤ b → (a * 10 ^ exponent : ℚ) ≤ b * 10 ^ exponent := by
    intro a b le
    gcongr
  have below := under_le_size magnitude.bits exponent
  have above := size_le_over magnitude.bits exponent
  rcases pointOn?_eq_some found with ⟨rfl, _, preferred⟩ | ⟨rfl, _, preferred⟩
  · rcases Nat.lt_or_ge (under magnitude.bits exponent) other with high | low
    · have far := order (Nat.succ_le_of_lt high)
      exact abs_sub_le_of_le_middle far (by linarith)
    · have up := le_of_upNearer (preferred (readsBackAt_under nonzero reads low))
      have far := order low
      refine abs_sub_le_of_middle_le (order (Nat.le_succ_of_le low)) ?_
      push_cast at up ⊢
      linarith
  · rcases Nat.lt_or_ge (under magnitude.bits exponent) other with high | low
    · have down := le_of_not_upNearer (preferred (readsBackAt_over nonzero reads high))
      have far := order (Nat.succ_le_of_lt high)
      refine abs_sub_le_of_le_middle (order high.le) ?_
      push_cast at down far
      linarith
    · have far := order low
      exact abs_sub_le_of_middle_le far (by linarith)

/-! ## Every double is found -/

theorem finest_step_le : (gridStep finestExponent).1 ≤ (gridStep finestExponent).2 := by
  decide +kernel

/-- If the step is at most half the least double, then the point under a double lies
behind the middle below it. -/
theorem readsBack_under
    {step parts : ℕ} (stepPos : 0 < step) (fine : step ≤ parts) (bits : ℕ) :
    readsBack (bits + 1) (halfUnits (bits + 1) * parts / step * step) parts = true := by
  have under := Nat.div_mul_le_self (halfUnits (bits + 1) * parts) step
  have next := Nat.lt_div_mul_add (a := halfUnits (bits + 1) * parts) stepPos
  have low : middle bits * parts + parts ≤ halfUnits (bits + 1) * parts := by
    rw [← Nat.succ_mul]
    exact Nat.mul_le_mul_right parts (middle_lt_halfUnits bits)
  have high : halfUnits (bits + 1) * parts < middle (bits + 1) * parts :=
    Nat.mul_lt_mul_of_pos_right (halfUnits_lt_middle (bits + 1)) (stepPos.trans_le fine)
  have above : middle bits * parts < halfUnits (bits + 1) * parts / step * step := by omega
  have below := under.trans_lt high
  rw [readsBack_succ_iff]
  split
  · exact ⟨above.le, below.le⟩
  · exact ⟨above, below⟩

theorem exists_pointOn?_finest (goesUp : ℕ → Bool) (nonzero : magnitude.bits ≠ 0) :
    ∃ point, pointOn? goesUp magnitude.bits finestExponent = some point := by
  obtain ⟨bits, succ⟩ := Nat.exists_eq_succ_of_ne_zero nonzero
  have reads := readsBack_under (gridStep_fst_pos finestExponent) finest_step_le bits
  rw [← Nat.succ_eq_add_one, ← succ] at reads
  exact exists_pointOn? goesUp nonzero reads

/-! ## The coarsest grid -/

/-- The search ends with a point that is taken on its grid. -/
theorem pointOn?_coarsest
    (goesUp : ℕ → Bool) (nonzero : magnitude.bits ≠ 0) (finer : ℕ) :
    pointOn? goesUp magnitude.bits (coarsest goesUp magnitude.bits finer).2 =
      some (coarsest goesUp magnitude.bits finer).1 := by
  induction finer with
  | zero =>
      obtain ⟨point, found⟩ := exists_pointOn?_finest goesUp nonzero
      rw [coarsest]
      dsimp only
      rw [found, Option.getD_some]
  | succ finer inductionHypothesis =>
      rw [coarsest]
      split
      · rename_i point found
        exact found
      · exact inductionHypothesis

/-- No point on a coarser grid reads back. -/
theorem exponent_le_coarsest
    {finer : ℕ} (goesUp : ℕ → Bool) (nonzero : magnitude.bits ≠ 0)
    (reads : ReadsBackAt magnitude.bits point exponent)
    (bounded : exponent ≤ finestExponent + finer) :
    exponent ≤ (coarsest goesUp magnitude.bits finer).2 := by
  induction finer with
  | zero => exact bounded
  | succ finer inductionHypothesis =>
      rw [coarsest]
      split
      · exact bounded
      · rename_i missing
        have different : exponent ≠ finestExponent + (finer + 1 : ℕ) := by
          rintro rfl
          obtain ⟨point, found⟩ := exists_pointOn? goesUp nonzero reads
          rw [missing] at found
          cases found
        apply inductionHypothesis
        omega

theorem pos_of_readsBackAt (nonzero : bits ≠ 0) (reads : ReadsBackAt bits point exponent) :
    0 < point := by
  obtain ⟨bits, rfl⟩ := Nat.exists_eq_succ_of_ne_zero nonzero
  have low : 0 < middle bits * (gridStep exponent).2 :=
    Nat.mul_pos ((Nat.zero_le _).trans_lt (halfUnits_lt_middle bits))
      (gridStep_snd_pos exponent)
  by_contra zero
  rw [Nat.eq_zero_of_not_pos zero, ReadsBackAt, Nat.zero_mul, Nat.succ_eq_add_one,
    readsBack_succ_iff] at reads
  split at reads
  · exact absurd reads.1 (Nat.not_le.mpr low)
  · exact absurd reads.1 (Nat.not_lt.mpr low.le)

theorem halfUnits_infinite_lt :
    halfUnits (2047 * Nat.pow 2 52) < 10 ^ 309 * 2 ^ unitPower := by
  decide +kernel

/-- No double reaches a grid above `10 ^ 308`. -/
theorem size_lt_of_coarse
    (finite : bits ≤ 2047 * Nat.pow 2 52) (coarse : 309 ≤ exponent) :
    size bits < 10 ^ exponent := by
  have bound : (halfUnits (2047 * Nat.pow 2 52) : ℚ) < 10 ^ 309 * 2 ^ unitPower := by
    exact_mod_cast halfUnits_infinite_lt
  have below : size (2047 * Nat.pow 2 52) < 10 ^ 309 := by
    rw [size_eq, div_lt_iff₀ (by positivity)]
    exact bound
  have power : (10 : ℚ) ^ (309 : ℤ) ≤ 10 ^ exponent :=
    zpow_le_zpow_right₀ (by norm_num) coarse
  rw [← zpow_natCast] at below
  exact (size_le_size finite).trans_lt (below.trans_le power)

theorem exponent_le_of_readsBackAt
    (nonzero : magnitude.bits ≠ 0) (reads : ReadsBackAt magnitude.bits point exponent) :
    exponent ≤ 308 := by
  by_contra coarse
  have positive : (1 : ℚ) ≤ point :=
    Nat.one_le_cast.mpr (Nat.succ_le_of_lt (pos_of_readsBackAt nonzero reads))
  have above : (10 : ℚ) ^ exponent ≤ point * 10 ^ exponent :=
    le_mul_of_one_le_left (by positivity) positive
  have next := strictMono_size (Nat.lt_add_one magnitude.bits)
  have near := ((readsBackAt_iff nonzero point exponent).mp reads).nearest
  have below := (abs_sub_le_iff_le_middle next).mp (near (magnitude.bits + 1))
  have bound : size (magnitude.bits + 1) < 10 ^ exponent :=
    size_lt_of_coarse (Nat.succ_le_of_lt magnitude.finite) (by omega)
  linarith only [above, next, below, bound]

/-! ## The decimal that is found -/

theorem shortest_of_nonzero (goesUp : ℕ → Bool) (nonzero : magnitude.bits ≠ 0) :
    shortest goesUp magnitude = coarsest goesUp magnitude.bits 632 :=
  if_neg nonzero

theorem pointOn?_shortest (goesUp : ℕ → Bool) (nonzero : magnitude.bits ≠ 0) :
    pointOn? goesUp magnitude.bits (shortest goesUp magnitude).2 =
      some (shortest goesUp magnitude).1 := by
  rw [shortest_of_nonzero goesUp nonzero]
  exact pointOn?_coarsest goesUp nonzero 632

theorem eq_zero_of_bits (zero : magnitude.bits = 0) : magnitude = .zero := by
  cases magnitude
  cases zero
  rfl

theorem shortest_zero (goesUp : ℕ → Bool) : shortest goesUp .zero = (0, 0) :=
  rfl

theorem shortest_eq_zero_or_pos (goesUp : ℕ → Bool) (magnitude : Magnitude) :
    shortest goesUp magnitude = (0, 0) ∨ 0 < (shortest goesUp magnitude).1 := by
  by_cases zero : magnitude.bits = 0
  · exact .inl (if_pos zero)
  · have found := pointOn?_shortest goesUp zero
    exact .inr (pos_of_readsBackAt zero (readsBackAt_of_pointOn? found))

/-- The double is the one nearest to its shortest decimal. -/
theorem isNearest_shortest (goesUp : ℕ → Bool) (magnitude : Magnitude) :
    magnitude.IsNearest
      ((shortest goesUp magnitude).1 * 10 ^ (shortest goesUp magnitude).2) := by
  by_cases zero : magnitude.bits = 0
  · rw [eq_zero_of_bits zero, shortest_zero, Nat.cast_zero, zero_mul]
    exact isNearest_zero
  · have found := pointOn?_shortest goesUp zero
    exact (readsBackAt_iff zero _ _).mp (readsBackAt_of_pointOn? found)

/-- No decimal of a coarser grid reads back. -/
theorem exponent_le_shortest
    {mantissa : ℕ} (goesUp : ℕ → Bool) (nonzero : magnitude.bits ≠ 0)
    (near : magnitude.IsNearest (mantissa * 10 ^ exponent)) :
    exponent ≤ (shortest goesUp magnitude).2 := by
  have reads := (readsBackAt_iff nonzero mantissa exponent).mpr near
  have bounded : exponent ≤ finestExponent + (632 : ℕ) :=
    exponent_le_of_readsBackAt nonzero reads
  rw [shortest_of_nonzero goesUp nonzero]
  exact exponent_le_coarsest goesUp nonzero reads bounded

/-- No decimal of its grid that reads back is nearer to the double. -/
theorem abs_sub_shortest_le
    {mantissa : ℕ} (goesUp : ℕ → Bool)
    (near : magnitude.IsNearest (mantissa * 10 ^ (shortest goesUp magnitude).2)) :
    |size magnitude.bits -
        (shortest goesUp magnitude).1 * 10 ^ (shortest goesUp magnitude).2| ≤
      |size magnitude.bits - mantissa * 10 ^ (shortest goesUp magnitude).2| := by
  by_cases zero : magnitude.bits = 0
  · rw [zero, eq_zero_of_bits zero, shortest_zero, size_zero, Nat.cast_zero, zero_mul,
      sub_self, abs_zero]
    exact abs_nonneg _
  · have reads := (readsBackAt_iff zero mantissa _).mpr near
    exact abs_sub_pointOn?_le zero (pointOn?_shortest goesUp zero) reads

/-- Between a decimal and a longer one that is not of a finer grid lies a power of ten.
-/
theorem isNearest_power
    {digits short long : ℕ} {coarse : ℤ}
    (near : magnitude.IsNearest (short * 10 ^ exponent))
    (nearLong : magnitude.IsNearest (long * 10 ^ coarse)) (coarser : exponent ≤ coarse)
    (fewer : short < 10 ^ digits) (more : 10 ^ digits ≤ long) :
    magnitude.IsNearest ((1 : ℕ) * 10 ^ (digits + coarse)) := by
  have split : (10 : ℚ) ^ (digits + coarse) = (10 ^ digits : ℕ) * 10 ^ coarse := by
    rw [zpow_add₀ (by norm_num), zpow_natCast, Nat.cast_pow, Nat.cast_ofNat]
  rw [Nat.cast_one, one_mul, split]
  refine near.between nearLong ?_ ?_
  · gcongr
    norm_num
  · gcongr

/-- No decimal with fewer digits reads back.  Otherwise a power of ten would do so, on
a coarser grid. -/
theorem length_toDigits_shortest_le
    {mantissa : ℕ} (goesUp : ℕ → Bool)
    (near : magnitude.IsNearest (mantissa * 10 ^ exponent)) :
    (Nat.toDigits 10 (shortest goesUp magnitude).1).length ≤
      (Nat.toDigits 10 mantissa).length := by
  have digitsPos : 0 < (Nat.toDigits 10 mantissa).length := Nat.length_toDigits_pos
  have fewer : mantissa < 10 ^ (Nat.toDigits 10 mantissa).length :=
    (Nat.length_toDigits_le_iff (by decide) digitsPos).mp le_rfl
  rw [Nat.length_toDigits_le_iff (by decide) digitsPos]
  by_cases zero : magnitude.bits = 0
  · rw [eq_zero_of_bits zero, shortest_zero]
    exact Nat.pow_pos (by decide)
  · by_contra longer
    have coarser := exponent_le_shortest goesUp zero near
    have power :=
      isNearest_power near (isNearest_shortest goesUp magnitude) coarser fewer
        (Nat.not_lt.mp longer)
    have coarsest := exponent_le_shortest goesUp zero power
    omega

end ReviewDiff.Decimal
