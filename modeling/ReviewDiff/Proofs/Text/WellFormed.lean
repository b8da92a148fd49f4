import ReviewDiff.Proofs.Text.Utf8

/-!
# Bytes that spell a text

A reader that meets no malformed place reads bytes that are written for the
characters it finds, so bytes spell a text exactly if they are the bytes of that
text.
-/

namespace ReviewDiff.Utf8

/-- The pieces are the characters of a text. -/
theorem mapM_id_eq_some_iff {pieces : List (Option Char)} {chars : List Char} :
    pieces.mapM id = some chars ↔ pieces = chars.map some := by
  induction pieces generalizing chars with
  | nil =>
      rw [List.mapM_nil]
      cases chars <;> simp
  | cons piece pieces inductionHypothesis =>
      rw [List.mapM_cons]
      simp only [id, Option.bind_eq_bind, Option.bind_eq_some_iff, inductionHypothesis]
      constructor
      · rintro ⟨c, rfl, others, rfl, same⟩
        cases same
        rfl
      · intro same
        cases chars with
        | nil => cases same
        | cons c others =>
            obtain ⟨rfl, rfl⟩ := List.cons.inj same
            exact ⟨c, rfl, others, rfl, rfl⟩

section Tails

variable {value : Nat} {low high : UInt8} {bytes : Bytes} {chars : List Char}

/-- Where a continuation byte is owed, the bytes of a text go on with one. -/
theorem exists_of_owed
    {owed : List (UInt8 × UInt8)}
    (reads : piecesFrom ⟨value, (low, high) :: owed⟩ bytes = chars.map some) :
    ∃ byte rest, bytes = byte :: rest ∧ low ≤ byte ∧ byte ≤ high := by
  cases bytes with
  | nil => cases chars <;> cases reads
  | cons byte rest =>
      by_cases inside : low ≤ byte ∧ byte ≤ high
      · exact ⟨byte, rest, rfl, inside⟩
      · exfalso
        have outside : (low ≤ byte && byte ≤ high) = false := by simpa using inside
        rw [piecesFrom_cons] at reads
        simp only [State.step, outside, Bool.false_eq_true, if_false] at reads
        cases chars <;> cases reads

/-- The last continuation byte completes a character. -/
theorem exists_of_owed_one
    (reads : piecesFrom ⟨value, [(low, high)]⟩ bytes = chars.map some) :
    ∃ byte rest others, bytes = byte :: rest ∧ (low ≤ byte ∧ byte ≤ high) ∧
      chars = Char.ofNat (value * 64 + byte.toNat % 64) :: others ∧
      piecesFrom .start rest = others.map some := by
  obtain ⟨byte, rest, rfl, inside⟩ := exists_of_owed reads
  rw [piecesFrom_cons, step_last value inside] at reads
  cases chars with
  | nil => cases reads
  | cons c others =>
      obtain ⟨same, behind⟩ := List.cons.inj reads
      obtain rfl := Option.some.inj same
      exact ⟨byte, rest, others, rfl, inside, rfl, behind⟩

/-- A continuation byte before the last one adds six bits. -/
theorem exists_of_owed_more
    {next : UInt8 × UInt8} {owed : List (UInt8 × UInt8)}
    (reads : piecesFrom ⟨value, (low, high) :: next :: owed⟩ bytes = chars.map some) :
    ∃ byte rest, bytes = byte :: rest ∧ (low ≤ byte ∧ byte ≤ high) ∧
      piecesFrom ⟨value * 64 + byte.toNat % 64, next :: owed⟩ rest = chars.map some := by
  obtain ⟨byte, rest, rfl, inside⟩ := exists_of_owed reads
  rw [piecesFrom_cons, step_more value inside] at reads
  exact ⟨byte, rest, rfl, inside, reads⟩

end Tails

/-- What a lead byte says: how many continuation bytes follow, and the bits. -/
theorem lead_cases
    {byte : UInt8} {value : Nat} {owed : List (UInt8 × UInt8)}
    (found : lead byte = some (value, owed)) :
    (byte.toNat < 0x80 ∧ value = byte.toNat ∧ owed = []) ∨
      (value + 192 = byte.toNat ∧ 2 ≤ value ∧ value < 32 ∧ owed = [anyTail]) ∨
      (value + 224 = byte.toNat ∧ value < 16 ∧ ∃ low high : UInt8,
        owed = [(low, high), anyTail] ∧ 128 ≤ low.toNat ∧ high.toNat ≤ 191 ∧
          (value = 0 → 160 ≤ low.toNat) ∧ (value = 13 → high.toNat < 160)) ∨
      (value + 240 = byte.toNat ∧ value < 5 ∧ ∃ low high : UInt8,
        owed = [(low, high), anyTail, anyTail] ∧ 128 ≤ low.toNat ∧ high.toNat ≤ 191 ∧
          (value = 0 → 144 ≤ low.toNat) ∧ (value = 4 → high.toNat < 144)) := by
  have bound := byte.toNat_lt
  simp only [lead] at found
  split at found
  · cases found
    exact Or.inl ⟨by assumption, rfl, rfl⟩
  split at found
  · cases found
  split at found
  · cases found
    exact Or.inr (Or.inl ⟨by omega, by omega, by omega, rfl⟩)
  split at found
  · cases found
    refine Or.inr (Or.inr (Or.inl ⟨by omega, by omega, 0xA0, 0xBF, rfl, ?_⟩))
    decide
  split at found
  · cases found
    refine Or.inr (Or.inr (Or.inl ⟨by omega, by omega, 0x80, 0x9F, rfl, ?_⟩))
    exact ⟨by decide, by decide, by omega, fun _ => by decide⟩
  split at found
  · cases found
    refine Or.inr (Or.inr (Or.inl ⟨by omega, by omega, 0x80, 0xBF, rfl, ?_⟩))
    exact ⟨by decide, by decide, by omega, by omega⟩
  split at found
  · cases found
    refine Or.inr (Or.inr (Or.inr ⟨by omega, by omega, 0x90, 0xBF, rfl, ?_⟩))
    decide
  split at found
  · cases found
    refine Or.inr (Or.inr (Or.inr ⟨by omega, by omega, 0x80, 0xBF, rfl, ?_⟩))
    exact ⟨by decide, by decide, by omega, by omega⟩
  split at found
  · cases found
    refine Or.inr (Or.inr (Or.inr ⟨by omega, by omega, 0x80, 0x8F, rfl, ?_⟩))
    decide
  · cases found

/-! ### Characters of one to four bytes -/

private theorem toNat_val_ofNat {v : Nat} (valid : v < 0xD800 ∨ 0xDFFF < v ∧ v < 0x110000) :
    (Char.ofNat v).val.toNat = v :=
  (congrArg (fun c => c.val.toNat) (dif_pos valid : Char.ofNat v = _)).trans rfl

private theorem eq_ofNat (byte : UInt8) {n : Nat} (same : n = byte.toNat) :
    byte = UInt8.ofNat n := by
  rw [same, UInt8.ofNat_toNat]

section Bytes

variable {b₀ b₁ b₂ b₃ : UInt8} {value : Nat}

theorem utf8EncodeChar_one (below : b₀.toNat < 128) :
    [b₀] = String.utf8EncodeChar (Char.ofNat b₀.toNat) := by
  rw [String.utf8EncodeChar, toNat_val_ofNat (by omega)]
  simp only [if_pos (show b₀.toNat ≤ 0x7f by omega), UInt8.ofNat_toNat]

theorem utf8EncodeChar_two
    (lead : value + 192 = b₀.toNat) (above : 2 ≤ value) (below : value < 32)
    (first : 128 ≤ b₁.toNat ∧ b₁.toNat ≤ 191) :
    [b₀, b₁] = String.utf8EncodeChar (Char.ofNat (value * 64 + b₁.toNat % 64)) := by
  rw [String.utf8EncodeChar, toNat_val_ofNat (by omega)]
  rw [if_neg (by omega), if_pos (by omega),
    ← eq_ofNat b₀ (by omega), ← eq_ofNat b₁ (by omega)]

theorem utf8EncodeChar_three
    (lead : value + 224 = b₀.toNat) (below : value < 16)
    (first : 128 ≤ b₁.toNat ∧ b₁.toNat ≤ 191) (second : 128 ≤ b₂.toNat ∧ b₂.toNat ≤ 191)
    (overlong : value = 0 → 160 ≤ b₁.toNat) (surrogate : value = 13 → b₁.toNat < 160) :
    [b₀, b₁, b₂] =
      String.utf8EncodeChar
        (Char.ofNat ((value * 64 + b₁.toNat % 64) * 64 + b₂.toNat % 64)) := by
  rw [String.utf8EncodeChar, toNat_val_ofNat (by omega)]
  rw [if_neg (by omega), if_neg (by omega), if_pos (by omega),
    ← eq_ofNat b₀ (by omega), ← eq_ofNat b₁ (by omega),
    ← eq_ofNat b₂ (by omega)]

theorem utf8EncodeChar_four
    (lead : value + 240 = b₀.toNat) (below : value < 5)
    (first : 128 ≤ b₁.toNat ∧ b₁.toNat ≤ 191) (second : 128 ≤ b₂.toNat ∧ b₂.toNat ≤ 191)
    (third : 128 ≤ b₃.toNat ∧ b₃.toNat ≤ 191)
    (overlong : value = 0 → 144 ≤ b₁.toNat) (beyond : value = 4 → b₁.toNat < 144) :
    [b₀, b₁, b₂, b₃] =
      String.utf8EncodeChar
        (Char.ofNat
          (((value * 64 + b₁.toNat % 64) * 64 + b₂.toNat % 64) * 64 + b₃.toNat % 64)) := by
  rw [String.utf8EncodeChar, toNat_val_ofNat (by omega)]
  rw [if_neg (by omega), if_neg (by omega), if_neg (by omega),
    ← eq_ofNat b₀ (by omega), ← eq_ofNat b₁ (by omega),
    ← eq_ofNat b₂ (by omega), ← eq_ofNat b₃ (by omega)]

end Bytes

theorem tail_bounds {byte : UInt8} (inside : anyTail.1 ≤ byte ∧ byte ≤ anyTail.2) :
    128 ≤ byte.toNat ∧ byte.toNat ≤ 191 := by
  rwa [UInt8.le_iff_toNat_le, UInt8.le_iff_toNat_le] at inside

/-- The bytes of the first character are those that are written for it. -/
theorem exists_of_piecesFrom
    {byte : UInt8} {bytes : Bytes} {chars : List Char}
    (reads : piecesFrom .start (byte :: bytes) = chars.map some) :
    ∃ c others rest, chars = c :: others ∧ byte :: bytes = String.utf8EncodeChar c ++ rest ∧
      piecesFrom .start rest = others.map some := by
  rw [piecesFrom_cons] at reads
  cases found : lead byte with
  | none =>
      simp only [State.step, State.start, State.openWith, found] at reads
      cases chars <;> cases reads
  | some start =>
      obtain ⟨value, owed⟩ := start
      rcases lead_cases found with
        ⟨below, rfl, rfl⟩ | ⟨isLead, above, below, rfl⟩ |
        ⟨isLead, below, low, high, rfl, lowest, highest, overlong, surrogate⟩ |
        ⟨isLead, below, low, high, rfl, lowest, highest, overlong, beyond⟩
      · simp only [State.step, State.start, State.openWith, found] at reads
        cases chars with
        | nil => cases reads
        | cons c others =>
            obtain ⟨same, behind⟩ := List.cons.inj reads
            obtain rfl := Option.some.inj same
            refine ⟨_, others, bytes, rfl, ?_, behind⟩
            rw [← utf8EncodeChar_one below]
            rfl
      · rw [step_lead found] at reads
        obtain ⟨b₁, rest, others, rfl, inside, rfl, behind⟩ := exists_of_owed_one reads
        refine ⟨_, others, rest, rfl, ?_, behind⟩
        rw [← utf8EncodeChar_two isLead above below (tail_bounds inside)]
        rfl
      · rw [step_lead found] at reads
        obtain ⟨b₁, bytes, rfl, inside₁, reads⟩ := exists_of_owed_more reads
        obtain ⟨b₂, rest, others, rfl, inside₂, rfl, behind⟩ := exists_of_owed_one reads
        rw [UInt8.le_iff_toNat_le, UInt8.le_iff_toNat_le] at inside₁
        refine ⟨_, others, rest, rfl, ?_, behind⟩
        rw [← utf8EncodeChar_three isLead below (by omega) (tail_bounds inside₂) (by omega)
          (by omega)]
        rfl
      · rw [step_lead found] at reads
        obtain ⟨b₁, bytes, rfl, inside₁, reads⟩ := exists_of_owed_more reads
        obtain ⟨b₂, bytes, rfl, inside₂, reads⟩ := exists_of_owed_more reads
        obtain ⟨b₃, rest, others, rfl, inside₃, rfl, behind⟩ := exists_of_owed_one reads
        rw [UInt8.le_iff_toNat_le, UInt8.le_iff_toNat_le] at inside₁
        refine ⟨_, others, rest, rfl, ?_, behind⟩
        rw [← utf8EncodeChar_four isLead below (by omega) (tail_bounds inside₂)
          (tail_bounds inside₃) (by omega) (by omega)]
        rfl

theorem eq_flatMap_of_piecesFrom
    {bytes : Bytes} {chars : List Char} (reads : piecesFrom .start bytes = chars.map some) :
    bytes = chars.flatMap String.utf8EncodeChar := by
  induction chars generalizing bytes with
  | nil =>
      cases bytes with
      | nil => rfl
      | cons byte bytes =>
          obtain ⟨c, others, rest, same, -⟩ := exists_of_piecesFrom reads
          cases same
  | cons c chars inductionHypothesis =>
      cases bytes with
      | nil => cases reads
      | cons byte bytes =>
          obtain ⟨_, others, rest, same, shape, behind⟩ := exists_of_piecesFrom reads
          cases same
          rw [shape, inductionHypothesis behind, List.flatMap_cons]

/-- Bytes spell a text exactly if they are the bytes of that text. -/
theorem decode?_eq_some_iff {bytes : Bytes} {text : String} :
    decode? bytes = some text ↔ bytes = encode text := by
  constructor
  · intro reads
    obtain ⟨chars, spelled, rfl⟩ := Option.map_eq_some_iff.mp reads
    rw [encode, String.toList_ofList]
    exact eq_flatMap_of_piecesFrom (mapM_id_eq_some_iff.mp spelled)
  · rintro rfl
    exact decode?_encode text

end ReviewDiff.Utf8
