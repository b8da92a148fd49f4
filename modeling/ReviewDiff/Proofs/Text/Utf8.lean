import ReviewDiff.Text.Utf8

/-!
# Written text reads back

Every character is written as a lead byte and the continuation bytes that the
reader then expects, so the bytes of a text spell that text.  An ASCII byte
stands only for its own character.
-/

namespace ReviewDiff.Utf8

/-! ## Texts as bytes -/

theorem encode_append (front back : String) :
    encode (front ++ back) = encode front ++ encode back := by
  simp only [encode, String.toList_append, List.flatMap_append]

theorem encode_ne_nil {text : String} (nonempty : text ≠ "") :
    encode text ≠ [] := by
  intro empty
  apply nonempty
  rw [← String.toList_eq_nil_iff]
  cases shape : text.toList with
  | nil => rfl
  | cons first rest =>
      rw [encode, shape, List.flatMap_cons] at empty
      exact absurd (List.append_eq_nil_iff.mp empty).1
        String.utf8EncodeChar_ne_nil

private theorem toNat_ofNat {n : Nat} (small : n < 256) :
    (UInt8.ofNat n).toNat = n :=
  UInt8.toNat_ofNat_of_lt' small

/-- An ASCII byte occurs in a character only when it is that character. -/
theorem toNat_eq_of_mem_utf8EncodeChar
    {byte : UInt8} (ascii : byte.toNat < 128) {c : Char}
    (member : byte ∈ String.utf8EncodeChar c) :
    c.toNat = byte.toNat := by
  have code : c.val.toNat = c.toNat := rfl
  have high : ∀ n, 128 ≤ n → n < 256 → byte ≠ UInt8.ofNat n := by
    intro n above below same
    rw [same, toNat_ofNat below] at ascii
    omega
  have tail : ∀ bits, byte ≠ UInt8.ofNat (bits % 64 + 128) :=
    fun bits => high _ (by omega) (by omega)
  simp only [String.utf8EncodeChar] at member
  split at member
  · rw [List.mem_singleton.mp member, toNat_ofNat (by omega), code]
  · exfalso
    have two := fun bits => high (bits % 32 + 192) (by omega) (by omega)
    have three := fun bits => high (bits % 16 + 224) (by omega) (by omega)
    have four := fun bits => high (bits % 8 + 240) (by omega) (by omega)
    split at member
    · simp only [List.mem_cons, List.not_mem_nil, tail, two, or_false] at member
    · split at member <;>
        simp only [List.mem_cons, List.not_mem_nil, tail, three, four, or_false]
          at member

theorem notMem_encode
    {c : Char} {byte : UInt8} (ascii : byte.toNat < 128)
    (same : c.toNat = byte.toNat) {text : String} (absent : c ∉ text.toList) :
    byte ∉ encode text := by
  intro member
  obtain ⟨found, inText, inBytes⟩ := List.mem_flatMap.mp member
  have code := toNat_eq_of_mem_utf8EncodeChar ascii inBytes
  have equal : found = c := Char.toNat_inj.mp (code.trans same.symm)
  exact absent (equal ▸ inText)

/-! ## Reading a character -/

section Characters

variable {byte low high : UInt8}

theorem piecesFrom_cons (state : State) (rest : Bytes) :
    piecesFrom state (byte :: rest) =
      (state.step byte).1 ++ piecesFrom (state.step byte).2 rest := rfl

theorem step_last (value : Nat) (inside : low ≤ byte ∧ byte ≤ high) :
    State.step ⟨value, [(low, high)]⟩ byte =
      ([some (Char.ofNat (value * 64 + byte.toNat % 64))], .start) := by
  simp [State.step, inside]

theorem step_more
    (value : Nat) (inside : low ≤ byte ∧ byte ≤ high)
    (next : UInt8 × UInt8) (owed : List (UInt8 × UInt8)) :
    State.step ⟨value, (low, high) :: next :: owed⟩ byte =
      ([], ⟨value * 64 + byte.toNat % 64, next :: owed⟩) := by
  simp [State.step, inside]

theorem step_lead
    {value : Nat} {next : UInt8 × UInt8} {owed : List (UInt8 × UInt8)}
    (found : lead byte = some (value, next :: owed)) :
    State.start.step byte = ([], ⟨value, next :: owed⟩) := by
  simp [State.step, State.start, State.openWith, found]

end Characters

/-- The range of a continuation byte without further bounds. -/
def anyTail : UInt8 × UInt8 := (0x80, 0xBF)

/-- The continuation byte with the given six bits. -/
def tailByte (bits : Nat) : UInt8 := UInt8.ofNat (bits % 64 + 128)

theorem toNat_tailByte (bits : Nat) :
    (tailByte bits).toNat = bits % 64 + 128 :=
  toNat_ofNat (by omega)

theorem tailByte_inside
    {low high : UInt8} {bits : Nat}
    (above : low.toNat ≤ bits % 64 + 128) (below : bits % 64 + 128 ≤ high.toNat) :
    low ≤ tailByte bits ∧ tailByte bits ≤ high := by
  rw [UInt8.le_iff_toNat_le, UInt8.le_iff_toNat_le, toNat_tailByte]
  exact ⟨above, below⟩

theorem tailByte_inside_anyTail (bits : Nat) :
    (0x80 : UInt8) ≤ tailByte bits ∧ tailByte bits ≤ (0xBF : UInt8) := by
  apply tailByte_inside
  · exact Nat.le_add_left 128 _
  · change bits % 64 + 128 ≤ 191
    omega

/-! ## Lead bytes -/

theorem lead_two
    (bits : Nat) (above : 2 ≤ bits) (below : bits < 32) :
    lead (UInt8.ofNat (bits + 192)) = some (bits, [anyTail]) := by
  have code := toNat_ofNat (n := bits + 192) (by omega)
  have value : (bits + 192) % 32 = bits := by omega
  simp only [lead, code]
  rw [if_neg (by omega), if_neg (by omega), if_pos (by omega), value]
  rfl

theorem lead_three
    (bits second : Nat) (below : bits < 16)
    (overlong : bits = 0 → 32 ≤ second % 64)
    (surrogate : bits = 13 → second % 64 < 32) :
    ∃ low high, lead (UInt8.ofNat (bits + 224)) = some (bits, [(low, high), anyTail]) ∧
      low ≤ tailByte second ∧ tailByte second ≤ high := by
  have code := toNat_ofNat (n := bits + 224) (by omega)
  have value : (bits + 224) % 16 = bits := by omega
  simp only [lead, code]
  rw [if_neg (by omega), if_neg (by omega), if_neg (by omega), value]
  by_cases zero : bits = 0
  · rw [if_pos (by omega), zero]
    refine ⟨0xA0, 0xBF, rfl, tailByte_inside ?_ ?_⟩
    · have bound := overlong zero
      change 160 ≤ second % 64 + 128
      omega
    · change second % 64 + 128 ≤ 191
      omega
  · rw [if_neg (by omega)]
    by_cases thirteen : bits = 13
    · rw [if_pos (by omega)]
      refine ⟨0x80, 0x9F, rfl, tailByte_inside ?_ ?_⟩
      · exact Nat.le_add_left 128 _
      · have bound := surrogate thirteen
        change second % 64 + 128 ≤ 159
        omega
    · rw [if_neg (by omega), if_pos (by omega)]
      exact ⟨0x80, 0xBF, rfl, tailByte_inside_anyTail second⟩

theorem lead_four
    (bits second : Nat) (below : bits < 5)
    (overlong : bits = 0 → 16 ≤ second % 64)
    (beyond : bits = 4 → second % 64 < 16) :
    ∃ low high,
      lead (UInt8.ofNat (bits + 240)) = some (bits, [(low, high), anyTail, anyTail]) ∧
        low ≤ tailByte second ∧ tailByte second ≤ high := by
  have code := toNat_ofNat (n := bits + 240) (by omega)
  have value : (bits + 240) % 8 = bits := by omega
  simp only [lead, code]
  rw [if_neg (by omega), if_neg (by omega), if_neg (by omega), if_neg (by omega),
    if_neg (by omega), if_neg (by omega), value]
  by_cases zero : bits = 0
  · rw [if_pos (by omega), zero]
    refine ⟨0x90, 0xBF, rfl, tailByte_inside ?_ ?_⟩
    · have bound := overlong zero
      change 144 ≤ second % 64 + 128
      omega
    · change second % 64 + 128 ≤ 191
      omega
  · rw [if_neg (by omega)]
    by_cases four : bits = 4
    · rw [if_neg (by omega), if_pos (by omega), four]
      refine ⟨0x80, 0x8F, rfl, tailByte_inside ?_ ?_⟩
      · exact Nat.le_add_left 128 _
      · have bound := beyond four
        change second % 64 + 128 ≤ 143
        omega
    · rw [if_pos (by omega)]
      exact ⟨0x80, 0xBF, rfl, tailByte_inside_anyTail second⟩

/-! ## Reading a text -/

section Codes

variable {v : Nat}

theorem piecesFrom_one (below : v ≤ 0x7f) (rest : Bytes) :
    piecesFrom .start (UInt8.ofNat v :: rest) =
      some (Char.ofNat v) :: piecesFrom .start rest := by
  have plain := toNat_ofNat (n := v) (by omega)
  have found : lead (UInt8.ofNat v) = some (v, []) := by
    simp only [lead, plain]
    exact if_pos (by omega)
  rw [piecesFrom_cons]
  simp [State.step, State.start, State.openWith, found]

theorem piecesFrom_two (above : 0x7f < v) (below : v ≤ 0x7ff) (rest : Bytes) :
    piecesFrom .start (UInt8.ofNat (v / 64 + 192) :: tailByte v :: rest) =
      some (Char.ofNat v) :: piecesFrom .start rest := by
  have total : v / 64 * 64 + (v % 64 + 128) % 64 = v := by omega
  have first := step_lead (lead_two (v / 64) (by omega) (by omega))
  have last := step_last (v / 64) (tailByte_inside_anyTail v)
  rw [toNat_tailByte, total] at last
  rw [piecesFrom_cons, first, piecesFrom_cons, anyTail, last]
  rfl

theorem piecesFrom_three
    (above : 0x7ff < v) (below : v ≤ 0xffff) (scalar : v < 0xD800 ∨ 0xDFFF < v)
    (rest : Bytes) :
    piecesFrom .start
        (UInt8.ofNat (v / 4096 + 224) :: tailByte (v / 64) :: tailByte v :: rest) =
      some (Char.ofNat v) :: piecesFrom .start rest := by
  have total :
      (v / 4096 * 64 + (v / 64 % 64 + 128) % 64) * 64 + (v % 64 + 128) % 64 = v := by
    omega
  obtain ⟨low, high, found, inside⟩ :=
    lead_three (v / 4096) (v / 64) (by omega) (by omega) (by omega)
  have last :=
    step_last (v / 4096 * 64 + (tailByte (v / 64)).toNat % 64)
      (tailByte_inside_anyTail v)
  rw [toNat_tailByte, toNat_tailByte, total] at last
  rw [piecesFrom_cons, step_lead found, piecesFrom_cons, step_more _ inside,
    piecesFrom_cons, anyTail, toNat_tailByte, last]
  rfl

theorem piecesFrom_four
    (above : 0xffff < v) (below : v < 0x110000) (rest : Bytes) :
    piecesFrom .start
        (UInt8.ofNat (v / 262144 + 240) ::
          tailByte (v / 4096) :: tailByte (v / 64) :: tailByte v :: rest) =
      some (Char.ofNat v) :: piecesFrom .start rest := by
  have total :
      ((v / 262144 * 64 + (v / 4096 % 64 + 128) % 64) * 64 +
        (v / 64 % 64 + 128) % 64) * 64 + (v % 64 + 128) % 64 = v := by
    omega
  obtain ⟨low, high, found, inside⟩ :=
    lead_four (v / 262144) (v / 4096) (by omega) (by omega) (by omega)
  have third :=
    step_more (v / 262144 * 64 + (tailByte (v / 4096)).toNat % 64)
      (tailByte_inside_anyTail (v / 64)) anyTail []
  have last :=
    step_last
      ((v / 262144 * 64 + (tailByte (v / 4096)).toNat % 64) * 64 +
        (tailByte (v / 64)).toNat % 64)
      (tailByte_inside_anyTail v)
  rw [toNat_tailByte, toNat_tailByte, toNat_tailByte, total] at last
  rw [toNat_tailByte, toNat_tailByte] at third
  rw [piecesFrom_cons, step_lead found, piecesFrom_cons, step_more _ inside,
    piecesFrom_cons, toNat_tailByte]
  change [] ++ ([] ++ ((State.step ⟨_, (0x80, 0xBF) :: anyTail :: []⟩ _).1 ++
    piecesFrom (State.step ⟨_, (0x80, 0xBF) :: anyTail :: []⟩ _).2 _)) = _
  rw [third, piecesFrom_cons, anyTail, last]
  rfl

end Codes

/-- A written character reads back as that character. -/
theorem piecesFrom_utf8EncodeChar (c : Char) (rest : Bytes) :
    piecesFrom .start (String.utf8EncodeChar c ++ rest) =
      some c :: piecesFrom .start rest := by
  have spelled : Char.ofNat c.val.toNat = c := Char.ofNat_toNat c
  have valid : c.val.toNat < 0xD800 ∨ 0xDFFF < c.val.toNat ∧ c.val.toNat < 0x110000 :=
    c.valid
  generalize code : c.val.toNat = v at spelled valid
  rw [String.utf8EncodeChar]
  simp only [code]
  by_cases one : v ≤ 0x7f
  · rw [if_pos one, ← spelled]
    exact piecesFrom_one one rest
  rw [if_neg one]
  by_cases two : v ≤ 0x7ff
  · have bits : v / 64 % 32 = v / 64 := by omega
    rw [if_pos two, bits, ← spelled]
    exact piecesFrom_two (by omega) two rest
  rw [if_neg two]
  by_cases three : v ≤ 0xffff
  · have bits : v / 4096 % 16 = v / 4096 := by omega
    rw [if_pos three, bits, ← spelled]
    exact piecesFrom_three (by omega) three (by omega) rest
  · have bits : v / 262144 % 8 = v / 262144 := by omega
    rw [if_neg three, bits, ← spelled]
    exact piecesFrom_four (by omega) (by omega) rest

theorem pieces_encode (text : String) :
    pieces (encode text) = text.toList.map some := by
  unfold pieces encode
  induction text.toList with
  | nil => rfl
  | cons c rest inductionHypothesis =>
      rw [List.flatMap_cons, piecesFrom_utf8EncodeChar, inductionHypothesis,
        List.map_cons]

/-- The bytes of a text spell that text. -/
theorem decode?_encode (text : String) : decode? (encode text) = some text := by
  have whole : (text.toList.map some).mapM id = some text.toList := by
    induction text.toList with
    | nil => rfl
    | cons c rest inductionHypothesis =>
        simp [inductionHypothesis]
  rw [decode?, pieces_encode, whole, Option.map_some, String.ofList_toList]

theorem decodeLossy_encode (text : String) : decodeLossy (encode text) = text := by
  have whole : (text.toList.map some).map (·.getD '\uFFFD') = text.toList := by
    rw [List.map_map]
    exact List.map_id text.toList
  rw [decodeLossy, pieces_encode, whole, String.ofList_toList]

end ReviewDiff.Utf8
