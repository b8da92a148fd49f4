import ReviewDiff.Glob

/-!
# Patterns that fit one name

A text stands for itself as a pattern if it is no pattern at all or has no
character with a meaning of its own.  Any other pattern misses its own text or
fits another name as well.

* `ofText?_eq_some` finds a pattern in every text.
* `ofText_accepts_of_unreadable` is about texts that are no patterns.
* `literal_iff` says which texts stand for themselves.
-/

namespace ReviewDiff.Glob

/-! ## Characters with a meaning -/

/-- The characters that a pattern gives a meaning of its own to. -/
def Special (c : Char) : Prop :=
  c = '?' ∨ c = '*' ∨ c = '['

instance (c : Char) : Decidable (Special c) :=
  inferInstanceAs (Decidable (_ ∨ _))

theorem readTokens?_cons_of_plain
    {c : Char} (plain : ¬ Special c) (previous : Option Char) (rest : List Char) :
    readTokens? previous (c :: rest) =
      (readTokens? (some c) rest).map (.char c :: ·) := by
  unfold Special at plain
  rw [not_or, not_or] at plain
  have notStar : ∀ more, c = '*' → rest = more → False := fun _ same _ => plain.2.1 same
  rw [readTokens?]
  · exact plain.1
  · exact plain.2.2
  · exact fun more => notStar ('*' :: '/' :: more)
  · exact notStar ['*']
  · exact fun more => notStar ('*' :: more)
  · exact plain.2.1

theorem readTokens?_append_of_plain
    {front : List Char} (plain : ∀ c ∈ front, ¬ Special c) (previous : Option Char)
    (rest : List Char) :
    ∃ last, readTokens? previous (front ++ rest) =
      (readTokens? last rest).map (front.map .char ++ ·) := by
  induction front generalizing previous with
  | nil => exact ⟨previous, Option.map_id'.symm⟩
  | cons c front inductionHypothesis =>
      rw [List.forall_mem_cons] at plain
      obtain ⟨last, read⟩ := inductionHypothesis plain.2 (some c)
      refine ⟨last, ?_⟩
      rw [List.cons_append, readTokens?_cons_of_plain plain.1, read, Option.map_map]
      rfl

theorem readTokens?_of_plain
    {text : List Char} (plain : ∀ c ∈ text, ¬ Special c) (previous : Option Char) :
    readTokens? previous text = some (text.map .char) := by
  obtain ⟨last, read⟩ := readTokens?_append_of_plain plain previous []
  rw [List.append_nil, readTokens?, Option.map_some, List.append_nil] at read
  exact read

theorem readTokens?_bracket (previous : Option Char) (rest : List Char) :
    readTokens? previous ('[' :: rest) =
      match readList? rest with
      | some (token, after) => (readTokens? (some ']') after).map (token :: ·)
      | none => none := by
  rw [readTokens?]
  split
  · rename_i token after found
    simp only [found]
  · rename_i missing
    simp only [missing]

/-- A bracket that is not closed makes no pattern. -/
theorem readTokens?_of_open
    {front rest : List Char} (plain : ∀ c ∈ front, ¬ Special c)
    (isOpen : readList? rest = none) (previous : Option Char) :
    readTokens? previous (front ++ '[' :: rest) = none := by
  obtain ⟨last, read⟩ := readTokens?_append_of_plain plain previous ('[' :: rest)
  rw [read, readTokens?_bracket, isOpen]
  rfl

/-! ## Escaped texts -/

/-- How an escaped character is read. -/
def escapeToken (c : Char) : Token :=
  if c = '?' || c = '*' || c = '[' || c = ']' then .among [.one c] else .char c

theorem readList?_escaped {c : Char} (other : c ≠ '!') (rest : List Char) :
    readList? (c :: ']' :: rest) = some (.among [.one c], rest) := by
  have closes : Text.cutList? [']'] (']' :: rest) = some ([], rest) := rfl
  rw [readList?]
  · rw [closes]
    rfl
  · exact fun _ _ same _ => other same
  · exact fun same _ => other same

theorem readTokens?_escapeChar
    (c : Char) (previous : Option Char) (rest : List Char) :
    ∃ last, readTokens? previous (escapeChar c ++ rest) =
      (readTokens? last rest).map (escapeToken c :: ·) := by
  unfold escapeChar escapeToken
  split
  · rename_i escaped
    have other : c ≠ '!' := by
      rintro rfl
      exact absurd escaped (by decide)
    refine ⟨some ']', ?_⟩
    exact (readTokens?_bracket previous (c :: ']' :: rest)).trans
      (by rw [readList?_escaped other])
  · rename_i literal
    have plain : ¬ Special c := by
      rintro (rfl | rfl | rfl) <;> exact absurd literal (by decide)
    exact ⟨some c, readTokens?_cons_of_plain plain previous rest⟩

/-- An escaped text is a pattern. -/
theorem readTokens?_escape (text : List Char) (previous : Option Char) :
    readTokens? previous (text.flatMap escapeChar) = some (text.map escapeToken) := by
  induction text generalizing previous with
  | nil => rw [List.flatMap_nil, readTokens?]; rfl
  | cons c rest inductionHypothesis =>
      obtain ⟨last, read⟩ := readTokens?_escapeChar c previous (rest.flatMap escapeChar)
      rw [List.flatMap_cons, read, inductionHypothesis]
      rfl

/-! ## Names that tokens fit -/

/-- A token that stands for more or less than one character. -/
def Token.isWild : Token → Bool
  | .anyText | .anyDirectories => true
  | .char _ | .anyChar | .among _ | .notAmong _ => false

section Single

variable {token : Token} (single : token.isWild = false) (tokens : List Token)

include single

theorem fits_cons_cons (c : Char) (name : List Char) :
    fits (token :: tokens) (c :: name) = (token.accepts c && fits tokens name) := by
  cases token <;> first | rfl | exact Bool.noConfusion single

theorem fits_cons_nil : fits (token :: tokens) [] = false := by
  cases token <;> first | rfl | exact Bool.noConfusion single

end Single

theorem isWild_of_accepts
    {token : Token} {c : Char} (accepts : token.accepts c = true) :
    token.isWild = false := by
  cases token <;> first | rfl | exact Bool.noConfusion accepts

/-- Tokens that stand for one character each fit one name. -/
theorem fits_map_iff
    {letter : Char → Token} (sole : ∀ c d, (letter c).accepts d = true ↔ d = c)
    {text name : List Char} :
    fits (text.map letter) name = true ↔ name = text := by
  have single : ∀ c, (letter c).isWild = false := fun c =>
    isWild_of_accepts ((sole c c).mpr rfl)
  induction text generalizing name with
  | nil =>
      rw [List.map_nil, fits, List.isEmpty_iff]
  | cons c rest inductionHypothesis =>
      rw [List.map_cons]
      cases name with
      | nil =>
          rw [fits_cons_nil (single c)]
          exact iff_of_false Bool.false_ne_true (List.cons_ne_nil c rest).symm
      | cons d name =>
          rw [fits_cons_cons (single c), Bool.and_eq_true, sole, List.cons.injEq]
          exact and_congr_right fun _ => inductionHypothesis

theorem char_accepts_iff (c d : Char) :
    (Token.char c).accepts d = true ↔ d = c := by
  rw [Token.accepts, decide_eq_true_eq]

theorem escapeToken_accepts_iff (c d : Char) :
    (escapeToken c).accepts d = true ↔ d = c := by
  unfold escapeToken
  split
  · simp [Token.accepts, Range.has]
  · exact char_accepts_iff c d

/-! ## Texts as patterns -/

/-- The pattern in a text, if the text can be read as it is or escaped. -/
def Pattern.ofText? (text : String) : Option Pattern :=
  read? text <|> read? (escape text)

theorem read?_escape (text : String) :
    Pattern.read? (escape text) = some ⟨text.toList.map escapeToken⟩ := by
  rw [Pattern.read?, escape, String.toList_ofList, readTokens?_escape]
  rfl

theorem ofText_of_read?
    {text : String} {pattern : Pattern} (read : Pattern.read? text = some pattern) :
    Pattern.ofText text = pattern := by
  rw [Pattern.ofText, read]
  rfl

theorem ofText_of_unreadable
    {text : String} (unreadable : Pattern.read? text = none) :
    Pattern.ofText text = ⟨text.toList.map escapeToken⟩ := by
  rw [Pattern.ofText, unreadable, read?_escape]
  rfl

/-- There is a pattern in every text. -/
theorem ofText?_eq_some (text : String) :
    Pattern.ofText? text = some (Pattern.ofText text) := by
  unfold Pattern.ofText?
  cases read : Pattern.read? text with
  | some pattern =>
      rw [ofText_of_read? read]
      rfl
  | none =>
      rw [ofText_of_unreadable read, read?_escape]
      rfl

theorem mapM_ofText? (texts : List String) :
    texts.mapM Pattern.ofText? = some (texts.map Pattern.ofText) := by
  rw [funext ofText?_eq_some]
  exact List.mapM_pure

/-- An escaped text fits the text and nothing else. -/
theorem escaped_accepts_iff (text name : String) :
    (Pattern.mk (text.toList.map escapeToken)).accepts name = true ↔ name = text := by
  rw [Pattern.accepts, fits_map_iff escapeToken_accepts_iff, String.toList_inj]

/-- A text that is no pattern stands for itself. -/
theorem ofText_accepts_of_unreadable
    {text : String} (unreadable : Pattern.read? text = none) (name : String) :
    (Pattern.ofText text).accepts name = true ↔ name = text := by
  rw [ofText_of_unreadable unreadable, escaped_accepts_iff]

/-- A text without special characters stands for itself. -/
theorem ofText_accepts_of_plain
    {text : String} (plain : ∀ c ∈ text.toList, ¬ Special c) (name : String) :
    (Pattern.ofText text).accepts name = true ↔ name = text := by
  have read : Pattern.read? text = some ⟨text.toList.map .char⟩ := by
    rw [Pattern.read?, readTokens?_of_plain plain]
    rfl
  rw [ofText_of_read? read, Pattern.accepts, fits_map_iff char_accepts_iff, String.toList_inj]

/-! ## Lengths -/

/-- What a text is read as, with the lengths of its parts. -/
inductive Reading : List Char → List Token → Prop where
  | done : Reading [] []
  | plain {c : Char} {rest : List Char} {tokens : List Token} (notSpecial : ¬ Special c)
      (others : Reading rest tokens) :
      Reading (c :: rest) (.char c :: tokens)
  | anyChar {rest : List Char} {tokens : List Token} (others : Reading rest tokens) :
      Reading ('?' :: rest) (.anyChar :: tokens)
  | wild (stars : List Char) {rest : List Char} {token : Token} {tokens : List Token}
      (wild : token.isWild = true) (nonempty : 0 < stars.length)
      (others : Reading rest tokens) :
      Reading (stars ++ rest) (token :: tokens)
  | listed {text rest : List Char} {token : Token} {tokens : List Token}
      (brackets : rest.length + 2 ≤ text.length) (others : Reading rest tokens) :
      Reading text (token :: tokens)

theorem reading_of_readTokens?
    {previous : Option Char} {text : List Char} {tokens : List Token}
    (read : readTokens? previous text = some tokens) :
    Reading text tokens := by
  fun_induction readTokens? previous text generalizing tokens with
  | case1 =>
      cases read
      exact .done
  | case2 previous rest inductionHypothesis =>
      obtain ⟨others, inner, rfl⟩ := Option.map_eq_some_iff.mp read
      exact .anyChar (inductionHypothesis inner)
  | case3 previous rest token after found shorter inductionHypothesis =>
      obtain ⟨others, inner, rfl⟩ := Option.map_eq_some_iff.mp read
      exact .listed (Nat.succ_le_succ shorter) (inductionHypothesis inner)
  | case4 => cases read
  | case5 previous rest starts inductionHypothesis =>
      obtain ⟨others, inner, rfl⟩ := Option.map_eq_some_iff.mp read
      exact .wild ['*', '*', '/'] rfl (by decide) (inductionHypothesis inner)
  | case6 => cases read
  | case7 =>
      cases read
      exact .wild ['*', '*'] rfl (by decide) .done
  | case8 => cases read
  | case9 => cases read
  | case10 previous rest _ _ _ inductionHypothesis =>
      obtain ⟨others, inner, rfl⟩ := Option.map_eq_some_iff.mp read
      exact .wild ['*'] rfl (by decide) (inductionHypothesis inner)
  | case11 previous c rest notAny notList _ _ _ notStar inductionHypothesis =>
      obtain ⟨others, inner, rfl⟩ := Option.map_eq_some_iff.mp read
      have notSpecial : ¬ Special c := by
        rintro (same | same | same)
        · exact notAny same
        · exact notStar same
        · exact notList same
      exact .plain notSpecial (inductionHypothesis inner)

theorem Reading.length_le
    {text : List Char} {tokens : List Token} (reading : Reading text tokens) :
    tokens.length ≤ text.length := by
  induction reading with
  | done => exact Nat.le_refl _
  | plain _ _ inductionHypothesis => exact Nat.succ_le_succ inductionHypothesis
  | anyChar _ inductionHypothesis => exact Nat.succ_le_succ inductionHypothesis
  | wild _ _ nonempty _ inductionHypothesis =>
      rw [List.length_append, List.length_cons]
      omega
  | listed brackets _ inductionHypothesis =>
      rw [List.length_cons]
      omega

/-- How a character outside of brackets is read that is no star. -/
def letterToken (c : Char) : Token :=
  if c = '?' then .anyChar else .char c

/-- Only a text without stars and brackets has a token for each character. -/
theorem Reading.eq_letters
    {text : List Char} {tokens : List Token} (reading : Reading text tokens)
    (single : ∀ token ∈ tokens, token.isWild = false) (long : text.length ≤ tokens.length) :
    tokens = text.map letterToken ∧ ∀ c ∈ text, Special c → c = '?' := by
  induction reading with
  | done => exact ⟨rfl, List.forall_mem_nil _⟩
  | @plain c rest tokens notSpecial _ inductionHypothesis =>
      rw [List.forall_mem_cons] at single
      obtain ⟨letters, rare⟩ := inductionHypothesis single.2 (Nat.le_of_succ_le_succ long)
      have read : letterToken c = .char c := if_neg fun same => notSpecial (.inl same)
      rw [List.map_cons, read, letters, List.forall_mem_cons]
      exact ⟨rfl, fun special => absurd special notSpecial, rare⟩
  | anyChar _ inductionHypothesis =>
      rw [List.forall_mem_cons] at single
      obtain ⟨letters, rare⟩ := inductionHypothesis single.2 (Nat.le_of_succ_le_succ long)
      rw [letters, List.forall_mem_cons]
      exact ⟨rfl, fun _ => rfl, rare⟩
  | wild _ isWild =>
      rw [List.forall_mem_cons, isWild] at single
      exact Bool.noConfusion single.1
  | listed brackets others =>
      have shorter := others.length_le
      rw [List.length_cons] at long
      omega

/-! ## Other names that tokens fit -/

theorem length_of_fits
    {tokens : List Token} (single : ∀ token ∈ tokens, token.isWild = false)
    {name : List Char} (fit : fits tokens name = true) :
    name.length = tokens.length := by
  induction tokens generalizing name with
  | nil =>
      rw [fits, List.isEmpty_iff] at fit
      rw [fit]
      rfl
  | cons token tokens inductionHypothesis =>
      rw [List.forall_mem_cons] at single
      cases name with
      | nil =>
          rw [fits_cons_nil single.1] at fit
          exact Bool.noConfusion fit
      | cons c name =>
          rw [fits_cons_cons single.1, Bool.and_eq_true] at fit
          exact congrArg (· + 1) (inductionHypothesis single.2 fit.2)

/-- A token that stands for any text or any directories takes a slash more. -/
theorem fits_slash
    {token : Token} (wild : token.isWild = true) {tokens : List Token} {name : List Char}
    (fit : fits (token :: tokens) name = true) :
    fits (token :: tokens) ('/' :: name) = true := by
  cases token with
  | char _ | anyChar | among _ | notAmong _ => exact Bool.noConfusion wild
  | anyText =>
      rw [fits] at fit ⊢
      rw [someEnding, fit, Bool.or_true]
  | anyDirectories =>
      rw [fits] at fit ⊢
      rw [someComponent]
      rw [Bool.or_eq_true, Bool.or_eq_true] at fit
      rcases fit with (fit | fit) | fit <;> simp [fit]

/-- A pattern with such a token fits longer names as well. -/
theorem exists_longer
    {tokens : List Token} (wild : ∃ token ∈ tokens, token.isWild = true) {name : List Char}
    (fit : fits tokens name = true) :
    ∃ longer, fits tokens longer = true ∧ longer.length = name.length + 1 := by
  induction tokens generalizing name with
  | nil =>
      obtain ⟨token, member, -⟩ := wild
      exact absurd member List.not_mem_nil
  | cons token tokens inductionHypothesis =>
      cases here : token.isWild with
      | true => exact ⟨'/' :: name, fits_slash here fit, rfl⟩
      | false =>
          have later : ∃ token ∈ tokens, token.isWild = true := by
            obtain ⟨found, member, isWild⟩ := wild
            rcases List.mem_cons.mp member with rfl | member
            · rw [here] at isWild
              exact Bool.noConfusion isWild
            · exact ⟨found, member, isWild⟩
          cases name with
          | nil =>
              rw [fits_cons_nil here] at fit
              exact Bool.noConfusion fit
          | cons c name =>
              rw [fits_cons_cons here, Bool.and_eq_true] at fit
              obtain ⟨longer, longerFits, length⟩ := inductionHypothesis later fit.2
              refine ⟨c :: longer, ?_, congrArg (· + 1) length⟩
              rw [fits_cons_cons here, Bool.and_eq_true]
              exact ⟨fit.1, longerFits⟩

theorem fits_letters (text : List Char) :
    fits (text.map letterToken) (text.map fun c => if c = '?' then 'x' else c) = true := by
  induction text with
  | nil => rfl
  | cons c rest inductionHypothesis =>
      rw [List.map_cons, List.map_cons]
      by_cases any : c = '?'
      · rw [letterToken, if_pos any, if_pos any, fits_cons_cons rfl, inductionHypothesis]
        rfl
      · rw [letterToken, if_neg any, if_neg any, fits_cons_cons rfl, inductionHypothesis,
          (char_accepts_iff c c).mpr rfl]
        rfl

/-- A text with special characters does not stand for itself alone. -/
theorem not_special_of_sole
    {text : List Char} {tokens : List Token} (reading : Reading text tokens)
    (sole : ∀ name, fits tokens name = true ↔ name = text) :
    ∀ c ∈ text, ¬ Special c := by
  have own : fits tokens text = true := (sole text).mpr rfl
  have single : ∀ token ∈ tokens, token.isWild = false := by
    intro token member
    cases wild : token.isWild with
    | false => rfl
    | true =>
        obtain ⟨longer, fit, length⟩ := exists_longer ⟨token, member, wild⟩ own
        rw [(sole longer).mp fit] at length
        omega
  obtain ⟨letters, rare⟩ :=
    reading.eq_letters single (Nat.le_of_eq (length_of_fits single own))
  intro c member special
  obtain rfl := rare c member special
  rw [letters] at sole
  have same := (sole _).mp (fits_letters text)
  rw [← same] at member
  obtain ⟨d, -, shape⟩ := List.mem_map.mp member
  by_cases any : d = '?'
  · rw [if_pos any] at shape
    exact absurd shape (by decide)
  · rw [if_neg any] at shape
    exact any shape

/-- A text stands for itself if it is no pattern or has no special character, and
only then. -/
theorem literal_iff {text : String} :
    (∀ name, (Pattern.ofText text).accepts name = true ↔ name = text) ↔
      Pattern.read? text = none ∨ ∀ c ∈ text.toList, ¬ Special c := by
  constructor
  · intro sole
    cases read : readTokens? none text.toList with
    | none => exact .inl (by rw [Pattern.read?, read]; rfl)
    | some tokens =>
        have pattern : Pattern.ofText text = ⟨tokens⟩ :=
          ofText_of_read? (by rw [Pattern.read?, read]; rfl)
        refine .inr (not_special_of_sole (reading_of_readTokens? read) fun name => ?_)
        have named := sole (String.ofList name)
        rw [pattern, Pattern.accepts, String.toList_ofList] at named
        rw [named, ← String.toList_inj, String.toList_ofList]
  · rintro (unreadable | plain)
    · exact ofText_accepts_of_unreadable unreadable
    · exact ofText_accepts_of_plain plain

end ReviewDiff.Glob
