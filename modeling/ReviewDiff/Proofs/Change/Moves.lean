import Mathlib.Data.List.Nodup
import ReviewDiff.Proofs.Change.Plan

/-!
# Halves of moves

The keeper of the files may name any target for a removed half: one that is
named twice, one that was not created, or none at all.  Of the removed halves
with the same target the first one is joined with it, so links share no ends.
Whenever a link is shown, both of its ends are still to be shown, and no file
is lost or shown twice.
-/

namespace ReviewDiff.Change

/-! ## Claims -/

section Claims

variable (serve : (q : Snapshots.interface.Request) → Snapshots.interface.Answer q)

/-- A removed half whose target is a created half. -/
structure Claims (source dest : FileChange) : Prop where
  removed : source.kind = .moveDelete
  created : dest.kind = .moveAdd
  target : serve (.moveTarget source.path) = Except.ok (some dest.path)

/-- The removed half of a link is the first of the changes that claims the
created half. -/
structure MoveLink.First (changes : List FileChange) (link : MoveLink) : Prop where
  destIn : link.dest ∈ changes
  claims : Claims serve link.source link.dest
  first :
    ∃ front back, changes = front ++ link.source :: back ∧
      ∀ earlier ∈ front, ¬ Claims serve earlier link.dest

/-- The link that a change claims. -/
def claim? (changes : List FileChange) (change : FileChange) : Option MoveLink :=
  if change.kind = .moveDelete then
    link? changes change (serve (.moveTarget change.path))
  else none

/-- The links that remain of all claims. -/
def claimed (changes : List FileChange) : List MoveLink :=
  firstClaims [] (changes.filterMap (claim? serve changes))

theorem result_findLinks (changes todo : List FileChange) :
    (findLinks changes todo).result serve = todo.filterMap (claim? serve changes) := by
  induction todo with
  | nil => rfl
  | cons change rest inductionHypothesis =>
      rw [findLinks, List.filterMap_cons, claim?]
      by_cases removed : change.kind = .moveDelete
      · have asked :
            (Snapshots.ask (.moveTarget change.path)).result serve =
              serve (.moveTarget change.path) :=
          rfl
        rw [if_pos removed, if_pos removed, Program.result_bind, Program.result_bind,
          Program.result_pure, asked, inductionHypothesis]
        cases link? changes change (serve (.moveTarget change.path)) <;> rfl
      · rw [if_neg removed, if_neg removed, inductionHypothesis]

theorem result_plan (changes : List FileChange) (detectMoves : Bool) :
    (plan changes detectMoves).result serve =
      arrange (if detectMoves then claimed serve changes else []) [] changes := by
  cases detectMoves with
  | true =>
      rw [plan, if_pos rfl, if_pos rfl, Program.result_bind, Program.result_pure,
        result_findLinks, claimed]
  | false =>
      rw [plan, if_neg Bool.false_ne_true, if_neg Bool.false_ne_true, Program.result_pure]

end Claims

section Distinct

variable {serve : (q : Snapshots.interface.Request) → Snapshots.interface.Answer q}
  {changes : List FileChange}

theorem find?_created
    (distinct : (changes.map FileChange.path).Nodup) {dest : FileChange} {path : String} :
    (changes.find? fun change => change.kind = .moveAdd && change.path = path) =
        some dest ↔
      dest ∈ changes ∧ dest.kind = .moveAdd ∧ dest.path = path := by
  constructor
  · intro found
    have passes := List.find?_some found
    rw [Bool.and_eq_true, decide_eq_true_eq, decide_eq_true_eq] at passes
    exact ⟨List.mem_of_find?_eq_some found, passes⟩
  · rintro ⟨destIn, created, same⟩
    cases found :
        changes.find? fun change => change.kind = .moveAdd && change.path = path with
    | none =>
        have passes := List.find?_eq_none.mp found dest destIn
        simp [created, same] at passes
    | some other =>
        have passes := List.find?_some found
        rw [Bool.and_eq_true, decide_eq_true_eq, decide_eq_true_eq] at passes
        have otherIn := List.mem_of_find?_eq_some found
        rw [List.inj_on_of_nodup_map distinct otherIn destIn (passes.2.trans same.symm)]

theorem link?_eq_some_iff
    (distinct : (changes.map FileChange.path).Nodup)
    {source : FileChange} {target : Except Failure (Option String)} {link : MoveLink} :
    link? changes source target = some link ↔
      source = link.source ∧ link.dest ∈ changes ∧ link.dest.kind = .moveAdd ∧
        target = .ok (some link.dest.path) := by
  rcases target with failure | (_ | path)
  · simp [link?]
  · simp [link?]
  · rw [link?, Option.map_eq_some_iff]
    constructor
    · rintro ⟨dest, found, rfl⟩
      obtain ⟨destIn, created, rfl⟩ := (find?_created distinct).mp found
      exact ⟨rfl, destIn, created, rfl⟩
    · rintro ⟨rfl, destIn, created, same⟩
      have samePath := Option.some.inj (Except.ok.inj same)
      exact ⟨link.dest, (find?_created distinct).mpr ⟨destIn, created, samePath.symm⟩,
        rfl⟩

theorem claim?_eq_some_iff
    (distinct : (changes.map FileChange.path).Nodup)
    {change : FileChange} {link : MoveLink} :
    claim? serve changes change = some link ↔
      change = link.source ∧ link.dest ∈ changes ∧ Claims serve link.source link.dest := by
  rw [claim?]
  by_cases removed : change.kind = .moveDelete
  · rw [if_pos removed]
    refine (link?_eq_some_iff distinct).trans ?_
    constructor
    · rintro ⟨rfl, destIn, created, target⟩
      exact ⟨rfl, destIn, removed, created, target⟩
    · rintro ⟨rfl, destIn, claims⟩
      exact ⟨rfl, destIn, claims.created, claims.target⟩
  · rw [if_neg removed]
    constructor
    · nofun
    · rintro ⟨rfl, _, claims⟩
      exact absurd claims.removed removed

theorem any_claim?_iff
    (distinct : (changes.map FileChange.path).Nodup)
    {dest : FileChange} (destIn : dest ∈ changes) {change : FileChange} :
    ((claim? serve changes change).any (·.dest.path = dest.path)) = true ↔
      Claims serve change dest := by
  rw [Option.any_eq_true]
  constructor
  · rintro ⟨link, claimsLink, same⟩
    obtain ⟨rfl, linkIn, claims⟩ := (claim?_eq_some_iff distinct).mp claimsLink
    rwa [List.inj_on_of_nodup_map distinct linkIn destIn (of_decide_eq_true same)]
      at claims
  · intro claims
    exact ⟨⟨change, dest⟩, (claim?_eq_some_iff distinct).mpr ⟨rfl, destIn, claims⟩,
      decide_eq_true rfl⟩

theorem find?_claims_iff
    (distinct : (changes.map FileChange.path).Nodup)
    {source dest : FileChange} (destIn : dest ∈ changes) :
    (changes.find? fun change =>
        (claim? serve changes change).any (·.dest.path = dest.path)) = some source ↔
      Claims serve source dest ∧
        ∃ front back, changes = front ++ source :: back ∧
          ∀ earlier ∈ front, ¬ Claims serve earlier dest := by
  rw [List.find?_eq_some_iff_append, any_claim?_iff distinct destIn]
  simp only [Bool.not_eq_true', Bool.eq_false_iff, ne_eq, any_claim?_iff distinct destIn]

/-- Of the removed halves that claim a created one there is a first one. -/
theorem exists_first
    (distinct : (changes.map FileChange.path).Nodup)
    {source dest : FileChange} (sourceIn : source ∈ changes) (destIn : dest ∈ changes)
    (claims : Claims serve source dest) :
    ∃ link : MoveLink, link.First serve changes ∧ link.dest = dest := by
  cases found :
      changes.find? fun change =>
        (claim? serve changes change).any (·.dest.path = dest.path) with
  | none =>
      have fails := List.find?_eq_none.mp found source sourceIn
      exact absurd ((any_claim?_iff distinct destIn).mpr claims) fails
  | some first =>
      obtain ⟨firstClaims, isFirst⟩ := (find?_claims_iff distinct destIn).mp found
      exact ⟨⟨first, dest⟩, ⟨destIn, firstClaims, isFirst⟩, rfl⟩

/-- The first link to a target remains. -/
theorem mem_firstClaims_iff
    {taken : List String} {links : List MoveLink} {link : MoveLink} :
    link ∈ firstClaims taken links ↔
      link.dest.path ∉ taken ∧
        links.find? (·.dest.path = link.dest.path) = some link := by
  induction links generalizing taken with
  | nil => simp [firstClaims]
  | cons other rest inductionHypothesis =>
      by_cases same : other.dest.path = link.dest.path
      · have isFirst :
            (other :: rest).find? (·.dest.path = link.dest.path) = some other :=
          List.find?_cons_of_pos (decide_eq_true same)
        rw [isFirst, firstClaims, same]
        by_cases isTaken : link.dest.path ∈ taken
        · rw [if_pos isTaken, inductionHypothesis]
          exact iff_of_false (fun both => both.1 isTaken) (fun both => both.1 isTaken)
        · rw [if_neg isTaken, List.mem_cons, inductionHypothesis, Option.some_inj]
          constructor
          · rintro (rfl | ⟨free, _⟩)
            · exact ⟨isTaken, rfl⟩
            · exact absurd List.mem_cons_self free
          · rintro ⟨_, rfl⟩
            exact Or.inl rfl
      · have skipped :
            (other :: rest).find? (·.dest.path = link.dest.path) =
              rest.find? (·.dest.path = link.dest.path) :=
          List.find?_cons_of_neg (by simpa using same)
        rw [skipped, firstClaims]
        by_cases isTaken : other.dest.path ∈ taken
        · rw [if_pos isTaken, inductionHypothesis]
        · have different : link ≠ other := fun equal => same (by rw [equal])
          rw [if_neg isTaken, List.mem_cons, inductionHypothesis, List.mem_cons, not_or]
          constructor
          · rintro (equal | ⟨⟨_, free⟩, found⟩)
            · exact absurd equal different
            · exact ⟨free, found⟩
          · rintro ⟨free, found⟩
            exact Or.inr ⟨⟨Ne.symm same, free⟩, found⟩

theorem mem_claimed_iff
    (distinct : (changes.map FileChange.path).Nodup) {link : MoveLink} :
    link ∈ claimed serve changes ↔ link.First serve changes := by
  rw [claimed, mem_firstClaims_iff, List.find?_filterMap, Option.bind_eq_some_iff]
  constructor
  · rintro ⟨_, change, found, claimsLink⟩
    obtain ⟨rfl, destIn, _⟩ := (claim?_eq_some_iff distinct).mp claimsLink
    obtain ⟨claims, isFirst⟩ := (find?_claims_iff distinct destIn).mp found
    exact ⟨destIn, claims, isFirst⟩
  · rintro ⟨destIn, claims, isFirst⟩
    exact ⟨List.not_mem_nil, link.source,
      (find?_claims_iff distinct destIn).mpr ⟨claims, isFirst⟩,
      (claim?_eq_some_iff distinct).mpr ⟨rfl, destIn, claims⟩⟩

end Distinct

/-! ## Links that share no ends -/

/-- One end of the link has the path. -/
def MoveLink.Touches (link : MoveLink) (path : String) : Prop :=
  link.source.path = path ∨ link.dest.path = path

instance (link : MoveLink) (path : String) : Decidable (link.Touches path) :=
  inferInstanceAs (Decidable (_ ∨ _))

/-- Links between changes, each with two ends, of which no two have an end in
common. -/
structure Matching (changes : List FileChange) (links : List MoveLink) : Prop where
  among : ∀ link ∈ links, link.Among changes
  apart : ∀ link ∈ links, link.source.path ≠ link.dest.path
  disjoint :
    ∀ link ∈ links, ∀ other ∈ links, ∀ path,
      link.Touches path → other.Touches path → link = other

theorem matching_nil (changes : List FileChange) : Matching changes [] :=
  ⟨List.forall_mem_nil _, List.forall_mem_nil _, List.forall_mem_nil _⟩

theorem MoveLink.First.among
    {serve : (q : Snapshots.interface.Request) → Snapshots.interface.Answer q}
    {changes : List FileChange}
    {link : MoveLink} (first : link.First serve changes) : link.Among changes := by
  obtain ⟨destIn, _, front, back, shape, _⟩ := first
  refine ⟨?_, destIn⟩
  rw [shape, List.mem_append]
  exact Or.inr List.mem_cons_self

/-- The claims that remain are a matching. -/
theorem matching_claimed
    (serve : (q : Snapshots.interface.Request) → Snapshots.interface.Answer q)
    {changes : List FileChange}
    (distinct : (changes.map FileChange.path).Nodup) :
    Matching changes (claimed serve changes) := by
  have first : ∀ link ∈ claimed serve changes, link.First serve changes :=
    fun link member => (mem_claimed_iff distinct).mp member
  have crossing :
      ∀ link ∈ claimed serve changes, ∀ other ∈ claimed serve changes,
        link.source.path ≠ other.dest.path := by
    intro link member other otherMember same
    have sourceIn := (first link member).among.1
    have kinds := (first link member).claims.removed
    rw [List.inj_on_of_nodup_map distinct sourceIn (first other otherMember).destIn same,
      (first other otherMember).claims.created] at kinds
    cases kinds
  have sameDest :
      ∀ link ∈ claimed serve changes, ∀ other ∈ claimed serve changes,
        link.dest.path = other.dest.path → link = other := by
    intro link member other otherMember same
    have found := (mem_firstClaims_iff.mp member).2
    rw [same, (mem_firstClaims_iff.mp otherMember).2] at found
    exact (Option.some.inj found).symm
  refine ⟨fun link member => (first link member).among,
    fun link member => crossing link member link member, ?_⟩
  rintro link member other otherMember path (rfl | rfl) (same | same)
  · have target := (first link member).claims.target
    rw [← same, (first other otherMember).claims.target] at target
    apply sameDest link member other otherMember
    exact (Option.some.inj (Except.ok.inj target)).symm
  · exact absurd same.symm (crossing link member other otherMember)
  · exact absurd same (crossing other otherMember link member)
  · exact sameDest link member other otherMember same.symm

/-! ## Arranging along a matching -/

/-- A change that is still to be shown. -/
def Pending (shown : List String) (todo : List FileChange) (change : FileChange) : Prop :=
  change ∈ todo ∧ change.path ∉ shown

/-- Of every link both ends are still to be shown, or neither. -/
def Balanced (links : List MoveLink) (shown : List String) (todo : List FileChange) :
    Prop :=
  ∀ link ∈ links, Pending shown todo link.source ↔ Pending shown todo link.dest

section Pending

variable {shown : List String} {rest : List FileChange} {first change : FileChange}

theorem pending_cons_of_shown (isShown : first.path ∈ shown) :
    Pending shown (first :: rest) change ↔ Pending shown rest change := by
  rw [Pending, Pending, List.mem_cons, or_and_right]
  constructor
  · rintro (⟨rfl, free⟩ | later)
    · exact absurd isShown free
    · exact later
  · exact Or.inr

theorem pending_cons_of_ne (different : first.path ≠ change.path) :
    Pending shown (first :: rest) change ↔ Pending shown rest change := by
  have notFirst : change ≠ first := fun equal => different (by rw [equal])
  rw [Pending, Pending, List.mem_cons, or_iff_right notFirst]

/-- Showing a link leaves its ends out, and nothing else. -/
theorem pending_behind_link
    {link : MoveLink} (touches : link.Touches first.path) :
    Pending (link.source.path :: link.dest.path :: shown) rest change ↔
      Pending shown (first :: rest) change ∧ ¬ link.Touches change.path := by
  have ends :
      change.path ∉ link.source.path :: link.dest.path :: shown ↔
        change.path ∉ shown ∧ ¬ link.Touches change.path := by
    rw [List.mem_cons, List.mem_cons, MoveLink.Touches, not_or, not_or, not_or,
      eq_comm, @eq_comm _ change.path]
    constructor
    · rintro ⟨source, dest, free⟩
      exact ⟨free, source, dest⟩
    · rintro ⟨free, source, dest⟩
      exact ⟨source, dest, free⟩
  rw [Pending, ends, ← and_assoc, ← Pending]
  apply and_congr_left
  intro untouched
  have different : first.path ≠ change.path := fun equal => untouched (equal ▸ touches)
  exact (pending_cons_of_ne different).symm

end Pending

/-- What `arrange` makes of a change that is not shown yet. -/
theorem arrange_cons_cases
    (links : List MoveLink) {shown : List String} {change : FileChange}
    (free : change.path ∉ shown) (rest : List FileChange) :
    (∃ link ∈ links, link.Touches change.path ∧
        arrange links shown (change :: rest) =
          .move link :: arrange links (link.source.path :: link.dest.path :: shown) rest) ∨
      ((∀ link ∈ links, ¬ link.Touches change.path) ∧
        arrange links shown (change :: rest) =
          .single change :: arrange links shown rest) := by
  rw [arrange, if_neg free]
  cases found :
      links.find? fun link =>
        link.source.path = change.path || link.dest.path = change.path with
  | some link =>
      have touches := List.find?_some found
      rw [Bool.or_eq_true, decide_eq_true_eq, decide_eq_true_eq] at touches
      exact Or.inl ⟨link, List.mem_of_find?_eq_some found, touches, rfl⟩
  | none =>
      refine Or.inr ⟨?_, rfl⟩
      intro link member touches
      apply List.find?_eq_none.mp found link member
      rw [Bool.or_eq_true, decide_eq_true_eq, decide_eq_true_eq]
      exact touches

theorem balanced_all
    {changes : List FileChange} {links : List MoveLink} (matching : Matching changes links) :
    Balanced links [] changes := by
  intro link member
  obtain ⟨sourceIn, destIn⟩ := matching.among link member
  exact iff_of_true ⟨sourceIn, List.not_mem_nil⟩ ⟨destIn, List.not_mem_nil⟩

theorem balanced_behind_shown
    {links : List MoveLink} {shown : List String} {rest : List FileChange}
    {change : FileChange} (balanced : Balanced links shown (change :: rest))
    (isShown : change.path ∈ shown) :
    Balanced links shown rest := by
  intro link member
  calc
    Pending shown rest link.source ↔ Pending shown (change :: rest) link.source :=
      (pending_cons_of_shown isShown).symm
    _ ↔ Pending shown (change :: rest) link.dest := balanced link member
    _ ↔ Pending shown rest link.dest := pending_cons_of_shown isShown

theorem balanced_behind_single
    {links : List MoveLink} {shown : List String} {rest : List FileChange}
    {change : FileChange} (balanced : Balanced links shown (change :: rest))
    (untouched : ∀ link ∈ links, ¬ link.Touches change.path) :
    Balanced links shown rest := by
  intro link member
  have sourceApart : change.path ≠ link.source.path :=
    fun same => untouched link member (Or.inl same.symm)
  have destApart : change.path ≠ link.dest.path :=
    fun same => untouched link member (Or.inr same.symm)
  calc
    Pending shown rest link.source ↔ Pending shown (change :: rest) link.source :=
      (pending_cons_of_ne sourceApart).symm
    _ ↔ Pending shown (change :: rest) link.dest := balanced link member
    _ ↔ Pending shown rest link.dest := pending_cons_of_ne destApart

theorem balanced_behind_link
    {changes : List FileChange} {links : List MoveLink} (matching : Matching changes links)
    {shown : List String} {rest : List FileChange} {change : FileChange}
    (balanced : Balanced links shown (change :: rest))
    {link : MoveLink} (member : link ∈ links) (touches : link.Touches change.path) :
    Balanced links (link.source.path :: link.dest.path :: shown) rest := by
  intro other otherMember
  have common :
      ∀ path, other.Touches path → (link.Touches path ↔ other = link) := by
    intro path otherTouches
    constructor
    · intro linkTouches
      exact matching.disjoint other otherMember link member path otherTouches linkTouches
    · rintro rfl
      exact otherTouches
  rw [pending_behind_link touches, pending_behind_link touches,
    common other.source.path (Or.inl rfl), common other.dest.path (Or.inr rfl),
    balanced other otherMember]

/-- The parts show every pending change once, and nothing else. -/
structure Shows (shown : List String) (todo : List FileChange) (parts : List Part) :
    Prop where
  once : (parts.flatMap Part.changes).Nodup
  mem_iff :
    ∀ change, change ∈ parts.flatMap Part.changes ↔ Pending shown todo change

section Steps

variable {shown : List String} {first : FileChange} {rest : List FileChange}
  {parts : List Part}

theorem Shows.behind_shown
    (shows : Shows shown rest parts) (isShown : first.path ∈ shown) :
    Shows shown (first :: rest) parts := by
  refine ⟨shows.once, ?_⟩
  intro change
  rw [shows.mem_iff, pending_cons_of_shown isShown]

theorem Shows.cons_single
    (shows : Shows shown rest parts) (free : first.path ∉ shown) (new : first ∉ rest) :
    Shows shown (first :: rest) (.single first :: parts) := by
  constructor
  · rw [List.flatMap_cons, Part.changes, List.singleton_append, List.nodup_cons,
      shows.mem_iff]
    exact ⟨fun again => new again.1, shows.once⟩
  · intro change
    rw [List.flatMap_cons, Part.changes, List.singleton_append, List.mem_cons,
      shows.mem_iff]
    constructor
    · rintro (rfl | ⟨later, stillFree⟩)
      · exact ⟨List.mem_cons_self, free⟩
      · exact ⟨List.mem_cons_of_mem first later, stillFree⟩
    · rintro ⟨inTodo, stillFree⟩
      rcases List.mem_cons.mp inTodo with same | later
      · exact Or.inl same
      · exact Or.inr ⟨later, stillFree⟩

/-- A link is shown when both of its ends are pending. -/
theorem Shows.cons_move
    {link : MoveLink}
    (shows : Shows (link.source.path :: link.dest.path :: shown) rest parts)
    (touches : link.Touches first.path) (apart : link.source.path ≠ link.dest.path)
    (sourcePending : Pending shown (first :: rest) link.source)
    (destPending : Pending shown (first :: rest) link.dest)
    (ends :
      ∀ change ∈ first :: rest, link.Touches change.path →
        change = link.source ∨ change = link.dest) :
    Shows shown (first :: rest) (.move link :: parts) := by
  have mem_iff :
      ∀ change, change ∈ parts.flatMap Part.changes ↔
        Pending shown (first :: rest) change ∧ ¬ link.Touches change.path := by
    intro change
    rw [shows.mem_iff, pending_behind_link touches]
  constructor
  · rw [List.flatMap_cons, Part.changes, List.cons_append, List.singleton_append,
      List.nodup_cons, List.nodup_cons, List.mem_cons, mem_iff, mem_iff, not_or]
    refine ⟨⟨?_, ?_⟩, ?_, shows.once⟩
    · exact fun same => apart (congrArg FileChange.path same)
    · exact fun later => later.2 (Or.inl rfl)
    · exact fun later => later.2 (Or.inr rfl)
  · intro change
    rw [List.flatMap_cons, Part.changes, List.mem_append, List.mem_pair, mem_iff]
    constructor
    · rintro ((rfl | rfl) | ⟨pending, _⟩)
      · exact sourcePending
      · exact destPending
      · exact pending
    · intro pending
      by_cases touched : link.Touches change.path
      · exact Or.inl (ends change pending.1 touched)
      · exact Or.inr ⟨pending, touched⟩

end Steps

/-- The position at which the first change of a part stands. -/
def Part.start (position : FileChange → Nat) : Part → Nat
  | .single change => position change
  | .move link => min (position link.source) (position link.dest)

section Start

variable {position : FileChange → Nat} {part : Part}

theorem Part.start_le
    {change : FileChange} (member : change ∈ part.changes) :
    part.start position ≤ position change := by
  cases part with
  | single only =>
      rw [List.mem_singleton.mp member]
      exact Nat.le_refl _
  | move link =>
      rcases List.mem_pair.mp member with rfl | rfl
      · exact Nat.min_le_left _ _
      · exact Nat.min_le_right _ _

theorem Part.lt_start
    {bound : Nat} (below : ∀ change ∈ part.changes, bound < position change) :
    bound < part.start position := by
  cases part with
  | single only => exact below only (List.mem_singleton_self only)
  | move link =>
      have sourceBelow := below link.source (List.mem_pair.mpr (Or.inl rfl))
      have destBelow := below link.dest (List.mem_pair.mpr (Or.inr rfl))
      exact Nat.lt_min.mpr ⟨sourceBelow, destBelow⟩

end Start

/-- A part that is a link, or a change without one. -/
def Part.Fits (links : List MoveLink) : Part → Prop
  | .single change => ∀ link ∈ links, ¬ link.Touches change.path
  | .move link => link ∈ links

theorem fits_of_mem_arrange
    (links : List MoveLink) (shown : List String) (todo : List FileChange) :
    ∀ part ∈ arrange links shown todo, part.Fits links := by
  induction todo generalizing shown with
  | nil => exact List.forall_mem_nil _
  | cons first rest inductionHypothesis =>
      by_cases isShown : first.path ∈ shown
      · rw [arrange, if_pos isShown]
        exact inductionHypothesis shown
      · rcases arrange_cons_cases links isShown rest with
          ⟨link, member, _, shape⟩ | ⟨untouched, shape⟩
        · rw [shape, List.forall_mem_cons]
          exact ⟨member, inductionHypothesis _⟩
        · rw [shape, List.forall_mem_cons]
          exact ⟨untouched, inductionHypothesis shown⟩

theorem arrange_without_links (todo : List FileChange) :
    arrange [] [] todo = todo.map .single := by
  induction todo with
  | nil => rfl
  | cons first rest inductionHypothesis =>
      rw [arrange, if_neg List.not_mem_nil, List.find?_nil, inductionHypothesis,
        List.map_cons]

section Arrange

variable {changes : List FileChange} (distinct : (changes.map FileChange.path).Nodup)
  {links : List MoveLink} (matching : Matching changes links)

include distinct matching

theorem eq_end_of_touches
    {link : MoveLink} (member : link ∈ links) {change : FileChange}
    (inChanges : change ∈ changes) (touches : link.Touches change.path) :
    change = link.source ∨ change = link.dest := by
  obtain ⟨sourceIn, destIn⟩ := matching.among link member
  rcases touches with same | same
  · exact Or.inl (List.inj_on_of_nodup_map distinct inChanges sourceIn same.symm)
  · exact Or.inr (List.inj_on_of_nodup_map distinct inChanges destIn same.symm)

/-- Every change that is to be shown is shown once. -/
theorem shows_arrange
    {shown : List String} {todo : List FileChange}
    (included : ∀ change ∈ todo, change ∈ changes) (once : todo.Nodup)
    (balanced : Balanced links shown todo) :
    Shows shown todo (arrange links shown todo) := by
  induction todo generalizing shown with
  | nil =>
      refine ⟨List.nodup_nil, ?_⟩
      intro change
      exact iff_of_false List.not_mem_nil fun pending => List.not_mem_nil pending.1
  | cons first rest inductionHypothesis =>
      have restIncluded := (List.forall_mem_cons.mp included).2
      rw [List.nodup_cons] at once
      by_cases isShown : first.path ∈ shown
      · rw [arrange, if_pos isShown]
        have restBalanced := balanced_behind_shown balanced isShown
        exact (inductionHypothesis restIncluded once.2 restBalanced).behind_shown isShown
      · rcases arrange_cons_cases links isShown rest with
          ⟨link, member, touches, shape⟩ | ⟨untouched, shape⟩
        · have restBalanced := balanced_behind_link matching balanced member touches
          have firstPending : Pending shown (first :: rest) first :=
            ⟨List.mem_cons_self, isShown⟩
          have ends :
              ∀ change ∈ first :: rest, link.Touches change.path →
                change = link.source ∨ change = link.dest :=
            fun change inTodo =>
              eq_end_of_touches distinct matching member (included change inTodo)
          have sourcePending : Pending shown (first :: rest) link.source := by
            rcases ends first List.mem_cons_self touches with same | same
            · rwa [← same]
            · rwa [balanced link member, ← same]
          have destPending := (balanced link member).mp sourcePending
          rw [shape]
          exact
            (inductionHypothesis restIncluded once.2 restBalanced).cons_move touches
              (matching.apart link member) sourcePending destPending ends
        · have restBalanced := balanced_behind_single balanced untouched
          rw [shape]
          exact
            (inductionHypothesis restIncluded once.2 restBalanced).cons_single isShown
              once.1

/-- Parts stand in the order of their first changes. -/
theorem pairwise_arrange
    {position : FileChange → Nat} {shown : List String} {todo : List FileChange}
    (included : ∀ change ∈ todo, change ∈ changes) (once : todo.Nodup)
    (balanced : Balanced links shown todo)
    (ordered : todo.Pairwise (position · < position ·)) :
    (arrange links shown todo).Pairwise (·.start position < ·.start position) := by
  induction todo generalizing shown with
  | nil => exact List.Pairwise.nil
  | cons first rest inductionHypothesis =>
      have restIncluded := (List.forall_mem_cons.mp included).2
      rw [List.nodup_cons] at once
      rw [List.pairwise_cons] at ordered
      have later :
          ∀ stillShown, Balanced links stillShown rest →
            ∀ head : Part, first ∈ head.changes →
              ∀ part ∈ arrange links stillShown rest,
                head.start position < part.start position := by
        intro stillShown restBalanced head shows part member
        apply Nat.lt_of_le_of_lt (Part.start_le shows)
        apply Part.lt_start
        intro change inPart
        have arranged :=
          shows_arrange distinct matching restIncluded once.2 restBalanced
        have pending :=
          (arranged.mem_iff change).mp (List.mem_flatMap.mpr ⟨part, member, inPart⟩)
        exact ordered.1 change pending.1
      by_cases isShown : first.path ∈ shown
      · rw [arrange, if_pos isShown]
        have restBalanced := balanced_behind_shown balanced isShown
        exact inductionHypothesis restIncluded once.2 restBalanced ordered.2
      · rcases arrange_cons_cases links isShown rest with
          ⟨link, member, touches, shape⟩ | ⟨untouched, shape⟩
        · have restBalanced := balanced_behind_link matching balanced member touches
          have isEnd :=
            eq_end_of_touches distinct matching member (included first List.mem_cons_self)
              touches
          rw [shape, List.pairwise_cons]
          exact ⟨later _ restBalanced (.move link) (List.mem_pair.mpr isEnd),
            inductionHypothesis restIncluded once.2 restBalanced ordered.2⟩
        · have restBalanced := balanced_behind_single balanced untouched
          rw [shape, List.pairwise_cons]
          exact ⟨later _ restBalanced (.single first) (List.mem_singleton_self first),
            inductionHypothesis restIncluded once.2 restBalanced ordered.2⟩

theorem shows_arrange_all : Shows [] changes (arrange links [] changes) :=
  shows_arrange distinct matching (fun _ member => member) (List.Nodup.of_map _ distinct)
    (balanced_all matching)

/-- Every change is in a part, which is a link of it or the change alone. -/
theorem exists_part
    {change : FileChange} (inChanges : change ∈ changes) :
    ∃ part ∈ arrange links [] changes, change ∈ part.changes ∧ part.Fits links := by
  have shows := shows_arrange_all distinct matching
  have arranged := (shows.mem_iff change).mpr ⟨inChanges, List.not_mem_nil⟩
  obtain ⟨part, member, inPart⟩ := List.mem_flatMap.mp arranged
  exact ⟨part, member, inPart, fits_of_mem_arrange links [] changes part member⟩

/-- The links of a matching are the moves that are shown. -/
theorem move_mem_arrange_iff {link : MoveLink} :
    .move link ∈ arrange links [] changes ↔ link ∈ links := by
  constructor
  · exact fits_of_mem_arrange links [] changes (.move link)
  · intro member
    obtain ⟨part, inParts, inPart, fits⟩ :=
      exists_part distinct matching (matching.among link member).1
    cases part with
    | single change =>
        rw [← List.mem_singleton.mp inPart] at fits
        exact absurd (Or.inl rfl) (fits link member)
    | move other =>
        have touches : other.Touches link.source.path := by
          rcases List.mem_pair.mp inPart with same | same
          · exact Or.inl (congrArg FileChange.path same.symm)
          · exact Or.inr (congrArg FileChange.path same.symm)
        rwa [matching.disjoint link member other fits link.source.path (Or.inl rfl) touches]

/-- What is no end of a link is shown alone. -/
theorem single_mem_arrange_iff
    {change : FileChange} (inChanges : change ∈ changes) :
    .single change ∈ arrange links [] changes ↔
      ∀ link ∈ links, change ≠ link.source ∧ change ≠ link.dest := by
  constructor
  · intro alone link member
    have untouched := fits_of_mem_arrange links [] changes (.single change) alone link member
    constructor
    · rintro rfl
      exact untouched (Or.inl rfl)
    · rintro rfl
      exact untouched (Or.inr rfl)
  · intro noEnd
    obtain ⟨part, inParts, inPart, fits⟩ := exists_part distinct matching inChanges
    cases part with
    | single other => rwa [List.mem_singleton.mp inPart]
    | move link =>
        rcases List.mem_pair.mp inPart with same | same
        · exact absurd same (noEnd link fits).1
        · exact absurd same (noEnd link fits).2

end Arrange

/-! ## Plans -/

theorem pairwise_idxOf {changes : List FileChange} (once : changes.Nodup) :
    changes.Pairwise (changes.idxOf · < changes.idxOf ·) := by
  rw [List.pairwise_iff_getElem]
  intro i j iBelow jBelow before
  rwa [once.idxOf_getElem i iBelow, once.idxOf_getElem j jBelow]

/-- A plan shows every change exactly once, in parts that are ordered by their
first changes.  The moves are the links in which a removed half is the first one
that claims its created half, every created half that is claimed is in a move,
and what is not in a move is shown alone. -/
theorem plan_partitions
    (serve : (q : Snapshots.interface.Request) → Snapshots.interface.Answer q)
    {changes : List FileChange} (distinct : (changes.map FileChange.path).Nodup)
    (detectMoves : Bool) :
    let parts := (plan changes detectMoves).result serve
    (parts.flatMap Part.changes).Perm changes ∧
      parts.Pairwise (·.start (changes.idxOf ·) < ·.start (changes.idxOf ·)) ∧
        (detectMoves = true →
          (∀ link, .move link ∈ parts ↔ link.First serve changes) ∧
            (∀ source ∈ changes, ∀ dest ∈ changes, Claims serve source dest →
              ∃ link, .move link ∈ parts ∧ link.dest = dest) ∧
              ∀ change ∈ changes,
                .single change ∈ parts ↔
                  ∀ link, .move link ∈ parts →
                    change ≠ link.source ∧ change ≠ link.dest) ∧
          (detectMoves = false → parts = changes.map .single) := by
  intro parts
  have once : changes.Nodup := List.Nodup.of_map _ distinct
  have shape :
      parts = arrange (if detectMoves then claimed serve changes else []) [] changes :=
    result_plan serve changes detectMoves
  have matching : Matching changes (if detectMoves then claimed serve changes else []) := by
    cases detectMoves with
    | true => exact matching_claimed serve distinct
    | false => exact matching_nil changes
  have shows := shows_arrange_all distinct matching
  rw [shape]
  refine ⟨?_, ?_, ?_, ?_⟩
  · rw [List.perm_ext_iff_of_nodup shows.once once]
    intro change
    rw [shows.mem_iff, Pending, and_iff_left List.not_mem_nil]
  · exact
      pairwise_arrange distinct matching (fun _ member => member) once
        (balanced_all matching) (pairwise_idxOf once)
  · rintro rfl
    rw [if_pos rfl] at matching ⊢
    have moves :
        ∀ link, .move link ∈ arrange (claimed serve changes) [] changes ↔
          link.First serve changes := by
      intro link
      rw [move_mem_arrange_iff distinct matching, mem_claimed_iff distinct]
    refine ⟨moves, ?_, ?_⟩
    · intro source sourceIn dest destIn claims
      obtain ⟨link, isFirst, same⟩ := exists_first distinct sourceIn destIn claims
      exact ⟨link, (moves link).mpr isFirst, same⟩
    · intro change inChanges
      simp only [move_mem_arrange_iff distinct matching]
      exact single_mem_arrange_iff distinct matching inChanges
  · rintro rfl
    rw [if_neg Bool.false_ne_true]
    exact arrange_without_links changes

/-- A created half, an edited file and four removed halves. -/
def crossedMoves : List FileChange :=
  [⟨"//d/new", .moveAdd, none, some (.numbered 1), 1⟩,
    ⟨"//d/edited", .edit, some 4, some (.numbered 5), 5⟩,
    ⟨"//d/first", .moveDelete, some 2, none, 3⟩,
    ⟨"//d/second", .moveDelete, some 6, none, 7⟩,
    ⟨"//d/outside", .moveDelete, some 1, none, 2⟩,
    ⟨"//d/lost", .moveDelete, some 8, none, 9⟩]

/-- Two of the removed halves moved to the same file, one to a file that is not
among the changes, and of one the target is not known. -/
def crossedTargets : (q : Snapshots.interface.Request) → Snapshots.interface.Answer q
  | .content .. => Except.ok []
  | .localPath _ => Except.ok none
  | .moveTarget path =>
      if path = "//d/first" ∨ path = "//d/second" then Except.ok (some "//d/new")
      else if path = "//d/outside" then Except.ok (some "//d/elsewhere")
      else Except.error (.notSetUp "p4")

/-- The created half goes with the first of the two that claim it. -/
theorem plan_crossedMoves :
    (crossedMoves.map FileChange.path).Nodup ∧
      (((plan crossedMoves true).result crossedTargets).flatMap Part.changes).Perm
          crossedMoves ∧
        .move ⟨crossedMoves[2], crossedMoves[0]⟩ ∈
          (plan crossedMoves true).result crossedTargets := by
  have distinct : (crossedMoves.map FileChange.path).Nodup := by decide
  obtain ⟨partition, _, detected, _⟩ := plan_partitions crossedTargets distinct true
  refine ⟨distinct, partition, ((detected rfl).1 _).mpr ?_⟩
  refine ⟨by decide, ⟨rfl, rfl, rfl⟩, crossedMoves.take 2, crossedMoves.drop 3, rfl, ?_⟩
  intro earlier inFront claims
  have kinds : ∀ change ∈ crossedMoves.take 2, change.kind ≠ .moveDelete := by decide
  exact kinds earlier inFront claims.removed

end ReviewDiff.Change
