import ReviewDiff.Change.Synthesis
import ReviewDiff.Proofs.Change.Plan
import ReviewDiff.Proofs.Patch.EmptyFile

/-!
# Headers survive from writer to reader

Every fragment but an empty one begins on a piece of its own, and only the
first piece of an empty-file fragment is a header.  A text diff whose last
line ends in a lone carriage return leaves that line open, and a header right
behind it is swallowed.  The main result is that this is the only way to lose
a header, and that nothing else is ever taken for one.
-/

namespace ReviewDiff.Change

open LineDiff Patch.EmptyFile

/-! ## Fragments -/

/-- The header that a fragment emits. -/
def Fragment.header? : Fragment → Option Header
  | .emptyFile header => some header
  | _ => none

theorem header?_eq_some {fragment : Fragment} {header : Header} :
    fragment.header? = some header ↔ fragment = .emptyFile header := by
  constructor
  · intro found
    cases fragment with
    | emptyFile given => rw [Option.some.inj found]
    | _ => cases found
  · rintro rfl
    rfl

/-- The last line that a difference shows. -/
def Difference.lastLine? : Difference → Option TaggedLine
  | .text diff => diff.hunks.getLast?.bind (·.lines.getLast?)
  | .binary _ _ => none

def Fragment.lastLine? : Fragment → Option TaggedLine
  | .changed difference => difference.lastLine?
  | .movedAndChanged _ _ difference => difference.lastLine?
  | _ => none

/-- Whether a line ends in a lone carriage return: it is written without a
line feed. -/
def endsOpen (line : Option TaggedLine) : Bool :=
  line.any (·.line.getLast? = some carriageReturn)

/-- Labels on one line, and hunks of two contents. -/
def Difference.Formed : Difference → Prop
  | .text diff =>
      SingleLine diff.oldLabel ∧ SingleLine diff.newLabel ∧
        ∃ old new, old ≠ new ∧ diff.hunks = hunks old new
  | .binary oldLabel newPath => SingleLine oldLabel ∧ SingleLine newPath

def Fragment.Formed : Fragment → Prop
  | .nothing => True
  | .emptyFile header => header.Formed
  | .moved source _ dest => DepotPath source ∧ SingleLine dest
  | .changed difference => difference.Formed
  | .movedAndChanged source dest difference =>
      SingleLine source ∧ SingleLine dest ∧ difference.Formed

theorem getLast?_patchLinesOf
    {found : List Hunk} (nonempty : found ≠ []) :
    ∃ last, (patchLinesOf found).getLast? = some last ∧
      (!decide last.Closed) =
        endsOpen (found.getLast?.bind (·.lines.getLast?)) := by
  obtain rfl | ⟨front, hunk, rfl⟩ := List.eq_nil_or_concat found
  · exact absurd rfl nonempty
  have ends : (patchLinesOf (front.concat hunk)).getLast? =
      some (((hunk.lines.map PatchLine.tagged).getLast?).getD
        (.opening (Utf8.encode hunk.header))) := by
    rw [patchLinesOf, List.concat_eq_append, List.map_append, List.flatMap_append,
      List.map_singleton, List.flatMap_singleton, PatchHunk.patchLines,
      List.getLast?_append, List.getLast?_cons, Option.some_or]
    rfl
  refine ⟨_, ends, ?_⟩
  rw [List.getLast?_map, List.concat_eq_append, List.getLast?_concat,
    Option.bind_some]
  cases hunk.lines.getLast? with
  | none => rfl
  | some tagged => exact decide_not.symm.trans (decide_eq_decide.mpr not_not)

/-! ## Pieces of fragments -/

theorem cutsAs_difference
    {difference : Difference} (formed : difference.Formed) :
    CutsAs difference.render none (endsOpen difference.lastLine?) := by
  cases difference with
  | text diff =>
      obtain ⟨oldSingle, newSingle, old, new, different, shown⟩ := formed
      have nonempty : diff.hunks ≠ [] := by
        rw [shown]
        exact fun none => different (hunks_eq_nil_iff.mp none)
      obtain ⟨last, ends, sameEnd⟩ := getLast?_patchLinesOf nonempty
      have wellFormed : ∀ line ∈ patchLinesOf diff.hunks, line.WellFormed := by
        rw [shown]
        exact fun line => wellFormed_of_mem_patchLines old new
      have body := cutsAs_writeLines wellFormed ends
      rw [sameEnd] at body
      rw [Difference.render, render_eq_lines]
      have oldLine : CutsAs (Utf8.encode ("--- " ++ diff.oldLabel) ++ [lineFeed]) none false :=
        cutsAs_textLine (by decide) oldSingle rfl (by decide)
      have newLine : CutsAs (Utf8.encode ("+++ " ++ diff.newLabel) ++ [lineFeed]) none false :=
        cutsAs_textLine (by decide) newSingle rfl (by decide)
      exact oldLine.append (newLine.append body)
  | binary oldLabel newPath =>
      obtain ⟨oldSingle, newSingle⟩ := formed
      have joins : SingleLine " and " := by decide
      have ends : SingleLine " differ" := by decide
      have shape :
          binaryMarker oldLabel newPath =
            "Binary files " ++ oldLabel ++ " and " ++ newPath ++ (" differ" ++ "\n") :=
        rfl
      have written :
          Utf8.encode (binaryMarker oldLabel newPath) =
            Utf8.encode ("Binary files " ++ (oldLabel ++ " and " ++ newPath ++ " differ")) ++
              [lineFeed] := by
        rw [← encode_line, shape]
        simp only [String.append_assoc]
      rw [Difference.render, written]
      exact cutsAs_textLine (by decide)
        (((oldSingle.append joins).append newSingle).append ends) rfl (by decide)

theorem cutsAs_movePreamble
    {source dest : String} (sourceSingle : SingleLine source)
    (destSingle : SingleLine dest) :
    CutsAs (Utf8.encode (movePreamble source dest)) none false := by
  have shape :
      movePreamble source dest =
        "Moved from: " ++ source ++ ("\n" ++ "Moved to: ") ++ dest ++ "\n" :=
    rfl
  have written :
      Utf8.encode (movePreamble source dest) =
        (Utf8.encode ("Moved from: " ++ source) ++ [lineFeed]) ++
          (Utf8.encode ("Moved to: " ++ dest) ++ [lineFeed]) := by
    rw [← encode_line, ← encode_line, ← Utf8.encode_append, shape]
    simp only [String.append_assoc]
  have sourceLine : CutsAs (Utf8.encode ("Moved from: " ++ source) ++ [lineFeed]) none false :=
    cutsAs_textLine (by decide) sourceSingle rfl (by decide)
  have destLine : CutsAs (Utf8.encode ("Moved to: " ++ dest) ++ [lineFeed]) none false :=
    cutsAs_textLine (by decide) destSingle rfl (by decide)
  rw [written]
  exact sourceLine.append destLine

theorem cutsAs_fragment
    {fragment : Fragment} (formed : fragment.Formed) (shown : fragment ≠ .nothing) :
    CutsAs fragment.render fragment.header? (endsOpen fragment.lastLine?) := by
  cases fragment with
  | nothing => exact absurd rfl shown
  | emptyFile header =>
      have marked : SingleLine header.operation.mark := by
        cases header.operation <;> decide
      have cuts :=
        cutsAs_specialHeader formed.depot.single marked formed.single header.revision
      rwa [readHeader?_headerLine formed] at cuts
  | moved source revision dest =>
      obtain ⟨depot, single⟩ := formed
      have marked : SingleLine movedMark := by decide
      have cuts := cutsAs_specialHeader depot.single marked single revision
      have noHeader :
          readHeader? (Utf8.encode (headerLine source revision movedMark dest)) = none :=
        readHeader?_of_mark depot revision (fun _ => rfl) dest
      rwa [noHeader] at cuts
  | changed difference => exact cutsAs_difference formed
  | movedAndChanged source dest difference =>
      obtain ⟨sourceSingle, destSingle, formed⟩ := formed
      exact (cutsAs_movePreamble sourceSingle destSingle).append (cutsAs_difference formed)

/-! ## Headers of a whole diff -/

/-- The headers that fragments emit. -/
def emittedHeaders (found : List Fragment) : List Header :=
  found.filterMap Fragment.header?

/-- The first thing written is an empty-file header. -/
def StartsWithHeader (found : List Fragment) : Prop :=
  ∃ skipped header after,
    found = skipped ++ .emptyFile header :: after ∧
      ∀ fragment ∈ skipped, fragment = .nothing

/-- An empty-file header is written right behind a line that ends in a lone
carriage return. -/
def HidesHeader (found : List Fragment) : Prop :=
  ∃ before fragment after,
    found = before ++ fragment :: after ∧
      endsOpen fragment.lastLine? = true ∧ StartsWithHeader after

theorem startsWithHeader_nothing (rest : List Fragment) :
    StartsWithHeader (.nothing :: rest) ↔ StartsWithHeader rest := by
  constructor
  · rintro ⟨skipped, header, after, shape, onlyNothing⟩
    cases skipped with
    | nil => cases (List.cons.inj shape).1
    | cons first others =>
        exact ⟨others, header, after, (List.cons.inj shape).2,
          (List.forall_mem_cons.mp onlyNothing).2⟩
  · rintro ⟨skipped, header, after, rfl, onlyNothing⟩
    exact ⟨.nothing :: skipped, header, after, rfl,
      List.forall_mem_cons.mpr ⟨rfl, onlyNothing⟩⟩

theorem startsWithHeader_cons
    {fragment : Fragment} (shown : fragment ≠ .nothing) (rest : List Fragment) :
    StartsWithHeader (fragment :: rest) ↔ ∃ header, fragment = .emptyFile header := by
  constructor
  · rintro ⟨skipped, header, after, shape, onlyNothing⟩
    cases skipped with
    | nil => exact ⟨header, (List.cons.inj shape).1⟩
    | cons first others =>
        have same : fragment = first := (List.cons.inj shape).1
        exact absurd (same.trans (onlyNothing first List.mem_cons_self)) shown
  · rintro ⟨header, rfl⟩
    exact ⟨[], header, rest, rfl, List.forall_mem_nil _⟩

theorem not_startsWithHeader_nil : ¬StartsWithHeader [] := by
  rintro ⟨skipped, header, after, shape, _⟩
  exact absurd shape.symm (List.append_ne_nil_of_right_ne_nil _ (List.cons_ne_nil _ _))

theorem not_hidesHeader_nil : ¬HidesHeader [] := by
  rintro ⟨before, fragment, after, shape, _⟩
  exact absurd shape.symm (List.append_ne_nil_of_right_ne_nil _ (List.cons_ne_nil _ _))

theorem hidesHeader_cons (fragment : Fragment) (rest : List Fragment) :
    HidesHeader (fragment :: rest) ↔
      HidesHeader rest ∨
        (endsOpen fragment.lastLine? = true ∧ StartsWithHeader rest) := by
  constructor
  · rintro ⟨before, opened, after, shape, isOpen, starts⟩
    cases before with
    | nil =>
        obtain ⟨rfl, rfl⟩ := List.cons.inj shape
        exact Or.inr ⟨isOpen, starts⟩
    | cons first others =>
        exact Or.inl ⟨others, opened, after, (List.cons.inj shape).2, isOpen, starts⟩
  · rintro (⟨before, opened, after, rfl, isOpen, starts⟩ | ⟨isOpen, starts⟩)
    · exact ⟨fragment :: before, opened, after, rfl, isOpen, starts⟩
    · exact ⟨[], fragment, rest, rfl, isOpen, starts⟩

/-- The pieces behind what was written so far: the line that was left open
takes the first one. -/
def piecesBehind (isOpen : Bool) (found : List Fragment) : List Bytes :=
  let pieces := cutLines (found.flatMap Fragment.render)
  if isOpen then pieces.tail else pieces

theorem emittedHeaders_cons (fragment : Fragment) (rest : List Fragment) :
    emittedHeaders (fragment :: rest) =
      fragment.header?.toList ++ emittedHeaders rest := by
  unfold emittedHeaders
  rw [List.filterMap_cons]
  cases fragment.header? <;> rfl

/-- Behind a line feed the header of a fragment is read; behind an open line
it is lost. -/
theorem filterMap_piecesBehind_cons
    {fragment : Fragment} (formed : fragment.Formed) (shown : fragment ≠ .nothing)
    (rest : List Fragment) (isOpen : Bool) :
    (piecesBehind isOpen (fragment :: rest)).filterMap readHeader? =
      (if isOpen then [] else fragment.header?.toList) ++
        (piecesBehind (endsOpen fragment.lastLine?) rest).filterMap readHeader? := by
  obtain ⟨first, pieces, cut, firstHeader, noHeader⟩ :=
    cutsAs_fragment formed shown (rest.flatMap Fragment.render)
  have skips : pieces.filterMap readHeader? = [] :=
    List.filterMap_eq_nil_iff.mpr noHeader
  cases isOpen with
  | false =>
      refine (congrArg (List.filterMap readHeader?) cut).trans ?_
      rw [List.filterMap_cons, List.filterMap_append, skips, firstHeader,
        List.nil_append]
      cases fragment.header? <;> rfl
  | true =>
      refine (congrArg (fun found => found.tail.filterMap readHeader?) cut).trans ?_
      rw [List.tail_cons, List.filterMap_append, skips]
      rfl

/-- Of the headers of some fragments only emitted ones are read, and all of them
only when none is hidden. -/
def ReadsEmitted (found : List Fragment) (isOpen : Bool) : Prop :=
  ((piecesBehind isOpen found).filterMap readHeader?).Sublist (emittedHeaders found) ∧
    ((piecesBehind isOpen found).filterMap readHeader? = emittedHeaders found ↔
      ¬(HidesHeader found ∨ (isOpen = true ∧ StartsWithHeader found)))

theorem readsEmitted_nil (isOpen : Bool) : ReadsEmitted [] isOpen := by
  have noPieces : piecesBehind isOpen [] = [] := by cases isOpen <;> rfl
  unfold ReadsEmitted
  rw [noPieces]
  refine ⟨List.Sublist.refl _, iff_of_true rfl ?_⟩
  rintro (hides | ⟨_, starts⟩)
  · exact not_hidesHeader_nil hides
  · exact not_startsWithHeader_nil starts

theorem readsEmitted_nothing
    {rest : List Fragment} {isOpen : Bool} (reads : ReadsEmitted rest isOpen) :
    ReadsEmitted (.nothing :: rest) isOpen := by
  have same : piecesBehind isOpen (.nothing :: rest) = piecesBehind isOpen rest := rfl
  have emitted : emittedHeaders (.nothing :: rest) = emittedHeaders rest := rfl
  have notOpen :
      ¬(endsOpen Fragment.nothing.lastLine? = true ∧ StartsWithHeader rest) :=
    fun both => Bool.false_ne_true both.1
  unfold ReadsEmitted
  rw [same, emitted, hidesHeader_cons, startsWithHeader_nothing, or_iff_left notOpen]
  exact reads

section Behind

variable {fragment : Fragment} {rest : List Fragment}
  (formed : fragment.Formed) (shown : fragment ≠ .nothing)
  (reads : ReadsEmitted rest (endsOpen fragment.lastLine?))

include formed shown reads

theorem readsEmitted_cons_closed : ReadsEmitted (fragment :: rest) false := by
  obtain ⟨among, exactly⟩ := reads
  have notOpen : ¬(false = true ∧ ∃ header, fragment = Fragment.emptyFile header) :=
    fun both => Bool.false_ne_true both.1
  unfold ReadsEmitted
  rw [filterMap_piecesBehind_cons formed shown, hidesHeader_cons,
    startsWithHeader_cons shown, emittedHeaders_cons, if_neg Bool.false_ne_true,
    List.append_right_inj, exactly, or_iff_left notOpen]
  exact ⟨among.append_left _, Iff.rfl⟩

theorem readsEmitted_cons_open : ReadsEmitted (fragment :: rest) true := by
  obtain ⟨among, exactly⟩ := reads
  unfold ReadsEmitted
  rw [filterMap_piecesBehind_cons formed shown, hidesHeader_cons,
    startsWithHeader_cons shown, emittedHeaders_cons, if_pos rfl, List.nil_append]
  cases found : fragment.header? with
  | none =>
      have noHeader : ¬∃ header, fragment = .emptyFile header := by
        rintro ⟨header, rfl⟩
        cases found
      rw [or_iff_left (fun both => noHeader both.2)]
      exact ⟨among, exactly⟩
  | some header =>
      have isHeader := header?_eq_some.mp found
      have fewer :
          ((piecesBehind (endsOpen fragment.lastLine?) rest).filterMap readHeader?).length <
            ((some header).toList ++ emittedHeaders rest).length := by
        rw [List.length_append]
        exact Nat.lt_of_le_of_lt among.length_le (Nat.lt_add_of_pos_left Nat.one_pos)
      refine ⟨among.trans (List.sublist_append_right _ _), iff_of_false ?_ ?_⟩
      · intro same
        rw [same] at fewer
        exact Nat.lt_irrefl _ fewer
      · exact fun none => none (Or.inr ⟨rfl, header, isHeader⟩)

end Behind

theorem readsEmitted
    {found : List Fragment} (formed : ∀ fragment ∈ found, fragment.Formed)
    (isOpen : Bool) :
    ReadsEmitted found isOpen := by
  induction found generalizing isOpen with
  | nil => exact readsEmitted_nil isOpen
  | cons fragment rest inductionHypothesis =>
      obtain ⟨fragmentFormed, restFormed⟩ := List.forall_mem_cons.mp formed
      by_cases nothing : fragment = .nothing
      · rw [nothing]
        exact readsEmitted_nothing (inductionHypothesis restFormed isOpen)
      · have reads := inductionHypothesis restFormed (endsOpen fragment.lastLine?)
        cases isOpen with
        | false => exact readsEmitted_cons_closed fragmentFormed nothing reads
        | true => exact readsEmitted_cons_open fragmentFormed nothing reads

/-- Only emitted headers are read, and all of them exactly when none is hidden. -/
theorem readHeaders_flatMap_render
    {found : List Fragment} (formed : ∀ fragment ∈ found, fragment.Formed) :
    (readHeaders (found.flatMap Fragment.render)).Sublist (emittedHeaders found) ∧
      (readHeaders (found.flatMap Fragment.render) = emittedHeaders found ↔
        ¬HidesHeader found) := by
  obtain ⟨among, exactly⟩ := readsEmitted formed false
  rw [or_iff_left (fun both => Bool.false_ne_true both.1)] at exactly
  rw [readHeaders_eq]
  exact ⟨among, exactly⟩

/-! ## Fragments of a run -/

/-- What is assumed of a record: a path that a depot can hold, and a revision
of 64 bits. -/
structure ChangedFile.Formed (record : ChangedFile) : Prop where
  depot : DepotPath record.path
  bound : record.revision ≤ Text.max64

structure FileChange.Formed (change : FileChange) : Prop where
  depot : DepotPath change.path
  bound : change.revision ≤ Text.max64
  oldBound : ∀ revision, change.old = some revision → revision ≤ Text.max64

/-- What is assumed of answers: a name in the working copy is nonempty and on
one line. -/
def NamesFormed : (q : Snapshots.Request) → q.Answer → Prop
  | .localPath _ => fun answer =>
      ∀ name, answer = .ok (some name) → name ≠ "" ∧ SingleLine name
  | .content _ _ => fun _ => True
  | .moveTarget _ => fun _ => True

section Runs

variable {stamp : String} (stampSingle : SingleLine stamp)

theorem oldSide_le {inFlight : Bool} {record : ChangedFile} {revision : Nat}
    (found : record.oldSide inFlight = some revision) :
    revision ≤ record.revision := by
  unfold ChangedFile.oldSide at found
  dsimp only at found
  have atMost :
      (if inFlight then record.revision else record.revision - 1) ≤ record.revision := by
    split <;> omega
  generalize (if inFlight then record.revision else record.revision - 1) = candidate
    at found atMost
  split at found
  · rw [← Option.some.inj found]
    exact atMost
  · cases found

theorem formed_of_mem_collapse
    {records : List ChangedFile} (formed : ∀ record ∈ records, record.Formed)
    {inFlight : Bool} {change : FileChange}
    (member : change ∈ collapse inFlight records) :
    change.Formed := by
  obtain ⟨first, firstIn, last, lastIn, path, old, _, revision⟩ :=
    exists_records_of_mem_collapse member
  refine ⟨?_, ?_, ?_⟩
  · rw [path]
    exact (formed first firstIn).depot
  · rw [revision]
    exact (formed last lastIn).bound
  · intro number found
    rw [old] at found
    exact Nat.le_trans (oldSide_le found) (formed first firstIn).bound

theorem singleLine_revisionLabel
    {path : String} (single : SingleLine path) (revision : Nat) :
    SingleLine (revisionLabel path revision) := by
  have hash : SingleLine "#" := by decide
  exact (single.append hash).append (singleLine_toString revision)

include stampSingle

theorem formed_difference
    {oldPath oldLabel newPath : String} (oldSingle : SingleLine oldPath)
    (labelSingle : SingleLine oldLabel) (newSingle : SingleLine newPath)
    {old new : Bytes} {difference : Difference}
    (found : difference? stamp oldPath oldLabel newPath old new = some difference) :
    difference.Formed := by
  have tab : SingleLine "\t" := by decide
  unfold difference? at found
  by_cases same : old = new
  · rw [if_pos same] at found
    cases found
  rw [if_neg same] at found
  split at found
  · obtain rfl := Option.some.inj found
    exact ⟨labelSingle, newSingle⟩
  · rw [unifiedDiff?_eq, if_neg same, Option.map_some] at found
    obtain rfl := Option.some.inj found
    exact ⟨(oldSingle.append tab).append labelSingle,
      (newSingle.append tab).append stampSingle, old, new, same, rfl⟩

theorem formed_fileFragment
    {change : FileChange} (formed : change.Formed) (old new : Bytes)
    {name : String} (named : name ≠ "") (single : SingleLine name) :
    (fileFragment stamp change old new name).Formed := by
  have pathSingle := formed.depot.single
  unfold fileFragment
  split
  · split
    · exact ⟨formed.depot, formed.bound, named, single⟩
    · refine ⟨formed.depot, ?_, named, single⟩
      cases known : change.old with
      | none => exact Nat.zero_le _
      | some revision => exact formed.oldBound revision known
    · trivial
  · dsimp only
    split
    · rename_i difference found
      exact formed_difference stampSingle pathSingle
        (singleLine_revisionLabel pathSingle _) pathSingle found
    · trivial

theorem formed_moveFragment
    {link : MoveLink} (source : link.source.Formed) (dest : link.dest.Formed)
    (old new : Bytes) :
    (moveFragment stamp link old new).Formed := by
  have sourceSingle := source.depot.single
  have destSingle := dest.depot.single
  unfold moveFragment
  dsimp only
  split
  · rename_i difference found
    exact ⟨sourceSingle, destSingle,
      formed_difference stampSingle sourceSingle
        (singleLine_revisionLabel sourceSingle _) destSingle found⟩
  · exact ⟨source.depot, destSingle⟩

omit stampSingle in
theorem formed_localName
    {path name : String} (depot : DepotPath path)
    (yields : (localName path).Yields NamesFormed name) :
    name ≠ "" ∧ SingleLine name := by
  obtain ⟨answer, isAllowed, yields⟩ := Program.yields_bind.mp yields
  have formed := Program.yields_request.mp isAllowed
  split at yields
  · obtain rfl := Program.yields_pure.mp yields
    exact formed _ rfl
  · obtain rfl := Program.yields_pure.mp yields
    exact ⟨depot.nonempty, depot.single⟩

theorem formed_fragment
    {part : Part} (formed : ∀ change ∈ part.changes, change.Formed)
    {fragment : Fragment} (yields : (part.fragment stamp).Yields NamesFormed fragment) :
    fragment.Formed := by
  cases part with
  | single change =>
      have changeFormed := formed change List.mem_cons_self
      obtain ⟨old, _, yields⟩ := Program.yields_bind.mp yields
      obtain ⟨new, _, yields⟩ := Program.yields_bind.mp yields
      split at yields
      · obtain ⟨name, nameYields, yields⟩ := Program.yields_bind.mp yields
        obtain ⟨named, single⟩ := formed_localName changeFormed.depot nameYields
        obtain rfl := Program.yields_pure.mp yields
        exact formed_fileFragment stampSingle changeFormed old new named single
      · obtain rfl := Program.yields_pure.mp yields
        exact formed_fileFragment stampSingle changeFormed old new
          changeFormed.depot.nonempty changeFormed.depot.single
  | move link =>
      rw [Part.changes, List.forall_mem_cons, List.forall_mem_singleton] at formed
      obtain ⟨old, _, yields⟩ := Program.yields_bind.mp yields
      obtain ⟨new, _, yields⟩ := Program.yields_bind.mp yields
      obtain rfl := Program.yields_pure.mp yields
      exact formed_moveFragment stampSingle formed.1 formed.2 old new

theorem formed_fragmentsOf
    {parts : List Part}
    (formed : ∀ part ∈ parts, ∀ change ∈ part.changes, change.Formed)
    {found : List Fragment} (yields : (fragmentsOf stamp parts).Yields NamesFormed found) :
    ∀ fragment ∈ found, fragment.Formed := by
  induction parts generalizing found with
  | nil =>
      obtain rfl : found = [] := yields
      exact List.forall_mem_nil _
  | cons part rest inductionHypothesis =>
      rw [List.forall_mem_cons] at formed
      obtain ⟨fragment, fragmentYields, yields⟩ := Program.yields_bind.mp yields
      obtain ⟨others, othersYield, yields⟩ := Program.yields_bind.mp yields
      obtain rfl := Program.yields_pure.mp yields
      exact List.forall_mem_cons.mpr
        ⟨formed_fragment stampSingle formed.1 fragmentYields,
          inductionHypothesis formed.2 othersYield⟩

theorem formed_fragments
    {range : RevisionRange} {records : List ChangedFile}
    (formed : ∀ record ∈ records, record.Formed) {detectMoves : Bool}
    {found : List Fragment}
    (yields : (fragments stamp range records detectMoves).Yields NamesFormed found) :
    ∀ fragment ∈ found, fragment.Formed := by
  obtain ⟨parts, partsYield, yields⟩ := Program.yields_bind.mp yields
  refine formed_fragmentsOf stampSingle ?_ yields
  intro part inParts change inPart
  exact formed_of_mem_collapse formed
    (changes_of_mem_plan partsYield part inParts change inPart)

end Runs

/-- Every run of the synthesis writes the fragments of a run.  Nothing but the
emitted headers is read from the diff, and all of them exactly when no header
is written right behind a line that ends in a lone carriage return. -/
theorem readHeaders_synthesize
    (stamp : String) (range : RevisionRange) (records : List ChangedFile)
    (detectMoves : Bool)
    (stampSingle : SingleLine stamp)
    (formed : ∀ record ∈ records, record.Formed) :
    (∀ result,
      (synthesize stamp range records detectMoves).Yields NamesFormed result ↔
        ∃ found,
          (fragments stamp range records detectMoves).Yields NamesFormed found ∧
            result =
              { diff := found.flatMap Fragment.render, commitId := range.commitId }) ∧
      ∀ found,
        (fragments stamp range records detectMoves).Yields NamesFormed found →
          (readHeaders (found.flatMap Fragment.render)).Sublist (emittedHeaders found) ∧
            (readHeaders (found.flatMap Fragment.render) = emittedHeaders found ↔
              ¬HidesHeader found) := by
  constructor
  · intro result
    exact Program.yields_bind
  · intro found yields
    exact readHeaders_flatMap_render (formed_fragments stampSingle formed yields)

/-! ## A header behind a text diff -/

/-- Two files that one change adds. -/
def addedPair : List ChangedFile :=
  [⟨"//d/x", 1, .add, "7"⟩, ⟨"//d/y", 1, .add, "7"⟩]

def addedRange : RevisionRange where
  base := .concrete "6"
  tip := .concrete "7"

/-- Answers for the two files: the second one is empty. -/
def besideEmpty (content : Bytes) : (q : Snapshots.Request) → q.Answer
  | .content path _ => .ok (if path = "//d/x" then content else [])
  | .localPath _ => .ok none
  | .moveTarget _ => .ok none

def pairFragments (content : Bytes) : List Fragment :=
  Id.run ((fragments "T" addedRange addedPair true).run fun q =>
    pure (besideEmpty content q))

theorem formed_addedPair : ∀ record ∈ addedPair, record.Formed := by
  intro record member
  have path : record.path = "//d/x" ∨ record.path = "//d/y" := by
    rcases List.mem_pair.mp member with rfl | rfl
    · exact Or.inl rfl
    · exact Or.inr rfl
  have first : record.revision = 1 := by
    rcases List.mem_pair.mp member with rfl | rfl <;> rfl
  refine ⟨?_, by rw [first]; decide⟩
  rcases path with same | same <;> rw [same] <;>
    exact ⟨by decide, by decide, by decide⟩

theorem yields_pairFragments (content : Bytes) :
    (fragments "T" addedRange addedPair true).Yields NamesFormed
      (pairFragments content) := by
  apply Program.yields_run
  intro q
  cases q with
  | localPath path =>
      intro name same
      cases same
  | _ => trivial

/-- Behind a line feed the header of the empty file is read. -/
theorem readHeaders_behind_lineFeed :
    SingleLine "T" ∧ (∀ record ∈ addedPair, record.Formed) ∧
      (fragments "T" addedRange addedPair true).Yields NamesFormed
          (pairFragments [97, 10]) ∧
        readHeaders ((pairFragments [97, 10]).flatMap Fragment.render) =
          emittedHeaders (pairFragments [97, 10]) := by
  have single : SingleLine "T" := by decide
  have yields := yields_pairFragments [97, 10]
  obtain ⟨_, exactly⟩ :=
    (readHeaders_synthesize "T" addedRange addedPair true single
      formed_addedPair).2 _ yields
  refine ⟨single, formed_addedPair, yields, exactly.mpr ?_⟩
  have shape :
      pairFragments [97, 10] =
        [.changed (.text ⟨"//d/x\t//d/x#0", "//d/x\tT",
            [⟨⟨0, 0⟩, ⟨0, 1⟩, [⟨.added, [97, 10]⟩]⟩]⟩),
          .emptyFile ⟨"//d/y", 1, .added, "//d/y"⟩] := by
    cbv
  rw [shape, hidesHeader_cons, hidesHeader_cons]
  rintro ((none | ⟨isOpen, _⟩) | ⟨isOpen, _⟩)
  · exact not_hidesHeader_nil none
  · exact absurd isOpen (by decide)
  · exact absurd isOpen (by decide)

/-- Behind a lone carriage return it is not. -/
theorem readHeaders_behind_carriageReturn :
    SingleLine "T" ∧ (∀ record ∈ addedPair, record.Formed) ∧
      (fragments "T" addedRange addedPair true).Yields NamesFormed
          (pairFragments [97, 13]) ∧
        emittedHeaders (pairFragments [97, 13]) =
            [⟨"//d/y", 1, .added, "//d/y"⟩] ∧
          readHeaders ((pairFragments [97, 13]).flatMap Fragment.render) = [] := by
  refine ⟨by decide, formed_addedPair, yields_pairFragments [97, 13], ?_, ?_⟩
  · cbv
  · cbv

end ReviewDiff.Change
