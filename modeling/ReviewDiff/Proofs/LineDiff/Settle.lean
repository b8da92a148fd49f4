import ReviewDiff.LineDiff.Slide
import ReviewDiff.Proofs.LineDiff.Path

/-!
# Settling a script keeps its path

The clean-up pass rewrites a script a few operations at a time: neighbours
change places or unite, and an insertion slides along the kept run next to it.
`Refines` says that one list of operations may stand wherever another one
does.  It is a congruence for concatenation, so that each rewriting step is a
statement about the two or three operations that it touches.  The main result
is `leads_settle`.
-/

namespace ReviewDiff.LineDiff

variable {α : Type}

/-- Wherever the first operations lead, the second ones lead too. -/
def Refines (old new : List α) (ops ops' : List Op) : Prop :=
  ∀ start finish, Leads old new start ops finish → Leads old new start ops' finish

namespace Refines

variable {old new : List α}

theorem refl (ops : List Op) : Refines old new ops ops :=
  fun _ _ leads => leads

theorem trans
    {first second third : List Op}
    (left : Refines old new first second)
    (right : Refines old new second third) :
    Refines old new first third :=
  fun start finish leads => right start finish (left start finish leads)

theorem append
    {front front' back back' : List Op}
    (left : Refines old new front front')
    (right : Refines old new back back') :
    Refines old new (front ++ back) (front' ++ back') := by
  intro start finish leads
  obtain ⟨middle, first, second⟩ := leads_append.mp leads
  exact leads_append.mpr
    ⟨middle, left start middle first, right middle finish second⟩

/-- Rewriting in the middle of a script. -/
theorem inside
    (front : List Op) {ops ops' : List Op} (back : List Op)
    (step : Refines old new ops ops') :
    Refines old new (front ++ (ops ++ back)) (front ++ (ops' ++ back)) :=
  (refl front).append (step.append (refl back))

end Refines

/-! ## Operations of each kind -/

section Kinds

variable {old new : List α} {op : Op} {point : Point}

theorem standsAt_keep (keeps : op.kind = .keep) :
    op.StandsAt old new point ↔
      0 < op.length ∧ op.old = point.1 ∧ op.new = point.2 ∧
        SameRun old new point op.length := by
  simp only [Op.StandsAt, keeps]

theorem standsAt_delete (deletes : op.kind = .delete) :
    op.StandsAt old new point ↔
      0 < op.length ∧ op.old = point.1 ∧ op.old + op.length ≤ old.length := by
  simp only [Op.StandsAt, deletes]

theorem standsAt_insert (inserts : op.kind = .insert) :
    op.StandsAt old new point ↔
      0 < op.length ∧ op.new = point.2 ∧ op.new + op.length ≤ new.length := by
  simp only [Op.StandsAt, inserts]

theorem past_keep (keeps : op.kind = .keep) :
    op.past point = (point.1 + op.length, point.2 + op.length) := by
  simp only [Op.past, Op.oldLength, Op.newLength, keeps]

theorem past_delete (deletes : op.kind = .delete) :
    op.past point = (point.1 + op.length, point.2) := by
  simp only [Op.past, Op.oldLength, Op.newLength, deletes, Nat.add_zero]

theorem past_insert (inserts : op.kind = .insert) :
    op.past point = (point.1, point.2 + op.length) := by
  simp only [Op.past, Op.oldLength, Op.newLength, inserts, Nat.add_zero]

end Kinds

/-! ## Single steps -/

section Steps

variable (old new : List α)

theorem refines_swap
    {first second : Op}
    (firstChanges : first.kind ≠ .keep) (secondChanges : second.kind ≠ .keep)
    (different : first.kind ≠ second.kind) :
    Refines old new [first, second] [second, first] := by
  rintro start finish ⟨firstStands, secondStands, rfl⟩
  cases firstKind : first.kind with
  | keep => exact absurd firstKind firstChanges
  | delete =>
      have secondKind : second.kind = .insert := by
        cases kind : second.kind <;> simp_all
      rw [standsAt_delete firstKind] at firstStands
      rw [standsAt_insert secondKind, past_delete firstKind] at secondStands
      refine ⟨(standsAt_insert secondKind).mpr secondStands, ?_, ?_⟩
      · rw [standsAt_delete firstKind, past_insert secondKind]
        exact firstStands
      · simp only [past_delete firstKind, past_insert secondKind, Chains]
  | insert =>
      have secondKind : second.kind = .delete := by
        cases kind : second.kind <;> simp_all
      rw [standsAt_insert firstKind] at firstStands
      rw [standsAt_delete secondKind, past_insert firstKind] at secondStands
      refine ⟨(standsAt_delete secondKind).mpr secondStands, ?_, ?_⟩
      · rw [standsAt_insert firstKind, past_delete secondKind]
        exact firstStands
      · simp only [past_insert firstKind, past_delete secondKind, Chains]

/-- Two neighbours of a kind unite; the first position stays. -/
theorem refines_unite
    {first second : Op} (same : first.kind = second.kind) :
    Refines old new [first, second] [first.growRight second.length] := by
  rintro start finish ⟨firstStands, secondStands, rfl⟩
  have unitedKind : (first.growRight second.length).kind = first.kind := rfl
  cases firstKind : first.kind with
  | keep =>
      have secondKind : second.kind = .keep := same.symm.trans firstKind
      rw [standsAt_keep firstKind] at firstStands
      rw [standsAt_keep secondKind, past_keep firstKind] at secondStands
      obtain ⟨firstPositive, oldStart, newStart, firstRun⟩ := firstStands
      obtain ⟨_, _, _, secondRun⟩ := secondStands
      rw [leads_singleton, standsAt_keep (unitedKind.trans firstKind),
        past_keep (unitedKind.trans firstKind)]
      refine ⟨⟨?_, oldStart, newStart, firstRun.join secondRun⟩, ?_⟩
      · exact Nat.add_pos_left firstPositive second.length
      · simp only [past_keep firstKind, past_keep secondKind, Op.growRight,
          Nat.add_assoc]
  | delete =>
      have secondKind : second.kind = .delete := same.symm.trans firstKind
      rw [standsAt_delete firstKind] at firstStands
      rw [standsAt_delete secondKind, past_delete firstKind] at secondStands
      rw [leads_singleton, standsAt_delete (unitedKind.trans firstKind),
        past_delete (unitedKind.trans firstKind)]
      simp only [past_delete firstKind, past_delete secondKind, Op.growRight,
        Nat.add_assoc]
      exact ⟨by omega, trivial⟩
  | insert =>
      have secondKind : second.kind = .insert := same.symm.trans firstKind
      rw [standsAt_insert firstKind] at firstStands
      rw [standsAt_insert secondKind, past_insert firstKind] at secondStands
      rw [leads_singleton, standsAt_insert (unitedKind.trans firstKind),
        past_insert (unitedKind.trans firstKind)]
      simp only [past_insert firstKind, past_insert secondKind, Op.growRight,
        Nat.add_assoc]
      exact ⟨by omega, trivial⟩

/-- Two kept neighbours unite; the first position is computed from the
second one. -/
theorem refines_uniteLeft
    {first second : Op}
    (firstKeeps : first.kind = .keep) (secondKeeps : second.kind = .keep) :
    Refines old new [first, second] [second.growLeft first.length] := by
  rintro start finish ⟨firstStands, secondStands, rfl⟩
  rw [standsAt_keep firstKeeps] at firstStands
  rw [standsAt_keep secondKeeps, past_keep firstKeeps] at secondStands
  obtain ⟨firstPositive, _, _, firstRun⟩ := firstStands
  obtain ⟨_, oldStart, newStart, secondRun⟩ := secondStands
  have unitedKeeps : (second.growLeft first.length).kind = .keep := secondKeeps
  have unitedLength :
      (second.growLeft first.length).length = first.length + second.length :=
    Nat.add_comm _ _
  rw [leads_singleton, standsAt_keep unitedKeeps, past_keep unitedKeeps,
    unitedLength]
  refine ⟨⟨Nat.add_pos_left firstPositive _, ?_, ?_,
    firstRun.join secondRun⟩, ?_⟩
  · simp only [Op.growLeft, Op.shiftLeft, oldStart]
    omega
  · simp only [Op.growLeft, Op.shiftLeft, newStart]
    omega
  · simp only [past_keep firstKeeps, past_keep secondKeeps, Nat.add_assoc]

theorem leads_consUnlessEmpty_keep
    {old new : List α} {op : Op} {point : Point}
    (keeps : op.kind = .keep)
    (oldStart : op.old = point.1) (newStart : op.new = point.2)
    (run : SameRun old new point op.length) :
    Leads old new point (consUnlessEmpty op [])
      (point.1 + op.length, point.2 + op.length) := by
  unfold consUnlessEmpty
  by_cases empty : op.length = 0
  · simp [empty, Chains]
  · rw [if_neg empty, leads_singleton, standsAt_keep keeps, past_keep keeps]
    exact ⟨⟨Nat.pos_of_ne_zero empty, oldStart, newStart, run⟩, rfl⟩

theorem refines_keepAfter
    {gap : Op} (keeps : gap.kind = .keep) (after : List Op) :
    Refines old new (gap :: after) (keepAfter gap gap.length after) := by
  cases after with
  | nil => exact Refines.refl _
  | cons next rest =>
      simp only [keepAfter]
      split
      · rename_i nextKeeps
        exact (refines_uniteLeft old new keeps nextKeeps).append
          (Refines.refl rest)
      · exact Refines.refl _

theorem refines_keepBefore
    {gap : Op} (keeps : gap.kind = .keep) (before : List Op) :
    Refines old new (before.reverse ++ [gap])
      (keepBefore gap gap.length before).reverse := by
  cases before with
  | nil => exact Refines.refl _
  | cons previous rest =>
      simp only [keepBefore]
      split
      · rename_i previousKeeps
        have united :=
          refines_unite old new (previousKeeps.trans keeps.symm)
        simpa using (Refines.refl rest.reverse).append united
      · simpa using Refines.refl _

end Steps

/-! ## Sliding along a kept run -/

section Items

variable {old new : List α} {op : Op} {k : Nat}

theorem length_oldItems_keep
    (keeps : op.kind = .keep) (bound : op.old + op.length ≤ old.length) :
    (op.oldItems old).length = op.length := by
  simp only [Op.oldItems, Op.oldLength, keeps, List.length_take,
    List.length_drop]
  omega

theorem getElem?_oldItems_keep
    (keeps : op.kind = .keep) (small : k < op.length) :
    (op.oldItems old)[k]? = old[op.old + k]? := by
  simp only [Op.oldItems, Op.oldLength, keeps]
  rw [List.getElem?_take_of_lt small, List.getElem?_drop]

theorem length_newItems_insert
    (inserts : op.kind = .insert) (bound : op.new + op.length ≤ new.length) :
    (op.newItems new).length = op.length := by
  simp only [Op.newItems, Op.newLength, inserts, List.length_take,
    List.length_drop]
  omega

theorem getElem?_newItems_insert
    (inserts : op.kind = .insert) (small : k < op.length) :
    (op.newItems new)[k]? = new[op.new + k]? := by
  simp only [Op.newItems, Op.newLength, inserts]
  rw [List.getElem?_take_of_lt small, List.getElem?_drop]

theorem newItems_delete
    (deletes : op.kind = .delete) :
    op.newItems new = [] := by
  simp [Op.newItems, Op.newLength, deletes]

end Items

section Slides

variable [DecidableEq α] {old new : List α} {kept change : Op}

/-- Only insertions have any slack, because deletions have no new items. -/
theorem insert_of_slackUp_pos
    (changes : change.kind ≠ .keep)
    (slack : 0 < slackUp old new kept change) :
    change.kind = .insert := by
  cases kind : change.kind with
  | keep => exact absurd kind changes
  | delete =>
      have bound :=
        commonSuffix_le_length_right (kept.oldItems old) (change.newItems new)
      simp only [newItems_delete kind, List.length_nil] at bound
      simp only [slackUp, newItems_delete kind] at slack
      omega
  | insert => rfl

theorem insert_of_slackDown_pos
    (changes : change.kind ≠ .keep)
    (slack : 0 < slackDown old new kept change) :
    change.kind = .insert := by
  cases kind : change.kind with
  | keep => exact absurd kind changes
  | delete =>
      have bound :=
        commonPrefix_le_length_right (kept.oldItems old) (change.newItems new)
      simp only [newItems_delete kind, List.length_nil] at bound
      simp only [slackDown, newItems_delete kind] at slack
      omega
  | insert => rfl

/-- The slack above an insertion is a run of equal items: the last ones that
are kept and the last ones that are inserted. -/
theorem sameRun_slackUp
    (keeps : kept.kind = .keep) (inserts : change.kind = .insert)
    (keptBound : kept.old + kept.length ≤ old.length)
    (changeBound : change.new + change.length ≤ new.length) :
    slackUp old new kept change ≤ change.length ∧
      SameRun old new
        (kept.old + (kept.length - slackUp old new kept change),
          change.new + (change.length - slackUp old new kept change))
        (slackUp old new kept change) := by
  have keptLength := length_oldItems_keep keeps keptBound
  have changeLength := length_newItems_insert inserts changeBound
  have inKept := slackUp_le old new kept change
  have inChange : slackUp old new kept change ≤ change.length := by
    rw [← changeLength]
    exact commonSuffix_le_length_right _ _
  refine ⟨inChange, ?_, ?_, ?_⟩
  · intro _
    simp only
    omega
  · intro _
    simp only
    omega
  · intro k small
    have tails := getElem?_eq_of_lt_commonSuffix small
    rw [keptLength, changeLength] at tails
    change
      (kept.oldItems old)[kept.length - slackUp old new kept change + k]? =
        (change.newItems new)[change.length - slackUp old new kept change + k]?
      at tails
    rw [getElem?_oldItems_keep keeps (by omega),
      getElem?_newItems_insert inserts (by omega)] at tails
    simpa only [Nat.add_assoc] using tails

/-- The slack below an insertion is a run of equal items: the first ones that
are kept and the first ones that are inserted. -/
theorem sameRun_slackDown
    (keeps : kept.kind = .keep) (inserts : change.kind = .insert)
    (keptBound : kept.old + kept.length ≤ old.length)
    (changeBound : change.new + change.length ≤ new.length) :
    SameRun old new (kept.old, change.new) (slackDown old new kept change) := by
  have changeLength := length_newItems_insert inserts changeBound
  have inKept := slackDown_le old new kept change
  have inChange : slackDown old new kept change ≤ change.length := by
    rw [← changeLength]
    exact commonPrefix_le_length_right _ _
  refine ⟨?_, ?_, ?_⟩
  · intro _
    simp only
    omega
  · intro _
    simp only
    omega
  · intro k small
    have heads := getElem?_eq_of_lt_commonPrefix small
    rwa [getElem?_oldItems_keep keeps (by omega),
      getElem?_newItems_insert inserts (by omega)] at heads

/-- An insertion moves up past the last kept items, which end the inserted
ones too. -/
theorem refines_slideUp
    (keeps : kept.kind = .keep) (inserts : change.kind = .insert)
    {count : Nat} (slack : slackUp old new kept change = count)
    (positive : 0 < count) :
    Refines old new [kept, change]
      (consUnlessEmpty (kept.dropRight count) [] ++
        [change.shiftLeft count,
          ⟨.keep, kept.oldEnd - count, change.newEnd - count, count⟩]) := by
  rintro ⟨i, j⟩ finish ⟨keptStands, changeStands, rfl⟩
  rw [standsAt_keep keeps] at keptStands
  rw [standsAt_insert inserts, past_keep keeps] at changeStands
  obtain ⟨keptPositive, oldStart, newStart, keptRun⟩ := keptStands
  obtain ⟨changePositive, changeStart, changeBound⟩ := changeStands
  have keptBound := keptRun.oldBound keptPositive
  simp only at oldStart newStart changeStart keptBound
  rw [← oldStart] at keptBound
  obtain ⟨inChange, slackRun⟩ :=
    sameRun_slackUp keeps inserts keptBound changeBound
  have inKept := slackUp_le old new kept change
  rw [slack] at inKept inChange slackRun
  have oldEnd : kept.oldEnd = i + kept.length := by
    simp only [Op.oldEnd, Op.oldLength, keeps, oldStart]
  have newEnd : change.newEnd = j + kept.length + change.length := by
    simp only [Op.newEnd, Op.newLength, inserts, changeStart]
  have shiftedInserts : (change.shiftLeft count).kind = .insert := inserts
  have gapPoint :
      (change.shiftLeft count).past
          (i + (kept.length - count), j + (kept.length - count)) =
        (kept.old + (kept.length - count),
          change.new + (change.length - count)) := by
    rw [past_insert shiftedInserts, oldStart, changeStart]
    simp only [Op.shiftLeft, Prod.mk.injEq, true_and]
    omega
  refine leads_append.mpr
    ⟨(i + (kept.length - count), j + (kept.length - count)), ?_, ?_⟩
  · have stillKeeps : (kept.dropRight count).kind = .keep := keeps
    exact leads_consUnlessEmpty_keep stillKeeps
      oldStart newStart (keptRun.take (Nat.sub_le _ _))
  · refine ⟨(standsAt_insert shiftedInserts).mpr ⟨changePositive, ?_, ?_⟩, ?_⟩
    · simp only [Op.shiftLeft, changeStart]
      omega
    · simp only [Op.shiftLeft]
      omega
    · rw [gapPoint, chains_singleton, standsAt_keep rfl, past_keep rfl,
        past_keep keeps, past_insert inserts]
      refine ⟨⟨positive, ?_, ?_, slackRun⟩, ?_⟩
      · simp only [oldEnd, oldStart]
        omega
      · simp only [newEnd, changeStart]
        omega
      · simp only [oldStart, changeStart, Prod.mk.injEq]
        omega

/-- An insertion moves down past the first kept items, which begin the
inserted ones too. -/
theorem refines_slideDown
    (keeps : kept.kind = .keep) (inserts : change.kind = .insert)
    {count : Nat} (slack : slackDown old new kept change = count)
    (positive : 0 < count) :
    Refines old new [change, kept]
      ([⟨.keep, kept.old, change.new, count⟩, change.shiftRight count] ++
        consUnlessEmpty (kept.dropLeft count) []) := by
  rintro ⟨i, j⟩ finish ⟨changeStands, keptStands, rfl⟩
  rw [standsAt_insert inserts] at changeStands
  rw [standsAt_keep keeps, past_insert inserts] at keptStands
  obtain ⟨changePositive, changeStart, changeBound⟩ := changeStands
  obtain ⟨keptPositive, oldStart, newStart, keptRun⟩ := keptStands
  have keptBound := keptRun.oldBound keptPositive
  simp only at oldStart newStart changeStart keptBound
  rw [← oldStart] at keptBound
  have slackRun :=
    sameRun_slackDown keeps inserts keptBound changeBound
  have inKept := slackDown_le old new kept change
  have newBound := keptRun.newBound keptPositive
  rw [slack] at inKept slackRun
  simp only at newBound
  have shiftedInserts : (change.shiftRight count).kind = .insert := inserts
  have restRun := keptRun.sub count (by omega : count + (kept.length - count) ≤ _)
  refine leads_append.mpr
    ⟨(i + count, j + count + change.length), ⟨?_, ?_⟩, ?_⟩
  · rw [standsAt_keep rfl]
    rw [oldStart, changeStart] at slackRun
    exact ⟨positive, oldStart, changeStart, slackRun⟩
  · rw [past_keep rfl, chains_singleton, standsAt_insert shiftedInserts,
      past_insert shiftedInserts]
    refine ⟨⟨changePositive, ?_, ?_⟩, rfl⟩
    · simp only [Op.shiftRight, changeStart]
    · simp only [Op.shiftRight]
      omega
  · have point :
        (i + count, j + change.length + count) =
          (i + count, j + count + change.length) := by
      rw [Nat.add_right_comm]
    have finish :
        (i + count + (kept.length - count),
            j + count + change.length + (kept.length - count)) =
          kept.past (change.past (i, j)) := by
      rw [past_keep keeps, past_insert inserts]
      simp only [Prod.mk.injEq]
      omega
    rw [← finish]
    have stillKeeps : (kept.dropLeft count).kind = .keep := keeps
    refine leads_consUnlessEmpty_keep stillKeeps ?_ ?_ ?_
    · simp only [Op.dropLeft, Op.shiftRight, oldStart]
    · simp only [Op.dropLeft, Op.shiftRight, newStart]
      omega
    · rw [← point]
      exact restRun

end Slides

/-! ## Moving a change -/

theorem consUnlessEmpty_append
    (op : Op) (ops : List Op) :
    consUnlessEmpty op ops = consUnlessEmpty op [] ++ ops := by
  unfold consUnlessEmpty
  split <;> rfl

theorem reverse_consUnlessEmpty
    (op : Op) (ops : List Op) :
    (consUnlessEmpty op ops).reverse = ops.reverse ++ consUnlessEmpty op [] := by
  unfold consUnlessEmpty
  split
  · exact (List.append_nil _).symm
  · exact List.reverse_cons

/-- An operation that covers nothing stands nowhere. -/
theorem refines_of_empty
    (old new : List α) {front back : List Op} {op : Op} (empty : op.length = 0)
    (ops : List Op) :
    Refines old new (front ++ op :: back) ops := by
  intro start finish leads
  obtain ⟨middle, _, stands, _⟩ := leads_append.mp leads
  exact absurd stands.1 (by omega)

/-- The operations of a place in a script, from first to last. -/
def Place.ops (place : Place) : List Op :=
  place.before.reverse ++ place.focus :: place.after

section Moves

variable [DecidableEq α] (old new : List α)

theorem refines_moveUp
    (before : List Op) (focus : Op) (after : List Op) :
    Refines old new (before.reverse ++ focus :: after)
      (moveUp old new before focus after).ops := by
  fun_induction moveUp old new before focus after with
  | case1 => exact Refines.refl _
  | case2 => exact Refines.refl _
  | case3 focus after previous rest changes keeps count positive gap inductionHypothesis =>
      refine Refines.trans ?_ inductionHypothesis
      have inserts := insert_of_slackUp_pos changes positive
      have slide := refines_slideUp keeps inserts rfl positive
      have slid := Refines.inside rest.reverse after slide
      have gapKeeps : gap.kind = .keep := rfl
      have keepsGap := refines_keepAfter old new gapKeeps after
      have joined :=
        (Refines.refl (rest.reverse ++ consUnlessEmpty (previous.dropRight count) [] ++
          [focus.shiftLeft count])).append keepsGap
      rw [reverse_consUnlessEmpty]
      simp only [List.reverse_cons, List.append_assoc, List.cons_append,
        List.nil_append] at slid joined ⊢
      exact slid.trans joined
  | case4 focus after previous rest changes keeps count stuck empty inductionHypothesis =>
      rw [List.reverse_cons, List.append_assoc]
      exact refines_of_empty old new empty _
  | case5 => exact Refines.refl _
  | case6 focus after previous rest changes _ same inductionHypothesis =>
      refine Refines.trans ?_ inductionHypothesis
      have united :=
        Refines.inside rest.reverse after (refines_unite old new same)
      simpa using united
  | case7 focus after previous rest changes previousChanges different inductionHypothesis =>
      refine Refines.trans ?_ inductionHypothesis
      have swapped :=
        Refines.inside rest.reverse after
          (refines_swap old new previousChanges changes different)
      simpa using swapped

theorem refines_moveDown
    (before : List Op) (focus : Op) (after : List Op) :
    Refines old new (before.reverse ++ focus :: after)
      (moveDown old new before focus after).ops := by
  fun_induction moveDown old new before focus after with
  | case1 => exact Refines.refl _
  | case2 => exact Refines.refl _
  | case3 before focus next rest changes keeps count positive gap inductionHypothesis =>
      refine Refines.trans ?_ inductionHypothesis
      have inserts := insert_of_slackDown_pos changes positive
      have slide := refines_slideDown keeps inserts rfl positive
      have slid := Refines.inside before.reverse rest slide
      have gapKeeps : gap.kind = .keep := rfl
      have keepsGap := refines_keepBefore old new gapKeeps before
      have joined :=
        keepsGap.append (Refines.refl (focus.shiftRight count ::
          (consUnlessEmpty (next.dropLeft count) [] ++ rest)))
      rw [consUnlessEmpty_append]
      simp only [List.append_assoc, List.cons_append,
        List.nil_append] at slid joined ⊢
      exact slid.trans joined
  | case4 before focus next rest changes keeps count stuck empty inductionHypothesis =>
      have shape :
          before.reverse ++ focus :: next :: rest =
            (before.reverse ++ [focus]) ++ next :: rest := by
        simp
      rw [shape]
      exact refines_of_empty old new empty _
  | case5 => exact Refines.refl _
  | case6 before focus next rest changes _ same inductionHypothesis =>
      refine Refines.trans ?_ inductionHypothesis
      exact Refines.inside before.reverse rest
        (refines_unite old new same.symm)
  | case7 before focus next rest changes nextChanges different inductionHypothesis =>
      refine Refines.trans ?_ inductionHypothesis
      have swapped :=
        Refines.inside before.reverse rest
          (refines_swap old new changes nextChanges (Ne.symm different))
      simpa using swapped

theorem refines_resettle
    (before : List Op) (focus : Op) (after : List Op) :
    Refines old new (before.reverse ++ focus :: after)
      (resettle old new before focus after).ops :=
  (refines_moveUp old new before focus after).trans
    (refines_moveDown old new _ _ _)

theorem refines_settleFrom
    (kind : Kind) (change : kind ≠ .keep) (before after : List Op) :
    Refines old new (before.reverse ++ after)
      (settleFrom old new kind change before after) := by
  fun_induction settleFrom old new kind change before after with
  | case1 before =>
      simpa using Refines.refl before.reverse
  | case2 before op rest same place inductionHypothesis =>
      have settled := refines_resettle old new before op rest
      refine settled.trans ?_
      simpa [Place.ops] using inductionHypothesis
  | case3 before op rest different inductionHypothesis =>
      simpa using inductionHypothesis

/-- The clean-up pass keeps the path of a script. -/
theorem leads_settle
    {ops : List Op} {start finish : Point}
    (leads : Leads old new start ops finish) :
    Leads old new start (settle old new ops) finish :=
  refines_settleFrom old new .insert (by decide) [] _ start finish
    (refines_settleFrom old new .delete (by decide) [] ops start finish leads)

end Moves

end ReviewDiff.LineDiff
