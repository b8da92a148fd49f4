import ReviewDiff.Host.FileTree
import ReviewDiff.Proofs.Lookup
import ReviewDiff.Proofs.Path

/-!
# Trees that grow

Making files and directories takes nothing away from a tree.  Directories stay
where they are, so whatever a path leads to is found again in the larger tree,
and what was put there is the only new file.
-/

namespace ReviewDiff

theorem bind_eq_ok_iff
    {ε α β : Type} {outcome : Except ε α} {rest : α → Except ε β} {value : β} :
    outcome >>= rest = .ok value ↔
      ∃ middle, outcome = .ok middle ∧ rest middle = .ok value := by
  cases outcome with
  | error failure => exact iff_of_false nofun nofun
  | ok middle =>
      constructor
      · exact fun succeeds => ⟨middle, rfl, succeeds⟩
      · rintro ⟨_, ⟨⟩, succeeds⟩
        exact succeeds

namespace Host.FileTree

/-! ## Nodes -/

variable {tree small middle large : FileTree} {names other : List String}

theorem node?_nil : tree.node? [] = some .directory :=
  rfl

theorem node?_of_ne_nil (below : names ≠ []) : tree.node? names = tree.nodes.lookup names := by
  rw [node?, if_neg (by simpa using below)]

theorem node?_put_self (below : names ≠ []) (node : Node) :
    (tree.put names node).node? names = some node := by
  rw [node?_of_ne_nil below, put, List.lookup_cons, beq_self_eq_true]

theorem node?_put_of_ne (different : other ≠ names) (node : Node) :
    (tree.put names node).node? other = tree.node? other := by
  by_cases top : other = []
  · rw [top, node?_nil, node?_nil]
  · rw [node?_of_ne_nil top, node?_of_ne_nil top, put, List.lookup_cons,
      beq_eq_false_iff_ne.mpr different]
    exact lookup_filter_ne different tree.nodes

/-! ## Paths -/

theorem locate_eq_ok_iff {path : String} :
    tree.locate path = .ok names ↔
      ∃ all, pieces path = .ok all ∧ tree.walk [] all = .ok names :=
  bind_eq_ok_iff

theorem read_eq_ok_iff {path : String} {contents : Bytes} :
    tree.read path = .ok contents ↔
      ∃ names, tree.locate path = .ok names ∧ tree.node? names = some (.file contents) := by
  constructor
  · intro reads
    obtain ⟨names, located, held⟩ := bind_eq_ok_iff.mp reads
    split at held
    · rename_i isFile
      cases held
      exact ⟨names, located, isFile⟩
    · cases held
    · cases held
  · rintro ⟨names, located, isFile⟩
    exact bind_eq_ok_iff.mpr ⟨names, located, by rw [isFile]⟩

theorem walk_append (names front back : List String) :
    tree.walk names (front ++ back) =
      (tree.walk names front).bind fun found => tree.walk found back := by
  induction front generalizing names with
  | nil => rfl
  | cons piece front inductionHypothesis =>
      rw [List.cons_append, walk, walk]
      split
      · split
        · rfl
        · split
          · exact inductionHypothesis _
          · rfl
      · rfl
      · rfl

/-! ## Growth -/

/-- What lies in the smaller tree stays.  What is new is a directory or one of
the given files, and those are empty, whatever they held. -/
def Grows (emptied : List String → Prop) (small large : FileTree) : Prop :=
  ∀ names,
    large.node? names = small.node? names ∨
      (small.node? names = none ∧ large.node? names = some .directory) ∨
        (emptied names ∧ small.node? names ≠ some .directory ∧
          large.node? names = some (.file []))

variable {emptied more : List String → Prop}

theorem Grows.refl (tree : FileTree) : Grows emptied tree tree :=
  fun _ => Or.inl rfl

theorem Grows.mono
    (grows : Grows emptied small large) (fewer : ∀ names, emptied names → more names) :
    Grows more small large := by
  intro names
  rcases grows names with same | directory | ⟨isEmptied, file⟩
  · exact Or.inl same
  · exact Or.inr (Or.inl directory)
  · exact Or.inr (Or.inr ⟨fewer names isEmptied, file⟩)

theorem Grows.trans
    (first : Grows emptied small middle) (second : Grows emptied middle large) :
    Grows emptied small large := by
  intro names
  rcases second names with same | ⟨absent, directory⟩ | ⟨isEmptied, other, file⟩
  · rw [same]
    exact first names
  · rcases first names with same | ⟨_, there⟩ | ⟨_, _, there⟩
    · exact Or.inr (Or.inl ⟨same.symm.trans absent, directory⟩)
    · exact nomatch absent.symm.trans there
    · exact nomatch absent.symm.trans there
  · refine Or.inr (Or.inr ⟨isEmptied, ?_, file⟩)
    rcases first names with same | ⟨absent, _⟩ | ⟨_, different, _⟩
    · rwa [← same]
    · rw [absent]
      exact nofun
    · exact different

theorem Grows.put
    {node : Node} (below : names ≠ []) (isNew : tree.node? names = none)
    (isDirectory : node = .directory ∨ emptied names ∧ node = .file []) :
    Grows emptied tree (tree.put names node) := by
  intro other
  by_cases same : other = names
  · subst same
    rcases isDirectory with rfl | ⟨isEmptied, rfl⟩
    · exact Or.inr (Or.inl ⟨isNew, node?_put_self below _⟩)
    · refine Or.inr (Or.inr ⟨isEmptied, ?_, node?_put_self below _⟩)
      rw [isNew]
      exact nofun
  · exact Or.inl (node?_put_of_ne same node)

section Paths

variable (grows : Grows emptied small large)

include grows

theorem Grows.directory (isDirectory : small.node? names = some .directory) :
    large.node? names = some .directory := by
  rcases grows names with same | ⟨_, there⟩ | ⟨_, different, _⟩
  · exact same.trans isDirectory
  · exact there
  · exact absurd isDirectory different

theorem Grows.isSome (there : (small.node? names).isSome) : (large.node? names).isSome := by
  rcases grows names with same | ⟨_, found⟩ | ⟨_, _, found⟩
  · rwa [same]
  · rw [found]
    rfl
  · rw [found]
    rfl

/-- A walk that ends somewhere passes directories only, and these stay. -/
theorem Grows.walk
    {pieces found : List String} (walked : small.walk names pieces = .ok found) :
    large.walk names pieces = .ok found := by
  induction pieces generalizing names with
  | nil => exact walked
  | cons piece rest inductionHypothesis =>
      rw [FileTree.walk] at walked ⊢
      split at walked
      · rename_i isDirectory
        rw [grows.directory isDirectory]
        split at walked
        · cases walked
        · rename_i short
          split at walked
          · rename_i there
            simp only [if_neg short, if_pos (grows.isSome there)]
            exact inductionHypothesis walked
          · cases walked
      · cases walked
      · cases walked

theorem Grows.locate {path : String} (located : small.locate path = .ok names) :
    large.locate path = .ok names := by
  obtain ⟨all, isPath, walked⟩ := locate_eq_ok_iff.mp located
  exact locate_eq_ok_iff.mpr ⟨all, isPath, grows.walk walked⟩

theorem Grows.read {path : String} (isEmpty : small.read path = .ok []) :
    large.read path = .ok [] := by
  obtain ⟨names, located, file⟩ := read_eq_ok_iff.mp isEmpty
  refine read_eq_ok_iff.mpr ⟨names, grows.locate located, ?_⟩
  rcases grows names with same | ⟨absent, _⟩ | ⟨_, _, stays⟩
  · exact same.trans file
  · exact nomatch absent.symm.trans file
  · exact stays

end Paths

/-! ## New nodes -/

/-- All directories above the names are there. -/
def Rooted (tree : FileTree) (names : List String) : Prop :=
  ∀ front, front <+: names → front ≠ names → tree.node? front = some .directory

theorem rooted_nil : Rooted tree [] := by
  intro front above different
  exact absurd (List.prefix_nil.mp above) different

theorem Rooted.step
    (rooted : Rooted tree names) (isDirectory : tree.node? names = some .directory)
    (piece : String) : Rooted tree (step names piece) := by
  intro front above different
  rw [FileTree.step] at above different
  split at above
  · rename_i stays
    rw [if_pos stays] at different
    exact rooted front above different
  · rename_i moves
    rw [if_neg moves] at different
    split at above
    · rename_i up
      rw [if_pos up] at different
      refine rooted front (above.trans (List.dropLast_prefix names)) ?_
      rintro rfl
      exact different (above.eq_of_length_le (List.dropLast_prefix _).length_le)
    · rename_i down
      rw [if_neg down] at different
      rcases List.prefix_concat_iff.mp above with same | higher
      · exact absurd same different
      by_cases here : front = names
      · rwa [here]
      · exact rooted front higher here

theorem Rooted.walk
    (rooted : Rooted tree names) {pieces found : List String}
    (walked : tree.walk names pieces = .ok found) : Rooted tree found := by
  induction pieces generalizing names with
  | nil =>
      obtain rfl := Except.ok.inj walked
      exact rooted
  | cons piece rest inductionHypothesis =>
      rw [FileTree.walk] at walked
      split at walked
      · rename_i isDirectory
        split at walked
        · cases walked
        · split at walked
          · exact inductionHypothesis (rooted.step isDirectory piece) walked
          · cases walked
      · cases walked
      · cases walked

/-- A step to something that is not there goes to a name in the directory. -/
theorem step_eq_append
    (rooted : Rooted tree names) (isDirectory : tree.node? names = some .directory)
    {piece : String} (missing : tree.node? (step names piece) = none) :
    step names piece = names ++ [piece] := by
  rw [step] at missing ⊢
  split at missing
  · exact nomatch missing.symm.trans isDirectory
  · rename_i moves
    rw [if_neg moves]
    split at missing
    · by_cases top : names.dropLast = names
      · rw [top] at missing
        exact nomatch missing.symm.trans isDirectory
      · exact nomatch missing.symm.trans (rooted _ (List.dropLast_prefix names) top)
    · rename_i down
      rw [if_neg down]

theorem eq_split_of_pieces
    {path : String} {all : List String} (isPath : pieces path = .ok all) :
    all = Text.split '/' path := by
  unfold pieces at isPath
  split at isPath
  · cases isPath
  · split at isPath
    · cases isPath
    · exact (Except.ok.inj isPath).symm

theorem exists_of_locateParent
    {path last : String} (found : tree.locateParent path = .ok (names, last)) :
    ∃ front, pieces path = .ok (front ++ [last]) ∧ tree.walk [] front = .ok names ∧
      tree.node? names = some .directory ∧ last.utf8ByteSize ≤ maxNameLength := by
  obtain ⟨all, isPath, found⟩ := bind_eq_ok_iff.mp found
  obtain ⟨reached, walked, found⟩ := bind_eq_ok_iff.mp found
  have nonempty : all ≠ [] := by
    rw [eq_split_of_pieces isPath]
    exact Path.split_ne_nil path
  obtain ⟨front, final, rfl⟩ := (List.eq_nil_or_concat' all).resolve_left nonempty
  rw [List.dropLast_concat] at walked
  simp only [List.getLast?_concat, Option.getD_some] at found
  split at found
  · rename_i isDirectory
    split at found
    · cases found
    · rename_i short
      cases found
      exact ⟨front, isPath, walked, isDirectory, Nat.le_of_not_lt short⟩
  · cases found
  · cases found

/-- Where nothing is found and yet something can be put, nothing is there.  What
is put there is found under the same path. -/
theorem missing_of_locateParent
    {path last : String} (missing : tree.locate path = .error (.os notFound))
    (found : tree.locateParent path = .ok (names, last)) :
    tree.node? (names ++ [last]) = none ∧
      ∀ {emptied : List String → Prop} {large : FileTree},
        Grows emptied tree large → (large.node? (names ++ [last])).isSome →
          large.locate path = .ok (names ++ [last]) := by
  obtain ⟨front, isPath, walked, isDirectory, short⟩ := exists_of_locateParent found
  have rooted : Rooted tree names := rooted_nil.walk walked
  have lastStep :
      ∀ {large : FileTree}, large.walk [] front = .ok names →
        large.node? names = some .directory →
          large.locate path =
            if (large.node? (step names last)).isSome then .ok (step names last)
            else .error (.os notFound) := by
    intro large walked isDirectory
    unfold locate
    rw [isPath]
    change large.walk [] (front ++ [last]) = _
    rw [walk_append, walked, Except.bind, walk, isDirectory]
    simp only [Nat.not_lt.mpr short, if_false]
    rfl
  rw [lastStep walked isDirectory] at missing
  split at missing
  · cases missing
  · rename_i absent
    rw [Option.not_isSome_iff_eq_none] at absent
    have down := step_eq_append rooted isDirectory absent
    rw [down] at absent
    refine ⟨absent, fun grows there => ?_⟩
    rw [lastStep (grows.walk walked) (grows.directory isDirectory), down, if_pos there]

/-! ## New files and directories -/

/-- Writing nothing to a path makes it an empty file, and touches no other
file. -/
theorem exists_of_write_nil {path : String} (written : small.write path [] = .ok large) :
    ∃ names, large.locate path = .ok names ∧ large.node? names = some (.file []) ∧
      Grows (· = names) small large := by
  unfold write at written
  cases located : small.locate path with
  | ok names =>
      simp only [located] at written
      split at written
      · rename_i contents isFile
        cases written
        have below : names ≠ [] := by
          rintro rfl
          cases isFile
        have grows : Grows (· = names) small (small.put names (.file [])) := by
          intro other
          by_cases same : other = names
          · subst same
            refine Or.inr (Or.inr ⟨rfl, ?_, node?_put_self below _⟩)
            rw [isFile]
            exact nofun
          · exact Or.inl (node?_put_of_ne same _)
        exact ⟨names, grows.locate located, node?_put_self below _, grows⟩
      · cases written
  | error fault =>
      simp only [located] at written
      split at written
      · cases written
      · rename_i isMissing
        obtain rfl := not_not.mp isMissing
        split at written
        · obtain ⟨_, _, written⟩ := bind_eq_ok_iff.mp written
          cases written
        · obtain ⟨⟨names, last⟩, found, written⟩ := bind_eq_ok_iff.mp written
          cases written
          obtain ⟨isNew, locates⟩ := missing_of_locateParent located found
          have below : names ++ [last] ≠ [] := List.concat_ne_nil last names
          have grows :
              Grows (· = names ++ [last]) small (small.put (names ++ [last]) (.file [])) :=
            Grows.put below isNew (Or.inr ⟨rfl, rfl⟩)
          have there :
              (small.put (names ++ [last]) (.file [])).node? (names ++ [last]) =
                some (.file []) :=
            node?_put_self below _
          exact ⟨_, locates grows (Option.isSome_of_eq_some there), there, grows⟩

/-- A path ends in a name. -/
def EndsInName (path : String) : Prop :=
  ∃ front name, path = front ++ "/" ++ name ∧ name ≠ "" ∧ '/' ∉ name.toList

theorem EndsInName.dropEndWhile {path : String} (ends : EndsInName path) :
    (path.dropEndWhile '/').toString = path := by
  obtain ⟨front, name, rfl, nonempty, whole⟩ := ends
  have last : (front ++ "/" ++ name).endsWith '/' = false := by
    obtain ⟨characters, c, shape⟩ :=
      (List.eq_nil_or_concat' name.toList).resolve_left
        (mt String.toList_eq_nil_iff.mp nonempty)
    have other : c ≠ '/' := by
      rintro rfl
      rw [shape] at whole
      exact whole (List.mem_append_right characters List.mem_cons_self)
    rw [String.endsWith_char_eq_getLast?, String.toList_append, shape, ← List.append_assoc,
      List.getLast?_concat]
    simpa using other
  rw [String.dropEndWhile_eq_toSlice last]
  exact String.copy_toSlice

theorem grows_createDirectory
    {path : String}
    (ends : EndsInName path)
    (created : small.createDirectory path = .ok large) :
    Grows emptied small large := by
  unfold createDirectory at created
  cases located : small.locate path with
  | ok names =>
      rw [located] at created
      cases created
  | error fault =>
      simp only [located] at created
      split at created
      · rename_i isMissing
        obtain rfl := isMissing
        rw [ends.dropEndWhile] at created
        obtain ⟨⟨names, last⟩, found, created⟩ := bind_eq_ok_iff.mp created
        cases created
        exact
          Grows.put (List.concat_ne_nil last names)
            (missing_of_locateParent located found).1 (Or.inl rfl)
      · cases created

/-- The pieces are names, none of which holds a slash. -/
def PlainPieces (pieces : List String) : Prop :=
  ∀ piece ∈ pieces, piece ≠ "" ∧ '/' ∉ piece.toList

theorem endsInName_intercalate {last : String} {above : List String}
    (plain : PlainPieces (last :: above)) :
    EndsInName ("/" ++ String.intercalate "/" (last :: above).reverse) := by
  obtain ⟨nonempty, whole⟩ := plain last List.mem_cons_self
  rw [List.reverse_cons]
  by_cases top : above.reverse = []
  · refine ⟨"", last, ?_, nonempty, whole⟩
    rw [top, List.nil_append, String.intercalate_singleton, String.empty_append]
  · refine ⟨"/" ++ String.intercalate "/" above.reverse, last, ?_, nonempty, whole⟩
    rw [String.intercalate_append_of_ne_nil top (List.cons_ne_nil last []),
      String.intercalate_singleton]
    simp only [String.append_assoc]

theorem grows_createChain
    {pieces : List String} (plain : PlainPieces pieces)
    (created : small.createChain pieces = .ok large) : Grows emptied small large := by
  induction pieces generalizing large with
  | nil =>
      cases created
      exact Grows.refl small
  | cons last above inductionHypothesis =>
      have ends := endsInName_intercalate plain
      have plainAbove : PlainPieces above :=
        fun piece member => plain piece (List.mem_cons_of_mem last member)
      simp only [createChain] at created
      split at created
      · rename_i found directory
        cases created
        exact grows_createDirectory ends directory
      · split at created
        · obtain ⟨middle, higher, created⟩ := bind_eq_ok_iff.mp created
          have below := inductionHypothesis plainAbove higher
          split at created
          · rename_i found directory
            cases created
            exact below.trans (grows_createDirectory ends directory)
          · split at created
            · cases created
              exact below
            · cases created
        · split at created
          · cases created
            exact Grows.refl small
          · cases created

/-- Making directories only adds directories. -/
theorem grows_createDirectories
    {path : String} (created : small.createDirectories path = .ok large) :
    Grows emptied small large := by
  rw [createDirectories] at created
  split at created
  · cases created
    exact Grows.refl small
  · obtain ⟨all, isPath, created⟩ := bind_eq_ok_iff.mp created
    refine grows_createChain ?_ created
    intro piece member
    rw [List.mem_reverse, List.mem_filter, eq_split_of_pieces isPath] at member
    obtain ⟨isPiece, isName⟩ := member
    obtain ⟨characters, isPart, rfl⟩ := List.mem_map.mp isPiece
    rw [Bool.and_eq_true, decide_eq_true_eq] at isName
    refine ⟨isName.1, ?_⟩
    rw [String.toList_ofList]
    exact Text.notMem_of_mem_splitOn isPart

end Host.FileTree

end ReviewDiff
