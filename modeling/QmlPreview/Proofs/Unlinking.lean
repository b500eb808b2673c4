import QmlPreview.Proofs.Walking

/-! Removing files from a directory. A file is reached through its directory, and once it is removed
every other place is as it was; the way to the directory does not lead through its files. -/

namespace QmlPreview.FileTree

open Relation (ReflTransGen)

variable {t : FileTree} {w w' : Walk} {base here loc file : Location} {dir p : Path}
  {node : Node} {name : Text}

theorem lookup_filter (keep : Location → Bool) (entries : List (Location × Node)) (loc : Location) :
    (entries.filter (fun e => keep e.1)).lookup loc =
      if keep loc then entries.lookup loc else none := by
  induction entries with
  | nil => exact (ite_self _).symm
  | cons e rest ih =>
      obtain ⟨key, node⟩ := e
      rw [List.filter_cons, List.lookup_cons]
      by_cases same : loc = key
      · subst same
        rw [beq_self_eq_true]
        cases kept : keep loc with
        | true => rw [if_pos rfl, if_pos rfl, List.lookup_cons, beq_self_eq_true]
        | false =>
            rw [if_neg Bool.false_ne_true, if_neg Bool.false_ne_true, ih, kept,
              if_neg Bool.false_ne_true]
      · have other : (loc == key) = false := beq_eq_false_iff_ne.mpr same
        rw [other]
        cases keep key with
        | true => rw [if_pos rfl, List.lookup_cons, other, ih]
        | false => rw [if_neg Bool.false_ne_true, ih]

/-- What is erased is gone, with all that is below it. -/
theorem node?_erase (below : file ≠ []) :
    (t.erase file).node? loc = if file.isPrefixOf loc then none else t.node? loc := by
  cases loc with
  | nil =>
      cases file with
      | nil => exact absurd rfl below
      | cons => rfl
  | cons name rest =>
      refine (lookup_filter (fun l => !file.isPrefixOf l) _ _).trans ?_
      cases file.isPrefixOf (name :: rest) <;> rfl

/-- Above each place there are directories only. -/
theorem WellFormed.isDirectoryAt_of_prefix (wf : t.WellFormed) {above : Location}
    (found : t.node? loc = some node) (before : above <+: loc) (other : above ≠ loc) :
    t.isDirectoryAt above = true := by
  induction loc using List.reverseRecOn generalizing node with
  | nil => exact absurd (List.prefix_nil.mp before) other
  | append_singleton dir name ih =>
      have asks := wf.asks found
      obtain same | before := List.prefix_concat_iff.mp before
      · exact absurd same other
      · obtain ⟨modified, there⟩ := isDirectoryAt_iff.mp asks.directory
        by_cases same : above = dir
        · exact same ▸ asks.directory
        · exact ih there before same

/-- Nothing is below an entry that is no directory. -/
theorem WellFormed.eq_of_prefix (wf : t.WellFormed) {entry : Node}
    (stands : t.node? file = some entry) (plain : entry.isDirectory = false)
    (found : t.node? loc = some node) (before : file <+: loc) : file = loc := by
  by_contra other
  obtain ⟨_, directory⟩ := isDirectoryAt_iff.mp (wf.isDirectoryAt_of_prefix found before other)
  cases stands.symm.trans directory
  cases plain

/-- Only from a directory a walk moves on. -/
theorem Moves.isDirectoryAt (moves : t.Moves w w') : t.isDirectoryAt w.here = true := by
  cases moves with
  | stay here | up here => exact here
  | enter asks | follow asks => exact asks.directory

section
variable (wf : t.WellFormed) {entry : Node} (stands : t.node? file = some entry)
  (plain : entry.isDirectory = false)
include wf stands plain

/-- Erasing an entry that is no directory changes nothing else. -/
theorem node?_erase_entry :
    (t.erase file).node? loc = if loc = file then none else t.node? loc := by
  have below : file ≠ [] := by
    rintro rfl
    cases stands
    cases plain
  rw [node?_erase below]
  by_cases before : file.isPrefixOf loc = true
  · rw [if_pos before]
    split
    · rfl
    · rename_i other
      cases found : t.node? loc with
      | none => rfl
      | some node =>
          have same := wf.eq_of_prefix stands plain found (List.isPrefixOf_iff_prefix.mp before)
          exact absurd same.symm other
  · have other : loc ≠ file := by
      rintro rfl
      exact before (List.isPrefixOf_iff_prefix.mpr (List.prefix_refl _))
    rw [if_neg before, if_neg other]

theorem isDirectoryAt_erase_entry (directory : t.isDirectoryAt loc = true) :
    (t.erase file).isDirectoryAt loc = true := by
  obtain ⟨modified, found⟩ := isDirectoryAt_iff.mp directory
  have other : loc ≠ file := by
    rintro rfl
    cases stands.symm.trans found
    cases plain
  rw [isDirectoryAt_iff, node?_erase_entry wf stands plain, if_neg other]
  exact ⟨modified, found⟩

theorem wellFormed_erase_entry : (t.erase file).WellFormed := by
  have kept : ∀ entry ∈ (t.erase file).entries, entry ∈ t.entries := fun _ h =>
    (List.mem_filter.mp h).1
  refine ⟨?_, fun e h => wf.below e (kept e h), fun e h => wf.named e (kept e h),
    fun e h => isDirectoryAt_erase_entry wf stands plain (wf.inside e (kept e h))⟩
  exact wf.distinct.sublist (List.filter_sublist.map _)

end

section
variable (wf : t.WellFormed) {bytes : List UInt8} {modified : Time}
  (stands : t.node? file = some (.file bytes modified))
include wf stands

/-- A walk to a directory goes the same way once the file is erased. -/
theorem Moves.erase_file (moves : t.Moves w w') (directory : t.isDirectoryAt w'.here = true) :
    (t.erase file).Moves w w' := by
  have asks {here : Location} {name : Text} (asks : t.Asks here name) :
      (t.erase file).Asks here name :=
    ⟨isDirectoryAt_erase_entry wf stands rfl asks.directory, asks.loud, asks.inner, asks.short⟩
  have other {loc : Location} {node : Node} (found : t.node? loc = some node)
      (kind : node ≠ .file bytes modified) : (t.erase file).node? loc = some node := by
    have apart : loc ≠ file := by
      rintro rfl
      exact kind (Option.some.inj (found.symm.trans stands))
    rw [node?_erase_entry wf stands rfl, if_neg apart, found]
  cases moves with
  | stay here silent => exact .stay (isDirectoryAt_erase_entry wf stands rfl here) silent
  | up here => exact .up (isDirectoryAt_erase_entry wf stands rfl here)
  | enter asked found plain =>
      obtain ⟨modified', there⟩ := isDirectoryAt_iff.mp directory
      obtain rfl := Option.some.inj (found.symm.trans there)
      exact .enter (asks asked) (other found nofun) plain
  | follow asked found few => exact .follow (asks asked) (other found nofun) few

theorem moves_erase_file (moves : ReflTransGen t.Moves w w')
    (directory : t.isDirectoryAt w'.here = true) : ReflTransGen (t.erase file).Moves w w' := by
  induction moves using ReflTransGen.head_induction_on with
  | refl => exact .refl
  | @head _ next first later ih =>
      have onward : t.isDirectoryAt next.here = true := by
        obtain rfl | ⟨_, onward, _⟩ := later.cases_head
        · exact directory
        · exact onward.isDirectoryAt
      exact .head (first.erase_file wf stands onward) ih

/-- A path that leads to a directory still does once the file is erased. -/
theorem Leads.erase_file (leads : t.Leads base p (.place loc))
    (directory : t.isDirectoryAt loc = true) : (t.erase file).Leads base p (.place loc) := by
  obtain ⟨whole, nonempty, w, moves, ends⟩ := leads
  cases ends with
  | arrived => exact ⟨whole, nonempty, _, moves_erase_file wf stands moves directory, .arrived⟩

end

/-- A last step that says nothing can be left out. -/
theorem moves_of_silent_last {front : List Text} {last : Text} {n n' : Nat}
    (silent : Path.isSilent last = true)
    (moves : ReflTransGen t.Moves ⟨here, front ++ [last], n⟩ ⟨loc, [], n'⟩) :
    ReflTransGen t.Moves ⟨here, front, n⟩ ⟨loc, [], n'⟩ := by
  generalize start : (⟨here, front ++ [last], n⟩ : Walk) = w at moves
  induction moves using ReflTransGen.head_induction_on generalizing here front n with
  | refl =>
      have none := congrArg Walk.ahead start
      exact absurd none (List.append_ne_nil_of_right_ne_nil _ (List.cons_ne_nil _ _))
  | head first later ih =>
      subst start
      cases front with
      | nil =>
          cases first with
          | stay => exact later
          | up => cases silent
          | enter asks | follow asks => cases silent.symm.trans asks.loud
      | cons step rest =>
          cases first with
          | stay there silent => exact .head (.stay there silent) (ih rfl)
          | up there => exact .head (.up there) (ih rfl)
          | enter asks found plain => exact .head (.enter asks found plain) (ih rfl)
          | @follow _ _ _ _ target _ asks found few =>
              have same := List.append_assoc (steps target) rest [last]
              exact .head (.follow asks found few) (ih (congrArg (Walk.mk _ · _) same))

theorem isAbsolute_append (nonempty : dir ≠ []) (more : Text) :
    Path.isAbsolute (dir ++ more) = Path.isAbsolute dir := by
  cases dir with
  | nil => exact absurd rfl nonempty
  | cons => rfl

theorem join_eq (nonempty : dir ≠ []) (slashless : '/' ∉ name) :
    Path.join dir name = if dir.getLast? = some '/' then dir ++ name else dir ++ '/' :: name := by
  rw [Path.join, Path.isAbsolute_eq_false slashless, if_neg Bool.false_ne_true,
    List.isEmpty_eq_false_iff.mpr nonempty, if_neg Bool.false_ne_true]

theorem steps_append_cons (nonempty : dir ≠ []) (more : Text) :
    steps (dir ++ '/' :: more) = steps dir ++ more.splitOn '/' := by
  rw [steps, steps, isAbsolute_append nonempty]
  cases dir with
  | nil => exact absurd rfl nonempty
  | cons c rest =>
      split
      · exact List.splitOn_append_cons_self rest more
      · exact List.splitOn_append_cons_self (c :: rest) more

/-- The steps to a name in a directory are those to the directory and then the name. A slash at the end
of the directory makes no step. -/
theorem steps_join (nonempty : dir ≠ []) (slashless : '/' ∉ name) :
    ∃ front, steps (Path.join dir name) = front ++ [name] ∧
      (steps dir = front ∨ steps dir = front ++ [[]]) := by
  have named : name.splitOn '/' = [name] := List.splitOn_eq_singleton slashless
  rw [join_eq nonempty slashless]
  split
  case isTrue closed =>
    obtain ⟨front, rfl⟩ := List.getLast?_eq_some_iff.mp closed
    rw [List.append_assoc, List.singleton_append]
    by_cases empty : front = []
    · subst empty
      exact ⟨[], named, .inr rfl⟩
    · refine ⟨steps front, ?_, .inr (steps_append_cons empty [])⟩
      rw [steps_append_cons empty, named]
  case isFalse =>
    refine ⟨steps dir, ?_, .inl rfl⟩
    rw [steps_append_cons nonempty, named]

theorem origin_join (nonempty : dir ≠ []) (slashless : '/' ∉ name) :
    origin base (Path.join dir name) = origin base dir := by
  rw [join_eq nonempty slashless]
  split <;> rw [origin, origin, isAbsolute_append nonempty]

theorem mem_join {c : Char} (h : c ∈ Path.join dir name) : c ∈ dir ∨ c = '/' ∨ c ∈ name := by
  rw [Path.join] at h
  split at h
  · exact .inr (.inr h)
  · split at h
    · exact .inr (.inr h)
    · split at h
      · exact (List.mem_append.mp h).imp_right .inr
      · exact (List.mem_append.mp h).imp_right List.mem_cons.mp

/-- A path to a directory and then a name lead to the entry of that name. A link that stands there is not
followed. -/
theorem Leads.lookUp_join (leads : t.Leads base dir (.place loc))
    (directory : t.isDirectoryAt loc = true) (named : IsName name)
    (found : t.node? (loc ++ [name]) = some node)
    (near : Text.byteLength (Path.join dir name) ≤ pathLimit) :
    t.lookUp false base (Path.join dir name) = .ok (loc ++ [name], node) := by
  obtain ⟨whole, nonempty, w, moves, ends⟩ := leads
  have contains : (Path.join dir name).contains '\x00' = false := by
    rw [List.contains_eq_mem, decide_eq_false_iff_not]
    intro h
    obtain inDir | slash | inName := mem_join h
    · exact whole inDir
    · cases slash
    · exact named.whole inName
  obtain ⟨front, steps, front_of⟩ := steps_join nonempty named.slashless
  have spelled : (Path.join dir name).isEmpty = false := by
    cases empty : Path.join dir name with
    | nil =>
        rw [empty] at steps
        have last := congrArg List.getLast? steps
        rw [List.getLast?_concat] at last
        cases last
        cases named.loud
    | cons => rfl
  have asks : t.Asks loc name := ⟨directory, named.loud, named.inner, named.short⟩
  cases ends with
  | @arrived _ n =>
      have moves : ReflTransGen t.Moves ⟨origin base dir, front, 0⟩ ⟨loc, [], n⟩ := by
        obtain same | same := front_of
        · exact same ▸ moves
        · exact moves_of_silent_last rfl (same ▸ moves)
      have walked := @walk_eq_of_moves t _ _ false [name] moves (.inr (List.cons_ne_nil _ _))
      have reached : t.walk false (linkLimit - n) loc [name] = .ok (loc ++ [name]) := by
        rw [walk_asks asks, found]
        cases node with
        | link => rfl
        | file | directory =>
            dsimp only
            rw [walk]
      have located : t.locate false base (Path.join dir name) = .ok (loc ++ [name]) := by
        rw [locate, contains, spelled, if_neg Bool.false_ne_true, if_neg Bool.false_ne_true, steps,
          origin_join nonempty named.slashless]
        exact walked.trans reached
      rw [lookUp, find, if_neg (Nat.not_lt.mpr near), located]
      simp only [bind, Except.bind, found]

theorem lookUp_eq_ok_iff {followLast : Bool} : t.lookUp followLast base p = .ok (loc, node) ↔
    t.find followLast base p = .ok loc ∧ t.node? loc = some node := by
  rw [lookUp]
  cases t.find followLast base p with
  | error fault =>
      constructor
      · intro h
        cases h
      · rintro ⟨h, _⟩
        cases h
  | ok place =>
      simp only [bind, Except.bind, Except.ok.injEq]
      cases found : t.node? place with
      | none =>
          constructor
          · intro h
            cases h
          · rintro ⟨rfl, there⟩
            cases found.symm.trans there
      | some entry =>
          simp only [Except.ok.injEq, Prod.mk.injEq]
          constructor
          · rintro ⟨rfl, rfl⟩
            exact ⟨rfl, found⟩
          · rintro ⟨rfl, there⟩
            exact ⟨rfl, Option.some.inj (found.symm.trans there)⟩

theorem locate_of_find {followLast : Bool} (found : t.find followLast base p = .ok loc) :
    t.locate followLast base p = .ok loc := by
  rw [find] at found
  split at found
  · cases found
  · exact found

/-- What a path is found to lead to, it leads to. -/
theorem leads_of_lookUp (looked : t.lookUp true base p = .ok (loc, node)) :
    t.Leads base p (.place loc) ∧ t.node? loc = some node := by
  obtain ⟨place, found⟩ := lookUp_eq_ok_iff.mp looked
  have located := locate_of_find place
  have whole : '\x00' ∉ p := by
    intro h
    have contains : p.contains '\x00' = true := by rwa [List.contains_eq_mem, decide_eq_true_iff]
    rw [locate, contains, if_pos rfl] at located
    cases located
  have nonempty : p ≠ [] := by
    rintro rfl
    cases located
  obtain ⟨ending, leads⟩ := t.exists_leads base whole nonempty
  have answered := leads.locate_eq.symm.trans located
  cases ending with
  | place =>
      cases answered
      exact ⟨leads, found⟩
  | missing place beyond =>
      cases beyond with
      | nil =>
          cases answered
          cases leads.node?_of_missing.symm.trans found
      | cons => cases answered
  | refused => cases answered

theorem nameIn_eq_some_iff {key : Location} :
    (match key.getLast? with
      | some last => if key.dropLast = loc then some last else none
      | none => none) = some name ↔ key = loc ++ [name] := by
  cases key using List.reverseRecOn with
  | nil => simp
  | append_singleton dir last => simp

theorem mem_names_entries : name ∈ t.names loc ↔ ∃ entry ∈ t.entries, entry.1 = loc ++ [name] :=
  List.mem_filterMap.trans (exists_congr fun _ => and_congr_right fun _ => nameIn_eq_some_iff)

theorem mem_names_iff : name ∈ t.names loc ↔ (t.node? (loc ++ [name])).isSome = true := by
  have lookup : t.node? (loc ++ [name]) = t.entries.lookup (loc ++ [name]) := by
    cases loc <;> rfl
  rw [lookup, mem_names_entries]
  constructor
  · rintro ⟨entry, h, key⟩
    cases found : t.entries.lookup (loc ++ [name]) with
    | some => rfl
    | none =>
        have other := List.lookup_eq_none_iff.mp found entry h
        rw [key, bne_self_eq_false] at other
        cases other
  · intro found
    obtain ⟨node, found⟩ := Option.isSome_iff_exists.mp found
    exact ⟨_, mem_entries_of_node? (lookup.trans found)
      (List.append_ne_nil_of_right_ne_nil _ (List.cons_ne_nil _ _)), rfl⟩

theorem WellFormed.nodup_names (wf : t.WellFormed) (loc : Location) : (t.names loc).Nodup := by
  refine List.pairwise_filterMap.mpr ((List.pairwise_map.mp wf.distinct).imp ?_)
  rintro entry entry' apart name named _ named' rfl
  exact apart ((nameIn_eq_some_iff.mp named).trans (nameIn_eq_some_iff.mp named').symm)

theorem eq_or_getLast? {step : Text} {rest : List Text}
    (last : (step :: rest).getLast? = some name) :
    rest = [] ∧ step = name ∨ rest.getLast? = some name := by
  cases rest with
  | nil => exact .inl ⟨rfl, Option.some.inj last⟩
  | cons => exact .inr last

/-- A walk that follows no link at its end ends at the name that it asks for last. -/
theorem exists_parent_of_walk {links : Nat} {steps : List Text} (last : steps.getLast? = some name)
    (loud : Path.isSilent name = false) (inner : name ≠ ['.', '.'])
    (walked : t.walk false links here steps = .ok loc) : ∃ parent, loc = parent ++ [name] := by
  fun_induction FileTree.walk t false links here steps with
  | case1 => cases last
  | case2 | case5 | case7 | case9 => cases walked
  | case3 _ _ _ _ _ silent ih =>
      -- A step that says nothing is not the last one, and neither is one that goes up.
      obtain ⟨-, rfl⟩ | later := eq_or_getLast? last
      · cases loud.symm.trans silent
      · exact ih later walked
  | case4 _ _ _ _ _ ih =>
      obtain ⟨-, same⟩ | later := eq_or_getLast? last
      · exact absurd same.symm inner
      · exact ih later walked
  | case6 _ here _ _ _ _ _ _ _ _ alone =>
      -- Nothing stands under the last name.
      rw [List.isEmpty_iff.mp alone] at last
      cases last
      exact ⟨here, (Except.ok.inj walked).symm⟩
  | case8 _ here _ _ _ _ _ _ _ _ _ _ alone =>
      -- A link stands under the last name.
      rw [Bool.not_false, Bool.and_true, List.isEmpty_iff] at alone
      rw [alone] at last
      cases last
      exact ⟨here, (Except.ok.inj walked).symm⟩
  | case10 _ _ rest _ _ _ _ _ target _ _ more _ ih =>
      -- A link on the way leaves the steps after it as they are.
      obtain ⟨none, -⟩ | later := eq_or_getLast? last
      · rw [none] at more
        exact absurd rfl more
      · refine ih ?_ walked
        rw [List.getLast?_append, later, Option.some_or]
  | case11 _ here _ rest _ _ _ _ _ _ _ _ ih =>
      obtain ⟨none, rfl⟩ | later := eq_or_getLast? last
      · rw [none, walk] at walked
        exact ⟨here, (Except.ok.inj walked).symm⟩
      · exact ih later walked

theorem getLast?_steps_join (slashless : '/' ∉ name) :
    (steps (Path.join dir name)).getLast? = some name := by
  by_cases empty : dir = []
  · have alone : Path.join dir name = name := by
      rw [empty, Path.join, Path.isAbsolute_eq_false slashless]
      rfl
    rw [alone, steps, Path.isAbsolute_eq_false slashless, if_neg Bool.false_ne_true,
      List.splitOn_eq_singleton slashless]
    rfl
  · obtain ⟨front, steps, -⟩ := steps_join empty slashless
    rw [steps, List.getLast?_concat]

theorem walk_of_locate {followLast : Bool} (located : t.locate followLast base p = .ok loc) :
    t.walk followLast linkLimit (origin base p) (steps p) = .ok loc := by
  rw [locate] at located
  split at located
  · cases located
  · split at located
    · cases located
    · exact located

/-- Removing a path takes away an entry that is no directory. -/
theorem exists_of_remove {t' : FileTree} (removed : t.remove base p = .ok t') :
    ∃ loc entry, t.walk false linkLimit (origin base p) (steps p) = .ok loc ∧
      t.node? loc = some entry ∧ entry.isDirectory = false ∧ t' = t.erase loc := by
  rw [remove] at removed
  cases looked : t.lookUp false base p with
  | error fault =>
      rw [looked] at removed
      cases removed
  | ok found =>
      obtain ⟨loc, entry⟩ := found
      obtain ⟨there, stands⟩ := lookUp_eq_ok_iff.mp looked
      rw [looked] at removed
      cases entry with
      | directory => cases removed
      | file | link =>
          refine ⟨loc, _, walk_of_locate (locate_of_find there), stands, rfl, ?_⟩
          cases removed
          rfl

end QmlPreview.FileTree
