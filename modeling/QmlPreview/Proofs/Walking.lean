import Mathlib.Data.List.Induction
import Mathlib.Logic.Relation
import QmlPreview.FileTree
import QmlPreview.Proofs.SideFileNames

/-! Where paths lead, said one step at a time. A walk stays where it is, goes up, enters what a name
stands for, or follows a link; it ends at a place, at a name that stands for nothing, or where it is
refused to go on. -/

namespace QmlPreview

def Node.isLink : Node → Bool
  | .link _ _ => true
  | .file _ _ | .directory _ => false

namespace FileTree

/-- A name that an entry of a directory can have. -/
structure IsName (name : Text) : Prop where
  loud : Path.isSilent name = false
  inner : name ≠ ['.', '.']
  slashless : '/' ∉ name
  whole : '\x00' ∉ name
  short : Text.byteLength name ≤ nameLimit

instance (name : Text) : Decidable (IsName name) :=
  decidable_of_iff (Path.isSilent name = false ∧ name ≠ ['.', '.'] ∧ '/' ∉ name ∧ '\x00' ∉ name ∧
    Text.byteLength name ≤ nameLimit)
    ⟨fun ⟨loud, inner, slashless, whole, short⟩ => ⟨loud, inner, slashless, whole, short⟩,
      fun ⟨loud, inner, slashless, whole, short⟩ => ⟨loud, inner, slashless, whole, short⟩⟩

/-- Every entry has a location of its own and a name in a directory. -/
structure WellFormed (t : FileTree) : Prop where
  distinct : (t.entries.map Prod.fst).Nodup
  below : ∀ entry ∈ t.entries, entry.1 ≠ []
  named : ∀ entry ∈ t.entries, ∀ name ∈ entry.1, IsName name
  inside : ∀ entry ∈ t.entries, t.isDirectoryAt entry.1.dropLast = true

/-- Where a walk is, the steps ahead of it, and how many links it has followed. -/
structure Walk where
  here : Location
  ahead : List Text
  followed : Nat

structure Asks (t : FileTree) (here : Location) (step : Text) : Prop where
  directory : t.isDirectoryAt here = true
  loud : Path.isSilent step = false
  inner : step ≠ ['.', '.']
  short : Text.byteLength step ≤ nameLimit

instance (t : FileTree) (here : Location) (step : Text) : Decidable (t.Asks here step) :=
  decidable_of_iff (t.isDirectoryAt here = true ∧ Path.isSilent step = false ∧ step ≠ ['.', '.'] ∧
    Text.byteLength step ≤ nameLimit)
    ⟨fun ⟨directory, loud, inner, short⟩ => ⟨directory, loud, inner, short⟩,
      fun ⟨directory, loud, inner, short⟩ => ⟨directory, loud, inner, short⟩⟩

inductive Moves (t : FileTree) : Walk → Walk → Prop
  | stay {here : Location} {step : Text} {rest : List Text} {n : Nat} :
      t.isDirectoryAt here = true → Path.isSilent step = true →
      Moves t ⟨here, step :: rest, n⟩ ⟨here, rest, n⟩
  | up {here : Location} {rest : List Text} {n : Nat} : t.isDirectoryAt here = true →
      Moves t ⟨here, ['.', '.'] :: rest, n⟩ ⟨here.dropLast, rest, n⟩
  | enter {here : Location} {name : Text} {rest : List Text} {n : Nat} {node : Node} :
      t.Asks here name → t.node? (here ++ [name]) = some node → node.isLink = false →
      Moves t ⟨here, name :: rest, n⟩ ⟨here ++ [name], rest, n⟩
  | follow {here : Location} {name : Text} {rest : List Text} {n : Nat} {target : Path}
      {modified : Time} : t.Asks here name →
      t.node? (here ++ [name]) = some (.link target modified) → n < linkLimit →
      Moves t ⟨here, name :: rest, n⟩ ⟨origin here target, steps target ++ rest, n + 1⟩

inductive Ending where
  | place (loc : Location)
  /-- Nothing stands at the location; the steps beyond it are not taken. -/
  | missing (loc : Location) (beyond : List Text)
  | refused (fault : Fault)
  deriving DecidableEq, Repr

inductive Ends (t : FileTree) : Walk → Ending → Prop
  | arrived {here : Location} {n : Nat} : Ends t ⟨here, [], n⟩ (.place here)
  | missing {here : Location} {name : Text} {rest : List Text} {n : Nat} :
      t.Asks here name → t.node? (here ++ [name]) = none →
      Ends t ⟨here, name :: rest, n⟩ (.missing (here ++ [name]) rest)
  | outside {here : Location} {step : Text} {rest : List Text} {n : Nat} :
      t.isDirectoryAt here = false →
      Ends t ⟨here, step :: rest, n⟩ (.refused .notDirectory)
  | long {here : Location} {step : Text} {rest : List Text} {n : Nat} :
      t.isDirectoryAt here = true → Path.isSilent step = false → step ≠ ['.', '.'] →
      nameLimit < Text.byteLength step →
      Ends t ⟨here, step :: rest, n⟩ (.refused .nameTooLong)
  | circling {here : Location} {name : Text} {rest : List Text} {n : Nat} {target : Path}
      {modified : Time} : t.Asks here name →
      t.node? (here ++ [name]) = some (.link target modified) → linkLimit ≤ n →
      Ends t ⟨here, name :: rest, n⟩ (.refused .tooManyLinks)

/-- What walking says about an ending: a place where nothing stands yet is one if no steps lie beyond
it. -/
def Ending.answer : Ending → Except Fault Location
  | place loc => .ok loc
  | missing loc [] => .ok loc
  | missing _ (_ :: _) => .error .noEntry
  | refused fault => .error fault

/-- What following the path from a directory ends at. -/
structure Leads (t : FileTree) (base : Location) (p : Path) (ending : Ending) : Prop where
  whole : '\x00' ∉ p
  nonempty : p ≠ []
  walked : ∃ w, Relation.ReflTransGen t.Moves ⟨origin base p, steps p, 0⟩ w ∧ t.Ends w ending

variable {t : FileTree} {w w' : Walk} {ending : Ending} {base here loc : Location} {p : Path}
  {node : Node} {name : Text}

open Relation (ReflTransGen)

theorem isDirectoryAt_iff : t.isDirectoryAt loc = true ↔
    ∃ modified, t.node? loc = some (.directory modified) := by
  rw [isDirectoryAt, Option.any_eq_true]
  constructor
  · rintro ⟨node, found, directory⟩
    cases node with
    | file | link => cases directory
    | directory modified => exact ⟨modified, found⟩
  · rintro ⟨modified, found⟩
    exact ⟨_, found, rfl⟩

theorem mem_entries_of_node? (found : t.node? loc = some node) (below : loc ≠ []) :
    (loc, node) ∈ t.entries := by
  have lookup : t.entries.lookup loc = some node := by
    cases loc with
    | nil => exact absurd rfl below
    | cons => exact found
  obtain ⟨before, after, entries, -⟩ := List.lookup_eq_some_iff.mp lookup
  rw [entries]
  exact List.mem_append_right _ List.mem_cons_self

namespace WellFormed

variable (wf : t.WellFormed)
include wf

theorem isDirectoryAt_dropLast (found : t.node? loc = some node) :
    t.isDirectoryAt loc.dropLast = true := by
  cases loc with
  | nil => rfl
  | cons name rest => exact wf.inside _ (mem_entries_of_node? found (List.cons_ne_nil _ _))

theorem isName (found : t.node? loc = some node) : ∀ name ∈ loc, IsName name := by
  cases loc with
  | nil => nofun
  | cons name rest => exact wf.named _ (mem_entries_of_node? found (List.cons_ne_nil _ _))

theorem asks (found : t.node? (here ++ [name]) = some node) : t.Asks here name := by
  have directory := wf.isDirectoryAt_dropLast found
  rw [List.dropLast_concat] at directory
  have named := wf.isName found name (List.mem_append_right _ List.mem_cons_self)
  exact ⟨directory, named.loud, named.inner, named.short⟩

end WellFormed

/-- A walk that moved stands at a node, which is no link. -/
theorem Moves.exists_node (wf : t.WellFormed) (moves : t.Moves w w') :
    ∃ node, t.node? w'.here = some node ∧ node.isLink = false := by
  have directory {loc : Location} (h : t.isDirectoryAt loc = true) :
      ∃ node, t.node? loc = some node ∧ node.isLink = false := by
    obtain ⟨modified, found⟩ := isDirectoryAt_iff.mp h
    exact ⟨_, found, rfl⟩
  cases moves with
  | stay here => exact directory here
  | up here =>
      obtain ⟨modified, found⟩ := isDirectoryAt_iff.mp here
      exact directory (wf.isDirectoryAt_dropLast found)
  | enter _ found plain => exact ⟨_, found, plain⟩
  | @follow _ _ _ _ target _ asks =>
      dsimp only [origin]
      split
      · exact directory rfl
      · exact directory asks.directory

section
variable {followLast : Bool} {links : Nat} {rest : List Text}

theorem walk_stay (directory : t.isDirectoryAt here = true) (silent : Path.isSilent name = true) :
    t.walk followLast links here (name :: rest) = t.walk followLast links here rest := by
  rw [walk]
  simp only [directory, silent, Bool.not_true, Bool.false_eq_true, if_false, if_true]

theorem walk_up (directory : t.isDirectoryAt here = true) :
    t.walk followLast links here (['.', '.'] :: rest) =
      t.walk followLast links here.dropLast rest := by
  have loud : Path.isSilent ['.', '.'] = false := rfl
  rw [walk]
  simp only [directory, loud, Bool.not_true, Bool.false_eq_true, if_false, if_true]

/-- What a walk does at a name. -/
theorem walk_asks (asks : t.Asks here name) : t.walk followLast links here (name :: rest) =
    match t.node? (here ++ [name]) with
    | none => if rest.isEmpty then .ok (here ++ [name]) else .error .noEntry
    | some (.link target _) =>
      if rest.isEmpty && !followLast then .ok (here ++ [name])
      else
        match links with
        | 0 => .error .tooManyLinks
        | links + 1 => t.walk followLast links (origin here target) (steps target ++ rest)
    | some _ => t.walk followLast links (here ++ [name]) rest := by
  have inside : ¬(!t.isDirectoryAt here) = true := by
    rw [asks.directory]
    nofun
  have loud : ¬Path.isSilent name = true := Bool.eq_false_iff.mp asks.loud
  rw [walk]
  exact (if_neg inside).trans ((if_neg loud).trans
    ((if_neg asks.inner).trans (if_neg (Nat.not_lt.mpr asks.short))))

end

/-- Moving does not change what the rest of a walk comes to. -/
theorem Moves.walk_eq {followLast : Bool} {more : List Text} (moves : t.Moves w w')
    (last : followLast = true ∨ more ≠ []) :
    t.walk followLast (linkLimit - w.followed) w.here (w.ahead ++ more) =
      t.walk followLast (linkLimit - w'.followed) w'.here (w'.ahead ++ more) := by
  cases moves with
  | stay here silent => exact walk_stay here silent
  | up here => exact walk_up here
  | @enter _ _ _ _ node asks found plain =>
      refine (walk_asks asks).trans ?_
      rw [found]
      cases node with
      | file | directory => rfl
      | link => cases plain
  | @follow _ _ rest n _ _ asks found few =>
      have onward : ((rest ++ more).isEmpty && !followLast) = false := by
        obtain rfl | nonempty := last
        · rw [Bool.not_true, Bool.and_false]
        · rw [List.isEmpty_eq_false_iff.mpr (List.append_ne_nil_of_right_ne_nil _ nonempty),
            Bool.false_and]
      have left : linkLimit - n = (linkLimit - (n + 1)) + 1 := by omega
      simp only [List.cons_append, walk_asks asks, found, onward, left, Bool.false_eq_true, if_false,
        List.append_assoc]

theorem Ends.walk_eq (ends : t.Ends w ending) :
    t.walk true (linkLimit - w.followed) w.here w.ahead = ending.answer := by
  cases ends with
  | arrived => rw [walk, Ending.answer]
  | @missing _ _ rest _ asks found =>
      refine (walk_asks asks).trans ?_
      rw [found]
      cases rest <;> rfl
  | outside away =>
      rw [walk]
      simp only [away, Bool.not_false, if_true]
      rfl
  | long directory loud inner long =>
      rw [walk]
      simp only [directory, loud, inner, long, Bool.not_true, Bool.false_eq_true, if_false, if_true]
      rfl
  | circling asks found many =>
      have none : linkLimit - _ = 0 := Nat.sub_eq_zero_of_le many
      refine (walk_asks asks).trans ?_
      simp only [found, none, Bool.not_true, Bool.and_false, Bool.false_eq_true, if_false]
      rfl

theorem walk_eq_of_moves {followLast : Bool} {more : List Text} (moves : ReflTransGen t.Moves w w')
    (last : followLast = true ∨ more ≠ []) :
    t.walk followLast (linkLimit - w.followed) w.here (w.ahead ++ more) =
      t.walk followLast (linkLimit - w'.followed) w'.here (w'.ahead ++ more) := by
  induction moves with
  | refl => rfl
  | tail _ moves ih => exact ih.trans (moves.walk_eq last)

/-- What a walk has left: the links that it may follow, then the steps. -/
def Walk.left (w : Walk) : Nat × Nat := (linkLimit - w.followed, w.ahead.length)

/-- A walk that does not end moves, and has less left then. -/
theorem ends_or_moves (t : FileTree) (w : Walk) : (∃ ending, t.Ends w ending) ∨
    ∃ w', t.Moves w w' ∧ Prod.Lex (· < ·) (· < ·) w'.left w.left := by
  obtain ⟨here, ahead, n⟩ := w
  cases ahead with
  | nil => exact .inl ⟨_, .arrived⟩
  | cons step rest =>
      have shorter {here : Location} : Prod.Lex (· < ·) (· < ·) (Walk.mk here rest n).left
          (Walk.mk here (step :: rest) n).left := .right _ (Nat.lt_succ_self _)
      cases directory : t.isDirectoryAt here with
      | false => exact .inl ⟨_, .outside directory⟩
      | true =>
          cases loud : Path.isSilent step with
          | true => exact .inr ⟨_, .stay directory loud, shorter⟩
          | false =>
              by_cases inner : step = ['.', '.']
              · subst inner
                exact .inr ⟨_, .up directory, shorter⟩
              · obtain long | short := Nat.lt_or_ge nameLimit (Text.byteLength step)
                · exact .inl ⟨_, .long directory loud inner long⟩
                · have asks : t.Asks here step := ⟨directory, loud, inner, short⟩
                  match found : t.node? (here ++ [step]) with
                  | none => exact .inl ⟨_, .missing asks found⟩
                  | some (.file _ _) | some (.directory _) =>
                      exact .inr ⟨_, .enter asks found rfl, shorter⟩
                  | some (.link _ _) =>
                      obtain few | many := Nat.lt_or_ge n linkLimit
                      · refine .inr ⟨_, .follow asks found few, .left _ _ ?_⟩
                        exact Nat.sub_succ_lt_self _ _ few
                      · exact .inl ⟨_, .circling asks found many⟩

/-- Every walk ends. -/
theorem exists_ends (t : FileTree) (w : Walk) :
    ∃ w' ending, ReflTransGen t.Moves w w' ∧ t.Ends w' ending := by
  obtain ⟨ending, ends⟩ | ⟨w', moves, less⟩ := t.ends_or_moves w
  · exact ⟨w, ending, .refl, ends⟩
  · obtain ⟨last, ending, later, ends⟩ := t.exists_ends w'
    exact ⟨last, ending, later.head moves, ends⟩
termination_by w.left
decreasing_by exact less

theorem exists_leads (t : FileTree) (base : Location) (whole : '\x00' ∉ p) (nonempty : p ≠ []) :
    ∃ ending, t.Leads base p ending := by
  obtain ⟨w, ending, moves, ends⟩ := t.exists_ends ⟨origin base p, steps p, 0⟩
  exact ⟨ending, whole, nonempty, w, moves, ends⟩

/-- What walking along the path comes to. -/
theorem Leads.locate_eq (leads : t.Leads base p ending) : t.locate true base p = ending.answer := by
  obtain ⟨whole, nonempty, w, moves, ends⟩ := leads
  have walked := @walk_eq_of_moves t _ w true [] moves (.inl rfl)
  simp only [List.append_nil, Nat.sub_zero] at walked
  have contains : p.contains '\x00' = false := by simpa using whole
  rw [locate, contains, List.isEmpty_eq_false_iff.mpr nonempty, if_neg nofun, if_neg nofun, walked,
    ends.walk_eq]

/-- A path leads along the names of a place to it, if no link stands there. -/
theorem moves_names (wf : t.WellFormed) {names rest : List Text} {n : Nat}
    (found : t.node? (here ++ names) = some node) (plain : node.isLink = false) :
    ReflTransGen t.Moves ⟨here, names ++ rest, n⟩ ⟨here ++ names, rest, n⟩ := by
  induction names using List.reverseRecOn generalizing node rest with
  | nil => rw [List.append_nil, List.nil_append]
  | append_singleton names name ih =>
      rw [← List.append_assoc] at found ⊢
      have asks := wf.asks found
      obtain ⟨modified, above⟩ := isDirectoryAt_iff.mp asks.directory
      rw [List.append_assoc names]
      exact (ih above rfl).tail (.enter asks found plain)

theorem pathOf_eq (below : loc ≠ []) : pathOf loc = '/' :: ['/'].intercalate loc := by
  rw [pathOf, List.isEmpty_eq_false_iff.mpr below, if_neg nofun]
  induction loc with
  | nil => exact absurd rfl below
  | cons name rest ih =>
      cases rest with
      | nil => rw [List.flatMap_singleton, List.intercalate_singleton]
      | cons next rest =>
          rw [List.flatMap_cons, ih (List.cons_ne_nil _ _), List.intercalate_cons_cons]
          simp

theorem isAbsolute_pathOf : Path.isAbsolute (pathOf loc) = true := by
  cases loc <;> rfl

theorem steps_pathOf (below : loc ≠ []) (slashless : ∀ name ∈ loc, '/' ∉ name) :
    steps (pathOf loc) = loc := by
  rw [steps, isAbsolute_pathOf, if_pos rfl, pathOf_eq below, List.drop_succ_cons, List.drop_zero,
    List.splitOn_intercalate '/' slashless below]

theorem nul_notMem_pathOf (whole : ∀ name ∈ loc, '\x00' ∉ name) : '\x00' ∉ pathOf loc := by
  rw [pathOf]
  split
  · decide
  · simpa using whole

/-- The path of a place leads to it from every directory, if no link stands there. -/
theorem leads_pathOf (wf : t.WellFormed) (found : t.node? loc = some node)
    (plain : node.isLink = false) (base : Location) :
    t.Leads base (pathOf loc) (.place loc) := by
  have named := wf.isName found
  have start : origin base (pathOf loc) = [] := by
    rw [origin, isAbsolute_pathOf, if_pos rfl]
  have nonempty : pathOf loc ≠ [] := by
    intro none
    cases none ▸ @isAbsolute_pathOf loc
  refine ⟨nul_notMem_pathOf fun name h => (named name h).whole, nonempty, ⟨loc, [], 0⟩, ?_, .arrived⟩
  rw [start]
  by_cases below : loc = []
  · subst below
    exact .single (.stay rfl rfl)
  · have moves : ReflTransGen t.Moves ⟨[], loc ++ [], 0⟩ ⟨loc, [], 0⟩ := moves_names wf found plain
    rw [List.append_nil] at moves
    rw [steps_pathOf below fun name h => (named name h).slashless]
    exact moves

theorem steps_ne_nil (p : Path) : steps p ≠ [] := List.splitOn_ne_nil _ _

theorem Leads.exists_node (wf : t.WellFormed) (leads : t.Leads base p (.place loc)) :
    ∃ node, t.node? loc = some node ∧ node.isLink = false := by
  obtain ⟨-, -, w, moves, ends⟩ := leads
  cases ends with
  | arrived =>
      obtain start | ⟨_, _, last⟩ := moves.cases_tail
      · exact absurd (congrArg Walk.ahead start).symm (steps_ne_nil p)
      · exact last.exists_node wf

theorem Leads.node?_of_missing {beyond : List Text} (leads : t.Leads base p (.missing loc beyond)) :
    t.node? loc = none := by
  obtain ⟨-, -, w, -, ends⟩ := leads
  cases ends with
  | missing _ found => exact found

theorem lookUp_pathOf (wf : t.WellFormed) (found : t.node? loc = some node)
    (plain : node.isLink = false) (near : Text.byteLength (pathOf loc) ≤ pathLimit)
    (base : Location) : t.lookUp true base (pathOf loc) = .ok (loc, node) := by
  have located := (leads_pathOf wf found plain base).locate_eq
  rw [lookUp, find, if_neg (Nat.not_lt.mpr near), located]
  simp only [Ending.answer, bind, Except.bind, found]

end FileTree

end QmlPreview
