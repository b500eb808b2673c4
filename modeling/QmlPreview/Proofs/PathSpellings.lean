import QmlPreview.FileTree.Answer
import QmlPreview.Proofs.Polling
import QmlPreview.Proofs.Walking
import QmlPreview.Wrap.Presentation

/-! Reading documents in a tree of files. What is read is told by the place that a path leads to; how
the path is spelled, and from which directory it is seen, makes no difference. -/

namespace QmlPreview

namespace FileTree

section
variable (t : FileTree) (base : Location) (p : Path)

/-- The path leads to a place, and the place has a path that is not too long. -/
structure LeadsTo (place : Location) : Prop where
  leads : t.Leads base p (.place place)
  near : Text.byteLength (pathOf place) ≤ pathLimit

/-- The path leads to a name that nothing stands for. If it is the last name of the path, the place it
would have must have a path that is not too long. -/
inductive Misses : Prop
  | empty : p = [] → Misses
  | missing {place : Location} {beyond : List Text} : t.Leads base p (.missing place beyond) →
      (beyond = [] → Text.byteLength (pathOf place) ≤ pathLimit) → Misses

inductive Refuses : Fault → Prop
  | nul : '\x00' ∈ p → Refuses .nulInPath
  | refused {fault : Fault} : t.Leads base p (.refused fault) → Refuses fault
  | far {ending : Ending} {place : Location} : t.Leads base p ending → ending.answer = .ok place →
      pathLimit < Text.byteLength (pathOf place) → Refuses .nameTooLong

/-- The path leads to no text, although nothing is missing. -/
inductive Blocks : Fault → Prop
  | refused {fault : Fault} : t.Refuses base p fault → Blocks fault
  | directory {place : Location} : t.LeadsTo base p place → t.isDirectoryAt place = true →
      Blocks .isDirectory
  | notText {place : Location} {bytes : List UInt8} {modified : Time} : t.LeadsTo base p place →
      t.node? place = some (.file bytes modified) → Utf8.decode? bytes = none → Blocks .notUtf8

/-- The document stands in a file at the place. -/
structure Stores (place : Location) (doc : Document) : Prop where
  path : doc.path = pathOf place
  text : ∃ bytes, t.node? place = some (.file bytes doc.modified) ∧
    Utf8.decode? bytes = some doc.text

inductive Reading : Except Error Document → Prop
  | stored {place : Location} {doc : Document} : t.LeadsTo base p place → t.Stores place doc →
      Reading (.ok doc)
  | missing : t.Misses base p → Reading (.error (.sourceNotFound p))
  | blocked {fault : Fault} : t.Blocks base p fault → Reading (.error (.io fault))

def readDocument (now : Time) : Except Error Document × FileTree :=
  Script.run (answer base now) (Document.read p) t

end

variable {t : FileTree} {base place : Location} {p : Path} {now : Time}

theorem LeadsTo.resolve_eq (wf : t.WellFormed) (arrives : t.LeadsTo base p place) :
    t.resolve base p = .ok (pathOf place) := by
  obtain ⟨node, found, -⟩ := arrives.leads.exists_node wf
  simp only [resolve, arrives.leads.locate_eq, Ending.answer, bind, Except.bind,
    if_neg (Nat.not_lt.mpr arrives.near), found, Option.isNone_some, Bool.false_eq_true, if_false]

theorem Misses.resolve_eq (misses : t.Misses base p) : t.resolve base p = .error .noEntry := by
  cases misses with
  | empty none =>
      subst none
      rfl
  | @missing place beyond leads near =>
      cases beyond with
      | nil =>
          simp only [resolve, leads.locate_eq, Ending.answer, bind, Except.bind,
            if_neg (Nat.not_lt.mpr (near rfl)), leads.node?_of_missing, Option.isNone_none, if_true]
      | cons => simp only [resolve, leads.locate_eq, Ending.answer, bind, Except.bind]

theorem Refuses.resolve_eq {fault : Fault} (refuses : t.Refuses base p fault) :
    t.resolve base p = .error fault := by
  cases refuses with
  | nul broken =>
      have contains : p.contains '\x00' = true := by simpa using broken
      simp only [resolve, locate, contains, if_true, bind, Except.bind]
  | refused leads => simp only [resolve, leads.locate_eq, Ending.answer, bind, Except.bind]
  | far leads there long =>
      simp only [resolve, leads.locate_eq, there, bind, Except.bind, long, if_true]

theorem Refuses.not_isNotFound {fault : Fault} (refuses : t.Refuses base p fault) :
    fault.isNotFound = false := by
  cases refuses with
  | nul | far => rfl
  | refused leads =>
      obtain ⟨-, -, _, -, ends⟩ := leads
      cases ends <;> rfl

/-- Following a path comes to a place, to a missing name, or to a refusal. -/
theorem leadsTo_or_misses_or_refuses (t : FileTree) (base : Location) (p : Path) :
    (∃ place, t.LeadsTo base p place) ∨ t.Misses base p ∨ ∃ fault, t.Refuses base p fault := by
  by_cases broken : '\x00' ∈ p
  · exact .inr (.inr ⟨_, .nul broken⟩)
  by_cases empty : p = []
  · exact .inr (.inl (.empty empty))
  obtain ⟨ending, leads⟩ := t.exists_leads base broken empty
  have reach (place : Location) : Text.byteLength (pathOf place) ≤ pathLimit ∨
      pathLimit < Text.byteLength (pathOf place) := Nat.lt_or_ge _ _ |>.symm
  match ending with
  | .place place =>
      obtain near | long := reach place
      · exact .inl ⟨place, leads, near⟩
      · exact .inr (.inr ⟨_, .far leads rfl long⟩)
  | .missing place [] =>
      obtain near | long := reach place
      · exact .inr (.inl (.missing leads fun _ => near))
      · exact .inr (.inr ⟨_, .far leads rfl long⟩)
  | .missing _ (_ :: _) => exact .inr (.inl (.missing leads nofun))
  | .refused fault => exact .inr (.inr ⟨fault, .refused leads⟩)

theorem Misses.readDocument_eq (misses : t.Misses base p) :
    t.readDocument base p now = (.error (.sourceNotFound p), t) := by
  have resolving : answer base now (.resolve p) t = (.error .noEntry, t) :=
    congrArg (·, t) misses.resolve_eq
  have error : Error.ofReading p .noEntry = .sourceNotFound p := rfl
  rw [← error]
  exact Script.run_eq_iff.mpr ⟨_, Document.runs_read_iff.mpr (.unresolved resolving)⟩

/-- What is read at a place does not depend on the way to it. -/
theorem LeadsTo.reads (wf : t.WellFormed) (arrives : t.LeadsTo base p place) (now : Time) :
    ∃ node, t.node? place = some node ∧
      answer base now (.resolve p) t = (.ok (pathOf place), t) ∧
      answer base now (.modified (pathOf place)) t = (.ok node.modified, t) ∧
      answer base now (.read (pathOf place)) t =
        (match node with
          | .file bytes _ => .ok bytes
          | _ => .error .isDirectory, t) := by
  obtain ⟨node, found, plain⟩ := arrives.leads.exists_node wf
  have there := lookUp_pathOf wf found plain arrives.near base
  refine ⟨node, found, congrArg (·, t) (arrives.resolve_eq wf), ?_, ?_⟩
  · simp only [answer, there, Except.map]
  · simp only [answer, read, there, bind, Except.bind]
    cases node <;> rfl

theorem LeadsTo.readDocument_eq (wf : t.WellFormed) (arrives : t.LeadsTo base p place) {doc : Document}
    (stores : t.Stores place doc) : t.readDocument base p now = (.ok doc, t) := by
  obtain ⟨node, found, resolving, dating, reading⟩ := arrives.reads wf now
  obtain ⟨path, bytes, file, text⟩ := stores
  obtain rfl := Option.some.inj (file.symm.trans found)
  rw [← path] at resolving dating reading
  exact Script.run_eq_iff.mpr
    ⟨_, Document.runs_read_iff.mpr (.read doc resolving dating reading text)⟩

theorem Blocks.readDocument_eq (wf : t.WellFormed) {fault : Fault} (blocks : t.Blocks base p fault) :
    t.readDocument base p now = (.error (.io fault), t) := by
  cases blocks with
  | refused refuses =>
      have resolving : answer base now (.resolve p) t = (.error fault, t) :=
        congrArg (·, t) refuses.resolve_eq
      have error : Error.ofReading p fault = .io fault := by
        rw [Error.ofReading, refuses.not_isNotFound, if_neg nofun]
      rw [← error]
      exact Script.run_eq_iff.mpr ⟨_, Document.runs_read_iff.mpr (.unresolved resolving)⟩
  | @directory place arrives directory =>
      obtain ⟨modified, here⟩ := isDirectoryAt_iff.mp directory
      obtain ⟨node, found, resolving, dating, reading⟩ := arrives.reads wf now
      obtain rfl := Option.some.inj (here.symm.trans found)
      have error : Error.ofReading (pathOf place) .isDirectory = .io .isDirectory := rfl
      rw [← error]
      exact Script.run_eq_iff.mpr
        ⟨_, Document.runs_read_iff.mpr (.unread resolving dating reading)⟩
  | @notText place _ _ arrives file text =>
      obtain ⟨node, found, resolving, dating, reading⟩ := arrives.reads wf now
      obtain rfl := Option.some.inj (file.symm.trans found)
      have error : Error.ofReading (pathOf place) .notUtf8 = .io .notUtf8 := rfl
      rw [← error]
      exact Script.run_eq_iff.mpr
        ⟨_, Document.runs_read_iff.mpr (.notText resolving dating reading text)⟩

/-- Whether a document is stored at a place does not depend on the path that leads there. -/
theorem LeadsTo.stores_or_blocks (wf : t.WellFormed) (arrives : t.LeadsTo base p place) :
    (∃ doc, t.Stores place doc) ∨
      ∃ fault, ∀ base' p', t.LeadsTo base' p' place → t.Blocks base' p' fault := by
  obtain ⟨node, found, plain⟩ := arrives.leads.exists_node wf
  match node with
  | .directory modified =>
      exact .inr ⟨_, fun _ _ arrives' => .directory arrives' (isDirectoryAt_iff.mpr ⟨modified, found⟩)⟩
  | .file bytes modified =>
      cases text : Utf8.decode? bytes with
      | none => exact .inr ⟨_, fun _ _ arrives' => .notText arrives' found text⟩
      | some text' => exact .inl ⟨⟨pathOf place, text', modified⟩, rfl, bytes, found, text⟩

/-- Paths that lead to one place are read alike. -/
theorem LeadsTo.readDocument_congr (wf : t.WellFormed) {base' : Location} {p' : Path}
    (arrives : t.LeadsTo base p place) (arrives' : t.LeadsTo base' p' place) :
    t.readDocument base p now = t.readDocument base' p' now := by
  obtain ⟨doc, stores⟩ | ⟨fault, blocks⟩ := arrives.stores_or_blocks wf
  · exact (arrives.readDocument_eq wf stores).trans (arrives'.readDocument_eq wf stores).symm
  · have blocked := blocks _ _ arrives
    have blocked' := blocks _ _ arrives'
    exact (blocked.readDocument_eq wf).trans (blocked'.readDocument_eq wf).symm

theorem LeadsTo.stores_of_read (wf : t.WellFormed) {doc : Document}
    (arrives : t.LeadsTo base p place) (read : (t.readDocument base p now).1 = .ok doc) :
    t.Stores place doc := by
  obtain ⟨stored, stores⟩ | ⟨fault, blocks⟩ := arrives.stores_or_blocks wf
  · rw [arrives.readDocument_eq wf stores] at read
    cases read
    exact stores
  · rw [(blocks _ _ arrives).readDocument_eq wf] at read
    cases read

theorem exists_reading (wf : t.WellFormed) (base : Location) (p : Path) :
    ∃ result, t.Reading base p result := by
  obtain ⟨place, arrives⟩ | misses | ⟨fault, refuses⟩ := t.leadsTo_or_misses_or_refuses base p
  · obtain ⟨doc, stores⟩ | ⟨fault, blocks⟩ := arrives.stores_or_blocks wf
    · exact ⟨_, .stored arrives stores⟩
    · exact ⟨_, .blocked (blocks _ _ arrives)⟩
  · exact ⟨_, .missing misses⟩
  · exact ⟨_, .blocked (.refused refuses)⟩

theorem Reading.readDocument_eq (wf : t.WellFormed) {result : Except Error Document}
    (reading : t.Reading base p result) : t.readDocument base p now = (result, t) := by
  cases reading with
  | stored arrives stores => exact arrives.readDocument_eq wf stores
  | missing misses => exact misses.readDocument_eq
  | blocked blocks => exact blocks.readDocument_eq wf

/-- Reading a document gives what is stored at the place that the path leads to, or says what is in the
way. -/
theorem readDocument_iff (wf : t.WellFormed) {result : Except Error Document} :
    (t.readDocument base p now).1 = result ↔ t.Reading base p result := by
  constructor
  · rintro rfl
    obtain ⟨result, reading⟩ := exists_reading wf base p
    rwa [reading.readDocument_eq wf]
  · intro reading
    rw [reading.readDocument_eq wf]

/-- A stored document is read from its own path, wherever that is seen from. -/
theorem Stores.leadsTo (wf : t.WellFormed) {doc : Document} (stores : t.Stores place doc)
    (near : Text.byteLength (pathOf place) ≤ pathLimit) (base : Location) :
    t.LeadsTo base doc.path place := by
  obtain ⟨path, bytes, file, -⟩ := stores
  rw [path]
  exact ⟨leads_pathOf wf file rfl base, near⟩

theorem dropWhile_isSilent {names : List Text} (loud : ∀ name ∈ names, Path.isSilent name = false) :
    names.dropWhile Path.isSilent = names := by
  cases names with
  | nil => rfl
  | cons name rest =>
      rw [List.dropWhile_cons, if_neg]
      exact Bool.eq_false_iff.mp (loud name List.mem_cons_self)

/-- Above the path of a place stands the path of its directory. -/
theorem parent?_pathOf {name : Text} (named : ∀ n ∈ place ++ [name], IsName n) :
    Path.parent? (pathOf (place ++ [name])) = some (pathOf place) := by
  have below : place ++ [name] ≠ [] := List.append_ne_nil_of_right_ne_nil _ (List.cons_ne_nil _ _)
  have lead : Path.lead (pathOf (place ++ [name])) = ['/'] := by
    rw [pathOf_eq below]
    rfl
  have split : (Path.body (pathOf (place ++ [name]))).splitOn '/' = place ++ [name] := by
    have steps := steps_pathOf below fun n h => (named n h).slashless
    rw [FileTree.steps, isAbsolute_pathOf, if_pos rfl] at steps
    rw [Path.body, lead]
    exact steps
  have loud : ∀ n ∈ place.reverse, Path.isSilent n = false := fun n h =>
    (named n (List.mem_append_left _ (List.mem_reverse.mp h))).loud
  have last : Path.isSilent name = false :=
    (named name (List.mem_append_right _ List.mem_cons_self)).loud
  have backwards : Path.backwards (pathOf (place ++ [name])) = name :: place.reverse := by
    rw [Path.backwards, split, List.reverse_append]
    exact dropWhile_isSilent (List.forall_mem_cons.mpr ⟨last, loud⟩)
  rw [Path.parent?, backwards]
  simp only [lead, dropWhile_isSilent loud, List.reverse_reverse]
  cases place with
  | nil => rfl
  | cons => rw [pathOf_eq (List.cons_ne_nil _ _)]; rfl

/-- The directory of a stored document is the one that it is stored in. -/
theorem Stores.directory_eq (wf : t.WellFormed) {doc : Document} (stores : t.Stores place doc) :
    doc.directory = pathOf place.dropLast := by
  obtain ⟨path, bytes, file, -⟩ := stores
  cases place using List.reverseRecOn with
  | nil => cases file
  | append_singleton dir name =>
      rw [Document.directory, path, parent?_pathOf (wf.isName file), List.dropLast_concat]
      rfl

end FileTree

theorem locator_of_wrapInWindow {doc : Document} {size : WindowSize} {g : GeneratedDocument}
    (made : wrapInWindow doc size = .ok g) : g.locator = .directory doc.directory := by
  cases parts : doc.decompose with
  | error =>
      rw [wrapInWindow, parts] at made
      cases made
  | ok =>
      rw [wrapInWindow, parts] at made
      cases made
      rfl

theorem locator_of_frameInPhone {doc : Document} {usable : Bool} {g : GeneratedDocument}
    (made : frameInPhone doc usable = .ok g) : g.locator = .directory doc.directory := by
  cases parts : doc.decompose with
  | error =>
      rw [frameInPhone, parts] at made
      cases made
  | ok parts' =>
      rw [frameInPhone, parts] at made
      simp only [bind, Except.bind] at made
      split at made
      · cases made
      · cases made
        rfl

/-- What is shown of a document is located by the document or by its directory. -/
theorem Document.baseDirectory_present {doc : Document} {facts : Facts} {layout : Layout}
    {size : WindowSize} {loadable : Loadable}
    (shown : doc.present facts layout size = .ok loadable) :
    loadable.locator.baseDirectory = doc.directory := by
  have generated {made : Except Error GeneratedDocument}
      (locator : ∀ g, made = .ok g → g.locator = .directory doc.directory)
      (checked : made >>= Loadable.ofGenerated doc = .ok loadable) :
      loadable.locator.baseDirectory = doc.directory := by
    cases made with
    | error => cases checked
    | ok g =>
        change Loadable.ofGenerated doc g = .ok loadable at checked
        rw [Loadable.ofGenerated] at checked
        split at checked
        · cases checked
          exact congrArg Locator.baseDirectory (locator g rfl)
        · cases checked
  cases layout with
  | plain =>
      rw [present] at shown
      split at shown
      · cases shown
        rfl
      · exact generated (fun _ => locator_of_wrapInWindow) shown
  | phone => exact generated (fun _ => locator_of_frameInPhone) shown

open FileTree (exists_reading pathOf readDocument_iff)

/-- The document that is read is the one that is stored at the place that the path leads to, and its own
path leads there from everywhere. So paths that lead to one place give the same document, and what is
shown of it is located by the directory of that place. A path that cannot be read is reported as missing
exactly if it leads to a name that nothing stands for. -/
theorem reading_ignores_spelling {t : FileTree} (wf : t.WellFormed) (base : Location) (p : Path)
    (now : Time) :
    (t.readDocument base p now).2 = t ∧
    (∀ doc, (t.readDocument base p now).1 = .ok doc ↔
      ∃ place, t.LeadsTo base p place ∧ t.Stores place doc) ∧
    (∀ doc, (t.readDocument base p now).1 = .ok doc →
      ∀ base', t.readDocument base' doc.path now = (.ok doc, t)) ∧
    (∀ place base' p', t.LeadsTo base p place → t.LeadsTo base' p' place →
      t.readDocument base p now = t.readDocument base' p' now ∧
      ∀ doc doc', (t.readDocument base p now).1 = .ok doc →
        (t.readDocument base' p' now).1 = .ok doc' →
        doc = doc' ∧ scan doc.text = scan doc'.text ∧ ∀ layout size,
          doc.present (scan doc.text) layout size = doc'.present (scan doc'.text) layout size ∧
          ∀ loadable, doc.present (scan doc.text) layout size = .ok loadable →
            loadable.locator.baseDirectory = pathOf place.dropLast) ∧
    (∀ e, (t.readDocument base p now).1 = .error e → (e = .sourceNotFound p ↔ t.Misses base p) ∧
      (¬t.Misses base p → ∃ fault, t.Blocks base p fault ∧ e = .io fault)) := by
  refine ⟨?_, fun doc => ?_, fun doc read base' => ?_, fun place base' p' arrives arrives' => ?_,
    fun e failed => ?_⟩
  · obtain ⟨result, reading⟩ := exists_reading wf base p
    rw [reading.readDocument_eq wf]
  · rw [readDocument_iff wf]
    constructor
    · intro reading
      cases reading with
      | stored arrives stores => exact ⟨_, arrives, stores⟩
    · rintro ⟨place, arrives, stores⟩
      exact .stored arrives stores
  · cases (readDocument_iff wf).mp read with
    | stored arrives stores =>
        exact (stores.leadsTo wf arrives.near base').readDocument_eq wf stores
  · have alike : t.readDocument base p now = t.readDocument base' p' now :=
      arrives.readDocument_congr wf arrives'
    refine ⟨alike, fun doc doc' read read' => ?_⟩
    have stores := arrives.stores_of_read wf read
    rw [alike, read'] at read
    cases read
    refine ⟨rfl, rfl, fun layout size => ⟨rfl, fun loadable shown => ?_⟩⟩
    rw [Document.baseDirectory_present shown, stores.directory_eq wf]
  · constructor
    · constructor
      · rintro rfl
        cases (readDocument_iff wf).mp failed with
        | missing misses => exact misses
      · intro misses
        rw [misses.readDocument_eq] at failed
        cases failed
        rfl
    · intro there
      cases (readDocument_iff wf).mp failed with
      | missing misses => exact absurd misses there
      | blocked blocks => exact ⟨_, blocks, rfl⟩

/-- One path goes through two links, the other up to the root and through one of them. -/
theorem reading_ignores_spelling_through_links :
    let t : FileTree := ⟨[(["ui".toList], .directory Time.epoch),
      (["ui".toList, "W.qml".toList], .file (Utf8.encode "Window \x7b\x7d".toList) ⟨5⟩),
      (["a".toList], .link "b".toList Time.epoch), (["b".toList], .link "/ui".toList Time.epoch)]⟩
    let doc : Document := ⟨"/ui/W.qml".toList, "Window \x7b\x7d".toList, ⟨5⟩⟩
    t.WellFormed ∧ t.LeadsTo [] "a/./W.qml".toList ["ui".toList, "W.qml".toList] ∧
      t.LeadsTo ["ui".toList] "../b//W.qml".toList ["ui".toList, "W.qml".toList] ∧
      (t.readDocument [] "a/./W.qml".toList Time.epoch).1 = .ok doc ∧
      t.readDocument [] "a/./W.qml".toList Time.epoch =
        t.readDocument ["ui".toList] "../b//W.qml".toList Time.epoch ∧
      t.readDocument ["ui".toList] doc.path Time.epoch = (.ok doc, t) := by
  intro t doc
  have wf : t.WellFormed := ⟨by decide, by decide, by decide, by decide⟩
  have viaA (rest : List Text) :
      t.Moves ⟨[], "a".toList :: rest, 0⟩ ⟨[], "b".toList :: rest, 1⟩ :=
    @FileTree.Moves.follow t [] "a".toList rest 0 "b".toList Time.epoch (by decide) rfl (by decide)
  have viaB (rest : List Text) (n : Nat) (few : n < FileTree.linkLimit) :
      t.Moves ⟨[], "b".toList :: rest, n⟩ ⟨[], "ui".toList :: rest, n + 1⟩ :=
    @FileTree.Moves.follow t [] "b".toList rest n "/ui".toList Time.epoch (by decide) rfl few
  have enter (rest : List Text) (n : Nat) :
      t.Moves ⟨[], "ui".toList :: rest, n⟩ ⟨["ui".toList], rest, n⟩ :=
    @FileTree.Moves.enter t [] "ui".toList rest n (.directory Time.epoch) (by decide) rfl rfl
  have stay (step : Text) (rest : List Text) (n : Nat) (silent : Path.isSilent step = true) :
      t.Moves ⟨["ui".toList], step :: rest, n⟩ ⟨["ui".toList], rest, n⟩ :=
    .stay (by decide) silent
  have file (n : Nat) :
      t.Moves ⟨["ui".toList], ["W.qml".toList], n⟩ ⟨["ui".toList, "W.qml".toList], [], n⟩ :=
    @FileTree.Moves.enter t ["ui".toList] "W.qml".toList [] n
      (.file (Utf8.encode "Window \x7b\x7d".toList) ⟨5⟩) (by decide) rfl rfl
  have up : t.Moves ⟨["ui".toList], ["..".toList, "b".toList, [], "W.qml".toList], 0⟩
      ⟨[], ["b".toList, [], "W.qml".toList], 0⟩ := .up (by decide)
  have arrives : t.LeadsTo [] "a/./W.qml".toList ["ui".toList, "W.qml".toList] :=
    ⟨⟨by decide, by decide, _, .head (viaA _) (.head (viaB _ 1 (by decide)) (.head (enter _ 2)
      (.head (stay ['.'] _ 2 rfl) (.single (file 2))))), .arrived⟩, by decide⟩
  have arrives' : t.LeadsTo ["ui".toList] "../b//W.qml".toList ["ui".toList, "W.qml".toList] :=
    ⟨⟨by decide, by decide, _, .head up (.head (viaB _ 0 (by decide)) (.head (enter _ 1)
      (.head (stay [] _ 1 rfl) (.single (file 1))))), .arrived⟩, by decide⟩
  have stores : t.Stores ["ui".toList, "W.qml".toList] doc := ⟨by decide, _, rfl, by decide +kernel⟩
  obtain ⟨-, read, again, alike, -⟩ :=
    reading_ignores_spelling wf [] "a/./W.qml".toList Time.epoch
  have done := (read doc).mpr ⟨_, arrives, stores⟩
  exact ⟨wf, arrives, arrives', done, (alike _ _ _ arrives arrives').1, again doc done _⟩

end QmlPreview
