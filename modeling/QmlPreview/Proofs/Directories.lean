import Mathlib.Logic.Function.Basic
import QmlPreview.FileTree
import QmlPreview.Proofs.LiveRuns
import QmlPreview.Proofs.SideFileNames

/-! The working directory of a watcher: what its requests do to the side files there, while others
use the directory too. -/

namespace QmlPreview

open Script (Log)

/-- What stands under each name in a directory. -/
abbrev Directory := Text → Option Node

/-- The directory that the side files of a source are written to. -/
def workingDirectory (target : Path) : Path := (Path.parent? target).getD ['.']

def sidePath (target : Path) (name : Text) : Path := Path.join (workingDirectory target) name

/-- The name is that of a side file, and the source itself does not have it. -/
structure IsSide (target : Path) (name : Text) : Prop where
  accepted : isSideFileName name = true
  apart : Path.components (sidePath target name) ≠ Path.components target

theorem IsSide.sidePath_inj {target : Path} {name name' : Text} (side : IsSide target name)
    (side' : IsSide target name') : sidePath target name = sidePath target name' ↔ name = name' :=
  Path.join_inj (slash_notMem_of_isSideFileName side.accepted)
    (slash_notMem_of_isSideFileName side'.accepted)

/-- A source that is not itself named like a side file is apart from every side file. -/
theorem isSide_of_last {target : Path} {last name : Text}
    (named : (Path.components target).2.getLast? = some last)
    (ordinary : isSideFileName last = false) (accepted : isSideFileName name = true) :
    IsSide target name := by
  refine ⟨accepted, fun same => ?_⟩
  have last' := @Path.getLast?_components_join (workingDirectory target) _
    (slash_notMem_of_isSideFileName accepted) (isSilent_of_isSideFileName accepted)
  rw [← sidePath, same, named] at last'
  obtain rfl := Option.some.inj last'
  cases ordinary.symm.trans accepted

theorem Watcher.nextPath_eq {w : Watcher} {target : Path}
    (home : w.directory = workingDirectory target) (token : Token) :
    w.nextPath token = sidePath target (sideFileName (w.counter + 1) token) := by
  rw [nextPath, home, sidePath]

namespace Directory

variable (target : Path)

/-- What a request to the file system does to the directory. Removing a side file succeeds; writing
one that is not there yet can fail, and leave a part of it. A listing, if there is one, names every
side file. A request to change anything but a side file can do whatever it likes. -/
def Serves (d : Directory) : (q : FileRequest) → q.Answer → Directory → Prop
  | .write path bytes, .ok _, d' => ∀ name, IsSide target name → path = sidePath target name →
      d name = none → ∃ modified, d' = Function.update d name (some (.file bytes modified))
  | .write path _, .error _, d' => ∀ name, IsSide target name → path = sidePath target name →
      d name = none → d' = d ∨ ∃ bytes modified,
        d' = Function.update d name (some (.file bytes modified))
  | .remove path, removed, d' => ∀ name, IsSide target name → path = sidePath target name →
      match d name with
      | none => (∃ fault, removed = .error fault ∧ fault.isNotFound = true) ∧ d' = d
      | some node =>
        if node.isDirectory then d' = d else removed = .ok () ∧ d' = Function.update d name none
  | .append _ _, _, _ | .makeDirectories _, _, _ => True
  | .isPresent path, isThere, d' => d' = d ∧ (path = workingDirectory target → isThere = false →
      ∀ name, isSideFileName name = true → d name = none)
  | .list path, listed, d' => d' = d ∧ (path = workingDirectory target →
      ∀ names, listed = .ok names → ∀ name, isSideFileName name = true →
        (name ∈ names ↔ (d name).isSome))
  | .resolve _, _, d' | .modified _, _, d' | .entryModified _, _, d' | .read _, _, d' => d' = d

/-- A token makes no name that is in use in the directory, nor that of the source. -/
def IsFresh (d : Directory) (token : Token) : Prop :=
  ∀ counter, d (sideFileName counter token) = none ∧
    Path.components (sidePath target (sideFileName counter token)) ≠ Path.components target

/-- What a request of a session does to the directory, if nobody else uses it. -/
def Steps (d : Directory) : (q : SessionRequest) → q.Answer → Directory → Prop
  | .host (.file q), r, d' => d.Serves target q r d'
  | .host .token, token, d' => d' = d ∧ d.IsFresh target token
  | _, _, d' => d' = d

/-- Answers while others use the directory: what they do can precede any answer, and something is
assumed of the answers. -/
def Answers (others : Directory → Directory → Prop)
    (assumed : (q : SessionRequest) → q.Answer → Prop) :
    Script.Answers Directory SessionRequest.Answer :=
  fun d q r d' => assumed q r ∧ ∃ d₁, others d d₁ ∧ d₁.Steps target q r d'

/-- No side file appears, and none turns into a directory. -/
def NoNew (d d' : Directory) : Prop :=
  ∀ name, IsSide target name → ∀ node', d' name = some node' →
    ∃ node, d name = some node ∧ (node'.isDirectory = true → node.isDirectory = true)

/-- Every side file in the directory has a name in `names`, and none is a directory. -/
def Holds (d : Directory) (names : Text → Prop) : Prop :=
  ∀ name, IsSide target name → ∀ node, d name = some node → node.isDirectory = false ∧ names name

variable {target} {d d' : Directory} {names more : Text → Prop} {name : Text}
  {assumed : (q : SessionRequest) → q.Answer → Prop}

theorem Holds.mono (holds : d.Holds target names) (h : ∀ name, names name → more name) :
    d.Holds target more := by
  intro name side node found
  obtain ⟨plain, named⟩ := holds name side node found
  exact ⟨plain, h name named⟩

theorem Holds.noNew (holds : d.Holds target names) (quiet : d.NoNew target d') :
    d'.Holds target names := by
  intro name side node' found'
  obtain ⟨node, found, kind⟩ := quiet name side node' found'
  obtain ⟨plain, named⟩ := holds name side node found
  refine ⟨?_, named⟩
  cases directory : node'.isDirectory with
  | false => rfl
  | true => cases plain.symm.trans (kind directory)

theorem NoNew.none (quiet : d.NoNew target d') (side : IsSide target name) (h : d name = none) :
    d' name = none := by
  cases found : d' name with
  | none => rfl
  | some node' =>
      obtain ⟨node, had, _⟩ := quiet name side node' found
      cases h.symm.trans had

theorem Holds.erase (holds : d.Holds target names) :
    Holds target (Function.update d name none) fun n => names n ∧ n ≠ name := by
  intro n side node found
  by_cases same : n = name
  · subst same
    rw [Function.update_self] at found
    cases found
  · rw [Function.update_of_ne same] at found
    obtain ⟨plain, named⟩ := holds n side node found
    exact ⟨plain, named, same⟩

theorem Holds.put (holds : d.Holds target names) (bytes : List UInt8) (modified : Time) :
    Holds target (Function.update d name (some (.file bytes modified)))
      fun n => names n ∨ n = name := by
  intro n side node found
  by_cases same : n = name
  · subst same
    rw [Function.update_self] at found
    cases found
    exact ⟨rfl, .inr rfl⟩
  · rw [Function.update_of_ne same] at found
    obtain ⟨plain, named⟩ := holds n side node found
    exact ⟨plain, .inl named⟩

theorem NoNew.refl (d : Directory) : d.NoNew target d :=
  fun _ _ node found => ⟨node, found, id⟩

theorem NoNew.trans {d'' : Directory} (first : d.NoNew target d') (second : d'.NoNew target d'') :
    d.NoNew target d'' := by
  intro name side node'' found''
  obtain ⟨node', found', kind'⟩ := second name side node'' found''
  obtain ⟨node, found, kind⟩ := first name side node' found'
  exact ⟨node, found, kind ∘ kind'⟩

theorem IsFresh.isSide {token : Token} (fresh : d.IsFresh target token) (counter : UInt64) :
    IsSide target (sideFileName counter token) :=
  ⟨isSideFileName_sideFileName counter token, (fresh counter).2⟩

/-- Removing a side file takes it away, and fails only if it is not there. -/
theorem Serves.remove {removed : Except Fault Unit} (side : IsSide target name)
    (plain : ∀ node, d name = some node → node.isDirectory = false)
    (served : d.Serves target (.remove (sidePath target name)) removed d') :
    d' = Function.update d name none ∧
      IsGone removed := by
  replace served := served name side rfl
  cases found : d name with
  | none =>
      simp only [found] at served
      obtain ⟨missing, rfl⟩ := served
      exact ⟨(Function.update_eq_self_iff.mpr found.symm).symm, .inr missing⟩
  | some node =>
      simp only [found, plain node found, Bool.false_eq_true, if_false] at served
      obtain ⟨rfl, rfl⟩ := served
      exact ⟨rfl, .inl rfl⟩

/-- Writing a side file that is not there puts a file in its place, unless it fails at once. -/
theorem Serves.write {bytes : List UInt8} {written : Except Fault Unit} (side : IsSide target name)
    (free : d name = none)
    (served : d.Serves target (.write (sidePath target name) bytes) written d') :
    (d' = d ∧ written ≠ .ok ()) ∨ ∃ part modified,
      d' = Function.update d name (some (.file part modified)) ∧
        (written = .ok () → part = bytes) := by
  cases written with
  | ok _ =>
      obtain ⟨modified, rfl⟩ := served name side rfl free
      exact .inr ⟨bytes, modified, rfl, fun _ => rfl⟩
  | error fault =>
      obtain rfl | ⟨part, modified, rfl⟩ := served name side rfl free
      · exact .inl ⟨rfl, nofun⟩
      · exact .inr ⟨part, modified, rfl, nofun⟩

theorem Holds.remove {removed : Except Fault Unit} (holds : d.Holds target names)
    (side : IsSide target name)
    (removing : Answers target (NoNew target) assumed d
      (.host (.file (.remove (sidePath target name)))) removed d') :
    (d'.Holds target fun n => names n ∧ n ≠ name) ∧
      IsGone removed := by
  obtain ⟨_, d₁, quiet, served⟩ := removing
  have holds' := holds.noNew quiet
  have plain : ∀ node, d₁ name = some node → node.isDirectory = false :=
    fun node found => (holds' name side node found).1
  obtain ⟨rfl, outcome⟩ := Serves.remove side plain served
  exact ⟨holds'.erase, outcome⟩

theorem Holds.write {bytes : List UInt8} {written : Except Fault Unit}
    (holds : d.Holds target names) (side : IsSide target name) (free : d name = none)
    (writing : Answers target (NoNew target) assumed d
      (.host (.file (.write (sidePath target name) bytes))) written d') :
    d'.Holds target fun n => names n ∨ n = name := by
  obtain ⟨_, d₁, quiet, served⟩ := writing
  have holds' := holds.noNew quiet
  obtain ⟨rfl, _⟩ | ⟨part, modified, rfl, _⟩ := Serves.write side (quiet.none side free) served
  · exact holds'.mono fun _ => .inl
  · exact holds'.put part modified

theorem serves_remove {node : Node} (side : IsSide target name) (found : d name = some node)
    (ordinary : node.isDirectory = false) :
    d.Serves target (.remove (sidePath target name)) (.ok ()) (Function.update d name none) := by
  intro name' side' same
  obtain rfl := (side.sidePath_inj side').mp same
  simp only [found, ordinary, Bool.false_eq_true, if_false]
  exact ⟨trivial, trivial⟩

theorem serves_write (side : IsSide target name) (bytes : List UInt8) (modified : Time) :
    d.Serves target (.write (sidePath target name) bytes) (.ok ())
      (Function.update d name (some (.file bytes modified))) := by
  intro name' side' same _
  obtain rfl := (side.sidePath_inj side').mp same
  exact ⟨modified, rfl⟩

end Directory

/-- While a document is read, only others use the directory. -/
theorem Document.Reads.others {target : Path} {others : Directory → Directory → Prop}
    {assumed : (q : SessionRequest) → q.Answer → Prop}
    (trans : ∀ {d d' d''}, others d d' → others d' d'' → others d d'') {path : Path}
    {log : Log FileRequest.Answer} {result : Except Error Document} {d d' : Directory}
    (reads : Document.Reads (onFiles (Directory.Answers target others assumed)) path d log result
      d') : others d d' := by
  cases reads with
  | unresolved resolving =>
      obtain ⟨_, _, quiet, rfl⟩ := resolving
      exact quiet
  | undated resolving dating =>
      obtain ⟨_, _, quiet₁, rfl⟩ := resolving
      obtain ⟨_, _, quiet₂, rfl⟩ := dating
      exact trans quiet₁ quiet₂
  | unread resolving dating reading | notText resolving dating reading
  | read _ resolving dating reading =>
      obtain ⟨_, _, quiet₁, rfl⟩ := resolving
      obtain ⟨_, _, quiet₂, rfl⟩ := dating
      obtain ⟨_, _, quiet₃, rfl⟩ := reading
      exact trans quiet₁ (trans quiet₂ quiet₃)

end QmlPreview
