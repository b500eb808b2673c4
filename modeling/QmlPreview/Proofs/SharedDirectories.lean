import Mathlib
import QmlPreview.FileTree.Answer
import QmlPreview.Proofs.SessionRequests

/-! Live sessions that share a directory. They leave each other's files alone for as long as none of
them starts or closes. -/

namespace QmlPreview

open Session
open Script (Asks Log Runs Together Trace own mem_own_iff own_append own_cons_self)

section
variable {ι σ : Type} [DecidableEq ι]

/-- Live sessions of sources in one directory. -/
structure Neighbors (ctx : ι → Context) (target : ι → Path)
    (trace : Trace ι SessionRequest.Answer) : Prop where
  live : ∀ p, ∃ layout, (ctx p).operation = .live layout
  resolved : ∀ p path,
    (own p trace).head? = some ⟨.host (.file (.resolve (ctx p).source)), .ok path⟩ →
      path = target p
  directory_eq : ∀ p q, workingDirectory (target p) = workingDirectory (target q)

/-- The path is removed by a sweep: it is that of a side file, but not the session's own source,
that the session found when it listed its directory, since when it has only removed files. The sweep
is the one of its start, before any token was drawn, or that of its close, after which it only
removes files. -/
def SweptAway (target : Path) (past later : Log SessionRequest.Answer) (path : Path) : Prop :=
  ∃ before names removals name,
    past = before ++ ⟨.host (.file (.list (workingDirectory target))), .ok names⟩ :: removals ∧
      (∀ x ∈ removals, x.1.removes = true) ∧ name ∈ names ∧ IsSide target name ∧
      path = sidePath target name ∧ (Undrawn before ∨ ∀ x ∈ later, x.1.removes = true)

variable {answers : ι → Script.Answers σ SessionRequest.Answer} {ctx : ι → Context}
  {ticks : ι → Nat} {target : ι → Path} {s₀ s : σ} {trace : Trace ι SessionRequest.Answer}
  {running : ι → SessionScript (Except Error Int)}

theorem Neighbors.may (neighbors : Neighbors ctx target trace)
    (run : Together answers (fun p => Session.run (ctx p) (ticks p)) s₀ trace running s)
    {before after : Trace ι SessionRequest.Answer} {p : ι} {x : (q : SessionRequest) × q.Answer}
    (split : trace = before ++ (p, x) :: after) :
    own p before = [] ∧ x.1 = .host (.file (.resolve (ctx p).source)) ∨
      May (target p) (own p before) x.1 := by
  have asks (p : ι) : Asks (MayAsk (ctx p).source) (fun _ _ => True)
      (Session.run (ctx p) (ticks p)) [] := by
    obtain ⟨layout, live⟩ := neighbors.live p
    exact asks_run live (ticks p)
  obtain first | ⟨path, resolved, may⟩ := (run.asked asks).2 before p x after split
  · exact .inl first
  · have head : (own p trace).head? =
        some ⟨.host (.file (.resolve (ctx p).source)), .ok path⟩ := by
      rw [split, own_append, List.head?_append, resolved, Option.some_or]
    obtain rfl := neighbors.resolved p path head
    exact .inr may

/-- After a sweep that begins once a token was drawn a session only removes files. -/
theorem Neighbors.closing (neighbors : Neighbors ctx target trace)
    (run : Together answers (fun p => Session.run (ctx p) (ticks p)) s₀ trace running s)
    {before after : Trace ι SessionRequest.Answer} {p : ι} {x : (q : SessionRequest) × q.Answer}
    (split : trace = before ++ (p, x) :: after) (swept : ¬ Unswept (own p before)) :
    ∀ y ∈ own p after, y.1.removes = true := by
  intro y member
  obtain ⟨later, last, rfl⟩ := List.append_of_mem (mem_own_iff.mp member)
  have split' : trace = (before ++ (p, x) :: later) ++ (p, y) :: last := by
    rw [split, List.append_assoc, List.cons_append]
  have past : own p (before ++ (p, x) :: later) = own p before ++ x :: own p later := by
    rw [own_append, own_cons_self]
  obtain ⟨none, _⟩ | may := neighbors.may run split'
  · rw [past] at none
    exact absurd (List.append_eq_nil_iff.mp none).2 (List.cons_ne_nil _ _)
  · rw [past] at may
    refine may.closing.resolve_left fun unswept => swept ?_
    exact (List.pairwise_append.mp unswept).1

/-- The path of a side file that a session has written. -/
theorem Neighbors.names_of_write (neighbors : Neighbors ctx target trace)
    (run : Together answers (fun p => Session.run (ctx p) (ticks p)) s₀ trace running s)
    {before after : Trace ι SessionRequest.Answer} {p : ι} {path : Path} {bytes : List UInt8}
    {written : Except Fault Unit}
    (split : trace = before ++ (p, ⟨.host (.file (.write path bytes)), written⟩) :: after) :
    Names (target p) (own p before) path := by
  obtain ⟨_, resolve⟩ | may := neighbors.may run split
  · cases resolve
  · obtain named | ⟨remove, _⟩ := may.changes path rfl
    · exact named
    · cases remove

/-- Sessions that share a directory leave alone each other's sources and each other's side files but
for their sweeps: such a file is changed only by the sweep of a start or a close that found it under
the name of a side file. The one exception is a coincidence: a token that a session drew itself
gives it the name of the other's source, or has the digits of a token that the other one drew. -/
theorem sessions_disturb_by_sweeping_only (neighbors : Neighbors ctx target trace)
    (run : Together answers (fun p => Session.run (ctx p) (ticks p)) s₀ trace running s)
    {before after : Trace ι SessionRequest.Answer} {p q : ι}
    {x : (q : SessionRequest) × q.Answer} {path : Path}
    (split : trace = before ++ (p, x) :: after)
    (changed : x.1.changed? = some path)
    (theirs : Path.components path = Path.components (target q) ∨
      ∃ bytes written, (q, ⟨.host (.file (.write path bytes)), written⟩) ∈ before) :
    x.1 = .host (.file (.remove path)) ∧
        SweptAway (target p) (own p before) (own p after) path ∨
      ∃ counter token, (p, ⟨.host .token, token⟩) ∈ before ∧
        path = sidePath (target p) (sideFileName counter token) ∧
        (Path.components path = Path.components (target q) ∨
          ∃ token', (q, ⟨.host .token, token'⟩) ∈ before ∧ token'.short = token.short) := by
  obtain ⟨_, resolve⟩ | may := neighbors.may run split
  · rw [resolve] at changed
    cases changed
  obtain ⟨counter, token, drawn, named⟩ | ⟨removal, sweeping⟩ := may.changes path changed
  · refine .inr ⟨counter, token, mem_own_iff.mp drawn, named, theirs.imp_right ?_⟩
    rintro ⟨bytes, written, member⟩
    obtain ⟨earlier, later, rfl⟩ := List.append_of_mem member
    rw [List.append_assoc] at split
    obtain ⟨counter', token', drawn', named'⟩ := neighbors.names_of_write run split
    refine ⟨token', List.mem_append_left _ (mem_own_iff.mp drawn'), ?_⟩
    rw [named, sidePath, sidePath, neighbors.directory_eq p q, Path.join_inj
      (slash_notMem_of_isSideFileName (isSideFileName_sideFileName ..))
      (slash_notMem_of_isSideFileName (isSideFileName_sideFileName ..))] at named'
    exact (short_eq_of_sideFileName_eq named').symm
  · obtain ⟨earlier, names, removals, past, removing, found⟩ := sweeping
    rw [sweepable_eq] at found
    obtain ⟨name, listed, rfl⟩ := List.mem_map.mp found
    obtain ⟨member, side⟩ := mem_swept_iff.mp listed
    refine .inl ⟨removal, earlier, names, removals, name, past, removing, member, side, rfl, ?_⟩
    by_cases undrawn : Undrawn earlier
    · exact .inl undrawn
    · refine .inr (neighbors.closing run split fun unswept => undrawn fun y drawn => ?_)
      rw [past] at unswept
      have order := (List.pairwise_append.mp unswept).2.2 y drawn _ List.mem_cons_self
      exact Bool.eq_false_iff.mpr fun draws => Bool.noConfusion (order draws)

end

/-- One file tree answers all that is asked about files, with the same time always. Whatever else is
asked can get any answer, and leaves the files alone. -/
def FileTree.Serves (t : FileTree) : (q : SessionRequest) → q.Answer → FileTree → Prop
  | .host (.file q), r, t' => t.answer [] ⟨1⟩ q = (r, t')
  | _, _, t' => t' = t

/-! Two pages in one directory, where a second session starts while a first one shows its side
file. -/

namespace TwoPages

def page : Text := "Window \x7b\x7d".toList

/-- The name of a page, which is like that of a side file. -/
def posing : Text := "Live7_deadbeef.qml".toList

def ordinary : Text := "W.qml".toList

def side : Text := "Live1_00000000.qml".toList

def path (name : Text) : Path := "/a/".toList ++ name

def source (p : Bool) : Path := path (if p then ordinary else posing)

def context (p : Bool) : Context := ⟨{}, source p, .live .plain, none⟩

def tree (names : List Text) : FileTree :=
  let node : Node := .file (Utf8.encode page) ⟨1⟩
  ⟨names.map (fun name => (["a".toList, name], node)) ++ [(["a".toList], .directory ⟨1⟩)]⟩

def bare : FileTree := tree [posing, ordinary]

def live : FileTree := tree [side, posing, ordinary]

def swept : FileTree := tree [ordinary]

def opening : Log SessionRequest.Answer :=
  List.map FileRequest.inSession
    [⟨.resolve (source true), .ok (source true)⟩, ⟨.isPresent "/a".toList, true⟩,
      ⟨.list "/a".toList, .ok [side, posing, ordinary]⟩, ⟨.remove (path side), .ok ()⟩,
      ⟨.remove (path posing), .ok ()⟩, ⟨.modified (source true), .ok ⟨1⟩⟩]

theorem posing_starts :
    ∃ log started, Runs FileTree.Serves (startLive (context false) .plain) bare log started live ∧
      log.head? = some ⟨.host (.file (.resolve (source false))), .ok (source false)⟩ ∧
      ⟨.host (.file (.write (path side) (Utf8.encode page))), .ok ()⟩ ∈ log ∧
      ∀ x ∈ log, x.1.removes = false := by
  let options := (context false).settings.watchOptions .plain
  let w : Watcher := .started (source false) options ⟨1⟩
  let g : Generation := ⟨w.nextPath (Token.ofNat 0), ⟨1⟩, scan page⟩
  have answered {t t' : FileTree} {q : FileRequest} {r : q.Answer}
      (h : t.answer [] ⟨1⟩ q = (r, t')) : onFiles FileTree.Serves t q r t' := h
  have resolving : onFiles FileTree.Serves bare (.resolve (source false)) (.ok (source false))
      bare := answered (by cbv)
  have dating : onFiles FileTree.Serves bare (.modified (source false)) (.ok ⟨1⟩) bare :=
    answered (by cbv)
  have listing : onFiles FileTree.Serves bare (.list (workingDirectory (source false)))
      (.ok [posing, ordinary]) bare := answered (by cbv)
  have kept : sweepable (workingDirectory (source false)) [source false] [posing, ordinary] = [] :=
    by decide
  have sweeping : Sweeps (onFiles FileTree.Serves) (workingDirectory (source false))
      [source false] bare _ bare :=
    .swept (answered (by cbv)) listing (by rw [kept]; exact .nil _)
  have starting : Watcher.Starts (onFiles FileTree.Serves) (source false) options bare _ (.ok w)
      bare := .started resolving sweeping dating
  have decoded : Utf8.decode? (Utf8.encode page) = some page := by decide +kernel
  have usable : (scan page).hasUsableRoot = true := by decide +kernel
  have presented := @present_of_shown ⟨source false, page, ⟨1⟩⟩ _ ⟨rfl, usable⟩ options.size
  have reading : Document.Reads (onFiles FileTree.Serves) (source false) bare _
      (.ok ⟨source false, page, ⟨1⟩⟩) bare :=
    .read _ resolving dating (answered (by cbv)) decoded
  have named : w.nextPath (Token.ofNat 0) = path side := by decide +kernel
  have writing : onFiles FileTree.Serves bare (.write (path side) (Utf8.encode page)) (.ok ())
      live := answered (by cbv)
  have drawing : FileTree.Serves bare (.host .token) (Token.ofNat 0) bare := rfl
  have making : Watcher.Generates FileTree.Serves w bare _ (.ok g, w.counted) live :=
    .made (w := w) reading presented drawing (named.symm ▸ writing)
  have loading : FileTree.Serves live (.engine (.load g.locator)) (.ok [1]) live := rfl
  refine ⟨_, _, runs_startLive_iff.mpr (.live starting making loading rfl (.nil _)), rfl, ?_, ?_⟩
  · rw [← named]
    simp only [List.mem_append, List.mem_cons]
    exact .inr (.inl (.inr (.inr (.inl rfl))))
  · decide

theorem ordinary_sweeps : ∃ started, Runs FileTree.Serves
    (Watcher.start (source true) ((context true).settings.watchOptions .plain)).inSession
    live opening started swept := by
  let options := (context true).settings.watchOptions .plain
  have answered {t t' : FileTree} {q : FileRequest} {r : q.Answer}
      (h : t.answer [] ⟨1⟩ q = (r, t')) : onFiles FileTree.Serves t q r t' := h
  have listing : onFiles FileTree.Serves live (.list (workingDirectory (source true)))
      (.ok [side, posing, ordinary]) live := answered (by cbv)
  have first : onFiles FileTree.Serves live (.remove (path side)) (.ok ()) bare :=
    answered (by cbv)
  have second : onFiles FileTree.Serves bare (.remove (path posing)) (.ok ()) swept :=
    answered (by cbv)
  have found : sweepable (workingDirectory (source true)) [source true]
      [side, posing, ordinary] = [path side, path posing] := by decide
  have sweeping : Sweeps (onFiles FileTree.Serves) (workingDirectory (source true)) [source true]
      live _ swept :=
    .swept (answered (by cbv)) listing (by rw [found]; exact .cons first (.cons second (.nil _)))
  have starting : Watcher.Starts (onFiles FileTree.Serves) (source true) options live _
      (.ok (.started (source true) options ⟨1⟩)) swept :=
    .started (answered (by cbv)) sweeping (answered (by cbv))
  exact ⟨_, runs_inSession_iff.mpr ⟨_, Watcher.runs_start_iff.mpr starting, rfl⟩⟩

/-- The posing page has its side file, and then the session of the ordinary one starts. -/
theorem run_together :
    ∃ (log : Log SessionRequest.Answer)
      (running running' : Bool → SessionScript (Except Error Int)),
      log.head? = some ⟨.host (.file (.resolve (source false))), .ok (source false)⟩ ∧
      ⟨.host (.file (.write (path side) (Utf8.encode page))), .ok ()⟩ ∈ log ∧
      (∀ x ∈ log, x.1.removes = false) ∧
      Together (fun _ => FileTree.Serves) (fun p => Session.run (context p) 0)
        bare (log.map (Prod.mk false)) running live ∧
      Together (fun _ => FileTree.Serves) (fun p => Session.run (context p) 0)
        bare (log.map (Prod.mk false) ++ opening.map (Prod.mk true)) running' swept := by
  obtain ⟨log, started, starts, resolved, written, keeps⟩ := posing_starts
  obtain ⟨_, sweeps⟩ := ordinary_sweeps
  have alone : Together (fun _ => FileTree.Serves) (fun p => Session.run (context p) 0) bare
      ([] ++ log.map (Prod.mk false)) _ live := Together.start.alone (p := false) rfl starts
  exact ⟨log, _, _, resolved, written, keeps, alone,
    alone.alone (p := true) (Script.bind_assoc _ _ _) sweeps⟩

end TwoPages

section
open TwoPages

/-- A session that starts in the directory sweeps away the side file that another one shows. -/
theorem sessions_disturb_by_sweeping_only_at_start :
    ∃ (trace before after : Trace Bool SessionRequest.Answer)
      (running : Bool → SessionScript (Except Error Int)),
      Neighbors context source trace ∧
      Together (fun _ => FileTree.Serves) (fun p => Session.run (context p) 0)
        bare trace running swept ∧
      trace = before ++ (true, ⟨.host (.file (.remove (path side))), .ok ()⟩) :: after ∧
      (false, ⟨.host (.file (.write (path side) (Utf8.encode page))), .ok ()⟩) ∈ before ∧
      SweptAway (source true) (own true before) (own true after) (path side) := by
  obtain ⟨log, _, running, resolved, written, _, _, run⟩ := run_together
  have neighbors :
      Neighbors context source (log.map (Prod.mk false) ++ opening.map (Prod.mk true)) := by
    refine ⟨fun p => ⟨.plain, rfl⟩, fun p path resolving => ?_, fun p q => ?_⟩
    · rw [own_append] at resolving
      cases p with
      | false =>
          rw [Script.own_map_self, List.head?_append, context, resolved] at resolving
          cases resolving
          rfl
      | true =>
          rw [Script.own_map_of_ne Bool.false_ne_true, Script.own_map_self] at resolving
          cases resolving
          rfl
    · cases p <;> cases q <;> decide
  have split : log.map (Prod.mk false) ++ opening.map (Prod.mk true) =
      (log.map (Prod.mk false) ++ (opening.take 3).map (Prod.mk true)) ++
        (true, ⟨.host (.file (.remove (path side))), .ok ()⟩) ::
          (opening.drop 4).map (Prod.mk true) := by
    rw [List.append_assoc]
    rfl
  have member := List.mem_append_left ((opening.take 3).map (Prod.mk true))
    (List.mem_map_of_mem (f := Prod.mk false) written)
  refine ⟨_, _, _, running, neighbors, run, split, member, ?_⟩
  obtain ⟨_, away⟩ | ⟨_, _, drawn, _⟩ :=
    sessions_disturb_by_sweeping_only neighbors run split rfl (.inr ⟨_, _, member⟩)
  · exact away
  · obtain first | second := List.mem_append.mp drawn
    · obtain ⟨_, _, ⟨⟩⟩ := List.mem_map.mp first
    · simp [opening, FileRequest.inSession] at second

/-- The start of a second session takes away the source of the first one, which is named like a side
file, and the side file that it shows. -/
theorem sessions_sweep_each_other :
    ∃ (before after : Trace Bool SessionRequest.Answer)
      (running running' : Bool → SessionScript (Except Error Int)),
      Together (fun _ => FileTree.Serves) (fun p => Session.run (context p) 0)
        bare before running live ∧
      (false, ⟨.host (.file (.write (path side) (Utf8.encode page))), .ok ()⟩) ∈ before ∧
      (∀ x ∈ before, x.2.1.removes = false) ∧
      Together (fun _ => FileTree.Serves) (fun p => Session.run (context p) 0)
        bare (before ++ after) running' swept ∧
      (∀ x ∈ after, x.1 = true) ∧
      (true, ⟨.host (.file (.remove (path side))), .ok ()⟩) ∈ after ∧
      (true, ⟨.host (.file (.remove (source false))), .ok ()⟩) ∈ after := by
  obtain ⟨log, _, _, _, written, keeps, run, run'⟩ := run_together
  refine ⟨_, _, _, _, run, List.mem_map_of_mem written, ?_, run', ?_, ?_, ?_⟩
  · exact List.forall_mem_map.mpr keeps
  · exact List.forall_mem_map.mpr fun _ _ => rfl
  · exact .tail _ (.tail _ (.tail _ (.head _)))
  · exact .tail _ (.tail _ (.tail _ (.tail _ (.head _))))

end

end QmlPreview
