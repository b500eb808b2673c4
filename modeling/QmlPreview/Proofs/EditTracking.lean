import QmlPreview.Proofs.Failures
import QmlPreview.Proofs.Presenting

/-! A watcher loses no edit. The source can be edited between any two of its looks at the file; as
long as every edit gives the file a new time of change, the time that the watcher keeps is never
that of a text newer than the one it dealt with. -/

namespace QmlPreview

open Script (Log Runs)
open Session (LiveRun)

/-- The file of a source: its time of change, its bytes, and the times of change that it had
before. -/
structure Source where
  modified : Time
  bytes : List UInt8
  earlier : List Time := []
  deriving DecidableEq, Repr

namespace Source

/-- The text of the source, if its bytes are one. -/
def text? (s : Source) : Option Text := Utf8.decode? s.bytes

/-- The times of change that the file has or had. -/
def times (s : Source) : List Time := s.modified :: s.earlier

/-- Any number of edits, each of which gives the file a time of change that it never had before. -/
inductive Edits (s : Source) : Source → Prop
  | none : Edits s s
  | edit {t : Source} (modified : Time) (bytes : List UInt8) : Edits s t → modified ∉ t.times →
      Edits s ⟨modified, bytes, t.times⟩

/-- A look at the file of the source at `target` finds it as it is, or fails. Nothing is said about
other questions. -/
def Shows (target : Path) (s : Source) : (q : SessionRequest) → q.Answer → Prop
  | .host (.file (.resolve _)), .ok path => path = target
  | .host (.file (.modified path)), .ok modified => path = target → modified = s.modified
  | .host (.file (.read path)), .ok bytes => path = target → bytes = s.bytes
  | _, _ => True

/-- Answers while the source is edited: any one of them can be preceded by edits. -/
def Answers (target : Path) : Script.Answers Source SessionRequest.Answer :=
  fun s q r s' => s.Edits s' ∧ s'.Shows target q r

def StillAnswers (target : Path) : Script.Answers Source SessionRequest.Answer :=
  fun s q r s' => s' = s ∧ s'.Shows target q r

theorem StillAnswers.answers {target : Path} {s s' : Source} {q : SessionRequest} {r : q.Answer}
    (answered : StillAnswers target s q r s') : Answers target s q r s' := by
  obtain ⟨rfl, shows⟩ := answered
  exact ⟨.none, shows⟩

theorem Edits.trans {s t u : Source} (first : s.Edits t) (second : t.Edits u) : s.Edits u := by
  induction second with
  | none => exact first
  | edit modified bytes _ fresh ih => exact .edit modified bytes ih fresh

theorem Edits.mem_times {s t : Source} {m : Time} (edits : s.Edits t) (h : m ∈ s.times) :
    m ∈ t.times := by
  induction edits with
  | none => exact h
  | edit _ _ _ _ ih => exact List.mem_cons_of_mem _ ih

theorem Edits.eq_or_lt {s t : Source} (edits : s.Edits t) :
    t = s ∨ s.earlier.length < t.earlier.length := by
  induction edits with
  | none => exact .inl rfl
  | @edit t _ _ _ _ ih =>
      right
      change s.earlier.length < t.earlier.length + 1
      obtain rfl | longer := ih <;> omega

theorem Edits.antisymm {s t : Source} (there : s.Edits t) (back : t.Edits s) : t = s := by
  obtain same | longer := there.eq_or_lt
  · exact same
  · obtain same | longer' := back.eq_or_lt
    · exact same.symm
    · omega

/-- The file had the time of change, and if it still has it, then it holds the text. -/
def Tracks (s : Source) (m : Time) (text : Text) : Prop :=
  m ∈ s.times ∧ (m = s.modified → s.text? = some text)

/-- An edit cannot bring a time of change back. -/
theorem Tracks.after {s t : Source} {m : Time} {text : Text} (tracks : s.Tracks m text)
    (edits : s.Edits t) : t.Tracks m text := by
  induction edits with
  | none => exact tracks
  | edit modified bytes _ fresh ih =>
      obtain ⟨had, _⟩ := ih
      refine ⟨List.mem_cons_of_mem _ had, ?_⟩
      rintro rfl
      exact absurd had fresh

end Source

open Source

namespace Source

/-- On the way from `s` to `s'` the source held the text, and had or had had the time of change. -/
def Held (s s' : Source) (m : Time) (text : Text) : Prop :=
  ∃ s₁, s.Edits s₁ ∧ s₁.Edits s' ∧ m ∈ s₁.times ∧ s₁.text? = some text

variable {r s s' s'' : Source} {m : Time} {text : Text}

theorem Held.tracks (held : Held s s' m text) : s'.Tracks m text := by
  obtain ⟨s₁, _, after, had, found⟩ := held
  have tracks : s₁.Tracks m text := ⟨had, fun _ => found⟩
  exact tracks.after after

/-- A source that is left alone held no text but its present one. -/
theorem Held.text_eq (held : Held s s m text) : s.text? = some text := by
  obtain ⟨s₁, before, after, _, found⟩ := held
  rw [after.antisymm before, found]

theorem Held.before (edits : r.Edits s) (held : Held s s' m text) : Held r s' m text := by
  obtain ⟨s₁, before, rest⟩ := held
  exact ⟨s₁, edits.trans before, rest⟩

theorem Held.after (held : Held s s' m text) (edits : s'.Edits s'') : Held s s'' m text := by
  obtain ⟨s₁, before, after, rest⟩ := held
  exact ⟨s₁, before, after.trans edits, rest⟩

end Source

namespace Session

variable {first second log : Log SessionRequest.Answer}

/-- The text that a run read: the answer to its first request to read. -/
def textRead (log : Log SessionRequest.Answer) : Option Text :=
  log.findSome? fun
    | ⟨.host (.file (.read _)), .ok bytes⟩ => Utf8.decode? bytes
    | _ => none

def lastWritten (path : Path) (log : Log SessionRequest.Answer) : Option (List UInt8) :=
  log.reverse.findSome? fun
    | ⟨.host (.file (.write written bytes)), .ok _⟩ => if written = path then some bytes else none
    | _ => none

/-- No text was dealt with in these exchanges: none was read, or something failed for now. -/
def leavesOpen (log : Log SessionRequest.Answer) : Bool :=
  (textRead log).isNone || log.any failsForNow

theorem textRead_append : textRead (first ++ second) = (textRead first).or (textRead second) :=
  List.findSome?_append

theorem lastWritten_append (path : Path) (first second : Log SessionRequest.Answer) :
    lastWritten path (first ++ second) = (lastWritten path second).or (lastWritten path first) := by
  rw [lastWritten, List.reverse_append, List.findSome?_append]
  rfl

theorem leavesOpen_of_failsForNow (failed : ∃ x ∈ log, failsForNow x = true) :
    leavesOpen log = true := by
  rw [leavesOpen, List.any_eq_true.mpr failed, Bool.or_true]

theorem leavesOpen_eq_false_iff {log : Log SessionRequest.Answer} : leavesOpen log = false ↔
    (∃ text, textRead log = some text) ∧ log.any failsForNow = false := by
  rw [leavesOpen, Bool.or_eq_false_iff, Option.isNone_eq_false_iff, Option.isSome_iff_exists]

theorem leavesOpen_append (settled : leavesOpen first = false)
    (lucky : second.any failsForNow = false) : leavesOpen (first ++ second) = false := by
  obtain ⟨⟨text, read⟩, lucky'⟩ := leavesOpen_eq_false_iff.mp settled
  refine leavesOpen_eq_false_iff.mpr ⟨⟨text, ?_⟩, ?_⟩
  · rw [textRead_append, read, Option.some_or]
  · rw [List.any_append, lucky', lucky, Bool.or_false]

end Session

open Session

section
variable {σ : Type} {answers : Script.Answers σ FileRequest.Answer} {s s' : σ}
  {log : Log FileRequest.Answer}

theorem RemovesAll.textRead_eq {paths : List Path} (removes : RemovesAll answers paths s log s') :
    textRead (log.map FileRequest.inSession) = none := by
  induction removes with
  | nil => rfl
  | cons _ _ ih => exact ih

theorem RemovesAll.lastWritten_eq {paths : List Path} (removes : RemovesAll answers paths s log s')
    (path : Path) : lastWritten path (log.map FileRequest.inSession) = none := by
  induction removes with
  | nil => rfl
  | @cons removed _ outcome _ _ _ log _ _ ih =>
      have split := lastWritten_append path [FileRequest.inSession ⟨.remove removed, outcome⟩]
        (log.map FileRequest.inSession)
      rw [ih] at split
      exact split

theorem RemovesAll.any_failsForNow {paths : List Path}
    (removes : RemovesAll answers paths s log s') :
    (log.map FileRequest.inSession).any failsForNow = false := by
  induction removes with
  | nil => rfl
  | cons _ _ ih => exact ih

theorem Sweeps.textRead_eq {dir : Path} {keep : List Path}
    (sweeps : Sweeps answers dir keep s log s') :
    textRead (log.map FileRequest.inSession) = none := by
  cases sweeps with
  | absent | unlisted => rfl
  | swept _ _ removes => exact removes.textRead_eq

theorem Watcher.Starts.textRead_eq {path : Path} {options : WatchOptions}
    {result : Except Error Watcher} (starts : Watcher.Starts answers path options s log result s') :
    textRead (log.map FileRequest.inSession) = none := by
  cases starts with
  | unresolved => rfl
  | undated _ sweeps _ | started _ sweeps _ =>
      change textRead (List.map FileRequest.inSession (_ ++ _)) = none
      rw [List.map_append, textRead_append, sweeps.textRead_eq]
      rfl

theorem Document.Reads.textRead_eq {path : Path} {doc : Document}
    (reads : Document.Reads answers path s log (.ok doc) s') :
    textRead (log.map FileRequest.inSession) = some doc.text := by
  cases reads with
  | read _ _ _ _ decoded =>
      simp only [textRead, List.map_cons, FileRequest.inSession, List.findSome?_cons, decoded]

theorem Document.Reads.dated {path : Path} {doc : Document}
    (reads : Document.Reads answers path s log (.ok doc) s') :
    Watcher.look doc.path doc.modified ∈ log.map FileRequest.inSession := by
  cases reads with
  | read => exact .tail _ (.head _)

theorem Document.Reads.leavesOpen_eq {path : Path} {doc : Document}
    (reads : Document.Reads answers path s log (.ok doc) s') :
    leavesOpen (log.map FileRequest.inSession) = false := by
  refine leavesOpen_eq_false_iff.mpr ⟨⟨_, reads.textRead_eq⟩, ?_⟩
  cases reads with
  | read _ _ _ _ decoded =>
      simp only [List.map_cons, FileRequest.inSession, List.map_nil, List.any_cons, failsForNow,
        decoded, Option.isNone_some, List.any_nil, Bool.or_false]

end

namespace Watcher

structure HasRead (w : Watcher) (log : Log SessionRequest.Answer) (doc : Document) : Prop where
  path_eq : doc.path = w.target
  dated : look doc.path doc.modified ∈ log
  text_eq : textRead log = some doc.text

/-- The watcher read the document, and what it wrote to the side file at `path` is what the document
is presented as. -/
structure HasWritten (w : Watcher) (log : Log SessionRequest.Answer) (path : Path)
    (doc : Document) : Prop extends HasRead w log doc where
  written : ∃ text, doc.PresentedAs w.options.layout w.options.size text ∧
    lastWritten path log = some (Utf8.encode text)

/-- The document is committed: the side file written for it is the current one, and the time of change
that it was read with is kept. -/
structure Commits (w : Watcher) (log : Log SessionRequest.Answer) (path : Path)
    (doc : Document) : Prop extends HasWritten w log path doc where
  current_eq : w.current = some path
  lastModified_eq : w.lastModified = some doc.modified

/-- The document is rejected: it cannot be presented, or the engine refused its side file for good. -/
inductive Rejects (w : Watcher) (log : Log SessionRequest.Answer) (doc : Document) : Prop
  | unpresentable {e : Error} : w.HasRead log doc →
      doc.present (scan doc.text) w.options.layout w.options.size = .error e → Rejects w log doc
  | refused {path : Path} {e : Error} : w.HasWritten log path doc →
      ⟨.engine (.reload (.file path) (scan doc.text)), .error e⟩ ∈ log → e.isTransient = false →
      Rejects w log doc

/-- The document is dealt with as the outcome of a poll says. -/
def Deals (w : Watcher) (log : Log SessionRequest.Answer) (doc : Document) : PollOutcome → Prop
  | .reloaded path => w.Commits log path doc
  | .rejected => w.Rejects log doc
  | .unchanged | .retrying => False

/-- The document that a live session last dealt with, where `w` is its watcher now: that of the last
poll which left nothing open, else that of the start. -/
def Processed (w : Watcher) (start : Log SessionRequest.Answer) :
    List (PollOutcome × Log SessionRequest.Answer) → Document → Prop
  | [], doc => ∃ path, w.Commits start path doc
  | (outcome, log) :: earlier, doc =>
    if leavesOpen log then w.Processed start earlier doc else w.Deals log doc outcome

section
variable {w w' : Watcher} {log more : Log SessionRequest.Answer} {path : Path} {doc : Document}

theorem Deals.text_eq {outcome : PollOutcome} (deals : w.Deals log doc outcome) :
    textRead log = some doc.text := by
  cases outcome with
  | unchanged | retrying => cases deals
  | reloaded path =>
      have commits : w.Commits log path doc := deals
      exact commits.text_eq
  | rejected =>
      cases deals with
      | unpresentable has => exact has.text_eq
      | refused has => exact has.text_eq

theorem HasRead.append (has : w.HasRead log doc) (more : Log SessionRequest.Answer) :
    w.HasRead (log ++ more) doc := by
  refine ⟨has.path_eq, List.mem_append_left _ has.dated, ?_⟩
  rw [textRead_append, has.text_eq, Option.some_or]

theorem HasWritten.append (has : w.HasWritten log path doc) (silent : lastWritten path more = none) :
    w.HasWritten (log ++ more) path doc := by
  obtain ⟨text, presented, written⟩ := has.written
  refine ⟨has.toHasRead.append more, text, presented, ?_⟩
  rw [lastWritten_append, silent, Option.none_or, written]

theorem HasRead.prepend (has : w.HasRead log doc) (silent : textRead more = none) :
    w.HasRead (more ++ log) doc := by
  refine ⟨has.path_eq, List.mem_append_right _ has.dated, ?_⟩
  rw [textRead_append, silent, Option.none_or, has.text_eq]

theorem HasWritten.prepend (has : w.HasWritten log path doc) (silent : textRead more = none) :
    w.HasWritten (more ++ log) path doc := by
  obtain ⟨text, presented, written⟩ := has.written
  refine ⟨has.toHasRead.prepend silent, text, presented, ?_⟩
  rw [lastWritten_append, written, Option.some_or]

/-- The side file that was written is committed. -/
theorem HasWritten.commits {σ : Type} {answers : Script.Answers σ FileRequest.Answer} {s s' : σ}
    {g : Generation} {paths : List Path} {removals : Log FileRequest.Answer} {q : EngineRequest}
    {answer : q.Answer} (has : w.HasWritten log g.path doc) (dated : g.modified = doc.modified)
    (removing : RemovesAll answers paths s removals s') (left : List Path) :
    (w.committed left g).Commits
      (log ++ ⟨.engine q, answer⟩ :: removals.map FileRequest.inSession) g.path doc := by
  have silent : lastWritten g.path (⟨.engine q, answer⟩ :: removals.map FileRequest.inSession) =
      none := by
    rw [← List.singleton_append, lastWritten_append, removing.lastWritten_eq]
    rfl
  have has' := has.append silent
  exact ⟨⟨⟨has'.path_eq, has'.dated, has'.text_eq⟩, has'.written⟩, List.getLast?_concat, congrArg some dated⟩

/-- The engine refused the side file that was written, for good. -/
theorem HasWritten.rejects {g : Generation} {e : Error} (has : w.HasWritten log g.path doc)
    (facts : g.facts = scan doc.text) (final : e.isTransient = false) (modified : Time)
    (removed : Except Fault Unit) :
    (w.reject modified).Rejects (log ++ [⟨.engine (.reload g.locator g.facts), .error e⟩,
      ⟨.host (.file (.remove g.path)), removed⟩]) doc := by
  have has' : w.HasWritten (log ++ [⟨.engine (.reload g.locator g.facts), .error e⟩,
      ⟨.host (.file (.remove g.path)), removed⟩]) g.path doc := has.append rfl
  refine .refused ⟨⟨has'.path_eq, has'.dated, has'.text_eq⟩, has'.written⟩ ?_ final
  rw [← facts]
  exact List.mem_append_right _ (.head _)

theorem Commits.prepend (commits : w.Commits log path doc) (silent : textRead more = none) :
    w.Commits (more ++ log) path doc :=
  ⟨commits.toHasWritten.prepend silent, commits.current_eq, commits.lastModified_eq⟩

theorem Deals.prepend {outcome : PollOutcome} (deals : w.Deals log doc outcome)
    (silent : textRead more = none) : w.Deals (more ++ log) doc outcome := by
  cases outcome with
  | unchanged | retrying => exact deals
  | reloaded path => exact Commits.prepend deals silent
  | rejected =>
      cases deals with
      | unpresentable has failed => exact .unpresentable (has.prepend silent) failed
      | refused has asked final =>
          exact .refused (has.prepend silent) (List.mem_append_right _ asked) final

/-- The watchers agree in all that tells what was dealt with. -/
structure Agrees (w w' : Watcher) : Prop where
  target_eq : w'.target = w.target
  options_eq : w'.options = w.options
  current_eq : w'.current = w.current
  lastModified_eq : w'.lastModified = w.lastModified

theorem HasRead.of_agrees (has : w.HasRead log doc) (agrees : w.Agrees w') : w'.HasRead log doc :=
  ⟨has.path_eq.trans agrees.target_eq.symm, has.dated, has.text_eq⟩

theorem HasWritten.of_agrees (has : w.HasWritten log path doc) (agrees : w.Agrees w') :
    w'.HasWritten log path doc :=
  ⟨has.toHasRead.of_agrees agrees, by rw [agrees.options_eq]; exact has.written⟩

theorem Commits.of_agrees (commits : w.Commits log path doc) (agrees : w.Agrees w') :
    w'.Commits log path doc :=
  ⟨commits.toHasWritten.of_agrees agrees, agrees.current_eq.trans commits.current_eq,
    agrees.lastModified_eq.trans commits.lastModified_eq⟩

theorem Deals.of_agrees {outcome : PollOutcome} (deals : w.Deals log doc outcome)
    (agrees : w.Agrees w') : w'.Deals log doc outcome := by
  cases outcome with
  | unchanged | retrying => exact deals
  | reloaded path => exact Commits.of_agrees deals agrees
  | rejected =>
      cases deals with
      | unpresentable has failed =>
          exact .unpresentable (has.of_agrees agrees) (by rw [agrees.options_eq]; exact failed)
      | refused has asked final => exact .refused (has.of_agrees agrees) asked final

section
variable {start : Log SessionRequest.Answer}
  {polls : List (PollOutcome × Log SessionRequest.Answer)} {outcome : PollOutcome}

theorem processed_iff_of_open (left : leavesOpen log = true) :
    w.Processed start ((outcome, log) :: polls) doc ↔ w.Processed start polls doc := by
  rw [Processed, if_pos left]

theorem processed_iff_of_settled (settled : leavesOpen log = false) :
    w.Processed start ((outcome, log) :: polls) doc ↔ w.Deals log doc outcome := by
  rw [Processed, settled, if_neg Bool.false_ne_true]

/-- Only one text is the one last dealt with. -/
theorem Processed.text_unique {doc' : Document} (processed : w.Processed start polls doc)
    (processed' : w.Processed start polls doc') : doc'.text = doc.text := by
  induction polls with
  | nil =>
      obtain ⟨_, commits⟩ := processed
      obtain ⟨_, commits'⟩ := processed'
      exact Option.some.inj (commits'.text_eq.symm.trans commits.text_eq)
  | cons poll earlier ih =>
      cases left : leavesOpen poll.2 with
      | true =>
          rw [processed_iff_of_open left] at processed processed'
          exact ih processed processed'
      | false =>
          rw [processed_iff_of_settled left] at processed processed'
          exact Option.some.inj (processed'.text_eq.symm.trans processed.text_eq)

theorem Processed.of_agrees (processed : w.Processed start polls doc) (agrees : w.Agrees w') :
    w'.Processed start polls doc := by
  induction polls with
  | nil =>
      obtain ⟨path, commits⟩ := processed
      exact ⟨path, commits.of_agrees agrees⟩
  | cons poll earlier ih =>
      cases left : leavesOpen poll.2 with
      | true =>
          rw [processed_iff_of_open left] at processed ⊢
          exact ih processed
      | false =>
          rw [processed_iff_of_settled left] at processed ⊢
          exact processed.of_agrees agrees

end

end

end Watcher

variable {target : Path} {s s' : Source}

theorem edits_of_runs {α : Type} {script : SessionScript α} {log : Log SessionRequest.Answer}
    {a : α} (run : Runs (Source.Answers target) script s log a s') : s.Edits s' :=
  run.preserves (I := s.Edits) (fun answered edits => edits.trans answered.1) .none

theorem RemovesAll.edits {paths : List Path} {log : Log FileRequest.Answer}
    (removes : RemovesAll (onFiles (Source.Answers target)) paths s log s') : s.Edits s' := by
  induction removes with
  | nil => exact .none
  | cons removing _ ih => exact removing.1.trans ih

/-- A document is read as the source is at the end of the reading, whenever its time of change was
taken. -/
theorem Document.Reads.held {path : Path} {log : Log FileRequest.Answer} {doc : Document}
    (reads : Document.Reads (onFiles (Source.Answers target)) path s log (.ok doc) s') :
    doc.path = target ∧ Held s s' doc.modified doc.text ∧
      ∀ m ∈ s.times, Held s s' m doc.text := by
  cases reads with
  | read _ resolving dating reading decoded =>
      obtain ⟨before, named⟩ := resolving
      obtain ⟨between, dated⟩ := dating
      obtain ⟨after, found⟩ := reading
      have edits := before.trans (between.trans after)
      have text : s'.text? = some doc.text := by rw [Source.text?, ← found named, decoded]
      refine ⟨named, ⟨s', edits, .none, ?_, text⟩, fun m had => ?_⟩
      · rw [dated named]
        exact after.mem_times (List.mem_cons_self ..)
      · exact ⟨s', edits, .none, edits.mem_times had, text⟩

namespace Watcher

section
variable {w w' : Watcher} {log : Log SessionRequest.Answer}

/-- A side file holds what the text read for it is presented as. -/
theorem Generates.hasWritten {g : Generation}
    (generates : Generates (Source.Answers target) w s log (.ok g, w') s')
    (here : w.target = target) :
    ∃ doc, g.modified = doc.modified ∧ g.facts = scan doc.text ∧ w'.HasWritten log g.path doc ∧
      leavesOpen log = false ∧ Held s s' doc.modified doc.text ∧
      ∀ m ∈ s.times, Held s s' m doc.text := by
  cases generates with
  | @made readings doc loadable token s₁ _ _ reads presented drawing writing =>
      obtain ⟨named, held, held'⟩ := reads.held
      have after := drawing.1.trans writing.1
      have last : lastWritten (w.nextPath token) [⟨.host .token, token⟩,
          ⟨.host (.file (.write (w.nextPath token) (Utf8.encode loadable.text))), .ok ()⟩] =
            some (Utf8.encode loadable.text) := by simp [lastWritten]
      have has : w.counted.HasRead (readings.map FileRequest.inSession) doc :=
        ⟨named.trans here.symm, reads.dated, reads.textRead_eq⟩
      refine ⟨doc, rfl, rfl, ⟨has.append _, loadable.text,
        Document.presentedAs_of_present presented, ?_⟩, leavesOpen_append reads.leavesOpen_eq rfl,
        held.after after, fun m had => (held' m had).after after⟩
      rw [lastWritten_append, last, Option.some_or]

/-- A failure to make a side file that does not pass is that of presenting the text read. -/
theorem Generates.hasRead {e : Error}
    (generates : Generates (Source.Answers target) w s log (.error e, w') s')
    (final : mayPass e = false) (here : w.target = target) :
    ∃ doc, w'.HasRead log doc ∧
      doc.present (scan doc.text) w'.options.layout w'.options.size = .error e ∧
      leavesOpen log = false ∧ ∀ m ∈ s.times, Held s s' m doc.text := by
  cases generates with
  | unread reads => cases final.symm.trans reads.mayPass
  | unwritten => cases final
  | unpresented reads failed =>
      obtain ⟨named, _, held⟩ := reads.held
      exact ⟨_, ⟨named.trans here.symm, reads.dated, reads.textRead_eq⟩, failed,
        reads.leavesOpen_eq, held⟩

/-- Showing a changed source ends for now, or it deals with a text, and keeps a time of change that
the source had by the time the text was read. -/
theorem Regenerates.deals {modified : Time} {outcome : PollOutcome}
    (regenerates : Regenerates (Source.Answers target) w modified s log (outcome, w') s')
    (here : w.target = target) (dated : modified ∈ s.times) :
    outcome = .retrying ∨ leavesOpen log = false ∧
      ∃ m doc, w'.lastModified = some m ∧ Held s s' m doc.text ∧ w'.Deals log doc outcome := by
  cases regenerates with
  | unmade | failed => exact .inl rfl
  | malformed generates final =>
      obtain ⟨doc, has, failed, settled, held⟩ := generates.hasRead final here
      exact .inr ⟨settled, modified, doc, rfl, held modified dated,
        .unpresentable ⟨has.path_eq, has.dated, has.text_eq⟩ failed⟩
  | @shown making g w₁ removals _ _ _ generates showing removing =>
      obtain ⟨doc, dated', _, has, settled, held, _⟩ := generates.hasWritten here
      refine .inr ⟨leavesOpen_append settled removing.any_failsForNow, _, doc, rfl, ?_,
        has.commits dated' removing _⟩
      rw [dated']
      exact held.after (showing.1.trans removing.edits)
  | @refused making g w₁ e removed _ _ _ generates showing removing final =>
      obtain ⟨doc, _, facts, has, settled, _, held⟩ := generates.hasWritten here
      have lucky : List.any [⟨.engine (.reload g.locator g.facts), .error e⟩,
          ⟨.host (.file (.remove g.path)), removed⟩] failsForNow = false := by
        simp only [List.any_cons, failsForNow, final, List.any_nil, Bool.or_false]
      exact .inr ⟨leavesOpen_append settled lucky, modified, doc, rfl,
        (held modified dated).after (showing.1.trans removing.1),
        has.rejects facts final modified removed⟩

/-- The watcher watches the source, and the time of change that it keeps belongs to `text`. -/
structure Follows (w : Watcher) (target : Path) (s : Source) (text : Text) : Prop where
  target_eq : w.target = target
  watching : w.phase = .watching
  tracks : ∃ m, w.lastModified = some m ∧ s.Tracks m text

theorem Follows.after {w : Watcher} {text : Text} (follows : w.Follows target s text)
    (edits : s.Edits s') : w.Follows target s' text := by
  obtain ⟨m, kept, tracks⟩ := follows.tracks
  exact ⟨follows.target_eq, follows.watching, m, kept, tracks.after edits⟩

variable {outcome : PollOutcome} {text : Text}

/-- A poll that settles nothing leaves open what was read, and the watcher shows what it showed. -/
theorem Polls.agrees {σ : Type} {answers : Script.Answers σ SessionRequest.Answer} {s s' : σ}
    (polls : Polls answers w s log (outcome, w') s')
    (unsettled : outcome = .unchanged ∨ outcome = .retrying) :
    leavesOpen log = true ∧ w.Agrees w' := by
  obtain rfl | rfl := unsettled
  · cases polls with
    | asleep | unchanged => exact ⟨rfl, rfl, rfl, rfl, rfl⟩
    | changed _ _ _ regenerates => cases regenerates
  · refine ⟨leavesOpen_of_failsForNow polls.exists_failsForNow, ?_⟩
    cases polls with
    | unseen => exact ⟨rfl, rfl, rfl, rfl⟩
    | changed _ _ _ regenerates =>
        cases regenerates with
        | unmade generates | failed generates =>
            obtain ⟨_, rfl⟩ := generates.watcher_eq
            exact ⟨rfl, rfl, rfl, rfl⟩

/-- A poll that reloads or rejects deals with a text of the source, and keeps a time of change that
the source had by the time the text was read. -/
theorem Polls.deals (polls : Polls (Source.Answers target) w s log (outcome, w') s')
    (follows : w.Follows target s text)
    (settled : outcome ≠ .unchanged ∧ outcome ≠ .retrying) : leavesOpen log = false ∧
      ∃ m doc, w'.lastModified = some m ∧ Held s s' m doc.text ∧ w'.Deals log doc outcome := by
  cases polls with
  | asleep | unchanged => exact absurd rfl settled.1
  | unseen => exact absurd rfl settled.2
  | @changed modified log _ w'' s₁ _ _ looking _ regenerates =>
      -- A rejection keeps the time of this look, which comes before the reading of the text.
      have dated : modified ∈ s₁.times := by
        rw [looking.2 follows.target_eq]
        exact List.mem_cons_self ..
      obtain rfl | ⟨closed, m, doc, kept, held, deals⟩ :=
        regenerates.deals follows.target_eq dated
      · exact absurd rfl settled.2
      · have agrees : w''.Agrees { w'' with phase := .watching } := ⟨rfl, rfl, rfl, rfl⟩
        have silent : textRead [look w.target modified] = none := rfl
        exact ⟨closed, m, doc, kept, held.before looking.1,
          (deals.of_agrees agrees).prepend silent⟩

/-- A poll finds nothing changed only where the source has the time of change that was kept. -/
theorem Polls.lastModified_eq (polls : Polls (Source.Answers target) w s log (.unchanged, w') s')
    (follows : w.Follows target s text) : w.lastModified = some s'.modified := by
  cases polls with
  | asleep resting => exact absurd follows.watching resting
  | unchanged _ looking same => rw [same, looking.2 follows.target_eq]
  | changed _ _ _ regenerates => cases regenerates

/-- One poll: the watcher goes on to follow the source, with the document that the poll dealt with,
else with the one it had. -/
theorem Polls.follows {start : Log SessionRequest.Answer}
    {earlier : List (PollOutcome × Log SessionRequest.Answer)} {doc : Document}
    (polls : Polls (Source.Answers target) w s log (outcome, w') s')
    (processed : w.Processed start earlier doc) (follows : w.Follows target s doc.text) :
    ∃ doc', w'.Processed start ((outcome, log) :: earlier) doc' ∧
      w'.Follows target s' doc'.text := by
  have same : w'.target = target := polls.keeps.1.trans follows.target_eq
  have watching := polls.phase_eq follows.watching
  by_cases unsettled : outcome = .unchanged ∨ outcome = .retrying
  · obtain ⟨left, agrees⟩ := polls.agrees unsettled
    obtain ⟨_, _, m, had, tracks⟩ := follows.after (edits_of_runs (runs_poll_iff.mpr polls))
    exact ⟨doc, (processed_iff_of_open left).mpr (processed.of_agrees agrees), same, watching, m,
      agrees.lastModified_eq.trans had, tracks⟩
  · obtain ⟨closed, m, doc', kept, held, deals⟩ := polls.deals follows (not_or.mp unsettled)
    exact ⟨doc', (processed_iff_of_settled closed).mpr deals, same, watching, m, kept,
      held.tracks⟩

end

end Watcher

namespace Session

theorem StartsLive.follows {ctx : Context} {layout : Layout} {log : Log SessionRequest.Answer}
    {w : Watcher} (starts : StartsLive (Source.Answers target) ctx layout s log (.ok w) s') :
    ∃ doc, w.Processed log [] doc ∧ w.Follows target s' doc.text := by
  cases starts with
  | live starting generates loading _ removing =>
      cases starting with
      | started resolving sweeping dating =>
          have silent := (Watcher.Starts.started resolving sweeping dating).textRead_eq
          obtain ⟨doc, dated, _, has, _, held, _⟩ := generates.hasWritten resolving.2
          have tracks := (held.after (loading.1.trans removing.edits)).tracks
          refine ⟨doc, ⟨_, (has.commits dated removing _).prepend silent⟩, ?_⟩
          obtain ⟨_, rfl⟩ := generates.watcher_eq
          exact ⟨resolving.2, rfl, _, congrArg some dated, tracks⟩

/-- A live session follows its source through every poll. -/
theorem LiveRun.follows {ctx : Context} {layout : Layout} {start : Log SessionRequest.Answer}
    {polls : List (PollOutcome × Log SessionRequest.Answer)} {w : Watcher}
    (run : LiveRun (Source.Answers target) ctx layout s start polls w s') :
    ∃ doc, w.Processed start polls doc ∧ w.Follows target s' doc.text := by
  induction run with
  | live started => exact (runs_startLive_iff.mp started).follows
  | poll _ polled ih =>
      obtain ⟨doc, processed, follows⟩ := ih
      exact (Watcher.runs_poll_iff.mp polled).follows processed follows

end Session

/-- A watcher loses no edit: if it keeps the time of change that the source has, then the text that
it last committed or rejected is the one that the source has. Once the source is left alone, a poll
in which nothing fails for now commits or rejects that text, unless that was done before. -/
theorem watching_loses_no_edit {ctx : Context} {layout : Layout} {s₀ : Source}
    {start : Log SessionRequest.Answer} {polls : List (PollOutcome × Log SessionRequest.Answer)}
    {w : Watcher} (run : LiveRun (Source.Answers target) ctx layout s₀ start polls w s)
    (edits : s.Edits s') :
    (w.lastModified = some s'.modified →
      ∃ doc, s'.text? = some doc.text ∧ w.Processed start polls doc) ∧
    ∀ {log outcome w' t}, Runs (Source.StillAnswers target) w.poll s' log (outcome, w') t →
      (∀ x ∈ log, failsForNow x = false) →
      ∃ doc, s'.text? = some doc.text ∧
        (outcome = .unchanged ∧ w.Processed start polls doc ∨ w'.Deals log doc outcome) := by
  obtain ⟨doc, processed, follows⟩ := run.follows
  have later := follows.after edits
  have kept (same : w.lastModified = some s'.modified) : s'.text? = some doc.text := by
    obtain ⟨m, last, _, tracks⟩ := later.tracks
    exact tracks (Option.some.inj (last.symm.trans same))
  refine ⟨fun same => ⟨doc, kept same, processed⟩, ?_⟩
  intro log outcome w' t polled lucky
  obtain rfl : t = s' :=
    polled.preserves (I := (· = s')) (fun answered same => answered.1.trans same) rfl
  have polls := Watcher.runs_poll_iff.mp (polled.mono StillAnswers.answers)
  by_cases settled : outcome ≠ .unchanged ∧ outcome ≠ .retrying
  · obtain ⟨_, m, doc', _, held, deals⟩ := polls.deals later settled
    exact ⟨doc', held.text_eq, .inr deals⟩
  · cases outcome with
    | unchanged => exact ⟨doc, kept (polls.lastModified_eq later), .inl ⟨rfl, processed⟩⟩
    | retrying =>
        obtain ⟨x, asked, fails⟩ := polls.exists_failsForNow
        cases (lucky x asked).symm.trans fails
    | reloaded | rejected => exact absurd ⟨nofun, nofun⟩ settled

/-- The source is edited after its time of change was taken for the first side file and before its
text was read. The next poll reads the text again, and the one after it finds nothing changed. -/
theorem watching_catches_late_edit :
    let source : Path := "/a/W.qml".toList
    let ctx : Context := ⟨{}, source, .live .plain, none⟩
    let before : Source := ⟨⟨1⟩, Utf8.encode "Window \x7b\x7d\n".toList, []⟩
    let after : Source := ⟨⟨2⟩, Utf8.encode "Window \x7b\x7d".toList, [⟨1⟩]⟩
    ∃ start w, LiveRun (Source.Answers source) ctx .plain before start [] w after ∧
      w.lastModified = some before.modified ∧
      ∃ polls w', LiveRun (Source.Answers source) ctx .plain before start polls w' after ∧
        w'.lastModified = some after.modified ∧
        (∃ doc, after.text? = some doc.text ∧ w'.Processed start polls doc) ∧
        ∃ log outcome w'',
          Runs (Source.StillAnswers source) w'.poll after log (outcome, w'') after ∧
          ∃ doc, after.text? = some doc.text ∧
            (outcome = .unchanged ∧ w'.Processed start polls doc ∨ w''.Deals log doc outcome) := by
  intro source ctx before after
  let text : Text := "Window \x7b\x7d".toList
  let options := ctx.settings.watchOptions .plain
  have edits : before.Edits after := .edit ⟨2⟩ _ .none (by decide)
  have decoded : Utf8.decode? after.bytes = some text := by decide +kernel
  have usable : (scan text).hasUsableRoot = true := by decide +kernel
  have shown (modified : Time) :=
    @present_of_shown ⟨source, text, modified⟩ _ ⟨rfl, usable⟩ options.size
  have starting : Watcher.Starts (onFiles (Source.Answers source)) source options before _
      (.ok (.started source options ⟨1⟩)) before :=
    .started ⟨.none, rfl⟩ (.absent ⟨.none, trivial⟩) ⟨.none, fun _ => rfl⟩
  have late : Document.Reads (onFiles (Source.Answers source)) source before _
      (.ok ⟨source, text, ⟨1⟩⟩) after :=
    .read _ ⟨.none, rfl⟩ ⟨.none, fun _ => rfl⟩ ⟨edits, fun _ => rfl⟩ decoded
  have drawn (token : Token) : Source.Answers source after (.host .token) token after :=
    ⟨.none, trivial⟩
  have written (path : Path) (bytes : List UInt8) :
      onFiles (Source.Answers source) after (.write path bytes) (.ok ()) after := ⟨.none, trivial⟩
  let w₀ : Watcher := .started source options ⟨1⟩
  let g₁ : Generation := ⟨w₀.nextPath (Token.ofNat 0), ⟨1⟩, scan text⟩
  let w₁ : Watcher := w₀.counted.committed [] g₁
  have making : Watcher.Generates (Source.Answers source) w₀ before _ (.ok g₁, w₀.counted) after :=
    .made (w := w₀) late (shown ⟨1⟩) (drawn _) (written _ _)
  have loading : Source.Answers source after (.engine (.load g₁.locator)) (.ok [1]) after :=
    ⟨.none, trivial⟩
  have start : LiveRun (Source.Answers source) ctx .plain before _ [] w₁ after :=
    .live (runs_startLive_iff.mpr (.live starting making loading rfl (.nil _)))
  let w₂ : Watcher := { w₁ with phase := .regenerating }
  let g₂ : Generation := ⟨w₂.nextPath (Token.ofNat 1), ⟨2⟩, scan text⟩
  let w₃ : Watcher := { w₂.counted.committed [] g₂ with phase := .watching }
  have again : Document.Reads (onFiles (Source.Answers source)) source after _
      (.ok ⟨source, text, ⟨2⟩⟩) after :=
    .read _ ⟨.none, rfl⟩ ⟨.none, fun _ => rfl⟩ ⟨.none, fun _ => rfl⟩ decoded
  have remaking : Watcher.Generates (Source.Answers source) w₂ after _ (.ok g₂, w₂.counted) after :=
    .made (w := w₂) again (shown ⟨2⟩) (drawn _) (written _ _)
  have removing : RemovesAll (onFiles (Source.Answers source)) [g₁.path] after
      [⟨.remove g₁.path, .ok ()⟩] after :=
    .cons ⟨.none, trivial⟩ (.nil _)
  have showing : Watcher.Regenerates (Source.Answers source) w₂ ⟨2⟩ after _
      (.reloaded g₂.path, w₂.counted.committed [] g₂) after :=
    .shown remaking ⟨.none, trivial⟩ removing
  have polled : Watcher.Polls (Source.Answers source) w₁ after _ (.reloaded g₂.path, w₃) after :=
    .changed rfl ⟨.none, fun _ => rfl⟩ (by decide) showing
  have run := LiveRun.poll start (Watcher.runs_poll_iff.mpr polled)
  have idle : Watcher.Polls (Source.StillAnswers source) w₃ after _ (.unchanged, w₃) after :=
    .unchanged rfl ⟨rfl, fun _ => rfl⟩ rfl
  have idleRun := Watcher.runs_poll_iff.mpr idle
  obtain ⟨kept, settled⟩ := watching_loses_no_edit run .none
  exact ⟨_, w₁, start, rfl, _, w₃, run, rfl, kept rfl, _, _, _, idleRun,
    settled idleRun (List.forall_mem_singleton.mpr rfl)⟩

end QmlPreview
