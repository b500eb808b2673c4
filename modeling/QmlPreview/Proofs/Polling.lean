import QmlPreview.Proofs.Removals

/-! What a poll of a watcher can do. Each of its parts ends in one of a few ways, which are told
apart by the answers that it got. -/

namespace QmlPreview

open Script (Answers Log Runs runs_ask_iff runs_bind_iff runs_done_iff
  runs_request_iff)

inductive Document.Reads {σ : Type} (answers : Answers σ FileRequest.Answer) (path : Path) (s : σ) :
    Log FileRequest.Answer → Except Error Document → σ → Prop
  | unresolved {fault : Fault} {s' : σ} : answers s (.resolve path) (.error fault) s' →
      Reads answers path s [⟨.resolve path, .error fault⟩] (.error (.ofReading path fault)) s'
  | undated {resolved : Path} {fault : Fault} {s₁ s' : σ} :
      answers s (.resolve path) (.ok resolved) s₁ →
      answers s₁ (.modified resolved) (.error fault) s' →
      Reads answers path s [⟨.resolve path, .ok resolved⟩, ⟨.modified resolved, .error fault⟩]
        (.error (.ofReading resolved fault)) s'
  | unread {resolved : Path} {modified : Time} {fault : Fault} {s₁ s₂ s' : σ} :
      answers s (.resolve path) (.ok resolved) s₁ →
      answers s₁ (.modified resolved) (.ok modified) s₂ →
      answers s₂ (.read resolved) (.error fault) s' →
      Reads answers path s [⟨.resolve path, .ok resolved⟩, ⟨.modified resolved, .ok modified⟩,
        ⟨.read resolved, .error fault⟩] (.error (.ofReading resolved fault)) s'
  | notText {resolved : Path} {modified : Time} {bytes : List UInt8} {s₁ s₂ s' : σ} :
      answers s (.resolve path) (.ok resolved) s₁ →
      answers s₁ (.modified resolved) (.ok modified) s₂ →
      answers s₂ (.read resolved) (.ok bytes) s' → Utf8.decode? bytes = none →
      Reads answers path s [⟨.resolve path, .ok resolved⟩, ⟨.modified resolved, .ok modified⟩,
        ⟨.read resolved, .ok bytes⟩] (.error (.ofReading resolved .notUtf8)) s'
  | read (doc : Document) {bytes : List UInt8} {s₁ s₂ s' : σ} :
      answers s (.resolve path) (.ok doc.path) s₁ →
      answers s₁ (.modified doc.path) (.ok doc.modified) s₂ →
      answers s₂ (.read doc.path) (.ok bytes) s' → Utf8.decode? bytes = some doc.text →
      Reads answers path s [⟨.resolve path, .ok doc.path⟩, ⟨.modified doc.path, .ok doc.modified⟩,
        ⟨.read doc.path, .ok bytes⟩] (.ok doc) s'

theorem Document.runs_read_iff {σ : Type} {answers : Answers σ FileRequest.Answer} {path : Path}
    {s s' : σ} {log : Log FileRequest.Answer} {result : Except Error Document} :
    Runs answers (Document.read path) s log result s' ↔
      Document.Reads answers path s log result s' := by
  constructor
  · intro run
    obtain ⟨resolved, s₁, _, resolving, dated, rfl⟩ := runs_ask_iff.mp run
    cases resolved with
    | error fault =>
        obtain ⟨rfl, rfl, rfl⟩ := runs_done_iff.mp dated
        exact .unresolved resolving
    | ok resolved =>
        obtain ⟨modified, s₂, _, dating, read, rfl⟩ := runs_ask_iff.mp dated
        cases modified with
        | error fault =>
            obtain ⟨rfl, rfl, rfl⟩ := runs_done_iff.mp read
            exact .undated resolving dating
        | ok modified =>
            obtain ⟨bytes, s₃, _, reading, decoded, rfl⟩ := runs_ask_iff.mp read
            cases bytes with
            | error fault =>
                obtain ⟨rfl, rfl, rfl⟩ := runs_done_iff.mp decoded
                exact .unread resolving dating reading
            | ok bytes =>
                cases text : Utf8.decode? bytes with
                | none =>
                    simp only [Script.bind, text] at decoded
                    obtain ⟨rfl, rfl, rfl⟩ := runs_done_iff.mp decoded
                    exact .notText resolving dating reading text
                | some t =>
                    simp only [Script.bind, text] at decoded
                    obtain ⟨rfl, rfl, rfl⟩ := runs_done_iff.mp decoded
                    exact .read ⟨resolved, t, modified⟩ resolving dating reading text
  · intro way
    cases way with
    | unresolved resolving => exact .ask resolving (.done _ _)
    | undated resolving dating => exact .ask resolving (.ask dating (.done _ _))
    | unread resolving dating reading =>
        exact .ask resolving (.ask dating (.ask reading (.done _ _)))
    | notText resolving dating reading text =>
        refine .ask resolving (.ask dating (.ask reading ?_))
        simp only [Script.bind, text]
        exact .done _ _
    | read _ resolving dating reading text =>
        refine .ask resolving (.ask dating (.ask reading ?_))
        simp only [Script.bind, text]
        exact .done _ _

abbrev onFiles {σ : Type} (answers : Answers σ SessionRequest.Answer) :
    Answers σ FileRequest.Answer :=
  fun s q => answers s (.host (.file q))

namespace Watcher

def nextPath (w : Watcher) (token : Token) : Path :=
  Path.join w.directory (sideFileName (w.counter + 1) token)

def counted (w : Watcher) : Watcher := { w with counter := w.counter + 1 }

/-- The watcher after it took a side file as the one shown, where `left` could not be removed. -/
def committed (w : Watcher) (left : List Path) (g : Generation) : Watcher :=
  { w with generations := left ++ [g.path], lastModified := some g.modified, failures := 0 }

section
variable {σ : Type} (answers : Answers σ SessionRequest.Answer)

inductive Generates (w : Watcher) (s : σ) :
    Log SessionRequest.Answer → Except Error Generation × Watcher → σ → Prop
  | unread {log : Log FileRequest.Answer} {e : Error} {s' : σ} :
      Document.Reads (onFiles answers) w.target s log (.error e) s' →
      Generates w s (log.map FileRequest.inSession) (.error e, w) s'
  | unpresented {log : Log FileRequest.Answer} {doc : Document} {e : Error} {s' : σ} :
      Document.Reads (onFiles answers) w.target s log (.ok doc) s' →
      doc.present (scan doc.text) w.options.layout w.options.size = .error e →
      Generates w s (log.map FileRequest.inSession) (.error e, w) s'
  | unwritten {log : Log FileRequest.Answer} {doc : Document} {loadable : Loadable} {token : Token}
      {fault : Fault} {removed : Except Fault Unit} {s₁ s₂ s₃ s' : σ} :
      Document.Reads (onFiles answers) w.target s log (.ok doc) s₁ →
      doc.present (scan doc.text) w.options.layout w.options.size = .ok loadable →
      answers s₁ (.host .token) token s₂ →
      onFiles answers s₂ (.write (w.nextPath token) (Utf8.encode loadable.text)) (.error fault) s₃ →
      onFiles answers s₃ (.remove (w.nextPath token)) removed s' →
      Generates w s (log.map FileRequest.inSession ++ [⟨.host .token, token⟩,
          ⟨.host (.file (.write (w.nextPath token) (Utf8.encode loadable.text))), .error fault⟩,
          ⟨.host (.file (.remove (w.nextPath token))), removed⟩])
        (.error (.sideFile (w.nextPath token) fault), w.counted) s'
  | made {log : Log FileRequest.Answer} {doc : Document} {loadable : Loadable} {token : Token}
      {s₁ s₂ s' : σ} :
      Document.Reads (onFiles answers) w.target s log (.ok doc) s₁ →
      doc.present (scan doc.text) w.options.layout w.options.size = .ok loadable →
      answers s₁ (.host .token) token s₂ →
      onFiles answers s₂ (.write (w.nextPath token) (Utf8.encode loadable.text)) (.ok ()) s' →
      Generates w s (log.map FileRequest.inSession ++ [⟨.host .token, token⟩,
          ⟨.host (.file (.write (w.nextPath token) (Utf8.encode loadable.text))), .ok ()⟩])
        (.ok ⟨w.nextPath token, doc.modified, scan doc.text⟩, w.counted) s'

inductive Regenerates (w : Watcher) (modified : Time) (s : σ) :
    Log SessionRequest.Answer → PollOutcome × Watcher → σ → Prop
  | unmade {log : Log SessionRequest.Answer} {e : Error} {w' : Watcher} {s' : σ} :
      Generates answers w s log (.error e, w') s' → mayPass e = true →
      Regenerates w modified s log (.retrying, w'.noteFailure) s'
  | malformed {log : Log SessionRequest.Answer} {e : Error} {w' : Watcher} {s' : σ} :
      Generates answers w s log (.error e, w') s' → mayPass e = false →
      Regenerates w modified s log (.rejected, w'.reject modified) s'
  | shown {log : Log SessionRequest.Answer} {g : Generation} {w' : Watcher}
      {removals : Log FileRequest.Answer} {s₁ s₂ s' : σ} :
      Generates answers w s log (.ok g, w') s₁ →
      answers s₁ (.engine (.reload g.locator g.facts)) (.ok ()) s₂ →
      RemovesAll (onFiles answers) w'.generations s₂ removals s' →
      Regenerates w modified s (log ++ ⟨.engine (.reload g.locator g.facts), .ok ()⟩ ::
          removals.map FileRequest.inSession)
        (.reloaded g.path, w'.committed (unremoved removals) g) s'
  | failed {log : Log SessionRequest.Answer} {g : Generation} {w' : Watcher} {e : Error}
      {removed : Except Fault Unit} {s₁ s₂ s' : σ} :
      Generates answers w s log (.ok g, w') s₁ →
      answers s₁ (.engine (.reload g.locator g.facts)) (.error e) s₂ →
      onFiles answers s₂ (.remove g.path) removed s' → e.isTransient = true →
      Regenerates w modified s (log ++ [⟨.engine (.reload g.locator g.facts), .error e⟩,
          ⟨.host (.file (.remove g.path)), removed⟩]) (.retrying, w'.noteFailure) s'
  | refused {log : Log SessionRequest.Answer} {g : Generation} {w' : Watcher} {e : Error}
      {removed : Except Fault Unit} {s₁ s₂ s' : σ} :
      Generates answers w s log (.ok g, w') s₁ →
      answers s₁ (.engine (.reload g.locator g.facts)) (.error e) s₂ →
      onFiles answers s₂ (.remove g.path) removed s' → e.isTransient = false →
      Regenerates w modified s (log ++ [⟨.engine (.reload g.locator g.facts), .error e⟩,
          ⟨.host (.file (.remove g.path)), removed⟩]) (.rejected, w'.reject modified) s'

inductive Polls (w : Watcher) (s : σ) :
    Log SessionRequest.Answer → PollOutcome × Watcher → σ → Prop
  | asleep : w.phase ≠ .watching → Polls w s [] (.unchanged, w) s
  | unseen {fault : Fault} {s' : σ} : w.phase = .watching →
      onFiles answers s (.modified w.target) (.error fault) s' →
      Polls w s [⟨.host (.file (.modified w.target)), .error fault⟩] (.retrying, w.noteFailure) s'
  | unchanged {modified : Time} {s' : σ} : w.phase = .watching →
      onFiles answers s (.modified w.target) (.ok modified) s' → w.lastModified = some modified →
      Polls w s [⟨.host (.file (.modified w.target)), .ok modified⟩] (.unchanged, w) s'
  | changed {modified : Time} {log : Log SessionRequest.Answer} {outcome : PollOutcome}
      {w' : Watcher} {s₁ s' : σ} : w.phase = .watching →
      onFiles answers s (.modified w.target) (.ok modified) s₁ → w.lastModified ≠ some modified →
      Regenerates answers { w with phase := .regenerating } modified s₁ log (outcome, w') s' →
      Polls w s (⟨.host (.file (.modified w.target)), .ok modified⟩ :: log)
        (outcome, { w' with phase := .watching }) s'

end

variable {σ : Type} {answers : Answers σ SessionRequest.Answer} {w : Watcher} {s s' : σ}
  {log : Log SessionRequest.Answer}

/-- Making a side file changes a watcher in nothing but its counter. -/
theorem Generates.watcher_eq {made : Except Error Generation} {w' : Watcher}
    (generates : Generates answers w s log (made, w') s') :
    ∃ counter, w' = { w with counter := counter } := by
  cases generates with
  | unread | unpresented => exact ⟨w.counter, rfl⟩
  | unwritten | made => exact ⟨w.counter + 1, rfl⟩

theorem Generates.generations_eq {made : Except Error Generation} {w' : Watcher}
    (generates : Generates answers w s log (made, w') s') : w'.generations = w.generations := by
  obtain ⟨_, rfl⟩ := generates.watcher_eq
  rfl

/-- A poll does not change what a watcher watches, nor how. -/
theorem Polls.keeps {outcome : PollOutcome} {w' : Watcher}
    (polls : Polls answers w s log (outcome, w') s') :
    w'.target = w.target ∧ w'.directory = w.directory ∧ w'.options = w.options := by
  cases polls with
  | asleep | unseen | unchanged => exact ⟨rfl, rfl, rfl⟩
  | changed _ _ _ regenerates =>
      cases regenerates with
      | unmade generates | malformed generates | shown generates | failed generates
      | refused generates =>
          obtain ⟨_, rfl⟩ := generates.watcher_eq
          exact ⟨rfl, rfl, rfl⟩

theorem Polls.phase_eq {outcome : PollOutcome} {w' : Watcher}
    (polls : Polls answers w s log (outcome, w') s') (watching : w.phase = .watching) :
    w'.phase = .watching := by
  cases polls with
  | asleep | unseen | unchanged => exact watching
  | changed => rfl

def look (target : Path) (modified : Time) : (q : SessionRequest) × q.Answer :=
  ⟨.host (.file (.modified target)), .ok modified⟩

section
variable {outcome : PollOutcome} {w' : Watcher}

theorem Polls.eq_of_unchanged (polls : Polls answers w s log (.unchanged, w') s') : w' = w := by
  cases polls with
  | asleep | unchanged => rfl
  | changed _ _ _ regenerates => cases regenerates

theorem Polls.lastModified_eq_of_retrying (polls : Polls answers w s log (.retrying, w') s') :
    w'.lastModified = w.lastModified ∧ w.phase = .watching ∧
      ∀ m, log.head? = some (look w.target m) → w.lastModified ≠ some m := by
  cases polls with
  | unseen watching => exact ⟨rfl, watching, nofun⟩
  | changed watching _ moved regenerates =>
      refine ⟨?_, watching, ?_⟩
      · cases regenerates with
        | unmade generates | failed generates =>
            obtain ⟨_, rfl⟩ := generates.watcher_eq
            rfl
      · rintro m ⟨rfl⟩
        exact moved

theorem Polls.lastModified_eq_of_rejected (polls : Polls answers w s log (.rejected, w') s') :
    w.phase = .watching ∧
      ∃ m, log.head? = some (look w.target m) ∧ w'.lastModified = some m := by
  cases polls with
  | @changed modified _ _ _ _ _ watching _ _ regenerates =>
      refine ⟨watching, modified, rfl, ?_⟩
      cases regenerates with
      | malformed | refused => rfl

/-- A poll that sees the time of change that was kept finds nothing changed, and asks nothing else.
-/
theorem Polls.of_look {m : Time} (polls : Polls answers w s log (outcome, w') s')
    (watching : w.phase = .watching) (seen : log.head? = some (look w.target m))
    (kept : w.lastModified = some m) :
    outcome = .unchanged ∧ w' = w ∧ log = [look w.target m] := by
  cases polls with
  | asleep resting => exact absurd watching resting
  | unseen => cases seen
  | unchanged =>
      cases seen
      exact ⟨rfl, rfl, rfl⟩
  | changed _ _ moved =>
      cases seen
      exact absurd kept moved

theorem Polls.ne_unchanged {m : Time} (polls : Polls answers w s log (outcome, w') s')
    (watching : w.phase = .watching) (seen : log.head? = some (look w.target m))
    (other : w.lastModified ≠ some m) : outcome ≠ .unchanged := by
  rintro rfl
  cases polls with
  | asleep resting => exact resting watching
  | unchanged _ _ same =>
      cases seen
      exact other same
  | changed _ _ _ regenerates => cases regenerates

end

/-- A script that reads a document and goes on from there. -/
theorem runs_reading_iff {β : Type} {path : Path} {resume : Except Error Document → HostScript β}
    {b : β} :
    Runs answers (SessionScript.ofHostScript
        (HostScript.ofFileScript (Document.read path) >>= resume)) s log b s' ↔
      ∃ readings document s₁ later,
        Document.Reads (onFiles answers) path s readings document s₁ ∧
        Runs (fun s q => answers s (.host q)) (resume document) s₁ later b s' ∧
        log = readings.map FileRequest.inSession ++ later.map HostRequest.inSession := by
  constructor
  · intro run
    obtain ⟨_, hostRun, rfl⟩ := runs_ofHostScript_iff.mp run
    obtain ⟨_, document, s₁, later, reading, rest, rfl⟩ := runs_bind_iff.mp hostRun
    obtain ⟨readings, read, rfl⟩ := runs_ofFileScript_iff.mp reading
    refine ⟨readings, document, s₁, later, Document.runs_read_iff.mp read, rest, ?_⟩
    rw [List.map_append, List.map_map]
    rfl
  · rintro ⟨readings, document, s₁, later, reads, rest, rfl⟩
    have reading : Runs (fun s q => answers s (.host q))
        (HostScript.ofFileScript (Document.read path)) s _ document s₁ :=
      runs_ofFileScript_iff.mpr ⟨readings, Document.runs_read_iff.mpr reads, rfl⟩
    refine runs_ofHostScript_iff.mpr
      ⟨_, runs_bind_iff.mpr ⟨_, _, _, _, reading, rest, rfl⟩, ?_⟩
    rw [List.map_append, List.map_map]
    rfl

theorem runs_generate_iff {result : Except Error Generation × Watcher} :
    Runs answers (SessionScript.ofHostScript w.generate) s log result s' ↔
      Generates answers w s log result s' := by
  constructor
  · intro run
    obtain ⟨readings, document, s₁, later, reads, rest, rfl⟩ := runs_reading_iff.mp run
    cases document with
    | error e =>
        obtain ⟨rfl, rfl, rfl⟩ := runs_done_iff.mp rest
        rw [List.map_nil, List.append_nil]
        exact .unread reads
    | ok doc =>
        cases shown : doc.present (scan doc.text) w.options.layout w.options.size with
        | error e =>
            simp only [shown] at rest
            obtain ⟨rfl, rfl, rfl⟩ := runs_done_iff.mp rest
            rw [List.map_nil, List.append_nil]
            exact .unpresented reads shown
        | ok loadable =>
            simp only [shown] at rest
            obtain ⟨token, s₂, _, drawing, named, rfl⟩ := runs_ask_iff.mp rest
            obtain ⟨written, s₃, _, writing, ended, rfl⟩ := runs_ask_iff.mp named
            cases written with
            | error fault =>
                obtain ⟨removed, s₄, _, removing, finished, rfl⟩ := runs_ask_iff.mp ended
                obtain ⟨rfl, rfl, rfl⟩ := runs_done_iff.mp finished
                exact .unwritten reads shown drawing writing removing
            | ok _ =>
                obtain ⟨rfl, rfl, rfl⟩ := runs_done_iff.mp ended
                exact .made reads shown drawing writing
  · intro way
    refine runs_reading_iff.mpr ?_
    cases way with
    | unread reads => exact ⟨_, _, _, [], reads, .done _ _, (List.append_nil _).symm⟩
    | unpresented reads shown =>
        refine ⟨_, _, _, [], reads, ?_, (List.append_nil _).symm⟩
        simp only [shown]
        exact .done _ _
    | unwritten reads shown drawing writing removing =>
        refine ⟨_, _, _, [⟨.token, _⟩, ⟨.file (.write _ _), .error _⟩, ⟨.file (.remove _), _⟩],
          reads, ?_, rfl⟩
        simp only [shown]
        exact .ask drawing (.ask writing (.ask removing (.done _ _)))
    | made reads shown drawing writing =>
        refine ⟨_, _, _, [⟨.token, _⟩, ⟨.file (.write _ _), .ok _⟩], reads, ?_, rfl⟩
        simp only [shown]
        exact .ask drawing (.ask writing (.done _ _))

theorem runs_commit_iff {g : Generation} {w' : Watcher} :
    Runs answers (w.commit g).inSession s log w' s' ↔ ∃ removals,
      RemovesAll (onFiles answers) w.generations s removals s' ∧
        log = removals.map FileRequest.inSession ∧ w' = w.committed (unremoved removals) g := by
  rw [runs_inSession_iff]
  constructor
  · rintro ⟨_, run, rfl⟩
    obtain ⟨removals, left, s₁, _, removing, finished, rfl⟩ := runs_bind_iff.mp run
    obtain ⟨rfl, rfl, rfl⟩ := runs_done_iff.mp finished
    obtain ⟨removes, rfl⟩ := runs_removeOld_iff.mp removing
    exact ⟨removals, removes, by rw [List.append_nil], rfl⟩
  · rintro ⟨removals, removes, rfl, rfl⟩
    refine ⟨removals, runs_bind_iff.mpr ?_, rfl⟩
    exact ⟨_, _, _, [], runs_removeOld_iff.mpr ⟨removes, rfl⟩, .done _ _, (List.append_nil _).symm⟩

theorem runs_regenerate_iff {modified : Time} {result : PollOutcome × Watcher} :
    Runs answers (w.regenerate modified) s log result s' ↔
      Regenerates answers w modified s log result s' := by
  constructor
  · intro run
    obtain ⟨_, ⟨made, w'⟩, s₁, later, generating, rest, rfl⟩ := runs_bind_iff.mp run
    have generated := runs_generate_iff.mp generating
    cases made with
    | error e =>
        cases passes : mayPass e with
        | true =>
            simp only [passes, if_true] at rest
            obtain ⟨rfl, rfl, rfl⟩ := runs_done_iff.mp rest
            rw [List.append_nil]
            exact .unmade generated passes
        | false =>
            simp only [passes, Bool.false_eq_true, if_false] at rest
            obtain ⟨rfl, rfl, rfl⟩ := runs_done_iff.mp rest
            rw [List.append_nil]
            exact .malformed generated passes
    | ok g =>
        obtain ⟨_, answer, s₂, _, asked, ended, rfl⟩ := runs_bind_iff.mp rest
        obtain ⟨rfl, showing⟩ := runs_request_iff.mp asked
        cases answer with
        | ok _ =>
            obtain ⟨_, w'', s₃, _, committing, finished, rfl⟩ := runs_bind_iff.mp ended
            obtain ⟨removals, removing, rfl, rfl⟩ := runs_commit_iff.mp committing
            obtain ⟨rfl, rfl, rfl⟩ := runs_done_iff.mp finished
            rw [List.append_nil]
            exact .shown generated showing removing
        | error e =>
            obtain ⟨removed, s₃, _, removing, finished, rfl⟩ := runs_ask_iff.mp ended
            cases passes : e.isTransient with
            | true =>
                simp only [passes, if_true] at finished
                obtain ⟨rfl, rfl, rfl⟩ := runs_done_iff.mp finished
                exact .failed generated showing removing passes
            | false =>
                simp only [passes, Bool.false_eq_true, if_false] at finished
                obtain ⟨rfl, rfl, rfl⟩ := runs_done_iff.mp finished
                exact .refused generated showing removing passes
  · intro way
    refine runs_bind_iff.mpr ?_
    cases way with
    | unmade generated passes =>
        refine ⟨_, _, _, [], runs_generate_iff.mpr generated, ?_, (List.append_nil _).symm⟩
        simp only [passes, if_true]
        exact .done _ _
    | malformed generated passes =>
        refine ⟨_, _, _, [], runs_generate_iff.mpr generated, ?_, (List.append_nil _).symm⟩
        simp only [passes, Bool.false_eq_true, if_false]
        exact .done _ _
    | @shown _ g w' removals _ s₂ _ generated showing removing =>
        have committing : Runs answers (w'.commit g).inSession s₂ _
            (w'.committed (unremoved removals) g) s' :=
          runs_commit_iff.mpr ⟨removals, removing, rfl, rfl⟩
        refine ⟨_, _, _, _, runs_generate_iff.mpr generated,
          runs_bind_iff.mpr ⟨_, _, _, _, runs_request_iff.mpr ⟨rfl, showing⟩,
            runs_bind_iff.mpr ⟨_, _, _, [], committing, .done _ _, rfl⟩, rfl⟩, ?_⟩
        rw [List.append_nil]
        rfl
    | failed generated showing removing passes =>
        refine ⟨_, _, _, _, runs_generate_iff.mpr generated, .ask showing (.ask removing ?_), rfl⟩
        simp only [passes, if_true]
        exact .done _ _
    | refused generated showing removing passes =>
        refine ⟨_, _, _, _, runs_generate_iff.mpr generated, .ask showing (.ask removing ?_), rfl⟩
        simp only [passes, Bool.false_eq_true, if_false]
        exact .done _ _

theorem runs_poll_iff {result : PollOutcome × Watcher} :
    Runs answers w.poll s log result s' ↔ Polls answers w s log result s' := by
  unfold poll
  by_cases awake : w.phase = .watching
  · rw [if_neg (not_not_intro awake), runs_bind_iff]
    constructor
    · rintro ⟨_, seen, s₁, _, asked, rest, rfl⟩
      obtain ⟨rfl, looking⟩ := runs_request_iff.mp asked
      cases seen with
      | error fault =>
          obtain ⟨rfl, rfl, rfl⟩ := runs_done_iff.mp rest
          exact .unseen awake looking
      | ok modified =>
          by_cases same : w.lastModified = some modified
          · simp only [same, if_true] at rest
            obtain ⟨rfl, rfl, rfl⟩ := runs_done_iff.mp rest
            exact .unchanged awake looking same
          · simp only [same, if_false] at rest
            obtain ⟨_, ⟨outcome, w'⟩, s₂, _, regenerating, finished, rfl⟩ := runs_bind_iff.mp rest
            obtain ⟨rfl, rfl, rfl⟩ := runs_done_iff.mp finished
            rw [List.append_nil]
            exact .changed awake looking same (runs_regenerate_iff.mp regenerating)
    · intro way
      cases way with
      | asleep resting => exact absurd awake resting
      | unseen _ looking => exact ⟨_, _, _, _, runs_request_iff.mpr ⟨rfl, looking⟩, .done _ _, rfl⟩
      | unchanged _ looking same =>
          refine ⟨_, _, _, [], runs_request_iff.mpr ⟨rfl, looking⟩, ?_, rfl⟩
          simp only [same, if_true]
          exact .done _ _
      | changed _ looking changed regenerating =>
          refine ⟨_, _, _, _, runs_request_iff.mpr ⟨rfl, looking⟩, ?_, rfl⟩
          simp only [changed, if_false]
          exact runs_bind_iff.mpr ⟨_, _, _, [], runs_regenerate_iff.mpr regenerating, .done _ _,
            (List.append_nil _).symm⟩
  · rw [if_pos awake]
    constructor
    · intro run
      obtain ⟨rfl, rfl, rfl⟩ := runs_done_iff.mp run
      exact .asleep awake
    · intro way
      cases way with
      | asleep => exact .done _ _
      | unseen watching | unchanged watching | changed watching => exact absurd watching awake

end Watcher

end QmlPreview
