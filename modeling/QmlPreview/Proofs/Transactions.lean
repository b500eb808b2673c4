import QmlPreview.Proofs.Directories
import QmlPreview.Proofs.Presenting

/-! A poll that shows nothing new leaves everything as it was: the side files, the one that is shown
and the phase of the watcher. A poll that shows a new side file leaves that one only, with the text
that the source was presented as. -/

namespace QmlPreview

open Script (Log Runs)

namespace Directory

variable (target : Path)

/-- Every side file stands as it was, but for the given names. -/
def AlikeBut (changed : List Text) (d d' : Directory) : Prop :=
  ∀ name, IsSide target name → name ∉ changed → d' name = d name

/-- Answers while nobody else touches side files. -/
abbrev Undisturbed : Script.Answers Directory SessionRequest.Answer :=
  Answers target (AlikeBut target []) fun _ _ => True

variable {target} {d d' d'' : Directory} {name : Text} {changed more : List Text}

theorem AlikeBut.refl (d : Directory) : AlikeBut target changed d d := fun _ _ _ => rfl

theorem AlikeBut.trans (first : AlikeBut target changed d d') (second : AlikeBut target more d' d'') :
    AlikeBut target (changed ++ more) d d'' := by
  intro name side other
  rw [List.mem_append, not_or] at other
  rw [second name side other.2, first name side other.1]

theorem alikeBut_update (node : Option Node) :
    AlikeBut target [name] d (Function.update d name node) := by
  intro other _ apart
  exact Function.update_of_ne (List.ne_of_not_mem_cons apart) ..

/-- Side files that stand again as they stood are not changed. -/
theorem AlikeBut.restore (alike : AlikeBut target changed d d')
    (same : ∀ name ∈ changed, d' name = d name) : AlikeBut target [] d d' := by
  intro name side _
  by_cases member : name ∈ changed
  · exact same name member
  · exact alike name side member

theorem Undisturbed.remove {removed : Except Fault Unit} (side : IsSide target name)
    (plain : ∀ node, d name = some node → node.isDirectory = false)
    (removing : Undisturbed target d (.host (.file (.remove (sidePath target name)))) removed d') :
    AlikeBut target [name] d d' ∧ d' name = none ∧
      IsGone removed := by
  obtain ⟨_, d₁, quiet, served⟩ := removing
  have here := quiet name side List.not_mem_nil
  obtain ⟨rfl, outcome⟩ := Serves.remove side (fun node found => plain node (here ▸ found)) served
  exact ⟨quiet.trans (alikeBut_update none), Function.update_self .., outcome⟩

theorem Undisturbed.write {bytes : List UInt8} {written : Except Fault Unit}
    (side : IsSide target name) (free : d name = none)
    (writing : Undisturbed target d (.host (.file (.write (sidePath target name) bytes))) written
      d') :
    AlikeBut target [name] d d' ∧ (∀ node, d' name = some node → node.isDirectory = false) ∧
      (written = .ok () → ∃ modified, d' name = some (.file bytes modified)) := by
  obtain ⟨_, d₁, quiet, served⟩ := writing
  have free' : d₁ name = none := by rw [quiet name side List.not_mem_nil, free]
  obtain ⟨rfl, failed⟩ | ⟨part, modified, rfl, whole⟩ := Serves.write side free' served
  · refine ⟨quiet.trans (.refl _), fun node found => ?_, fun done => absurd done failed⟩
    cases free'.symm.trans found
  · refine ⟨quiet.trans (alikeBut_update _), fun node found => ?_, fun done => ⟨modified, ?_⟩⟩
    · rw [Function.update_self] at found
      cases found
      rfl
    · rw [Function.update_self, whole done]

end Directory

open Directory

variable {target : Path} {d d' : Directory}

theorem Document.Reads.alikeBut {path : Path} {log : Log FileRequest.Answer}
    {result : Except Error Document}
    (reads : Document.Reads (onFiles (Undisturbed target)) path d log result d') :
    AlikeBut target [] d d' :=
  reads.others fun first second => first.trans second

/-- Removing side files in turn takes all of them away, and changes no other. -/
theorem RemovesAll.alikeBut {listed : List Text} {log : Log FileRequest.Answer}
    (removes : RemovesAll (onFiles (Undisturbed target)) (listed.map (sidePath target)) d log d')
    (sides : ∀ name ∈ listed, IsSide target name ∧
      ∀ node, d name = some node → node.isDirectory = false) :
    AlikeBut target listed d d' ∧ (∀ name ∈ listed, d' name = none) ∧ unremoved log = [] := by
  induction listed generalizing d log with
  | nil =>
      cases removes
      exact ⟨.refl _, nofun, rfl⟩
  | cons name rest ih =>
      obtain ⟨⟨side, plain⟩, sides'⟩ := List.forall_mem_cons.mp sides
      cases removes with
      | @cons _ _ _ _ d₁ _ _ removing later =>
          obtain ⟨alike, gone, outcome⟩ := Undisturbed.remove side plain removing
          have plain' : ∀ name ∈ rest, IsSide target name ∧
              ∀ node, d₁ name = some node → node.isDirectory = false := by
            intro other member
            obtain ⟨side', ordinary⟩ := sides' other member
            refine ⟨side', fun node found => ?_⟩
            by_cases here : other = name
            · rw [here, gone] at found
              cases found
            · rw [alike other side' (by simpa using here)] at found
              exact ordinary node found
          obtain ⟨alike', gone', none⟩ := ih later plain'
          refine ⟨alike.trans alike', ?_, ?_⟩
          · intro other member
            -- A name can be listed twice; the later removal then finds nothing there.
            by_cases again : other ∈ rest
            · exact gone' other again
            · obtain rfl | member := List.mem_cons.mp member
              · rw [alike' other side again, gone]
              · exact absurd member again
          · rw [unremoved_of_isGone outcome, none]

/-- The document is what the exchanges read at the given path. -/
structure Document.ReadIn (doc : Document) (path : Path) (log : Log SessionRequest.Answer) :
    Prop where
  resolved : ⟨.host (.file (.resolve path)), .ok doc.path⟩ ∈ log
  dated : ⟨.host (.file (.modified doc.path)), .ok doc.modified⟩ ∈ log
  read : ∃ bytes, ⟨.host (.file (.read doc.path)), .ok bytes⟩ ∈ log ∧
    Utf8.decode? bytes = some doc.text

theorem Document.ReadIn.mono {doc : Document} {path : Path} {log more : Log SessionRequest.Answer}
    (readIn : doc.ReadIn path log) (within : log ⊆ more) : doc.ReadIn path more := by
  obtain ⟨bytes, read, decoded⟩ := readIn.read
  exact ⟨within readIn.resolved, within readIn.dated, bytes, within read, decoded⟩

theorem Document.Reads.readIn {σ : Type} {answers : Script.Answers σ FileRequest.Answer}
    {path : Path} {log : Log FileRequest.Answer} {doc : Document} {s s' : σ}
    (reads : Document.Reads answers path s log (.ok doc) s') :
    doc.ReadIn path (log.map FileRequest.inSession) := by
  cases reads with
  | read _ _ _ _ decoded =>
      exact ⟨.head _, .tail _ (.head _), _, .tail _ (.tail _ (.head _)), decoded⟩

namespace Watcher

variable {w w' : Watcher} {log : Log SessionRequest.Answer}

/-- The side file of a generation holds the text that the source is presented as. -/
structure Makes (target : Path) (w : Watcher) (log : Log SessionRequest.Answer) (g : Generation)
    (d : Directory) (name : Text) (doc : Document) (text : Text) : Prop where
  side : IsSide target name
  path_eq : g.path = sidePath target name
  readIn : doc.ReadIn w.target log
  presented : doc.PresentedAs w.options.layout w.options.size text
  facts_eq : g.facts = scan doc.text
  written : ∃ modified, d name = some (.file (Utf8.encode text) modified)

theorem Generates.alikeBut {e : Error}
    (generates : Generates (Undisturbed target) w d log (.error e, w') d')
    (home : w.directory = workingDirectory target) : AlikeBut target [] d d' := by
  cases generates with
  | unread reads | unpresented reads => exact reads.alikeBut
  | unwritten reads _ drawing writing removing =>
      obtain ⟨_, _, quiet, rfl, fresh⟩ := drawing
      rw [nextPath_eq home] at writing removing
      have side := fresh.isSide (w.counter + 1)
      -- What a failed writing left of the file is taken away with it.
      obtain ⟨wrote, plain, _⟩ := Undisturbed.write side (fresh _).1 writing
      obtain ⟨removed, gone, _⟩ := Undisturbed.remove side plain removing
      have undone := (wrote.trans removed).restore (by simpa using gone.trans (fresh _).1.symm)
      exact reads.alikeBut.trans (quiet.trans undone)

theorem Generates.makes {g : Generation}
    (generates : Generates (Undisturbed target) w d log (.ok g, w') d')
    (home : w.directory = workingDirectory target) :
    ∃ name doc text, Makes target w log g d' name doc text ∧ d name = none ∧
      AlikeBut target [name] d d' := by
  cases generates with
  | @made _ doc loadable token _ _ _ reads presented drawing writing =>
      obtain ⟨_, _, quiet, rfl, fresh⟩ := drawing
      have side := fresh.isSide (w.counter + 1)
      have path := nextPath_eq home token
      rw [path] at writing
      obtain ⟨wrote, _, whole⟩ := Undisturbed.write side (fresh _).1 writing
      have before := reads.alikeBut.trans quiet
      refine ⟨_, doc, loadable.text, ⟨side, path, ?_, Document.presentedAs_of_present presented,
        rfl, whole rfl⟩, ?_, before.trans wrote⟩
      · exact reads.readIn.mono (List.subset_append_left ..)
      · rw [← before _ side List.not_mem_nil, (fresh _).1]

/-- The watcher's side files have the given names and are in its directory. -/
structure Stands (w : Watcher) (target : Path) (owned : List Text) (d : Directory) : Prop where
  target_eq : w.target = target
  directory_eq : w.directory = workingDirectory target
  generations_eq : w.generations = owned.map (sidePath target)
  sides : ∀ name ∈ owned, IsSide target name ∧ ∃ node, d name = some node ∧ node.isDirectory = false

variable {owned : List Text}

theorem Stands.of_alike {changed : List Text} (stands : w.Stands target owned d)
    (alike : AlikeBut target changed d d') (free : ∀ name ∈ changed, d name = none)
    (target_eq : w'.target = w.target) (home : w'.directory = w.directory)
    (same : w'.generations = w.generations) : w'.Stands target owned d' := by
  refine ⟨target_eq.trans stands.target_eq, home.trans stands.directory_eq,
    same.trans stands.generations_eq, fun name member => ?_⟩
  obtain ⟨side, node, found, plain⟩ := stands.sides name member
  have kept : name ∉ changed := by
    intro h
    cases (free name h).symm.trans found
  exact ⟨side, node, (alike name side kept).trans found, plain⟩

theorem Stands.free_notMem {name : Text} (stands : w.Stands target owned d) (free : d name = none) :
    name ∉ owned := by
  intro member
  obtain ⟨_, node, found, _⟩ := stands.sides name member
  cases free.symm.trans found

theorem Stands.plain (stands : w.Stands target owned d) : ∀ name ∈ owned, IsSide target name ∧
    ∀ node, d name = some node → node.isDirectory = false := by
  intro name member
  obtain ⟨side, node, found, plain⟩ := stands.sides name member
  refine ⟨side, fun node' found' => ?_⟩
  obtain rfl := Option.some.inj (found.symm.trans found')
  exact plain

/-- Where the engine shows a new side file, those before it go, and it stays. -/
theorem Generates.shows {g : Generation} {q : EngineRequest} {answer : q.Answer}
    {removals : Log FileRequest.Answer} {d₁ d₂ : Directory} (stands : w.Stands target owned d)
    (generates : Generates (Undisturbed target) w d log (.ok g, w') d₁)
    (asked : Undisturbed target d₁ (.engine q) answer d₂)
    (removing : RemovesAll (onFiles (Undisturbed target)) w'.generations d₂ removals d') :
    unremoved removals = [] ∧ (∀ name ∈ owned, d' name = none) ∧
      ∃ name doc text, Makes target w log g d' name doc text := by
  obtain ⟨_, _, quiet, rfl⟩ := asked
  obtain ⟨name, doc, text, makes, free, alike⟩ := generates.makes stands.directory_eq
  have stands' : w'.Stands target owned d₂ := by
    have free' : ∀ other ∈ [name] ++ [], d other = none := by simpa using free
    obtain ⟨_, rfl⟩ := generates.watcher_eq
    exact stands.of_alike (alike.trans quiet) free' rfl rfl rfl
  rw [stands'.generations_eq] at removing
  obtain ⟨removed, gone, none⟩ := removing.alikeBut stands'.plain
  obtain ⟨modified, written⟩ := makes.written
  refine ⟨none, gone, name, doc, text, { makes with written := ⟨modified, ?_⟩ }⟩
  rw [removed name makes.side (stands.free_notMem free), quiet name makes.side List.not_mem_nil,
    written]

/-- The side file of a generation goes again where the engine does not show it. -/
theorem Generates.undone {g : Generation} {q : EngineRequest} {answer : q.Answer}
    {removed : Except Fault Unit} {d₁ d₂ : Directory}
    (generates : Generates (Undisturbed target) w d log (.ok g, w') d₁)
    (home : w.directory = workingDirectory target)
    (asked : Undisturbed target d₁ (.engine q) answer d₂)
    (removing : onFiles (Undisturbed target) d₂ (.remove g.path) removed d') :
    AlikeBut target [] d d' := by
  obtain ⟨_, _, quiet, rfl⟩ := asked
  obtain ⟨name, doc, text, makes, free, alike⟩ := generates.makes home
  have plain : ∀ node, d₂ name = some node → node.isDirectory = false := by
    intro node found
    obtain ⟨modified, written⟩ := makes.written
    rw [quiet name makes.side List.not_mem_nil, written] at found
    cases found
    rfl
  rw [makes.path_eq] at removing
  obtain ⟨taken, gone, _⟩ := Undisturbed.remove makes.side plain removing
  exact (alike.trans (quiet.trans taken)).restore (by simpa using gone.trans free.symm)

/-- The watcher and the side files are as before. -/
structure Unmoved (target : Path) (w w' : Watcher) (d d' : Directory) : Prop where
  generations_eq : w'.generations = w.generations
  current_eq : w'.current = w.current
  phase_eq : w'.phase = w.phase
  alike : AlikeBut target [] d d'

/-- The only side file of the watcher is the one at `path`. It holds the text that the document read
in the run is presented as, and the engine took it with the facts of that document. -/
structure Replaced (target : Path) (w w' : Watcher) (log : Log SessionRequest.Answer)
    (d' : Directory) (path : Path) : Prop where
  generations_eq : w'.generations = [path]
  current_eq : w'.current = some path
  written : ∃ (name : Text) (doc : Document) (text : Text) (modified : Time),
    IsSide target name ∧ path = sidePath target name ∧
    doc.ReadIn w.target log ∧
    doc.PresentedAs w.options.layout w.options.size text ∧
    d' name = some (.file (Utf8.encode text) modified) ∧
    ⟨.engine (.reload (.file path) (scan doc.text)), .ok ()⟩ ∈ log
  gone : ∀ old ∈ w.generations, ∃ name, IsSide target name ∧ old = sidePath target name ∧
    d' name = none

theorem Unmoved.of_generations_eq (generations : w'.generations = w.generations)
    (phase : w'.phase = w.phase) (alike : AlikeBut target [] d d') : Unmoved target w w' d d' :=
  ⟨generations, by rw [current, current, generations], phase, alike⟩

theorem Polls.unmoved {outcome : PollOutcome}
    (polls : Polls (Undisturbed target) w d log (outcome, w') d')
    (home : w.directory = workingDirectory target) (failed : ∀ path, outcome ≠ .reloaded path) :
    Unmoved target w w' d d' := by
  cases polls with
  | asleep => exact .of_generations_eq rfl rfl (.refl _)
  | unseen _ looking | unchanged _ looking =>
      obtain ⟨_, _, quiet, rfl⟩ := looking
      exact .of_generations_eq rfl rfl quiet
  | changed watching looking _ regenerates =>
      obtain ⟨_, _, quiet, rfl⟩ := looking
      cases regenerates with
      | unmade generates | malformed generates =>
          have alike := quiet.trans (generates.alikeBut home)
          obtain ⟨_, rfl⟩ := generates.watcher_eq
          exact .of_generations_eq rfl watching.symm alike
      | shown => exact absurd rfl (failed _)
      | failed generates showing removing | refused generates showing removing =>
          have alike := quiet.trans (generates.undone home showing removing)
          obtain ⟨_, rfl⟩ := generates.watcher_eq
          exact .of_generations_eq rfl watching.symm alike

theorem Polls.replaced {path : Path}
    (polls : Polls (Undisturbed target) w d log (.reloaded path, w') d')
    (stands : w.Stands target owned d) : Replaced target w w' log d' path := by
  cases polls with
  | @changed _ _ _ _ d₁ _ _ looking _ regenerates =>
      obtain ⟨_, _, quiet, rfl⟩ := looking
      have stands' : Stands { w with phase := .regenerating } target owned d₁ :=
        stands.of_alike quiet (List.forall_mem_nil _) rfl rfl rfl
      cases regenerates with
      | @shown making g w₁ removals _ _ _ generates showing removing =>
          obtain ⟨none, gone, name, doc, text, makes⟩ :=
            generates.shows stands' showing removing
          obtain ⟨modified, written⟩ := makes.written
          have one : (w₁.committed (unremoved removals) g).generations = [g.path] := by
            rw [none]
            rfl
          refine ⟨one, congrArg List.getLast? one, ?_, ?_⟩
          · refine ⟨name, doc, text, modified, makes.side, makes.path_eq, makes.readIn.mono ?_,
              makes.presented, written, ?_⟩
            · exact List.subset_cons_of_subset _ (List.subset_append_left ..)
            · rw [← makes.facts_eq]
              exact .tail _ (List.mem_append_right _ (.head _))
          · intro old member
            rw [stands.generations_eq, List.mem_map] at member
            obtain ⟨name, owned, rfl⟩ := member
            exact ⟨name, (stands.sides name owned).1, rfl, gone name owned⟩

theorem Polls.stands {outcome : PollOutcome}
    (polls : Polls (Undisturbed target) w d log (outcome, w') d')
    (stands : w.Stands target owned d) : ∃ owned, w'.Stands target owned d' := by
  obtain ⟨target_eq, home, _⟩ := polls.keeps
  by_cases shows : ∃ path, outcome = .reloaded path
  · obtain ⟨path, rfl⟩ := shows
    have replaced := polls.replaced stands
    obtain ⟨name, _, _, _, side, rfl, _, _, found, _⟩ := replaced.written
    exact ⟨[name], target_eq.trans stands.target_eq, home.trans stands.directory_eq,
      replaced.generations_eq, List.forall_mem_singleton.mpr ⟨side, _, found, rfl⟩⟩
  · have unmoved := polls.unmoved stands.directory_eq fun path same => shows ⟨path, same⟩
    exact ⟨owned, stands.of_alike unmoved.alike (List.forall_mem_nil _) target_eq home
      unmoved.generations_eq⟩

/-- Whatever a watcher has done, its side files are there. -/
theorem Reached.stands {path : Path} {options : WatchOptions} {d₀ : Directory}
    (reached : Reached (Undisturbed target) path options d₀ w d) (here : w.target = target) :
    ∃ owned, w.Stands target owned d := by
  induction reached with
  | started run =>
      obtain ⟨log, fileRun, rfl⟩ := runs_inSession_iff.mp run
      cases runs_start_iff.mp fileRun with
      | started =>
          obtain rfl := here
          exact ⟨[], rfl, rfl, rfl, List.forall_mem_nil _⟩
  | @made _ _ _ _ _ result _ run ih =>
      have generates := runs_generate_iff.mp run
      obtain ⟨_, rfl⟩ := generates.watcher_eq
      obtain ⟨owned, stands⟩ := ih here
      cases result with
      | error e =>
          have alike := generates.alikeBut stands.directory_eq
          exact ⟨owned, stands.of_alike alike (List.forall_mem_nil _) rfl rfl rfl⟩
      | ok g =>
          obtain ⟨name, _, _, _, free, alike⟩ := generates.makes stands.directory_eq
          exact ⟨owned,
            stands.of_alike alike (List.forall_mem_singleton.mpr free) rfl rfl rfl⟩
  | shown _ run asked committing ih =>
      have generates := runs_generate_iff.mp run
      obtain ⟨_, rfl⟩ := generates.watcher_eq
      obtain ⟨removals, removing, rfl, rfl⟩ := runs_commit_iff.mp committing
      obtain ⟨owned, stands⟩ := ih here
      obtain ⟨none, _, name, doc, text, makes⟩ := generates.shows stands asked removing
      obtain ⟨modified, written⟩ := makes.written
      refine ⟨[name], here, stands.directory_eq, ?_,
        List.forall_mem_singleton.mpr ⟨makes.side, _, written, rfl⟩⟩
      rw [none, committed, makes.path_eq]
      rfl
  | polled _ run ih =>
      have polls := runs_poll_iff.mp run
      obtain ⟨owned, stands⟩ := ih (polls.keeps.1.symm.trans here)
      exact polls.stands stands
  | closed _ run ih =>
      obtain ⟨log, fileRun, rfl⟩ := runs_inSession_iff.mp run
      cases runs_close_iff.mp fileRun with
      | again => exact ih here
      | closed =>
          obtain ⟨owned, stands⟩ := ih here
          exact ⟨[], here, stands.directory_eq, rfl, List.forall_mem_nil _⟩

end Watcher

/-- A poll is a transaction. Where it shows nothing new, the watcher and the side files are as
before; after a failure that may pass the next poll tries again, and after a rejection it does so
only once the source has changed. Where it shows something, that is what the source was presented
as, and nothing of the earlier side files is left. All this needs that nobody else touches side
files, that they can be removed, and that a token makes no name that is in use. -/
theorem polls_are_transactions {path : Path} {options : WatchOptions} {d₀ : Directory}
    {w w' : Watcher} {log : Log SessionRequest.Answer} {outcome : PollOutcome}
    (reached : Watcher.Reached (Undisturbed target) path options d₀ w d) (here : w.target = target)
    (polled : Runs (Undisturbed target) w.poll d log (outcome, w') d') :
    match outcome with
    | .unchanged => w' = w ∧ w.Unmoved target w' d d'
    | .retrying => w.Unmoved target w' d d' ∧ w'.lastModified = w.lastModified ∧
        ∀ {m log' outcome' w'' d''}, log.head? = some (Watcher.look target m) →
          Runs (Undisturbed target) w'.poll d' log' (outcome', w'') d'' →
          log'.head? = some (Watcher.look target m) → outcome' ≠ .unchanged
    | .rejected => w.Unmoved target w' d d' ∧ ∃ m, log.head? = some (Watcher.look target m) ∧
        w'.lastModified = some m ∧
        ∀ {log' outcome' w'' d''}, Runs (Undisturbed target) w'.poll d' log' (outcome', w'') d'' →
          log'.head? = some (Watcher.look target m) →
          outcome' = .unchanged ∧ w'' = w' ∧ log' = [Watcher.look target m]
    | .reloaded shown => w.Replaced target w' log d' shown := by
  obtain ⟨owned, stands⟩ := reached.stands here
  have polls := Watcher.runs_poll_iff.mp polled
  have here' : w'.target = target := polls.keeps.1.trans here
  cases outcome with
  | unchanged => exact ⟨polls.eq_of_unchanged, polls.unmoved stands.directory_eq nofun⟩
  | reloaded shown => exact polls.replaced stands
  | retrying =>
      have unmoved := polls.unmoved stands.directory_eq nofun
      obtain ⟨kept, watching, moved⟩ := polls.lastModified_eq_of_retrying
      refine ⟨unmoved, kept, ?_⟩
      intro m log' outcome' w'' d'' seen again seen'
      have moved' : w'.lastModified ≠ some m := by
        rw [kept]
        exact moved m (by rw [here, seen])
      rw [← here'] at seen'
      exact (Watcher.runs_poll_iff.mp again).ne_unchanged (unmoved.phase_eq.trans watching) seen'
        moved'
  | rejected =>
      have unmoved := polls.unmoved stands.directory_eq nofun
      obtain ⟨watching, m, seen, kept⟩ := polls.lastModified_eq_of_rejected
      rw [here] at seen
      refine ⟨unmoved, m, seen, kept, ?_⟩
      intro log' outcome' w'' d'' again seen'
      rw [← here'] at seen' ⊢
      exact (Watcher.runs_poll_iff.mp again).of_look (unmoved.phase_eq.trans watching) seen' kept

/-- The engine refuses a changed source: the side file of the new text goes again, the one before it
stays, and the time of the change is kept. -/
theorem polls_are_transactions_of_refusal :
    let source : Path := "/a/W.qml".toList
    let options : WatchOptions := {}
    ∃ w d log w' d', Watcher.Reached (Undisturbed source) source options (fun _ => none) w d ∧
      w.target = source ∧ w.generations ≠ [] ∧
      Runs (Undisturbed source) w.poll d log (.rejected, w') d' ∧
      w.Unmoved source w' d d' ∧ ∃ m, log.head? = some (Watcher.look source m) ∧
        w'.lastModified = some m ∧
        ∀ {log' outcome' w'' d''}, Runs (Undisturbed source) w'.poll d' log' (outcome', w'') d'' →
          log'.head? = some (Watcher.look source m) →
          outcome' = .unchanged ∧ w'' = w' ∧ log' = [Watcher.look source m] := by
  intro source options
  let refusal : Error := .engineLoadFailed []
  let text : Text := "Window \x7b\x7d".toList
  let empty : Directory := fun _ => none
  let token := Token.ofNat 0
  let token' := Token.ofNat (16 ^ 24)
  have side {name : Text} (accepted : isSideFileName name = true) : IsSide source name :=
    @isSide_of_last source "W.qml".toList _ (by decide) (by decide) accepted
  have serves {d d' : Directory} {q : FileRequest} {r : q.Answer} (h : d.Serves source q r d') :
      onFiles (Undisturbed source) d q r d' := ⟨trivial, d, .refl d, h⟩
  have decoded : Utf8.decode? (Utf8.encode text) = some text := by decide +kernel
  have usable : (scan text).hasUsableRoot = true := by decide +kernel
  have shown (modified : Time) :=
    @present_of_shown ⟨source, text, modified⟩ _ ⟨rfl, usable⟩ options.size
  have reading (d : Directory) (modified : Time) :
      Document.Reads (onFiles (Undisturbed source)) source d _ (.ok ⟨source, text, modified⟩) d :=
    .read _ (serves rfl) (serves rfl) (serves rfl) decoded
  let w₀ : Watcher := .started source options ⟨1⟩
  let name := sideFileName (w₀.counter + 1) token
  let g : Generation := ⟨w₀.nextPath token, ⟨1⟩, scan text⟩
  let w : Watcher := w₀.counted.committed [] g
  let filled : Directory := Function.update empty name (some (.file (Utf8.encode text) ⟨1⟩))
  have starting : Watcher.Starts (onFiles (Undisturbed source)) source options empty _ (.ok w₀)
      empty :=
    .started (serves rfl) (.absent (serves ⟨rfl, fun _ _ _ _ => rfl⟩)) (serves rfl)
  have drawing : Undisturbed source empty (.host .token) token empty :=
    ⟨trivial, empty, .refl _, rfl, fun _ => ⟨rfl, (side (isSideFileName_sideFileName ..)).apart⟩⟩
  have making : Watcher.Generates (Undisturbed source) w₀ empty _ (.ok g, w₀.counted) filled :=
    .made (w := w₀) (reading empty ⟨1⟩) (shown ⟨1⟩) drawing
      (serves (serves_write (side (isSideFileName_sideFileName ..)) _ _))
  have loading : Undisturbed source filled (.engine (.load g.locator)) (.ok [1]) filled :=
    ⟨trivial, filled, .refl _, rfl⟩
  have committing : Runs (Undisturbed source) (w₀.counted.commit g).inSession filled [] w filled :=
    Watcher.runs_commit_iff.mpr ⟨[], .nil _, rfl, rfl⟩
  have reached : Watcher.Reached (Undisturbed source) source options empty w filled :=
    .shown (.started (runs_inSession_iff.mpr ⟨_, Watcher.runs_start_iff.mpr starting, rfl⟩))
      (Watcher.runs_generate_iff.mpr making) loading committing
  let w₁ : Watcher := { w with phase := .regenerating }
  let name' := sideFileName (w₁.counter + 1) token'
  let g' : Generation := ⟨w₁.nextPath token', ⟨2⟩, scan text⟩
  let both : Directory := Function.update filled name' (some (.file (Utf8.encode text) ⟨2⟩))
  have apart : token'.short ≠ token.short := by decide
  have redrawing : Undisturbed source filled (.host .token) token' filled := by
    refine ⟨trivial, filled, .refl _, rfl, fun counter => ⟨?_, ?_⟩⟩
    · exact Function.update_of_ne (fun same => apart (short_eq_of_sideFileName_eq same)) ..
    · exact (side (isSideFileName_sideFileName ..)).apart
  have named : IsSide source name' := side (isSideFileName_sideFileName ..)
  have remaking : Watcher.Generates (Undisturbed source) w₁ filled _ (.ok g', w₁.counted) both :=
    .made (w := w₁) (reading filled ⟨2⟩) (shown ⟨2⟩) redrawing (serves (serves_write named _ _))
  have refusing : Undisturbed source both (.engine (.reload g'.locator g'.facts)) (.error refusal)
      both :=
    ⟨trivial, both, .refl _, rfl⟩
  have discarding : onFiles (Undisturbed source) both (.remove g'.path) (.ok ())
      (Function.update both name' none) :=
    serves (serves_remove named (Function.update_self ..) rfl)
  have polling : Watcher.Polls (Undisturbed source) w filled _
      (.rejected, { w₁.counted.reject ⟨2⟩ with phase := .watching })
      (Function.update both name' none) :=
    .changed rfl (serves rfl) (by decide) (.refused remaking refusing discarding rfl)
  have run := Watcher.runs_poll_iff.mpr polling
  exact ⟨w, filled, _, _, _, reached, rfl, nofun, run, polls_are_transactions reached rfl run⟩

end QmlPreview
