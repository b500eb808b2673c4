import QmlPreview.Proofs.Directories
import QmlPreview.Proofs.Presenting

/-! The side files that a watcher owns. Over a whole run the only one in its directory is the one
that it shows; it changes no other file, and when it closes none is left. -/

namespace QmlPreview

open Script (Log Runs)
open Session (LiveRun StartsLive)
open Directory

namespace Directory

variable (target : Path)

def Lists : (q : SessionRequest) → q.Answer → Prop
  | .host (.file (.list path)), .error _ => path ≠ workingDirectory target
  | _, _ => True

/-- Answers while nobody else makes side files, and the directory can be listed. -/
abbrev Orderly : Script.Answers Directory SessionRequest.Answer :=
  Answers target (NoNew target) (Lists target)

end Directory

variable {target : Path} {d d' : Directory} {names : Text → Prop}

theorem Document.Reads.noNew {path : Path} {log : Log FileRequest.Answer}
    {result : Except Error Document}
    (reads : Document.Reads (onFiles (Orderly target)) path d log result d') :
    d.NoNew target d' :=
  reads.others fun first second => first.trans second

/-- Removing side files in turn leaves none of them. -/
theorem RemovesAll.holds {listed : List Text} {log : Log FileRequest.Answer}
    (removes : RemovesAll (onFiles (Orderly target))
      (listed.map (sidePath target)) d log d')
    (sides : ∀ name ∈ listed, IsSide target name) (holds : d.Holds target names) :
    (d'.Holds target fun n => names n ∧ n ∉ listed) ∧ unremoved log = [] := by
  induction listed generalizing d log names with
  | nil =>
      cases removes
      exact ⟨holds.mono fun n named => ⟨named, List.not_mem_nil⟩, rfl⟩
  | cons name rest ih =>
      cases removes with
      | cons removing later =>
          obtain ⟨holds₁, outcome⟩ := holds.remove (sides name (List.mem_cons_self ..)) removing
          obtain ⟨holds₂, none⟩ := ih later (fun n h => sides n (List.mem_cons_of_mem _ h)) holds₁
          refine ⟨holds₂.mono ?_, ?_⟩
          · rintro n ⟨⟨named, other⟩, later⟩
            exact ⟨named, by simp [other, later]⟩
          · rw [unremoved_of_isGone outcome, none]

theorem sweepable_eq (target : Path) (listed : List Text) :
    sweepable (workingDirectory target) [target] listed =
      (listed.filter fun name =>
        isSideFileName name && !isKept [target] (sidePath target name)).map (sidePath target) := by
  rw [sweepable, List.filter_map, List.filter_filter]
  congr 1
  refine List.filter_congr fun name _ => Bool.and_comm ..

theorem mem_swept_iff {listed : List Text} {name : Text} :
    name ∈ listed.filter (fun name =>
        isSideFileName name && !isKept [target] (sidePath target name)) ↔
      name ∈ listed ∧ IsSide target name := by
  simp only [List.mem_filter, Bool.and_eq_true, Bool.not_eq_true', isKept, List.any_cons,
    List.any_nil, Bool.or_false, decide_eq_false_iff_not]
  constructor
  · rintro ⟨listed, accepted, apart⟩
    exact ⟨listed, accepted, Ne.symm apart⟩
  · rintro ⟨listed, accepted, apart⟩
    exact ⟨listed, accepted, Ne.symm apart⟩

/-- A sweep leaves no side file. -/
theorem Sweeps.holds {log : Log FileRequest.Answer}
    (sweeps : Sweeps (onFiles (Orderly target)) (workingDirectory target)
      [target] d log d') (holds : d.Holds target names) :
    d'.Holds target fun _ => False := by
  cases sweeps with
  | absent looking =>
      obtain ⟨_, _, _, rfl, empty⟩ := looking
      intro name side node found
      cases (empty rfl rfl name side.accepted).symm.trans found
  | unlisted _ listing => exact absurd rfl listing.1
  | @swept listing _ _ d₂ _ looking inspecting removing =>
      obtain ⟨_, _, quiet, rfl, _⟩ := looking
      obtain ⟨_, _, quiet', rfl, listed⟩ := inspecting
      have complete := listed rfl listing rfl
      have holds' := holds.noNew (quiet.trans quiet')
      have inListing : d₂.Holds target (· ∈ listing) := by
        intro name side node found
        refine ⟨(holds' name side node found).1, (complete name side.accepted).mpr ?_⟩
        rw [found, Option.isSome_some]
      -- Others can only take side files away after the listing, so it still names all there are.
      rw [sweepable_eq] at removing
      obtain ⟨swept, _⟩ := removing.holds (fun name h => (mem_swept_iff.mp h).2) inListing
      intro name side node found
      obtain ⟨_, there, left⟩ := swept name side node found
      exact absurd (mem_swept_iff.mpr ⟨there, side⟩) left

namespace Watcher

/-- Making a side file adds the one that is made; a failure adds none. -/
theorem Generates.holds {w w' : Watcher} {log : Log SessionRequest.Answer}
    {made : Except Error Generation}
    (generates : Generates (Orderly target) w d log (made, w') d')
    (home : w.directory = workingDirectory target) (holds : d.Holds target names) :
    match made with
    | .error _ => d'.Holds target names
    | .ok g => ∃ name, IsSide target name ∧ g.path = sidePath target name ∧
        d'.Holds target fun n => names n ∨ n = name := by
  cases generates with
  | unread reads => exact holds.noNew reads.noNew
  | unpresented reads => exact holds.noNew reads.noNew
  | unwritten reads _ drawing writing removing =>
      obtain ⟨_, _, quiet, rfl, fresh⟩ := drawing
      have side := fresh.isSide (w.counter + 1)
      rw [nextPath_eq home] at writing removing
      have written := (holds.noNew (reads.noNew.trans quiet)).write side (fresh _).1 writing
      refine (written.remove side removing).1.mono ?_
      rintro n ⟨named | same, other⟩
      · exact named
      · exact absurd same other
  | made reads _ drawing writing =>
      obtain ⟨_, _, quiet, rfl, fresh⟩ := drawing
      have side := fresh.isSide (w.counter + 1)
      rw [nextPath_eq home] at writing
      have holds' := holds.noNew (reads.noNew.trans quiet)
      exact ⟨_, side, nextPath_eq home _, holds'.write side (fresh _).1 writing⟩

/-- The watcher has one side file, and the directory holds no other. -/
structure Owns (w : Watcher) (target : Path) (d : Directory) (name : Text) : Prop where
  target_eq : w.target = target
  directory_eq : w.directory = workingDirectory target
  watching : w.phase = .watching
  generations_eq : w.generations = [sidePath target name]
  side : IsSide target name
  holds : d.Holds target (· = name)

section
variable {w w' : Watcher} {log : Log SessionRequest.Answer} {name : Text}

/-- Showing a changed source replaces the side file, or adds none. -/
theorem Regenerates.holds {modified : Time} {outcome : PollOutcome}
    (regenerates : Regenerates (Orderly target) w modified d log
      (outcome, w') d')
    (home : w.directory = workingDirectory target) (side : IsSide target name)
    (one : w.generations = [sidePath target name]) (holds : d.Holds target (· = name)) :
    ∃ name', IsSide target name' ∧ w'.generations = [sidePath target name'] ∧
      d'.Holds target (· = name') := by
  cases regenerates with
  | unmade generates | malformed generates =>
      refine ⟨name, side, ?_, generates.holds home holds⟩
      obtain ⟨_, rfl⟩ := generates.watcher_eq
      exact one
  | @shown _ g w₁ removals _ _ _ generates showing removing =>
      obtain ⟨name', side', path, made⟩ := generates.holds home holds
      obtain ⟨_, _, quiet, rfl⟩ := showing
      have old : w₁.generations = [name].map (sidePath target) :=
        generates.generations_eq.trans one
      rw [old] at removing
      obtain ⟨left, none⟩ := removing.holds (List.forall_mem_singleton.mpr side) (made.noNew quiet)
      refine ⟨name', side', ?_, left.mono ?_⟩
      · rw [none, ← path]
        rfl
      · rintro n ⟨old | new, kept⟩
        · exact absurd (List.mem_singleton.mpr old) kept
        · exact new
  | @failed _ g w₁ _ _ _ _ _ generates showing removing
  | @refused _ g w₁ _ _ _ _ _ generates showing removing =>
      obtain ⟨name', side', path, made⟩ := generates.holds home holds
      obtain ⟨_, _, quiet, rfl⟩ := showing
      rw [path] at removing
      -- The new side file goes again, so the one before it is the only one once more.
      refine ⟨name, side, ?_, ((made.noNew quiet).remove side' removing).1.mono ?_⟩
      · obtain ⟨_, rfl⟩ := generates.watcher_eq
        exact one
      · rintro n ⟨old | new, other⟩
        · exact old
        · exact absurd new other

/-- After a poll the watcher has one side file again. -/
theorem Polls.owns {outcome : PollOutcome}
    (polls : Polls (Orderly target) w d log (outcome, w') d')
    (owns : w.Owns target d name) : ∃ name', w'.Owns target d' name' := by
  obtain ⟨target', home, _⟩ := polls.keeps
  have watching := polls.phase_eq owns.watching
  replace target' := target'.trans owns.target_eq
  replace home := home.trans owns.directory_eq
  cases polls with
  | asleep => exact ⟨name, owns⟩
  | unseen _ looking | unchanged _ looking =>
      obtain ⟨_, _, quiet, rfl⟩ := looking
      exact ⟨name, target', home, watching, owns.generations_eq, owns.side, owns.holds.noNew quiet⟩
  | changed _ looking _ regenerates =>
      obtain ⟨_, _, quiet, rfl⟩ := looking
      obtain ⟨name', side, one, holds⟩ := regenerates.holds owns.directory_eq owns.side
        owns.generations_eq (owns.holds.noNew quiet)
      exact ⟨name', target', home, watching, one, side, holds⟩

/-- Closing leaves no side file. -/
theorem Closes.holds {log : Log FileRequest.Answer} {listed : List Text}
    (closes : Closes (onFiles (Orderly target)) w d log w' d')
    (target_eq : w.target = target) (home : w.directory = workingDirectory target)
    (awake : w.phase ≠ .closed) (owned : w.generations = listed.map (sidePath target))
    (sides : ∀ name ∈ listed, IsSide target name) (holds : d.Holds target names) :
    (d'.Holds target fun _ => False) ∧
      w' = { w with generations := [], phase := .closed } := by
  cases closes with
  | again ended => exact absurd ended awake
  | closed _ removing sweeping =>
      rw [owned] at removing
      rw [target_eq, home] at sweeping
      exact ⟨sweeping.holds (removing.holds sides holds).1, rfl⟩

end

end Watcher

/-- The path of the file that a request changes. -/
def SessionRequest.changed? : SessionRequest → Option Path
  | .host (.file (.write path _)) | .host (.file (.append path _)) | .host (.file (.remove path))
  | .host (.file (.makeDirectories path)) => some path
  | _ => none

/-- Nothing but side files is asked to be changed. -/
def Tidy (target : Path) (log : Log SessionRequest.Answer) : Prop :=
  ∀ x ∈ log, ∀ path, x.1.changed? = some path → ∃ name, IsSide target name ∧
    path = sidePath target name

theorem Tidy.nil : Tidy target [] := List.forall_mem_nil _

theorem Tidy.cons {x : (q : SessionRequest) × q.Answer} {log : Log SessionRequest.Answer}
    (first : ∀ path, x.1.changed? = some path → ∃ name, IsSide target name ∧
      path = sidePath target name) (rest : Tidy target log) : Tidy target (x :: log) :=
  List.forall_mem_cons.mpr ⟨first, rest⟩

theorem Tidy.look {x : (q : SessionRequest) × q.Answer} {log : Log SessionRequest.Answer}
    (looks : x.1.changed? = none) (rest : Tidy target log) : Tidy target (x :: log) := by
  refine .cons (fun path changed => ?_) rest
  cases looks.symm.trans changed

theorem Tidy.append {first second : Log SessionRequest.Answer} (h : Tidy target first)
    (h' : Tidy target second) : Tidy target (first ++ second) :=
  List.forall_mem_append.mpr ⟨h, h'⟩

section
variable {σ : Type} {answers : Script.Answers σ FileRequest.Answer} {s s' : σ}
  {log : Log FileRequest.Answer}

theorem Document.Reads.tidy {path : Path} {result : Except Error Document}
    (reads : Document.Reads answers path s log result s') :
    Tidy target (log.map FileRequest.inSession) := by
  cases reads with
  | unresolved => exact .look rfl .nil
  | undated => exact .look rfl (.look rfl .nil)
  | unread | notText | read => exact .look rfl (.look rfl (.look rfl .nil))

theorem RemovesAll.tidy {listed : List Text}
    (removes : RemovesAll answers (listed.map (sidePath target)) s log s')
    (sides : ∀ name ∈ listed, IsSide target name) :
    Tidy target (log.map FileRequest.inSession) := by
  induction listed generalizing s log with
  | nil =>
      cases removes
      exact .nil
  | cons name rest ih =>
      obtain ⟨side, sides'⟩ := List.forall_mem_cons.mp sides
      cases removes with
      | cons _ later =>
          refine .cons ?_ (ih later sides')
          rintro _ ⟨rfl⟩
          exact ⟨name, side, rfl⟩

theorem Sweeps.tidy (sweeps : Sweeps answers (workingDirectory target) [target] s log s') :
    Tidy target (log.map FileRequest.inSession) := by
  cases sweeps with
  | absent => exact .look rfl .nil
  | unlisted => exact .look rfl (.look rfl .nil)
  | swept _ _ removing =>
      rw [sweepable_eq] at removing
      exact .look rfl (.look rfl (removing.tidy fun name h => (mem_swept_iff.mp h).2))

end

namespace Watcher

variable {w w' : Watcher} {log : Log SessionRequest.Answer} {name : Text}

theorem Generates.tidy {made : Except Error Generation}
    (generates : Generates (Orderly target) w d log (made, w') d')
    (home : w.directory = workingDirectory target) : Tidy target log := by
  have next {token : Token} {d : Directory} (fresh : d.IsFresh target token) :
      ∃ name, IsSide target name ∧ w.nextPath token = sidePath target name :=
    ⟨_, fresh.isSide (w.counter + 1), nextPath_eq home token⟩
  cases generates with
  | unread reads | unpresented reads => exact reads.tidy
  | unwritten reads _ drawing =>
      obtain ⟨_, d₁, _, _, fresh⟩ := drawing
      refine reads.tidy.append (.look rfl (.cons ?_ (.cons ?_ .nil)))
      all_goals
        rintro _ ⟨rfl⟩
        exact next fresh
  | made reads _ drawing =>
      obtain ⟨_, d₁, _, _, fresh⟩ := drawing
      refine reads.tidy.append (.look rfl (.cons ?_ .nil))
      rintro _ ⟨rfl⟩
      exact next fresh

theorem Polls.tidy {outcome : PollOutcome}
    (polls : Polls (Orderly target) w d log (outcome, w') d')
    (owns : w.Owns target d name) : Tidy target log := by
  have one : w.generations = [name].map (sidePath target) := owns.generations_eq
  cases polls with
  | asleep => exact .nil
  | unseen | unchanged => exact .look rfl .nil
  | changed _ looking _ regenerates =>
      obtain ⟨_, _, quiet, rfl⟩ := looking
      refine .look rfl ?_
      cases regenerates with
      | unmade generates | malformed generates => exact generates.tidy owns.directory_eq
      | shown generates _ removing =>
          rw [generates.generations_eq, one] at removing
          exact (generates.tidy owns.directory_eq).append
            (.look rfl (removing.tidy (List.forall_mem_singleton.mpr owns.side)))
      | failed generates | refused generates =>
          obtain ⟨name', side', path, _⟩ :=
            generates.holds owns.directory_eq (owns.holds.noNew quiet)
          refine (generates.tidy owns.directory_eq).append (.look rfl (.cons ?_ .nil))
          rintro _ ⟨rfl⟩
          exact ⟨name', side', path⟩

end Watcher

namespace Watcher

variable {path : Path} {options : WatchOptions} {log : Log FileRequest.Answer}
  {result : Except Error Watcher}

/-- Once the source is resolved, the start leaves no side file, whether it fails later or not. -/
theorem Starts.holds
    (starts : Starts (onFiles (Orderly target)) path options d log result d')
    (resolved : log.head? = some ⟨.resolve path, .ok target⟩) (holds : d.Holds target names) :
    (d'.Holds target fun _ => False) ∧ Tidy target (log.map FileRequest.inSession) ∧
      ∀ w, result = .ok w → ∃ modified, w = Watcher.started target options modified := by
  cases starts with
  | unresolved => cases resolved
  | undated resolving sweeping dating =>
      cases resolved
      obtain ⟨_, _, quiet, rfl⟩ := resolving
      obtain ⟨_, _, quiet', rfl⟩ := dating
      refine ⟨(sweeping.holds (holds.noNew quiet)).noNew quiet', ?_, nofun⟩
      rw [List.map_cons, List.map_append]
      exact .look rfl (sweeping.tidy.append (.look rfl .nil))
  | started resolving sweeping dating =>
      cases resolved
      obtain ⟨_, _, quiet, rfl⟩ := resolving
      obtain ⟨_, _, quiet', rfl⟩ := dating
      refine ⟨(sweeping.holds (holds.noNew quiet)).noNew quiet', ?_, ?_⟩
      · rw [List.map_cons, List.map_append]
        exact .look rfl (sweeping.tidy.append (.look rfl .nil))
      · rintro _ ⟨rfl⟩
        exact ⟨_, rfl⟩

/-- Closing asks for nothing but side files to be changed. -/
theorem Closes.tidy {w w' : Watcher} {listed : List Text}
    (closes : Closes (onFiles (Orderly target)) w d log w' d')
    (target_eq : w.target = target) (home : w.directory = workingDirectory target)
    (owned : w.generations = listed.map (sidePath target))
    (sides : ∀ name ∈ listed, IsSide target name) :
    Tidy target (log.map FileRequest.inSession) := by
  cases closes with
  | again => exact .nil
  | closed _ removing sweeping =>
      rw [owned] at removing
      rw [target_eq, home] at sweeping
      rw [List.map_append]
      exact (removing.tidy sides).append sweeping.tidy

end Watcher

theorem Watcher.Starts.head?_eq {σ : Type} {answers : Script.Answers σ FileRequest.Answer}
    {path : Path} {options : WatchOptions} {log : Log FileRequest.Answer}
    {more : Log SessionRequest.Answer} {result : Except Error Watcher} {s s' : σ}
    (starts : Watcher.Starts answers path options s log result s')
    (resolved : (log.map FileRequest.inSession ++ more).head? =
      some ⟨.host (.file (.resolve path)), .ok target⟩) :
    log.head? = some ⟨.resolve path, .ok target⟩ := by
  cases starts with
  | unresolved => cases resolved
  | undated | started =>
      cases resolved
      rfl

namespace Session

variable {ctx : Context} {layout : Layout} {log : Log SessionRequest.Answer}

/-- After the start of a live session the watcher has one side file. -/
theorem StartsLive.owns {w : Watcher}
    (starts : StartsLive (Orderly target) ctx layout d log (.ok w) d')
    (resolved : log.head? = some ⟨.host (.file (.resolve ctx.source)), .ok target⟩)
    (holds : d.Holds target names) : (∃ name, w.Owns target d' name) ∧ Tidy target log := by
  cases starts with
  | @live _ removals _ w₀ w₁ g _ _ _ _ _ _ starting generates loading _ removing =>
      obtain ⟨empty, tidy, started⟩ := starting.holds (starting.head?_eq resolved) holds
      obtain ⟨modified, rfl⟩ := started w₀ rfl
      obtain ⟨name, side, path, made⟩ := generates.holds rfl empty
      obtain ⟨_, _, quiet, rfl⟩ := loading
      have none : w₁.generations = [].map (sidePath target) := generates.generations_eq
      rw [none] at removing
      obtain ⟨left, kept⟩ := removing.holds nofun (made.noNew quiet)
      have one : (w₁.committed (unremoved removals) g).generations = [sidePath target name] := by
        rw [kept, ← path]
        rfl
      refine ⟨⟨name, ?_⟩,
        tidy.append ((generates.tidy rfl).append (.look rfl (removing.tidy nofun)))⟩
      have only : d'.Holds target (· = name) := left.mono fun n h => h.1.resolve_left id
      obtain ⟨_, rfl⟩ := generates.watcher_eq
      exact ⟨rfl, rfl, rfl, one, side, only⟩

/-- A start of a live session that fails leaves no side file. -/
theorem StartsLive.holds {e : Error}
    (starts : StartsLive (Orderly target) ctx layout d log (.error e) d')
    (resolved : log.head? = some ⟨.host (.file (.resolve ctx.source)), .ok target⟩)
    (holds : d.Holds target names) :
    (d'.Holds target fun _ => False) ∧ Tidy target log := by
  have none : ([] : List Path) = [].map (sidePath target) := rfl
  cases starts with
  | unstarted starting =>
      rw [← List.append_nil (List.map _ _)] at resolved
      obtain ⟨empty, tidy, _⟩ := starting.holds (starting.head?_eq resolved) holds
      exact ⟨empty, tidy⟩
  | @unmade _ _ _ w₀ _ _ _ _ _ _ starting generates closes =>
      obtain ⟨empty, tidy, started⟩ := starting.holds (starting.head?_eq resolved) holds
      obtain ⟨_, rfl⟩ := started w₀ rfl
      have made := generates.holds rfl empty
      have made' := generates.tidy rfl
      obtain ⟨_, rfl⟩ := generates.watcher_eq
      exact ⟨(closes.holds rfl rfl nofun none nofun made).1,
        tidy.append (made'.append (closes.tidy rfl rfl none nofun))⟩
  | @unloaded _ _ _ w₀ _ _ _ _ _ _ _ _ _ starting generates loading _ closes =>
      obtain ⟨empty, tidy, started⟩ := starting.holds (starting.head?_eq resolved) holds
      obtain ⟨_, rfl⟩ := started w₀ rfl
      obtain ⟨name, _, _, made⟩ := generates.holds rfl empty
      have made' := generates.tidy rfl
      obtain ⟨_, rfl⟩ := generates.watcher_eq
      obtain ⟨_, _, quiet, rfl⟩ := loading
      exact ⟨(closes.holds rfl rfl nofun none nofun (made.noNew quiet)).1,
        tidy.append (made'.append (.look rfl (closes.tidy rfl rfl none nofun)))⟩

/-- In a live session the watcher has one side file at any time between polls. -/
theorem LiveRun.owns {start : Log SessionRequest.Answer}
    {polls : List (PollOutcome × Log SessionRequest.Answer)} {w : Watcher}
    (run : LiveRun (Orderly target) ctx layout d start polls w d')
    (resolved : start.head? = some ⟨.host (.file (.resolve ctx.source)), .ok target⟩)
    (holds : d.Holds target names) :
    (∃ name, w.Owns target d' name) ∧ Tidy target start ∧ ∀ poll ∈ polls, Tidy target poll.2 := by
  induction run with
  | live started =>
      obtain ⟨owns, tidy⟩ := (runs_startLive_iff.mp started).owns resolved holds
      exact ⟨owns, tidy, nofun⟩
  | poll _ polled ih =>
      obtain ⟨⟨name, owns⟩, tidy, tidies⟩ := ih
      have polls := Watcher.runs_poll_iff.mp polled
      exact ⟨polls.owns owns, tidy, List.forall_mem_cons.mpr ⟨polls.tidy owns, tidies⟩⟩

end Session

theorem Session.StartsLive.eq_of_unresolved {σ : Type} {ctx : Context} {layout : Layout}
    {answers : Script.Answers σ SessionRequest.Answer} {s s' : σ} {log : Log SessionRequest.Answer}
    {result : Except Error Watcher} {fault : Fault}
    (starts : StartsLive answers ctx layout s log result s')
    (unresolved : log.head? = some ⟨.host (.file (.resolve ctx.source)), .error fault⟩) :
    log = [⟨.host (.file (.resolve ctx.source)), .error fault⟩] := by
  cases starts with
  | unstarted starting =>
      cases starting with
      | unresolved =>
          cases unresolved
          rfl
      | undated => cases unresolved
  | unmade starting | unloaded starting | live starting =>
      cases starting
      cases unresolved

/-- Besides the source itself, the directory has no side file but the one that is shown. -/
def Directory.HasOnly (target : Path) (d : Directory) (shown : Option Path) : Prop :=
  ∀ name, isSideFileName name = true → d name ≠ none →
    shown = some (sidePath target name) ∨ Path.components (sidePath target name) =
      Path.components target

theorem Directory.Holds.hasOnly {shown : Option Path} (holds : d.Holds target names)
    (h : ∀ name, names name → shown = some (sidePath target name)) : d.HasOnly target shown := by
  intro name accepted there
  by_cases apart : Path.components (sidePath target name) = Path.components target
  · exact .inr apart
  · obtain ⟨node, found⟩ := Option.ne_none_iff_exists'.mp there
    exact .inl (h name (holds name ⟨accepted, apart⟩ node found).2)

/-- While a watcher runs, the only side file in its directory is the one that it shows, and it
changes nothing but side files. When it has closed, or its start has failed, no side file is left,
and a closed watcher does nothing more. All this needs that nobody else makes side files, that none
is a directory, that files there can be listed and removed, and that a token makes no name that is
in use. A source that cannot be resolved leads to no directory, and nothing is asked after that. -/
theorem side_files_are_cleaned_up {ctx : Context} {layout : Layout}
    {start : Log SessionRequest.Answer}
    (plain : ∀ name, IsSide target name → ∀ node, d name = some node → node.isDirectory = false) :
    (∀ fault result d', Runs (Orderly target) (Session.startLive ctx layout) d
        start result d' →
      start.head? = some ⟨.host (.file (.resolve ctx.source)), .error fault⟩ →
      start = [⟨.host (.file (.resolve ctx.source)), .error fault⟩]) ∧
    (start.head? = some ⟨.host (.file (.resolve ctx.source)), .ok target⟩ →
      (∀ e d', Runs (Orderly target) (Session.startLive ctx layout) d start
          (.error e) d' →
        Tidy target start ∧ d'.HasOnly target none) ∧
      ∀ polls w d', LiveRun (Orderly target) ctx layout d start polls w d' →
        Tidy target start ∧ (∀ poll ∈ polls, Tidy target poll.2) ∧ d'.HasOnly target w.current ∧
        ∀ closing closed d'', Runs (Orderly target) w.close.inSession d'
            closing closed d'' →
          Tidy target closing ∧ d''.HasOnly target none ∧ closed.phase = .closed ∧
            closed.poll = .done (.unchanged, closed) ∧ closed.close = .done closed) := by
  have holds : d.Holds target fun _ => True := fun name side node found =>
    ⟨plain name side node found, trivial⟩
  refine ⟨?_, fun resolved => ⟨?_, ?_⟩⟩
  · intro fault result d' run unresolved
    exact (Session.runs_startLive_iff.mp run).eq_of_unresolved unresolved
  · intro e d' run
    obtain ⟨clean, tidy⟩ := (Session.runs_startLive_iff.mp run).holds resolved holds
    exact ⟨tidy, clean.hasOnly nofun⟩
  · intro polls w d' run
    obtain ⟨⟨shown, owns⟩, tidy, tidies⟩ := run.owns resolved holds
    have owned : w.generations = [shown].map (sidePath target) := owns.generations_eq
    have current : w.current = some (sidePath target shown) := by
      rw [Watcher.current, owned]
      rfl
    refine ⟨tidy, tidies, owns.holds.hasOnly ?_, ?_⟩
    · rintro name rfl
      exact current
    · intro closing closed d'' closingRun
      obtain ⟨log, fileRun, rfl⟩ := runs_inSession_iff.mp closingRun
      have closes := Watcher.runs_close_iff.mp fileRun
      have sides : ∀ name ∈ [shown], IsSide target name := List.forall_mem_singleton.mpr owns.side
      have awake : w.phase ≠ .closed := by
        rw [owns.watching]
        exact nofun
      obtain ⟨clean, rfl⟩ :=
        closes.holds owns.target_eq owns.directory_eq awake owned sides owns.holds
      have tidy' := closes.tidy owns.target_eq owns.directory_eq owned sides
      exact ⟨tidy', clean.hasOnly nofun, rfl, rfl, rfl⟩

/-- A side file of an earlier run is swept, the one that is shown goes when the source changes and
another takes its place, and none is left at the end. -/
theorem side_files_are_cleaned_up_of_page :
    let source : Path := "/a/W.qml".toList
    let ctx : Context := ⟨{}, source, .live .plain, none⟩
    let stale : Text := "Live7_0123abcd.qml".toList
    let before : Directory := Function.update (fun _ => none) stale (some (.file [] ⟨0⟩))
    let Answers := Orderly source
    ∃ start log log' path w d,
      LiveRun Answers ctx .plain before start [(.unchanged, log'), (.reloaded path, log)] w d ∧
      d.HasOnly source w.current ∧
      ∃ closing closed d', Runs Answers w.close.inSession d closing closed d' ∧
        d'.HasOnly source none ∧ closed.phase = .closed := by
  intro source ctx stale before Answers
  let text : Text := "Window \x7b\x7d".toList
  let options := ctx.settings.watchOptions .plain
  let empty : Directory := fun _ => none
  have side {name : Text} (accepted : isSideFileName name = true) : IsSide source name :=
    @isSide_of_last source "W.qml".toList _ (by decide) (by decide) accepted
  have plain : ∀ name, IsSide source name → ∀ node, before name = some node →
      node.isDirectory = false := by
    intro name _ node found
    by_cases same : name = stale
    · subst same
      cases found
      rfl
    · rw [show before name = none from Function.update_of_ne same ..] at found
      cases found
  have serves {d d' : Directory} {q : FileRequest} {r : q.Answer}
      (lists : Lists source (.host (.file q)) r) (h : d.Serves source q r d') :
      onFiles Answers d q r d' := ⟨lists, d, .refl d, h⟩
  have listed : before.Serves source (.list (workingDirectory source)) (.ok [stale]) before := by
    refine ⟨rfl, ?_⟩
    rintro _ _ ⟨rfl⟩ name _
    by_cases same : name = stale
    · subst same
      simp [before]
    · simp [before, same]
  have nothing : empty.Serves source (.list (workingDirectory source)) (.ok []) empty := by
    refine ⟨rfl, ?_⟩
    rintro _ _ ⟨rfl⟩ name _
    simp [empty]
  have clear : sweepable (workingDirectory source) [source] [stale] = [sidePath source stale] := by
    decide
  have removing : RemovesAll (onFiles Answers) [sidePath source stale] before _
      (Function.update before stale none) :=
    .cons (serves trivial (serves_remove (side (by decide)) (Function.update_self ..) rfl)) (.nil _)
  rw [← clear, Function.update_idem, show Function.update _ stale none = empty from
    Function.update_eq_self stale empty] at removing
  have sweeping : Sweeps (onFiles Answers) (workingDirectory source) [source] before _ empty :=
    .swept (serves trivial ⟨rfl, nofun⟩) (serves trivial listed) removing
  have starting : Watcher.Starts (onFiles Answers) source options before _
      (.ok (.started source options ⟨1⟩)) empty :=
    .started (serves trivial rfl) sweeping (serves trivial rfl)
  have decoded : Utf8.decode? (Utf8.encode text) = some text := by decide +kernel
  have usable : (scan text).hasUsableRoot = true := by decide +kernel
  have shown (modified : Time) :=
    @present_of_shown ⟨source, text, modified⟩ _ ⟨rfl, usable⟩ options.size
  have reading (d : Directory) (modified : Time) :
      Document.Reads (onFiles Answers) source d _ (.ok ⟨source, text, modified⟩) d :=
    .read _ (serves trivial rfl) (serves trivial rfl) (serves trivial rfl) decoded
  let w₀ : Watcher := .started source options ⟨1⟩
  let token := Token.ofNat 0
  let name := sideFileName (w₀.counter + 1) token
  let g : Generation := ⟨w₀.nextPath token, ⟨1⟩, scan text⟩
  let w : Watcher := w₀.counted.committed [] g
  let filled : Directory := Function.update empty name (some (.file (Utf8.encode text) ⟨1⟩))
  have named : IsSide source name := side (isSideFileName_sideFileName ..)
  have drawing : Answers empty (.host .token) token empty :=
    ⟨trivial, empty, .refl _, rfl, fun _ => ⟨rfl, (side (isSideFileName_sideFileName ..)).apart⟩⟩
  have making : Watcher.Generates Answers w₀ empty _ (.ok g, w₀.counted) filled :=
    .made (w := w₀) (reading empty ⟨1⟩) (shown ⟨1⟩) drawing
      (serves trivial (serves_write named _ _))
  have loading : Answers filled (.engine (.load g.locator)) (.ok [1]) filled :=
    ⟨trivial, filled, .refl _, rfl⟩
  have started : LiveRun Answers ctx .plain before _ [] w filled :=
    .live (Session.runs_startLive_iff.mpr (.live starting making loading rfl (.nil _)))
  let w₁ : Watcher := { w with phase := .regenerating }
  let token' := Token.ofNat (16 ^ 24)
  let name' := sideFileName (w₁.counter + 1) token'
  let g' : Generation := ⟨w₁.nextPath token', ⟨2⟩, scan text⟩
  let w₂ : Watcher := { w₁.counted.committed [] g' with phase := .watching }
  let both : Directory := Function.update filled name' (some (.file (Utf8.encode text) ⟨2⟩))
  let replaced : Directory := Function.update empty name' (some (.file (Utf8.encode text) ⟨2⟩))
  have apart : token'.short ≠ token.short := by decide
  have other : name' ≠ name := fun same => apart (short_eq_of_sideFileName_eq same)
  have named' : IsSide source name' := side (isSideFileName_sideFileName ..)
  have redrawing : Answers filled (.host .token) token' filled := by
    refine ⟨trivial, filled, .refl _, rfl, fun counter => ⟨?_, ?_⟩⟩
    · exact Function.update_of_ne (fun same => apart (short_eq_of_sideFileName_eq same)) ..
    · exact (side (isSideFileName_sideFileName ..)).apart
  have remaking : Watcher.Generates Answers w₁ filled _ (.ok g', w₁.counted) both :=
    .made (w := w₁) (reading filled ⟨2⟩) (shown ⟨2⟩) redrawing
      (serves trivial (serves_write named' _ _))
  have reloading : Answers both (.engine (.reload g'.locator g'.facts)) (.ok ()) both :=
    ⟨trivial, both, .refl _, rfl⟩
  have there : both name = some (.file (Utf8.encode text) ⟨1⟩) :=
    (Function.update_of_ne other.symm ..).trans (Function.update_self ..)
  have gone : Function.update both name none = replaced := by
    refine (Function.update_comm other ..).trans (congrArg (Function.update · name' _) ?_)
    rw [Function.update_idem]
    exact Function.update_eq_self name empty
  have superseding : RemovesAll (onFiles Answers) [sidePath source name] both _
      (Function.update both name none) :=
    .cons (serves trivial (serves_remove named there rfl)) (.nil _)
  rw [gone] at superseding
  have moved : w.lastModified ≠ some ⟨2⟩ := by decide
  have polling : Watcher.Polls Answers w filled _ (.reloaded g'.path, w₂) replaced :=
    .changed rfl (serves trivial rfl) moved (.shown remaking reloading superseding)
  have idle : Watcher.Polls Answers w₂ replaced _ (.unchanged, w₂) replaced :=
    .unchanged rfl (serves trivial rfl) rfl
  have run := (LiveRun.poll started (Watcher.runs_poll_iff.mpr polling)).poll
    (Watcher.runs_poll_iff.mpr idle)
  have discarding : RemovesAll (onFiles Answers) [sidePath source name'] replaced _
      (Function.update replaced name' none) :=
    .cons (serves trivial (serves_remove named' (Function.update_self ..) rfl)) (.nil _)
  rw [Function.update_idem, show Function.update _ name' none = empty from
    Function.update_eq_self name' empty] at discarding
  have closing : Watcher.Closes (onFiles Answers) w₂ replaced _
      { w₂ with generations := [], phase := .closed } empty :=
    .closed nofun discarding
      (.swept (serves trivial ⟨rfl, nofun⟩) (serves trivial nothing) (.nil _))
  have closingRun := runs_inSession_iff.mpr ⟨_, Watcher.runs_close_iff.mpr closing, rfl⟩
  obtain ⟨_, cleaned⟩ := side_files_are_cleaned_up plain
  obtain ⟨_, _, only, ended⟩ := (cleaned rfl).2 _ _ _ run
  obtain ⟨_, none, closed, _⟩ := ended _ _ _ closingRun
  exact ⟨_, _, _, _, w₂, replaced, run, only, _, _, empty, closingRun, none, closed⟩

end QmlPreview
