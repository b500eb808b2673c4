import QmlPreview.Proofs.Interleaving
import QmlPreview.Proofs.Inventory

/-! What a live session may ask, whatever the answers. It changes files with names of its own, and
apart from these only what it finds when it sweeps the directory: at its start, before it has made a
side file, and at its close, after which it does nothing else. -/

namespace QmlPreview

open Script (Asks Log)

def SessionRequest.removes : SessionRequest → Bool
  | .host (.file (.remove _)) => true
  | _ => false

namespace Session

def draws : (q : SessionRequest) × q.Answer → Bool
  | ⟨.host .token, _⟩ => true
  | _ => false

def lists : (q : SessionRequest) × q.Answer → Bool
  | ⟨.host (.file (.list _)), _⟩ => true
  | _ => false

/-- The path is that of a side file whose name the session made, with a token that it drew. -/
def Names (target : Path) (past : Log SessionRequest.Answer) (path : Path) : Prop :=
  ∃ counter token, ⟨.host .token, token⟩ ∈ past ∧
    path = sidePath target (sideFileName counter token)

/-- The session sweeps its directory, and the path is among those that it removes there. -/
def Sweeping (target : Path) (past : Log SessionRequest.Answer) (path : Path) : Prop :=
  ∃ before names removals,
    past = before ++ ⟨.host (.file (.list (workingDirectory target))), .ok names⟩ :: removals ∧
      (∀ x ∈ removals, x.1.removes = true) ∧
      path ∈ sweepable (workingDirectory target) [target] names

/-- No directory was listed after a token was drawn. -/
def Unswept (past : Log SessionRequest.Answer) : Prop :=
  past.Pairwise fun x y => draws x = true → lists y = false

def Undrawn (past : Log SessionRequest.Answer) : Prop := ∀ x ∈ past, draws x = false

/-- What a session may ask after the log, whose source has been resolved. -/
structure May (target : Path) (past : Log SessionRequest.Answer) (q : SessionRequest) : Prop where
  changes : ∀ path, q.changed? = some path →
    Names target past path ∨ q = .host (.file (.remove path)) ∧ Sweeping target past path
  /-- Only a session that closes lists a directory after it drew a token. -/
  closing : Unswept past ∨ q.removes = true

/-- What holds of the log of a session goes on to hold as long as no directory is listed. -/
structure Lasts (I : Log SessionRequest.Answer → Prop) : Prop where
  unswept : ∀ log, I log → Unswept log
  next : ∀ log x, I log → lists x = false → I (log ++ [x])

section
variable {target path : Path} {past log : Log SessionRequest.Answer} {q : SessionRequest}

theorem Names.append (h : Names target past path) (more : Log SessionRequest.Answer) :
    Names target (past ++ more) path := by
  obtain ⟨counter, token, drawn, rfl⟩ := h
  exact ⟨counter, token, List.mem_append_left more drawn, rfl⟩

theorem Unswept.ask (h : Unswept past) {x : (q : SessionRequest) × q.Answer}
    (quiet : lists x = false) : Unswept (past ++ [x]) :=
  List.pairwise_append.mpr ⟨h, List.pairwise_singleton _ _, fun _ _ y hy _ => by
    rw [List.mem_singleton.mp hy, quiet]⟩

theorem Undrawn.ask (h : Undrawn past) {x : (q : SessionRequest) × q.Answer}
    (quiet : draws x = false) : Undrawn (past ++ [x]) :=
  List.forall_mem_append.mpr ⟨h, List.forall_mem_singleton.mpr quiet⟩

theorem Undrawn.unswept (h : Undrawn past) : Unswept past := by
  refine List.pairwise_of_forall_mem_list fun x hx y _ drawn => ?_
  cases (h x hx).symm.trans drawn

theorem May.look (looks : q.changed? = none) (unswept : Unswept past) : May target past q :=
  ⟨fun path changed => (by cases looks.symm.trans changed), .inl unswept⟩

theorem may_remove (named : Names target past path) :
    May target past (.host (.file (.remove path))) :=
  ⟨fun _ changed => .inl (by cases changed; exact named), .inr rfl⟩

theorem may_write {bytes : List UInt8} (named : Names target past path)
    (unswept : Unswept past) : May target past (.host (.file (.write path bytes))) :=
  ⟨fun _ changed => .inl (by cases changed; exact named), .inl unswept⟩

end

end Session

open Session

/-- The watcher watches the source, and the side files that it has to delete are its own. -/
structure Watcher.Keeps (w : Watcher) (target : Path) (past : Log SessionRequest.Answer) :
    Prop where
  target_eq : w.target = target
  directory_eq : w.directory = workingDirectory target
  names : ∀ path ∈ w.generations, Names target past path
  unswept : Unswept past

theorem Watcher.Keeps.congr {w w' : Watcher} {target : Path} {past : Log SessionRequest.Answer}
    (h : w.Keeps target past) (target_eq : w'.target = w.target)
    (directory_eq : w'.directory = w.directory) (generations_eq : w'.generations = w.generations) :
    w'.Keeps target past :=
  ⟨target_eq.trans h.target_eq, directory_eq.trans h.directory_eq, generations_eq ▸ h.names,
    h.unswept⟩

theorem Watcher.lasts_keeps (w : Watcher) (target : Path) : Lasts (w.Keeps target) :=
  ⟨fun _ h => h.unswept, fun _ _ h quiet => ⟨h.target_eq, h.directory_eq,
    fun path member => (h.names path member).append _, h.unswept.ask quiet⟩⟩

theorem Session.Lasts.and_names {I : Log SessionRequest.Answer → Prop} (lasts : Lasts I)
    (target path : Path) : Lasts fun log => I log ∧ Names target log path :=
  ⟨fun log h => lasts.unswept log h.1, fun log x h quiet =>
    ⟨lasts.next log x h.1 quiet, h.2.append _⟩⟩

theorem ofHostScript_bind {α β : Type} (script : HostScript α) (f : α → HostScript β) :
    SessionScript.ofHostScript (script >>= f) =
      SessionScript.ofHostScript script >>= fun a => SessionScript.ofHostScript (f a) :=
  Script.expand_bind _ script f

theorem inSession_bind {α β : Type} (script : FileScript α) (f : α → FileScript β) :
    (script >>= f).inSession = script.inSession >>= fun a => (f a).inSession := by
  rw [FileScript.inSession, HostScript.ofFileScript, Script.expand_bind]
  exact ofHostScript_bind _ _

section
variable {target : Path} {past : Log SessionRequest.Answer}
  {I : Log SessionRequest.Answer → Prop} (lasts : Lasts I) (h : I past)
include lasts h

theorem Document.asks_read (path : Path) :
    Asks (May target) (fun log _ => I log) (Document.read path).inSession past := by
  refine ⟨.look rfl (lasts.unswept _ h), fun resolved => ?_⟩
  replace h := lasts.next _ ⟨_, resolved⟩ h rfl
  cases resolved with
  | error fault => exact h
  | ok resolved =>
      refine ⟨.look rfl (lasts.unswept _ h), fun modified => ?_⟩
      replace h := lasts.next _ ⟨_, modified⟩ h rfl
      cases modified with
      | error fault => exact h
      | ok modified =>
          refine ⟨.look rfl (lasts.unswept _ h), fun bytes => ?_⟩
          replace h := lasts.next _ ⟨_, bytes⟩ h rfl
          cases bytes with
          | error fault => exact h
          | ok bytes =>
              cases text : Utf8.decode? bytes with
              | none | some t =>
                  simp only [Script.bind, text]
                  exact h

/-- Side files are removed one after the other, whatever the answers. -/
theorem Watcher.asks_removeOld {paths : List Path}
    (named : ∀ log, I log → ∀ path ∈ paths, Names target log path) :
    Asks (May target) (fun log left => I log ∧ ∀ path ∈ left, Names target log path)
      (removeOld paths).inSession past := by
  induction paths generalizing past with
  | nil => exact ⟨h, List.forall_mem_nil _⟩
  | cons path rest ih =>
      refine ⟨may_remove (named _ h path List.mem_cons_self), fun removed => ?_⟩
      replace h := lasts.next _ ⟨_, removed⟩ h rfl
      have later := ih h fun log h path member => named log h path (List.mem_cons_of_mem _ member)
      cases removed with
      | ok _ => exact later
      | error fault =>
          change Asks _ _ (FileScript.inSession (removeOld rest >>= fun left => _)) _
          rw [inSession_bind]
          refine later.bind fun log left ends => ?_
          by_cases gone : fault.isNotFound = true
          · simp only [gone, if_true]
            exact ends
          · simp only [gone]
            exact ⟨ends.1, List.forall_mem_cons.mpr
              ⟨named log ends.1 path List.mem_cons_self, ends.2⟩⟩

theorem Watcher.asks_discardAll {paths : List Path}
    (named : ∀ log, I log → ∀ path ∈ paths, Names target log path) :
    Asks (May target) (fun log _ => I log) (discardAll paths).inSession past := by
  induction paths generalizing past with
  | nil => exact h
  | cons path rest ih =>
      refine ⟨may_remove (named _ h path List.mem_cons_self), fun removed => ?_⟩
      exact ih (lasts.next _ ⟨_, removed⟩ h rfl) fun log h path member =>
        named log h path (List.mem_cons_of_mem _ member)

end

section
variable {target : Path} {J : Log SessionRequest.Answer → Prop}
  (kept : ∀ log x, J log → draws x = false → J (log ++ [x]))
include kept

/-- A sweep removes what it found. -/
theorem asks_removeEach {paths : List Path} {before removals : Log SessionRequest.Answer}
    {names : List Text} (removing : ∀ x ∈ removals, x.1.removes = true)
    (found : ∀ path ∈ paths, path ∈ sweepable (workingDirectory target) [target] names)
    (h : J (before ++ ⟨.host (.file (.list (workingDirectory target))), .ok names⟩ :: removals)) :
    Asks (May target) (fun log _ => J log) (removeEach paths).inSession
      (before ++ ⟨.host (.file (.list (workingDirectory target))), .ok names⟩ :: removals) := by
  induction paths generalizing removals with
  | nil => exact h
  | cons path rest ih =>
      rw [List.forall_mem_cons] at found
      refine ⟨⟨fun _ changed => .inr ?_, .inr rfl⟩, fun removed => ?_⟩
      · cases changed
        exact ⟨rfl, before, names, removals, rfl, removing, found.1⟩
      · change Asks _ _ (FileScript.inSession (removeEach rest >>= fun count => _)) _
        replace h := kept _ ⟨.host (.file (.remove path)), removed⟩ h rfl
        rw [List.append_assoc, List.cons_append] at h ⊢
        rw [inSession_bind]
        refine (ih (List.forall_mem_append.mpr ⟨removing, List.forall_mem_singleton.mpr rfl⟩)
          found.2 h).bind fun log count h => h

theorem asks_sweep {past : Log SessionRequest.Answer} (unswept : Unswept past) (h : J past) :
    Asks (May target) (fun log _ => J log)
      (sweep (workingDirectory target) [target]).inSession past := by
  refine ⟨.look rfl unswept, fun isThere => ?_⟩
  replace h := kept _ ⟨_, isThere⟩ h rfl
  cases isThere with
  | false => exact h
  | true =>
      refine ⟨.look rfl (unswept.ask rfl), fun names => ?_⟩
      replace h := kept _ ⟨_, names⟩ h rfl
      cases names with
      | error fault => exact h
      | ok names =>
          change Asks _ _ (FileScript.inSession
            (removeEach (sweepable (workingDirectory target) [target] names) >>= fun count => _)) _
          rw [inSession_bind]
          exact (asks_removeEach kept (List.forall_mem_nil _) (fun _ member => member) h).bind
            fun log count h => h

end

namespace Watcher

section
variable {w : Watcher} {target : Path} {past : Log SessionRequest.Answer}
  (keeps : w.Keeps target past)
include keeps

theorem asks_generate :
    Asks (May target)
      (fun log made => made.2.Keeps target log ∧ ∀ g, made.1 = .ok g → Names target log g.path)
      (SessionScript.ofHostScript w.generate) past := by
  change Asks _ _ (SessionScript.ofHostScript
    (HostScript.ofFileScript (Document.read w.target) >>= _)) past
  rw [ofHostScript_bind]
  refine (Document.asks_read (w.lasts_keeps target) keeps w.target).bind
    fun log document keeps => ?_
  cases document with
  | error e => exact ⟨keeps, nofun⟩
  | ok doc =>
      cases shown : doc.present (scan doc.text) w.options.layout w.options.size with
      | error e =>
          simp only [shown]
          exact ⟨keeps, nofun⟩
      | ok loadable =>
          simp only [shown]
          refine ⟨.look rfl keeps.unswept, fun token => ?_⟩
          have named : Names target (log ++ [⟨.host .token, token⟩]) (w.nextPath token) :=
            ⟨_, token, List.mem_append_right _ List.mem_cons_self, nextPath_eq keeps.directory_eq _⟩
          have lasts := (w.counted.lasts_keeps target).and_names target (w.nextPath token)
          have counted : w.counted.Keeps target log := keeps.congr rfl rfl rfl
          replace keeps := (w.counted.lasts_keeps target).next _ ⟨.host .token, token⟩ counted rfl
          refine ⟨may_write named keeps.unswept, fun written => ?_⟩
          obtain ⟨keeps, named⟩ := lasts.next _ ⟨_, written⟩ ⟨keeps, named⟩ rfl
          cases written with
          | ok _ => exact ⟨keeps, fun g made => by cases made; exact named⟩
          | error fault =>
              refine ⟨may_remove named, fun removed => ?_⟩
              exact ⟨(w.counted.lasts_keeps target).next _ ⟨_, removed⟩ keeps rfl, nofun⟩

theorem asks_commit {g : Generation} (named : Names target past g.path) :
    Asks (May target) (fun log w' => w'.Keeps target log) (w.commit g).inSession past := by
  change Asks _ _ (FileScript.inSession (removeOld w.generations >>= _)) past
  rw [inSession_bind]
  refine (asks_removeOld ((w.lasts_keeps target).and_names target g.path) ⟨keeps, named⟩
    fun log h => h.1.names).bind fun log left ends => ?_
  obtain ⟨⟨keeps, named⟩, left⟩ := ends
  refine ⟨keeps.target_eq, keeps.directory_eq, ?_, keeps.unswept⟩
  exact List.forall_mem_append.mpr ⟨left, List.forall_mem_singleton.mpr named⟩

theorem asks_regenerate (modified : Time) :
    Asks (May target) (fun log polled => polled.2.Keeps target log)
      (w.regenerate modified) past := by
  refine (asks_generate keeps).bind fun log made ends => ?_
  obtain ⟨made, w'⟩ := made
  obtain ⟨keeps, named⟩ := ends
  have lasts := w'.lasts_keeps target
  cases made with
  | error e =>
      change Asks _ _ (if mayPass e then Script.done _ else Script.done _) _
      split
      · exact keeps.congr rfl rfl rfl
      · exact keeps.congr rfl rfl rfl
  | ok g =>
      have named := named g rfl
      refine ⟨.look rfl keeps.unswept, fun shown => ?_⟩
      replace keeps := lasts.next _ ⟨_, shown⟩ keeps rfl
      replace named := named.append [⟨.engine (.reload g.locator g.facts), shown⟩]
      cases shown with
      | ok _ => exact (asks_commit keeps named).bind fun log w' keeps => keeps
      | error e =>
          refine ⟨may_remove named, fun removed => ?_⟩
          replace keeps := lasts.next _ ⟨_, removed⟩ keeps rfl
          change Asks _ _ (if e.isTransient then Script.done _ else Script.done _) _
          split
          · exact keeps.congr rfl rfl rfl
          · exact keeps.congr rfl rfl rfl

theorem asks_poll :
    Asks (May target) (fun log polled => polled.2.Keeps target log) w.poll past := by
  unfold poll
  by_cases awake : w.phase = .watching
  · rw [if_neg (not_not_intro awake)]
    refine ⟨.look rfl keeps.unswept, fun modified => ?_⟩
    replace keeps := (w.lasts_keeps target).next _ ⟨_, modified⟩ keeps rfl
    cases modified with
    | error fault => exact keeps.congr rfl rfl rfl
    | ok modified =>
        change Asks _ _ (if w.lastModified = some modified then Script.done (.unchanged, w) else
          regenerate { w with phase := .regenerating } modified >>= fun polled =>
            Script.done (polled.1, { polled.2 with phase := .watching })) _
        split
        · exact keeps
        · have regenerating : Keeps { w with phase := .regenerating } target _ :=
            keeps.congr rfl rfl rfl
          exact (asks_regenerate regenerating modified).bind fun log polled keeps =>
            keeps.congr rfl rfl rfl
  · rw [if_pos awake]
    exact keeps

theorem asks_close : Asks (May target) (fun _ _ => True) w.close.inSession past := by
  unfold close
  by_cases ended : w.phase = .closed
  · rw [if_pos ended]
    trivial
  · rw [if_neg ended, inSession_bind]
    refine (asks_discardAll (w.lasts_keeps target) keeps fun log h => h.names).bind
      fun log _ keeps => ?_
    rw [keeps.target_eq, keeps.directory_eq, inSession_bind]
    exact (asks_sweep (J := fun _ => True) (fun _ _ _ _ => trivial) keeps.unswept trivial).bind
      fun log _ _ => trivial

end

end Watcher

namespace Session

/-- What a live session may ask after the log: first where its source is, and if it is told, then
only what it may ask about that file. -/
def MayAsk (source : Path) (past : Log SessionRequest.Answer) (q : SessionRequest) : Prop :=
  past = [] ∧ q = .host (.file (.resolve source)) ∨
    ∃ target, past.head? = some ⟨.host (.file (.resolve source)), .ok target⟩ ∧ May target past q

theorem asks_resolved {α : Type} {source target : Path} {script : SessionScript α}
    {past : Log SessionRequest.Answer} (ends : Log SessionRequest.Answer → α → Prop)
    (resolved : past.head? = some ⟨.host (.file (.resolve source)), .ok target⟩)
    (asks : Asks (May target) ends script past) :
    Asks (MayAsk source) (fun log a => ends log a ∧
      log.head? = some ⟨.host (.file (.resolve source)), .ok target⟩) script past := by
  have first {log : Log SessionRequest.Answer} (longer : past <+: log) :
      log.head? = some ⟨.host (.file (.resolve source)), .ok target⟩ := by
    obtain ⟨more, rfl⟩ := longer
    rw [List.head?_append, resolved, Option.some_or]
  exact asks.mono (fun log q longer may => .inr ⟨target, first longer, may⟩)
    fun log a longer ended => ⟨ended, first longer⟩

/-- The watcher, if there is one, watches what the source was resolved to first. -/
def Watches (source : Path) (log : Log SessionRequest.Answer) (started : Except Error Watcher) :
    Prop :=
  ∀ w, started = .ok w → ∃ target,
    log.head? = some ⟨.host (.file (.resolve source)), .ok target⟩ ∧ w.Keeps target log

theorem asks_start (source : Path) (options : WatchOptions) :
    Asks (MayAsk source) (Watches source) (Watcher.start source options).inSession [] := by
  refine ⟨.inl ⟨rfl, rfl⟩, fun resolved => ?_⟩
  cases resolved with
  | error fault => exact nofun
  | ok target =>
      refine (asks_resolved (fun log started => ∀ w, started = .ok w → w.Keeps target log)
        rfl ?_).mono (fun _ _ _ may => may) fun log started _ ends w watches =>
          ⟨target, ends.2, ends.1 w watches⟩
      change Asks _ _ (FileScript.inSession (sweep (workingDirectory target) [target] >>= _)) _
      rw [inSession_bind]
      have undrawn : Undrawn ([] ++ [⟨.host (.file (.resolve source)), .ok target⟩]) :=
        List.forall_mem_singleton.mpr rfl
      refine (asks_sweep (J := Undrawn) (fun _ _ h quiet => h.ask quiet) undrawn.unswept
        undrawn).bind fun log swept undrawn => ?_
      refine ⟨.look rfl undrawn.unswept, fun modified => ?_⟩
      replace undrawn := undrawn.ask (x := ⟨_, modified⟩) rfl
      cases modified with
      | error fault => exact nofun
      | ok modified =>
          rintro w ⟨rfl⟩
          exact ⟨rfl, rfl, List.forall_mem_nil _, undrawn.unswept⟩

section
variable {target : Path} {past : Log SessionRequest.Answer} {w : Watcher}
  (keeps : w.Keeps target past)
include keeps

theorem asks_abandon (e : Error) :
    Asks (May target) (fun _ started => started = .error e) (abandon w e) past := by
  exact (Watcher.asks_close keeps).bind fun log closed _ => rfl

theorem asks_waitForExit (interval ticks : Nat) :
    Asks (May target) (fun log ended => ∀ w, ended.2 = some w → w.Keeps target log)
      (waitForExit interval ticks (some w)) past := by
  induction ticks generalizing past w with
  | zero =>
      rintro _ ⟨rfl⟩
      exact keeps
  | succ ticks ih =>
      have polling : Asks (May target) (fun log polled => ∃ w, polled = some w ∧ w.Keeps target log)
          (pollIfLive (some w)) past :=
        (Watcher.asks_poll keeps).bind fun log polled keeps => ⟨_, rfl, keeps⟩
      refine polling.bind fun log polled ends => ?_
      obtain ⟨w, rfl, keeps⟩ := ends
      refine ⟨.look rfl keeps.unswept, fun code => ?_⟩
      replace keeps := (w.lasts_keeps target).next _ ⟨_, code⟩ keeps rfl
      cases code with
      | error fault =>
          rintro _ ⟨rfl⟩
          exact keeps
      | ok code =>
          cases code with
          | some code =>
              rintro _ ⟨rfl⟩
              exact keeps
          | none =>
              refine ⟨.look rfl keeps.unswept, fun slept => ?_⟩
              exact ih ((w.lasts_keeps target).next _ ⟨_, slept⟩ keeps rfl)

end

theorem asks_startLive (ctx : Context) (layout : Layout) :
    Asks (MayAsk ctx.source) (Watches ctx.source) (startLive ctx layout) [] := by
  refine (asks_start ctx.source _).bind fun log started watches => ?_
  cases started with
  | error e => exact nofun
  | ok w =>
      obtain ⟨target, resolved, keeps⟩ := watches w rfl
      refine (asks_resolved (fun log started => ∀ w, started = .ok w → w.Keeps target log)
        resolved ?_).mono (fun _ _ _ may => may) fun log started _ ends w watches =>
          ⟨target, ends.2, ends.1 w watches⟩
      refine (Watcher.asks_generate keeps).bind fun log made ends => ?_
      obtain ⟨made, w'⟩ := made
      obtain ⟨keeps, named⟩ := ends
      have abandoned {past : Log SessionRequest.Answer} (keeps : w'.Keeps target past) (e : Error) :
          Asks (May target) (fun log started => ∀ w, started = .ok w → w.Keeps target log)
            (abandon w' e) past :=
        (asks_abandon keeps e).mono (fun _ _ _ may => may) fun log started _ failed w watches => by
          cases failed.symm.trans watches
      cases made with
      | error e => exact abandoned keeps e
      | ok g =>
          refine ⟨.look rfl keeps.unswept, fun loaded => ?_⟩
          replace keeps := (w'.lasts_keeps target).next _ ⟨_, loaded⟩ keeps rfl
          replace named := (named g rfl).append [⟨.engine (.load g.locator), loaded⟩]
          cases roots : rootsOf g.locator loaded with
          | error e =>
              simp only [Script.bind, roots]
              exact abandoned keeps e
          | ok roots' =>
              simp only [Script.bind, roots]
              refine (Watcher.asks_commit keeps named).bind fun log w keeps => ?_
              rintro _ ⟨rfl⟩
              exact keeps

theorem asks_run {ctx : Context} {layout : Layout} (live : ctx.operation = .live layout)
    (ticks : Nat) : Asks (MayAsk ctx.source) (fun _ _ => True) (run ctx ticks) [] := by
  simp only [run, live]
  refine (asks_startLive ctx layout).bind fun log started watches => ?_
  cases started with
  | error e => trivial
  | ok w =>
      obtain ⟨target, resolved, keeps⟩ := watches w rfl
      refine (asks_resolved (fun _ _ => True) resolved ?_).mono (fun _ _ _ may => may)
        fun _ _ _ _ => trivial
      refine (asks_waitForExit keeps _ ticks).bind fun log ended keeps => ?_
      obtain ⟨code, watcher⟩ := ended
      cases watcher with
      | none => trivial
      | some w => exact (Watcher.asks_close (keeps w rfl)).bind fun _ _ _ => trivial

end Session

end QmlPreview
