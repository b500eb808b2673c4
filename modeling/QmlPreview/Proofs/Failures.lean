import QmlPreview.Proofs.LiveRuns

/-! Failures that may pass. A poll is tried again only after a look at the source failed, its bytes
were no text, a side file could not be written, or the engine failed in a way that may pass; a text
that cannot be presented is not tried again. -/

namespace QmlPreview

open Script (Log)

namespace Session

/-- The exchange is a failure that may pass. -/
def failsForNow : (q : SessionRequest) × q.Answer → Bool
  | ⟨.host (.file (.resolve _)), .error _⟩ => true
  | ⟨.host (.file (.modified _)), .error _⟩ => true
  | ⟨.host (.file (.read _)), .error _⟩ => true
  | ⟨.host (.file (.read _)), .ok bytes⟩ => (Utf8.decode? bytes).isNone
  | ⟨.host (.file (.write _ _)), .error _⟩ => true
  | ⟨.engine (.reload _ _), .error e⟩ => e.isTransient
  | _ => false

end Session

open Session (failsForNow)

theorem mayPass_ofReading (path : Path) (fault : Fault) :
    Watcher.mayPass (.ofReading path fault) = true := by
  unfold Error.ofReading
  split <;> rfl

theorem Document.Reads.mayPass {σ : Type} {answers : Script.Answers σ FileRequest.Answer}
    {path : Path} {log : Log FileRequest.Answer} {e : Error} {s s' : σ}
    (reads : Document.Reads answers path s log (.error e) s') : Watcher.mayPass e = true := by
  cases reads <;> exact mayPass_ofReading _ _

/-- The result is no failure that may pass. -/
def Final {α : Type} (x : Except Error α) : Prop := ∀ e, x = .error e → Watcher.mayPass e = false

theorem final_ok {α : Type} (a : α) : Final (.ok a) := nofun

theorem Final.bind {α β : Type} {x : Except Error α} {f : α → Except Error β} (first : Final x)
    (later : ∀ a, Final (f a)) : Final (x >>= f) := by
  cases x with
  | error e =>
      rintro _ ⟨rfl⟩
      exact first e rfl
  | ok a => exact later a

theorem final_decompose (doc : Document) : Final doc.decompose := by
  unfold Document.decompose
  cases decompose doc.text with
  | error m =>
      rintro _ ⟨rfl⟩
      rfl
  | ok parts => exact final_ok _

theorem final_shownContent (doc : Document) (rooted : Bool) (parts : Parts) :
    Final (shownContent doc rooted parts) := by
  unfold shownContent
  cases rooted with
  | false => exact final_ok _
  | true =>
      cases parts.rehosted? with
      | none =>
          rintro _ ⟨rfl⟩
          rfl
      | some text => exact final_ok _

theorem final_ofGenerated (doc : Document) (g : GeneratedDocument) :
    Final (Loadable.ofGenerated doc g) := by
  unfold Loadable.ofGenerated
  split
  · exact final_ok _
  · rintro _ ⟨rfl⟩
    rfl

/-- A text that cannot be presented cannot be presented later either. -/
theorem final_present (doc : Document) (facts : Facts) (layout : Layout) (size : WindowSize) :
    Final (doc.present facts layout size) := by
  cases layout with
  | plain =>
      change Final (if facts.hasUsableRoot then _ else _)
      split
      · exact final_ok _
      · have wrapped : Final (wrapInWindow doc size) :=
          (final_decompose doc).bind fun _ => final_ok _
        exact wrapped.bind (final_ofGenerated doc)
  | phone =>
      have framed : Final (frameInPhone doc facts.hasUsableRoot) :=
        (final_decompose doc).bind fun parts =>
          (final_shownContent doc _ parts).bind fun _ => final_ok _
      exact framed.bind (final_ofGenerated doc)

section
variable {σ : Type} {s s' : σ} {w w' : Watcher}

theorem Document.Reads.exists_failsForNow {answers : Script.Answers σ FileRequest.Answer}
    {path : Path} {log : Log FileRequest.Answer} {e : Error}
    (reads : Document.Reads answers path s log (.error e) s') :
    ∃ x ∈ log.map FileRequest.inSession, failsForNow x = true := by
  cases reads with
  | unresolved => exact ⟨_, .head _, rfl⟩
  | undated => exact ⟨_, .tail _ (.head _), rfl⟩
  | unread => exact ⟨_, .tail _ (.tail _ (.head _)), rfl⟩
  | notText _ _ _ text =>
      refine ⟨_, .tail _ (.tail _ (.head _)), ?_⟩
      simp only [FileRequest.inSession, failsForNow, text, Option.isNone_none]

variable {answers : Script.Answers σ SessionRequest.Answer} {log : Log SessionRequest.Answer}

theorem Watcher.Generates.exists_failsForNow {e : Error}
    (generates : Watcher.Generates answers w s log (.error e, w') s')
    (passes : Watcher.mayPass e = true) : ∃ x ∈ log, failsForNow x = true := by
  cases generates with
  | unread reads => exact reads.exists_failsForNow
  | unpresented _ refused => cases passes.symm.trans (final_present _ _ _ _ _ refused)
  | unwritten => exact ⟨_, List.mem_append_right _ (.tail _ (.head _)), rfl⟩

/-- A poll is tried again only after a failure that may pass. -/
theorem Watcher.Polls.exists_failsForNow
    (polls : Watcher.Polls answers w s log (.retrying, w') s') :
    ∃ x ∈ log, failsForNow x = true := by
  cases polls with
  | unseen => exact ⟨_, .head _, rfl⟩
  | changed _ _ _ regenerates =>
      cases regenerates with
      | unmade generates passes =>
          obtain ⟨x, asked, fails⟩ := generates.exists_failsForNow passes
          exact ⟨x, .tail _ asked, fails⟩
      | failed _ _ _ passes =>
          exact ⟨_, .tail _ (List.mem_append_right _ (.head _)), passes⟩

end

end QmlPreview
