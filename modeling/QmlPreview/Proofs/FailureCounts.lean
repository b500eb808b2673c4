import QmlPreview.Proofs.EditTracking

/-! Failures in a row. A watcher counts the polls that failed for now, from zero again after one
that reloads or rejects. A poll that finds nothing changed leaves the count as it is, so failed polls
count as in a row where only such polls lie between them. -/

namespace QmlPreview

open Script (Answers Log Runs)

namespace PollOutcome

/-- The number of failed polls since the last other one; the latest outcome comes first. -/
def retriesInRow (outcomes : List PollOutcome) : Nat :=
  (outcomes.takeWhile (· == retrying)).length

/-- The number of maximal rows of failed polls that are at least as long as the threshold. -/
def longRows (threshold : Nat) (outcomes : List PollOutcome) : Nat :=
  (outcomes.splitOnP (· != retrying)).countP (threshold ≤ ·.length)

def changes (outcomes : List PollOutcome) : List PollOutcome := outcomes.filter (· != unchanged)

section
variable (outcomes : List PollOutcome) {outcome : PollOutcome}

theorem retriesInRow_retrying : retriesInRow (retrying :: outcomes) = retriesInRow outcomes + 1 :=
  rfl

theorem retriesInRow_other (h : outcome ≠ retrying) : retriesInRow (outcome :: outcomes) = 0 := by
  rw [retriesInRow, List.takeWhile_cons_of_neg (by rwa [beq_iff_eq]), List.length_nil]

theorem retriesInRow_le : retriesInRow outcomes ≤ outcomes.length :=
  (List.takeWhile_sublist _).length_le

theorem exists_splitOnP : ∃ rows, outcomes.splitOnP (· != retrying) =
    outcomes.takeWhile (· == retrying) :: rows := by
  induction outcomes with
  | nil => exact ⟨[], rfl⟩
  | cons outcome outcomes ih =>
      obtain ⟨rows, split⟩ := ih
      rw [List.splitOnP_cons_eq_if_modifyHead, split]
      by_cases h : outcome = retrying
      · subst h
        exact ⟨rows, rfl⟩
      · rw [if_pos (by rwa [bne_iff_ne]), List.takeWhile_cons_of_neg (by rwa [beq_iff_eq])]
        exact ⟨_, rfl⟩

variable {threshold : Nat}

/-- A row is long from the failure on that reaches the threshold. -/
theorem longRows_retrying : longRows threshold (retrying :: outcomes) =
    longRows threshold outcomes + if retriesInRow outcomes + 1 = threshold then 1 else 0 := by
  obtain ⟨rows, split⟩ := exists_splitOnP outcomes
  have later : (retrying :: outcomes).splitOnP (· != retrying) =
      (retrying :: outcomes.takeWhile (· == retrying)) :: rows := by
    rw [List.splitOnP_cons_eq_if_modifyHead, split]
    rfl
  rw [longRows, longRows, split, later, retriesInRow, List.countP_cons, List.countP_cons,
    List.length_cons]
  simp only [decide_eq_true_eq]
  split <;> split <;> split <;> omega

variable (positive : 1 ≤ threshold)
include positive

theorem longRows_other (h : outcome ≠ retrying) :
    longRows threshold (outcome :: outcomes) = longRows threshold outcomes := by
  have split : (outcome :: outcomes).splitOnP (· != retrying) =
      [] :: outcomes.splitOnP (· != retrying) := by
    rw [List.splitOnP_cons_eq_if_modifyHead, if_pos (by rwa [bne_iff_ne])]
  rw [longRows, split, List.countP_cons, List.length_nil, if_neg, longRows, Nat.add_zero]
  rw [decide_eq_true_eq]
  omega

theorem longRows_le : longRows threshold outcomes ≤ outcomes.length := by
  induction outcomes with
  | nil =>
      rw [longRows, List.splitOnP_nil, List.countP_singleton, if_neg]
      · exact Nat.le_refl 0
      · rw [decide_eq_true_eq, List.length_nil]
        omega
  | cons outcome outcomes ih =>
      rw [List.length_cons]
      by_cases h : outcome = retrying
      · subst h
        rw [longRows_retrying]
        split <;> omega
      · rw [longRows_other outcomes positive h]
        omega

/-- Where no poll right after a failed one finds nothing changed, such polls make no difference. -/
theorem counts_changes (apart : ¬ [unchanged, retrying] <:+: outcomes) :
    retriesInRow (changes outcomes) = retriesInRow outcomes ∧
      longRows threshold (changes outcomes) = longRows threshold outcomes := by
  induction outcomes with
  | nil => exact ⟨rfl, rfl⟩
  | cons outcome outcomes ih =>
      obtain ⟨row, rows⟩ := ih fun found => apart (found.trans (List.suffix_cons _ _).isInfix)
      by_cases failed : outcome = retrying
      · subst failed
        have kept : changes (retrying :: outcomes) = retrying :: changes outcomes := rfl
        rw [kept, retriesInRow_retrying, retriesInRow_retrying, longRows_retrying,
          longRows_retrying, row, rows]
        exact ⟨rfl, rfl⟩
      · rw [retriesInRow_other outcomes failed, longRows_other outcomes positive failed]
        by_cases idle : outcome = unchanged
        · subst idle
          have dropped : changes (unchanged :: outcomes) = changes outcomes := rfl
          rw [dropped, row, rows]
          refine ⟨?_, rfl⟩
          cases outcomes with
          | nil => rfl
          | cons earlier outcomes =>
              refine retriesInRow_other outcomes ?_
              rintro rfl
              exact apart (List.prefix_append [unchanged, retrying] outcomes).isInfix
        · have kept : changes (outcome :: outcomes) = outcome :: changes outcomes :=
            List.filter_cons_of_pos (by rwa [bne_iff_ne])
          rw [kept, retriesInRow_other _ failed, longRows_other _ positive failed]
          exact ⟨rfl, rows⟩

end

end PollOutcome

open PollOutcome (changes longRows retriesInRow)

namespace Watcher

structure Fresh (w : Watcher) : Prop where
  watching : w.phase = .watching
  failures : w.failures = 0
  escalations : w.escalations = 0

structure Counts (w : Watcher) (outcomes : List PollOutcome) : Prop where
  failures : w.failures.toNat = retriesInRow outcomes
  escalations : w.escalations.toNat = longRows w.options.maxFailures.toNat outcomes

/-- Polls of a watcher, the latest first, each with the watcher after it. -/
inductive PollRun {σ : Type} (answers : Answers σ SessionRequest.Answer) (w₀ : Watcher) (s₀ : σ) :
    List (PollOutcome × Watcher) → Watcher → σ → Prop
  | none : PollRun answers w₀ s₀ [] w₀ s₀
  | poll {steps : List (PollOutcome × Watcher)} {w w' : Watcher} {s s' : σ}
      {log : Log SessionRequest.Answer} {outcome : PollOutcome} :
      PollRun answers w₀ s₀ steps w s → Runs answers w.poll s log (outcome, w') s' →
      PollRun answers w₀ s₀ ((outcome, w') :: steps) w' s'

section
variable {σ : Type} {answers : Answers σ FileRequest.Answer} {path : Path} {options : WatchOptions}
  {s s' : σ} {log : Log FileRequest.Answer} {w : Watcher}

theorem Starts.fresh (starts : Starts answers path options s log (.ok w) s') : w.Fresh := by
  cases starts with
  | started => exact ⟨rfl, rfl, rfl⟩

end

variable {σ : Type} {answers : Answers σ SessionRequest.Answer} {s s' : σ}
  {log : Log SessionRequest.Answer} {w w' : Watcher}

theorem Polls.counts_of_retrying (polls : Polls answers w s log (.retrying, w') s') :
    w'.failures = w.noteFailure.failures ∧ w'.escalations = w.noteFailure.escalations := by
  cases polls with
  | unseen => exact ⟨rfl, rfl⟩
  | changed _ _ _ regenerates =>
      cases regenerates with
      | unmade generates | failed generates =>
          obtain ⟨_, rfl⟩ := generates.watcher_eq
          exact ⟨rfl, rfl⟩

theorem Polls.counts_of_other {outcome : PollOutcome}
    (polls : Polls answers w s log (outcome, w') s') (failed : outcome ≠ .retrying)
    (idle : outcome ≠ .unchanged) : w'.failures = 0 ∧ w'.escalations = w.escalations := by
  cases polls with
  | asleep | unchanged => exact absurd rfl idle
  | unseen => exact absurd rfl failed
  | changed _ _ _ regenerates =>
      cases regenerates with
      | unmade | failed => exact absurd rfl failed
      | malformed generates | shown generates | refused generates =>
          obtain ⟨_, rfl⟩ := generates.watcher_eq
          exact ⟨rfl, rfl⟩

/-- A poll counts its outcome, unless it found nothing changed. -/
theorem Polls.counts {outcome : PollOutcome} {outcomes : List PollOutcome}
    (polls : Polls answers w s log (outcome, w') s') (positive : 1 ≤ w.options.maxFailures)
    (few : outcomes.length + 1 < UInt32.size) (counts : w.Counts (changes outcomes)) :
    w'.Counts (changes (outcome :: outcomes)) := by
  obtain ⟨failures, escalations⟩ := counts
  have threshold : 1 ≤ w.options.maxFailures.toNat := UInt32.le_iff_toNat_le.mp positive
  obtain ⟨_, _, options⟩ := polls.keeps
  by_cases failed : outcome = .retrying
  · subst failed
    have kept : changes (.retrying :: outcomes) = .retrying :: changes outcomes := rfl
    have short : (changes outcomes).length ≤ outcomes.length := List.length_filter_le _ _
    have succ {n : UInt32} (below : n.toNat ≤ outcomes.length) :
        (n + 1).toNat = n.toNat + 1 := by
      rw [UInt32.toNat_add]
      exact Nat.mod_eq_of_lt (Nat.lt_of_le_of_lt (Nat.succ_le_succ below) few)
    have row : (w.failures + 1).toNat = w.failures.toNat + 1 := by
      refine succ ?_
      rw [failures]
      exact Nat.le_trans (PollOutcome.retriesInRow_le _) short
    have rows : (w.escalations + 1).toNat = w.escalations.toNat + 1 := by
      refine succ ?_
      rw [escalations]
      exact Nat.le_trans (PollOutcome.longRows_le _ threshold) short
    obtain ⟨failures', escalations'⟩ := polls.counts_of_retrying
    constructor
    · rw [failures', kept, PollOutcome.retriesInRow_retrying, ← failures]
      exact row
    · rw [escalations', options, kept, PollOutcome.longRows_retrying, ← failures, ← escalations,
        ← row, noteFailure]
      simp only [UInt32.toNat_inj]
      split
      · exact rows
      · rfl
  · by_cases idle : outcome = .unchanged
    · subst idle
      obtain rfl := polls.eq_of_unchanged
      exact ⟨failures, escalations⟩
    · have kept : changes (outcome :: outcomes) = outcome :: changes outcomes :=
        List.filter_cons_of_pos (by rwa [bne_iff_ne])
      obtain ⟨failures', escalations'⟩ := polls.counts_of_other failed idle
      rw [kept]
      constructor
      · rw [failures', PollOutcome.retriesInRow_other _ failed, UInt32.toNat_zero]
      · rw [escalations', options, PollOutcome.longRows_other _ threshold failed, escalations]

section
variable {w₀ : Watcher} {s₀ : σ} {steps : List (PollOutcome × Watcher)}
  (run : PollRun answers w₀ s₀ steps w s)
include run

theorem PollRun.counts (fresh : w₀.Fresh) (positive : 1 ≤ w₀.options.maxFailures)
    (few : steps.length < UInt32.size) :
    w.options = w₀.options ∧ w.Counts (changes (steps.map Prod.fst)) := by
  induction run with
  | none =>
      refine ⟨rfl, ?_, ?_⟩
      · rw [fresh.failures]
        rfl
      · rw [fresh.escalations, List.map_nil]
        have none := PollOutcome.longRows_le (changes []) (UInt32.le_iff_toNat_le.mp positive)
        exact (Nat.le_zero.mp none).symm
  | poll _ polled ih =>
      obtain ⟨options, counts⟩ := ih (Nat.lt_of_succ_lt few)
      have polls := runs_poll_iff.mp polled
      rw [← options] at positive
      refine ⟨polls.keeps.2.2.trans options, polls.counts positive ?_ counts⟩
      rwa [List.length_map]

theorem PollRun.of_suffix {past : List (PollOutcome × Watcher)} (earlier : past <:+ steps)
    {now : PollOutcome × Watcher} (last : now ∈ past.head?) :
    ∃ s', PollRun answers w₀ s₀ past now.2 s' := by
  induction run with
  | none =>
      rw [List.suffix_nil] at earlier
      subst earlier
      cases last
  | poll before polled ih =>
      rcases List.suffix_cons_iff.mp earlier with rfl | earlier
      · cases last
        exact ⟨_, .poll before polled⟩
      · exact ih earlier

end

end Watcher

section
variable {σ : Type} {answers : Answers σ SessionRequest.Answer} {s s' : σ} {ctx : Context}
  {layout : Layout} {log : Log SessionRequest.Answer} {w : Watcher}

theorem Session.StartsLive.fresh (starts : StartsLive answers ctx layout s log (.ok w) s') :
    w.Fresh := by
  cases starts with
  | live starting generates =>
      obtain ⟨watching, _, escalations⟩ := starting.fresh
      obtain ⟨_, rfl⟩ := generates.watcher_eq
      exact ⟨watching, rfl, escalations⟩

/-- The polls of a live session are those of a watcher that has not polled before. -/
theorem Session.LiveRun.polls {polls : List (PollOutcome × Log SessionRequest.Answer)}
    (run : LiveRun answers ctx layout s log polls w s') :
    ∃ w₀ s₀ steps, w₀.Fresh ∧ Watcher.PollRun answers w₀ s₀ steps w s' ∧
      steps.map Prod.fst = polls.map Prod.fst := by
  induction run with
  | live started => exact ⟨_, _, [], (runs_startLive_iff.mp started).fresh, .none, rfl⟩
  | poll _ polled ih =>
      obtain ⟨w₀, s₀, steps, fresh, before, outcomes⟩ := ih
      exact ⟨w₀, s₀, _, fresh, before.poll polled, congrArg (List.cons _) outcomes⟩

end

/-- After each poll a watcher counts failed polls, and how often a row of them got long, as if the
polls that found nothing changed had not been. So it counts them right exactly if no poll right
after a failed one finds nothing changed. -/
theorem failures_count_in_row {σ : Type} {answers : Answers σ SessionRequest.Answer}
    {w₀ w : Watcher} {s₀ s : σ} {steps : List (PollOutcome × Watcher)}
    (run : Watcher.PollRun answers w₀ s₀ steps w s) (fresh : w₀.Fresh)
    (positive : 1 ≤ w₀.options.maxFailures) (few : steps.length < UInt32.size) :
    (∀ past, past <:+ steps → ∀ now ∈ past.head?,
      now.2.Counts (changes (past.map Prod.fst))) ∧
    ((∀ past, past <:+ steps → ∀ now ∈ past.head?, now.2.Counts (past.map Prod.fst)) ↔
      ¬ [.unchanged, .retrying] <:+: steps.map Prod.fst) := by
  have counted (past : List (PollOutcome × Watcher)) (earlier : past <:+ steps)
      (now : PollOutcome × Watcher) (last : now ∈ past.head?) :
      now.2.options = w₀.options ∧ now.2.Counts (changes (past.map Prod.fst)) := by
    obtain ⟨s', before⟩ := run.of_suffix earlier last
    exact before.counts fresh positive (Nat.lt_of_le_of_lt earlier.length_le few)
  refine ⟨fun past earlier now last => (counted past earlier now last).2, ?_, ?_⟩
  · rintro right ⟨later, before, found⟩
    rw [List.append_assoc] at found
    obtain ⟨newer, past, rfl, _, outcomes⟩ := List.map_eq_append_iff.mp found.symm
    have earlier : past <:+ newer ++ past := List.suffix_append newer past
    cases past with
    | nil => cases outcomes
    | cons now past =>
        have zero := (right _ earlier now rfl).failures
        have more := (counted _ earlier now rfl).2.failures
        rw [outcomes] at zero more
        exact absurd (more.symm.trans zero) (Nat.succ_ne_zero _)
  · intro apart past earlier now last
    obtain ⟨options, failures, escalations⟩ := counted past earlier now last
    obtain ⟨row, rows⟩ := PollOutcome.counts_changes (past.map Prod.fst)
      (UInt32.le_iff_toNat_le.mp positive) fun found =>
        apart (found.trans (earlier.map Prod.fst).isInfix)
    rw [← options] at rows
    exact ⟨failures.trans row, escalations.trans rows⟩

/-- Two failed polls are worth a warning. The text that is rejected then ends the row, and the next
failure begins another one. -/
theorem failures_count_in_row_around_rejection :
    let source : Path := "/a/W.qml".toList
    let options : WatchOptions := { maxFailures := 2 }
    let w₀ : Watcher := .started source options ⟨1⟩
    let before : Source := ⟨⟨1⟩, [], []⟩
    let after : Source := ⟨⟨2⟩, Utf8.encode "\x7d".toList, [⟨1⟩]⟩
    ∃ steps w, w₀.Fresh ∧ Watcher.PollRun (Source.Answers source) w₀ before steps w after ∧
      steps.map Prod.fst = [.retrying, .rejected, .retrying, .retrying, .unchanged] ∧
      w.Counts (steps.map Prod.fst) ∧ w.failures = 1 ∧ w.escalations = 1 := by
  intro source options w₀ before after
  let doc : Document := ⟨source, "\x7d".toList, ⟨2⟩⟩
  have starting : Watcher.Starts (onFiles (Source.Answers source)) source options before _
      (.ok w₀) before :=
    .started ⟨.none, rfl⟩ (.absent ⟨.none, trivial⟩) ⟨.none, fun _ => rfl⟩
  have edits : before.Edits after := .edit ⟨2⟩ _ .none (by decide)
  have reads : Document.Reads (onFiles (Source.Answers source)) source after _ (.ok doc) after :=
    .read doc ⟨.none, rfl⟩ ⟨.none, fun _ => rfl⟩ ⟨.none, fun _ => rfl⟩ (by decide +kernel)
  obtain ⟨e, refused⟩ : ∃ e,
      doc.present (scan doc.text) options.layout options.size = .error e := by
    have none : (doc.present (scan doc.text) options.layout options.size).toOption = none := by
      decide +kernel
    cases shown : doc.present (scan doc.text) options.layout options.size with
    | error e => exact ⟨e, rfl⟩
    | ok loadable =>
        rw [shown] at none
        cases none
  let w₁ : Watcher := w₀.noteFailure
  let w₂ : Watcher := w₁.noteFailure
  let w₃ : Watcher :=
    { Watcher.reject { w₂ with phase := .regenerating } ⟨2⟩ with phase := .watching }
  have idle : Watcher.Polls (Source.Answers source) w₀ before _ (.unchanged, w₀) before :=
    .unchanged rfl ⟨.none, fun _ => rfl⟩ rfl
  have fails {w : Watcher} (s : Source) (watching : w.phase = .watching) :
      Watcher.Polls (Source.Answers source) w s
        [⟨.host (.file (.modified w.target)), .error (.system 2)⟩] (.retrying, w.noteFailure) s :=
    .unseen watching ⟨.none, trivial⟩
  have rejects : Watcher.Polls (Source.Answers source) w₂ before _ (.rejected, w₃) after :=
    .changed rfl ⟨edits, fun _ => rfl⟩ (by decide)
      (.malformed (.unpresented reads refused) (final_present _ _ _ _ _ refused))
  have start := @Watcher.PollRun.none _ (Source.Answers source) w₀ before
  have escalated := ((start.poll (Watcher.runs_poll_iff.mpr idle)).poll
    (Watcher.runs_poll_iff.mpr (fails before rfl))).poll
    (Watcher.runs_poll_iff.mpr (fails before rfl))
  have run := (escalated.poll (Watcher.runs_poll_iff.mpr rejects)).poll
    (Watcher.runs_poll_iff.mpr (fails after rfl))
  have apart : ¬ [PollOutcome.unchanged, .retrying] <:+:
      [.retrying, .rejected, .retrying, .retrying, .unchanged] := by decide
  obtain ⟨_, right⟩ := failures_count_in_row run starting.fresh (by decide) (by decide)
  exact ⟨_, _, starting.fresh, run, rfl, right.mpr apart _ (List.suffix_refl _) _ rfl,
    by decide, by decide⟩

/-- The source is looked at in vain, found as it was, and looked at in vain again: that is worth the
warning of two failures in a row. -/
theorem failures_count_across_unchanged :
    let source : Path := "/a/W.qml".toList
    let options : WatchOptions := { maxFailures := 2 }
    let w₀ : Watcher := .started source options ⟨1⟩
    let file : Source := ⟨⟨1⟩, [], []⟩
    ∃ steps w, w₀.Fresh ∧ Watcher.PollRun (Source.Answers source) w₀ file steps w file ∧
      steps.map Prod.fst = [.retrying, .unchanged, .retrying] ∧
      (w.failures = 2 ∧ retriesInRow (steps.map Prod.fst) = 1) ∧
      (w.escalations = 1 ∧ longRows options.maxFailures.toNat (steps.map Prod.fst) = 0) := by
  intro source options w₀ file
  have fails {w : Watcher} (watching : w.phase = .watching) :
      Watcher.Polls (Source.Answers source) w file
        [⟨.host (.file (.modified w.target)), .error (.system 2)⟩] (.retrying, w.noteFailure)
        file :=
    .unseen watching ⟨.none, trivial⟩
  have idle : Watcher.Polls (Source.Answers source) w₀.noteFailure file _
      (.unchanged, w₀.noteFailure) file :=
    .unchanged rfl ⟨.none, fun _ => rfl⟩ rfl
  have failed := (@Watcher.PollRun.none _ (Source.Answers source) w₀ file).poll
    (Watcher.runs_poll_iff.mpr (fails rfl))
  have run := (failed.poll (Watcher.runs_poll_iff.mpr idle)).poll
    (Watcher.runs_poll_iff.mpr (fails rfl))
  exact ⟨_, _, ⟨rfl, rfl, rfl⟩, run, rfl, ⟨by decide, by decide⟩, ⟨by decide, by decide⟩⟩

end QmlPreview
