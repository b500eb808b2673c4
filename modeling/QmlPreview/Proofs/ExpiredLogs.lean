import QmlPreview.FileTree.Answer
import QmlPreview.Logs.Retention
import QmlPreview.Proofs.Runs
import QmlPreview.Proofs.Unlinking

/-! Cleaning a directory of log files in a tree. The files last changed before the cutoff are deleted and
nothing else is touched. The cutoff is the time that many days ago, unless the period does not fit a word
or lies before all times that the clock can tell. -/

namespace QmlPreview

/-- The seconds of the time fit a signed word. -/
def Time.IsTold (time : Time) : Prop := Int64.minValue.toInt ≤ time.nanoseconds / 1000000000

instance (time : Time) : Decidable time.IsTold :=
  inferInstanceAs (Decidable (Int64.minValue.toInt ≤ time.nanoseconds / 1000000000))

namespace Logs

open FileTree (answer)

def expiry (now : Time) (days : UInt64) : Time :=
  ⟨now.nanoseconds - days.toNat * 86400 * 1000000000⟩

/-- What stands under the name in the directory was last changed before a time. -/
def isOlder (t : FileTree) (loc : Location) (limit : Time) (name : Text) : Bool :=
  (t.node? (loc ++ [name])).any fun node => node.modified.nanoseconds < limit.nanoseconds

/-- A log file in the directory that was last changed before a time. -/
structure IsOldLog (t : FileTree) (loc : Location) (limit : Time) (name : Text) : Prop where
  log : isLogName name = true
  older : isOlder t loc limit name = true

/-- The path leads to a directory in which everything named like a log is a file, which can be
removed. -/
structure HoldsLogs (t : FileTree) (base : Location) (dir : Path) (loc : Location) : Prop where
  wf : t.WellFormed
  leads : ∃ modified, t.lookUp true base dir = .ok (loc, .directory modified)
  files : ∀ name node, isLogName name = true → t.node? (loc ++ [name]) = some node →
    node.modified.IsTold ∧ ∃ bytes modified, node = .file bytes modified
  removable : ∀ name, isLogName name = true → (t.node? (loc ++ [name])).isSome = true →
    (t.remove base (Path.join dir name)).isOk = true

variable {t : FileTree} {base loc : Location} {dir : Path} {name : Text} {now clock limit : Time}
  {days : UInt64}

theorem secondsOfDays_eq_iff :
    (secondsOfDays days).toNat = days.toNat * 86400 ↔ days.toNat * 86400 < UInt64.size := by
  have whole : secondsOfDays days = days * 86400 := by
    rw [secondsOfDays, UInt64.mul_assoc, UInt64.mul_assoc]
    rfl
  rw [whole, UInt64.toNat_mul]
  exact Nat.mod_eq_iff_lt (by decide)

theorem cutoff_of_isTold (exact : (secondsOfDays days).toNat = days.toNat * 86400)
    (told : (expiry now days).IsTold) : cutoff now days = expiry now days := by
  simp only [Time.IsTold, expiry] at told
  simp only [cutoff, exact, expiry]
  rw [if_neg (by omega)]
  exact congrArg Time.mk (by omega)

theorem cutoff_of_not_isTold (exact : (secondsOfDays days).toNat = days.toNat * 86400)
    (untold : ¬(expiry now days).IsTold) : cutoff now days = Time.epoch := by
  simp only [Time.IsTold, expiry] at untold
  simp only [cutoff, exact]
  exact if_pos (by omega)

theorem not_isOlder_of_not_isTold {node : Node} (found : t.node? (loc ++ [name]) = some node)
    (told : node.modified.IsTold) (untold : ¬limit.IsTold) : isOlder t loc limit name = false := by
  simp only [Time.IsTold] at told untold
  simp only [isOlder, found, Option.any_some, decide_eq_false_iff_not]
  omega

/-- A path that is removed is short enough. -/
theorem near_of_remove {p : Path} (removed : (t.remove base p).isOk = true) :
    Text.byteLength p ≤ FileTree.pathLimit := by
  by_contra long
  have found : t.find false base p = .error .nameTooLong := if_pos (Nat.lt_of_not_le long)
  simp only [FileTree.remove, FileTree.lookUp, found, bind, Except.bind] at removed
  cases removed

section
variable {bytes : List UInt8} {modified : Time} (wf : t.WellFormed)
  (leads : t.Leads base dir (.place loc))
  (stands : t.node? (loc ++ [name]) = some (.file bytes modified))
  (near : Text.byteLength (Path.join dir name) ≤ FileTree.pathLimit)
include wf leads stands near

theorem lookUp_log :
    t.lookUp false base (Path.join dir name) = .ok (loc ++ [name], .file bytes modified) := by
  have directory := (wf.asks stands).directory
  have named := wf.isName stands name (List.mem_append_right _ List.mem_cons_self)
  exact leads.lookUp_join directory named stands near

theorem answer_entryModified :
    answer base clock (.entryModified (Path.join dir name)) t = (.ok modified, t) := by
  simp only [answer, lookUp_log wf leads stands near, Except.map]
  rfl

theorem answer_remove : answer base clock (.remove (Path.join dir name)) t =
    (.ok (), t.erase (loc ++ [name])) := by
  simp only [answer, FileTree.remove, lookUp_log wf leads stands near, bind, Except.bind,
    FileTree.settle]

end

section
variable {m : Time} (looked : t.lookUp true base dir = .ok (loc, .directory m))
include looked

theorem answer_isPresent : answer base clock (.isPresent dir) t = (true, t) := by
  simp only [answer, looked]
  rfl

theorem answer_list : answer base clock (.list dir) t = (.ok (t.names loc), t) := by
  simp only [answer, FileTree.list, looked]
  rfl

end

/-- Erasing a file leaves the other entries of its directory as they were. -/
theorem node?_erase_other {other : Text} {bytes : List UInt8} {modified : Time} (wf : t.WellFormed)
    (stands : t.node? (loc ++ [name]) = some (.file bytes modified)) (apart : other ≠ name) :
    (t.erase (loc ++ [name])).node? (loc ++ [other]) = t.node? (loc ++ [other]) := by
  refine (FileTree.node?_erase_entry wf stands rfl).trans (if_neg fun same => apart ?_)
  cases List.append_cancel_left same
  rfl

theorem filter_isOlder_congr {t' : FileTree} {names : List Text}
    (same : ∀ name ∈ names, t'.node? (loc ++ [name]) = t.node? (loc ++ [name])) :
    names.filter (isOlder t' loc limit) = names.filter (isOlder t loc limit) :=
  List.filter_congr fun name h => by rw [isOlder, isOlder, same name h]

theorem holdsLogs_of_names {m : Time} (wf : t.WellFormed)
    (looked : t.lookUp true base dir = .ok (loc, .directory m))
    (files : ∀ name ∈ t.names loc, isLogName name = true →
      (∃ bytes modified, t.node? (loc ++ [name]) = some (.file bytes modified) ∧
        modified.IsTold) ∧ Text.byteLength (Path.join dir name) ≤ FileTree.pathLimit) :
    HoldsLogs t base dir loc := by
  obtain ⟨leads, -⟩ := FileTree.leads_of_lookUp looked
  refine ⟨wf, ⟨m, looked⟩, fun name node log found => ?_, fun name log there => ?_⟩
  · have there := FileTree.mem_names_iff.mpr (Option.isSome_iff_exists.mpr ⟨node, found⟩)
    obtain ⟨⟨bytes, modified, stands, told⟩, -⟩ := files name there log
    obtain rfl := Option.some.inj (stands.symm.trans found)
    exact ⟨told, bytes, modified, rfl⟩
  · obtain ⟨⟨bytes, modified, stands, -⟩, near⟩ := files name (FileTree.mem_names_iff.mpr there) log
    simp only [FileTree.remove, lookUp_log wf leads stands near, bind, Except.bind]
    rfl

theorem run_removeOlder_kept {path : Path} {rest : List Path} {modified : Time}
    (looked : answer base clock (.entryModified path) t = (.ok modified, t))
    (recent : ¬modified.nanoseconds < limit.nanoseconds) :
    Script.run (answer base clock) (removeOlder limit (path :: rest)) t =
      Script.run (answer base clock) (removeOlder limit rest) t := by
  rw [removeOlder]
  exact (Script.run_request_bind looked).trans (by simp only [if_neg recent])

theorem run_removeOlder_removed {path : Path} {rest : List Path} {modified : Time} {t₁ : FileTree}
    (looked : answer base clock (.entryModified path) t = (.ok modified, t))
    (old : modified.nanoseconds < limit.nanoseconds)
    (removed : answer base clock (.remove path) t = (.ok (), t₁)) :
    Script.run (answer base clock) (removeOlder limit (path :: rest)) t =
      ((Script.run (answer base clock) (removeOlder limit rest) t₁).1 + 1,
        (Script.run (answer base clock) (removeOlder limit rest) t₁).2) := by
  rw [removeOlder]
  refine (Script.run_request_bind looked).trans ?_
  simp only [if_pos old]
  refine (Script.run_request_bind removed).trans ?_
  rw [Script.run_bind]
  rfl

/-- Removing the older ones of some files in a directory takes those away and counts them. -/
theorem run_removeOlder (clock limit : Time) {names : List Text} (wf : t.WellFormed)
    (leads : t.Leads base dir (.place loc)) (distinct : names.Nodup)
    (files : ∀ name ∈ names,
      (∃ bytes modified, t.node? (loc ++ [name]) = some (.file bytes modified)) ∧
      Text.byteLength (Path.join dir name) ≤ FileTree.pathLimit) :
    ∃ t', Script.run (answer base clock) (removeOlder limit (names.map (Path.join dir))) t =
        ((names.filter (isOlder t loc limit)).length, t') ∧
      ∀ place, t'.node? place =
        if place ∈ (names.filter (isOlder t loc limit)).map (fun name => loc ++ [name]) then none
        else t.node? place := by
  induction names generalizing t with
  | nil => exact ⟨t, rfl, fun place => rfl⟩
  | cons name rest ih =>
      obtain ⟨apart, distinct⟩ := List.nodup_cons.mp distinct
      obtain ⟨⟨⟨bytes, modified, stands⟩, near⟩, files⟩ := List.forall_mem_cons.mp files
      have looked : answer base clock (.entryModified (Path.join dir name)) t = (.ok modified, t) :=
        answer_entryModified wf leads stands near
      have age : isOlder t loc limit name = decide (modified.nanoseconds < limit.nanoseconds) := by
        rw [isOlder, stands, Option.any_some]
        rfl
      rw [List.map_cons, List.filter_cons, age]
      by_cases old : modified.nanoseconds < limit.nanoseconds
      · let t₁ := t.erase (loc ++ [name])
        have removed : answer base clock (.remove (Path.join dir name)) t = (.ok (), t₁) :=
          answer_remove wf leads stands near
        have others : ∀ other ∈ rest, t₁.node? (loc ++ [other]) = t.node? (loc ++ [other]) :=
          fun other h => node?_erase_other wf stands (ne_of_mem_of_not_mem h apart)
        have directory := (wf.asks stands).directory
        obtain ⟨t', run, left⟩ := ih (FileTree.wellFormed_erase_entry wf stands rfl)
          (leads.erase_file wf stands directory) distinct fun other h => by
            rw [others other h]
            exact files other h
        rw [filter_isOlder_congr others] at run left
        rw [run_removeOlder_removed looked old removed, run, decide_eq_true old, if_pos rfl]
        refine ⟨t', rfl, fun place => ?_⟩
        rw [left, FileTree.node?_erase_entry wf stands rfl, List.map_cons]
        by_cases here : place = loc ++ [name]
        · rw [if_pos here, ite_self, if_pos (List.mem_cons.mpr (.inl here))]
        · simp only [List.mem_cons, here, false_or, if_false]
      · rw [run_removeOlder_kept looked old, decide_eq_false old, if_neg nofun]
        exact ih wf leads distinct files

/-- The log files last changed before the cutoff are deleted and counted; nothing else is touched. -/
theorem HoldsLogs.run_clean (holds : HoldsLogs t base dir loc) (clock now : Time) (days : UInt64) :
    ∃ t' deleted, Script.run (answer base clock) (clean now dir days) t =
        (.ok (List.length deleted), t') ∧ deleted.Nodup ∧
      (∀ name, name ∈ deleted ↔ IsOldLog t loc (cutoff now days) name) ∧
      ∀ place, t'.node? place =
        if place ∈ deleted.map (fun name => loc ++ [name]) then none else t.node? place := by
  obtain ⟨modified, looked⟩ := holds.leads
  obtain ⟨leads, -⟩ := FileTree.leads_of_lookUp looked
  have standing {name : Text} (h : name ∈ (t.names loc).filter isLogName) :
      isLogName name = true ∧ (t.node? (loc ++ [name])).isSome = true :=
    (List.mem_filter.mp h).symm.imp_right FileTree.mem_names_iff.mp
  obtain ⟨t', run, left⟩ := run_removeOlder clock (cutoff now days) holds.wf leads
    ((holds.wf.nodup_names loc).filter isLogName) fun name h => by
      obtain ⟨log, there⟩ := standing h
      obtain ⟨node, found⟩ := Option.isSome_iff_exists.mp there
      obtain ⟨-, bytes, modified, rfl⟩ := holds.files name node log found
      exact ⟨⟨bytes, modified, found⟩, near_of_remove (holds.removable name log there)⟩
  refine ⟨t', _, ?_, ((holds.wf.nodup_names loc).filter _).filter _, fun name => ?_, left⟩
  · rw [clean]
    refine (Script.run_request_bind (answer_isPresent looked)).trans ?_
    rw [if_pos rfl]
    refine (Script.run_request_bind (answer_list looked)).trans ?_
    dsimp only
    rw [Script.run_bind, run]
    rfl
  · rw [List.mem_filter, List.mem_filter, FileTree.mem_names_iff]
    constructor
    · rintro ⟨⟨_, log⟩, older⟩
      exact ⟨log, older⟩
    · rintro ⟨log, older⟩
      obtain ⟨node, found, -⟩ := (Option.any_eq_true _ _).mp older
      exact ⟨⟨Option.isSome_iff_exists.mpr ⟨node, found⟩, log⟩, older⟩

end Logs

open Logs

/-- Cleaning deletes exactly the log files that were last changed more than a number of days ago, if the
seconds of that many days fit a word and, where no clock can tell the time that long ago, no log file is
older than 1970. Otherwise the period is cut to a word, or the cutoff is the start of 1970. -/
theorem cleaning_deletes_expired_iff {t : FileTree} {base loc : Location} {dir : Path}
    (holds : HoldsLogs t base dir loc) (clock now : Time) (days : UInt64) :
    ∃ t' deleted, Script.run (FileTree.answer base clock) (clean now dir days) t =
        (.ok (List.length deleted), t') ∧ deleted.Nodup ∧
      (∀ place, t'.node? place =
        if place ∈ deleted.map (fun name => loc ++ [name]) then none else t.node? place) ∧
      (∀ name, name ∈ deleted ↔ IsOldLog t loc (cutoff now days) name) ∧
      (((secondsOfDays days).toNat = days.toNat * 86400 ∧
          ∀ name, name ∈ deleted ↔ IsOldLog t loc (expiry now days) name) ↔
        days.toNat * 86400 < UInt64.size ∧
          ((expiry now days).IsTold ∨ ∀ name, ¬IsOldLog t loc Time.epoch name)) := by
  obtain ⟨t', deleted, run, distinct, old, left⟩ := holds.run_clean clock now days
  refine ⟨t', deleted, run, distinct, left, old, ?_⟩
  simp only [old, secondsOfDays_eq_iff]
  refine and_congr_right fun fits => ?_
  have exact := secondsOfDays_eq_iff.mpr fits
  by_cases told : (expiry now days).IsTold
  · rw [cutoff_of_isTold exact told]
    exact ⟨fun _ => .inl told, fun _ _ => .rfl⟩
  · have unexpired (name : Text) : ¬IsOldLog t loc (expiry now days) name := by
      rintro ⟨log, older⟩
      obtain ⟨node, found, -⟩ := (Option.any_eq_true _ _).mp older
      have recent := not_isOlder_of_not_isTold found (holds.files name node log found).1 told
      cases older.symm.trans recent
    simp only [cutoff_of_not_isTold exact told, told, unexpired, iff_false, false_or]

/-- Of two log files the one that is eight days old is deleted. The other old file is no log. -/
theorem cleaning_deletes_expired_of_week :
    let now : Time := ⟨1700000000000000000⟩
    let old : Time := ⟨1700000000000000000 - 691200000000000⟩
    let t : FileTree := ⟨[(["logs".toList], .directory now),
      (["logs".toList, "qmlview-a.log".toList], .file [] old),
      (["logs".toList, "qmlview-b.log".toList], .file [] now),
      (["logs".toList, "notes.log".toList], .file [] old)]⟩
    HoldsLogs t [] "/logs".toList ["logs".toList] ∧
    ∃ t' deleted, Script.run (FileTree.answer [] now) (clean now "/logs".toList 7) t =
        (.ok (List.length deleted), t') ∧
      ∀ name, name ∈ deleted ↔ IsOldLog t ["logs".toList] (expiry now 7) name := by
  intro now old t
  have wf : t.WellFormed := ⟨by decide, by decide, by decide, by decide⟩
  have there : t.node? ["logs".toList] = some (.directory now) := rfl
  have looked := FileTree.lookUp_pathOf wf there rfl (by decide) []
  have names : t.names ["logs".toList] =
      ["qmlview-a.log".toList, "qmlview-b.log".toList, "notes.log".toList] := rfl
  have holds : HoldsLogs t [] "/logs".toList ["logs".toList] := by
    refine holdsLogs_of_names wf looked ?_
    rw [names]
    simp only [List.forall_mem_cons]
    exact ⟨fun _ => ⟨⟨[], old, rfl, by decide⟩, by decide⟩,
      fun _ => ⟨⟨[], now, rfl, by decide⟩, by decide⟩, nofun, nofun⟩
  obtain ⟨t', deleted, run, -, -, -, right⟩ := cleaning_deletes_expired_iff holds now now 7
  exact ⟨holds, t', deleted, run, (right.mpr ⟨by decide, .inl (by decide)⟩).2⟩

/-- Log files are to be kept for 150000000000000 days. One that is dated before 1970 is deleted. -/
theorem cleaning_deletes_unexpired :
    let now : Time := ⟨1700000000000000000⟩
    let days : UInt64 := 150000000000000
    let t : FileTree := ⟨[(["logs".toList], .directory now),
      (["logs".toList, "qmlview-g.log".toList], .file [] ⟨-5000000000000⟩)]⟩
    ∃ count t', Script.run (FileTree.answer [] now) (clean now "/logs".toList days) t =
        (.ok count, t') ∧ t'.node? ["logs".toList, "qmlview-g.log".toList] = none ∧
      ¬IsOldLog t ["logs".toList] (expiry now days) "qmlview-g.log".toList := by
  intro now days t
  have wf : t.WellFormed := ⟨by decide, by decide, by decide, by decide⟩
  have there : t.node? ["logs".toList] = some (.directory now) := rfl
  have looked := FileTree.lookUp_pathOf wf there rfl (by decide) []
  have names : t.names ["logs".toList] = ["qmlview-g.log".toList] := rfl
  have holds : HoldsLogs t [] "/logs".toList ["logs".toList] := by
    refine holdsLogs_of_names wf looked ?_
    rw [names]
    simp only [List.forall_mem_cons]
    exact ⟨fun _ => ⟨⟨[], _, rfl, by decide⟩, by decide⟩, nofun⟩
  obtain ⟨t', deleted, run, -, old, left⟩ := holds.run_clean now now days
  have cut : cutoff now days = Time.epoch :=
    cutoff_of_not_isTold (secondsOfDays_eq_iff.mpr (by decide)) (by decide)
  have removed : "qmlview-g.log".toList ∈ deleted := by
    rw [old, cut]
    exact ⟨by decide, by decide⟩
  refine ⟨_, t', run, ?_, fun expired => ?_⟩
  · exact (left _).trans (if_pos (List.mem_map_of_mem removed))
  · cases (by decide : isOlder t _ (expiry now days) _ = false).symm.trans expired.older

end QmlPreview
