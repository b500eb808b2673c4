import QmlPreview.FileTree.Answer
import QmlPreview.Proofs.Removals
import QmlPreview.Proofs.Unlinking

/-! Side files are told by their names alone. The counter and the token that a name was made with can be
read back from it. A sweep takes away files with such names and touches nothing else. -/

namespace QmlPreview

open Script (Answers Log Runs)

/-- The number and the token in the name of a side file whose number is written in ASCII digits. -/
def readSideFileName? (name : Text) : Option (Nat × Text) :=
  match Text.dropLead? "Live".toList name with
  | none => none
  | some rest =>
    match rest.dropWhile Char.isDigit with
    | '_' :: suffix => some (Nat.ofDigitChars 10 (rest.takeWhile Char.isDigit) 0, suffix.take 8)
    | _ => none

theorem NamesSideFile.read?_eq {name digits token : Text} (names : NamesSideFile name digits token)
    (ascii : ∀ c ∈ digits, c.isDigit = true) :
    readSideFileName? name = some (Nat.ofDigitChars 10 digits 0, token) := by
  have lead := Text.dropLead?_eq_some_iff.mpr names.text
  have stop : Char.isDigit '_' = false := by decide
  simp only [readSideFileName?, lead, List.takeWhile_append_of_pos ascii,
    List.dropWhile_append_of_pos ascii, List.takeWhile_cons, List.dropWhile_cons, stop,
    Bool.false_eq_true, if_false, List.append_nil, ← names.length_token, List.take_left]

theorem exists_token_iff {short : Text} : (∃ token : Token, token.short = short) ↔
    short.length = 8 ∧ ∀ c ∈ short, c ∈ "0123456789abcdef".toList := by
  simp only [← isLowerHex_iff]
  constructor
  · rintro ⟨token, rfl⟩
    exact ⟨token.length_short, token.isLowerHex_short⟩
  · rintro ⟨length, hex⟩
    have zero : isLowerHex '0' = true := rfl
    refine ⟨⟨short ++ List.replicate 24 '0', ?_, List.forall_mem_append.mpr ⟨hex, ?_⟩⟩, ?_⟩
    · rw [List.length_append, length, List.length_replicate]
    · exact fun c h => List.eq_of_mem_replicate h ▸ zero
    · exact List.take_left' length

theorem readSideFileName?_sideFileName (counter : UInt64) (token : Token) :
    readSideFileName? (sideFileName counter token) = some (counter.toNat, token.short) := by
  rw [(namesSideFile_sideFileName counter token).read?_eq fun _ => Text.isDigit_of_mem_ofNat,
    Text.ofNat, Nat.ofDigitChars_toDigits (by decide) (by decide)]

theorem sideFileName_eq_iff {counter counter' : UInt64} {token token' : Token} :
    sideFileName counter token = sideFileName counter' token' ↔
      counter = counter' ∧ token.short = token'.short := by
  constructor
  · intro same
    have read := congrArg readSideFileName? same
    rw [readSideFileName?_sideFileName, readSideFileName?_sideFileName, Option.some.injEq,
      Prod.mk.injEq, UInt64.toNat_inj] at read
    exact read
  · rintro ⟨rfl, short⟩
    rw [sideFileName_eq, sideFileName_eq, short]

/-! ### Sweeping -/

theorem mem_sweepable {dir path : Path} {keep : List Path} {names : List Text}
    (h : path ∈ sweepable dir keep names) :
    ∃ name ∈ names, isSideFileName name = true ∧ path = Path.join dir name := by
  obtain ⟨named, _⟩ := List.mem_filter.mp h
  obtain ⟨name, listed, rfl⟩ := List.mem_map.mp named
  obtain ⟨member, accepted⟩ := List.mem_filter.mp listed
  exact ⟨name, member, accepted, rfl⟩

section
variable {σ : Type} {answers : Answers σ FileRequest.Answer} {s s' : σ}
  {log : Log FileRequest.Answer} {dir : Path} {keep paths : List Path}

theorem RemovesAll.requests (way : RemovesAll answers paths s log s') :
    ∀ x ∈ log, ∃ path ∈ paths, x.1 = .remove path := by
  induction way with
  | nil => exact List.forall_mem_nil _
  | cons _ _ ih =>
      refine List.forall_mem_cons.mpr ⟨⟨_, List.mem_cons_self, rfl⟩, fun x h => ?_⟩
      obtain ⟨path, member, request⟩ := ih x h
      exact ⟨path, List.mem_cons_of_mem _ member, request⟩

/-- A sweep looks at the directory and asks to remove entries with names of side files, and no more. -/
theorem Sweeps.requests (way : Sweeps answers dir keep s log s') : ∀ x ∈ log,
    x.1 = .isPresent dir ∨ x.1 = .list dir ∨
      ∃ name, isSideFileName name = true ∧ x.1 = .remove (Path.join dir name) := by
  cases way with
  | absent => exact List.forall_mem_singleton.mpr (.inl rfl)
  | unlisted =>
      exact List.forall_mem_cons.mpr ⟨.inl rfl, List.forall_mem_singleton.mpr (.inr (.inl rfl))⟩
  | swept _ _ removing =>
      refine List.forall_mem_cons.mpr
        ⟨.inl rfl, List.forall_mem_cons.mpr ⟨.inr (.inl rfl), fun x h => ?_⟩⟩
      obtain ⟨path, member, request⟩ := removing.requests x h
      obtain ⟨name, _, accepted, rfl⟩ := mem_sweepable member
      exact .inr (.inr ⟨name, accepted, request⟩)

end

namespace FileTree

variable {t t' t'' : FileTree} {base : Location} {now : Time} {dir : Path} {name : Text}

/-- Entries with names of side files may be gone, and all else is as it was. -/
def LosesSideFiles (t t' : FileTree) : Prop :=
  ∀ place, t'.node? place = t.node? place ∨
    t'.node? place = none ∧ ∃ above name, place = above ++ [name] ∧ isSideFileName name = true

theorem LosesSideFiles.refl (t : FileTree) : t.LosesSideFiles t := fun _ => .inl rfl

theorem LosesSideFiles.trans (first : t.LosesSideFiles t') (second : t'.LosesSideFiles t'') :
    t.LosesSideFiles t'' := by
  intro place
  obtain same | gone := second place
  · rw [same]
    exact first place
  · exact .inr gone

/-- The tree after requests that took away nothing but side files. -/
structure Swept (t t' : FileTree) : Prop where
  wf : t'.WellFormed
  loses : t.LosesSideFiles t'

theorem Swept.refl (wf : t.WellFormed) : t.Swept t := ⟨wf, .refl t⟩

theorem Swept.trans (first : t.Swept t') (second : t'.Swept t'') : t.Swept t'' :=
  ⟨second.wf, first.loses.trans second.loses⟩

theorem swept_remove (wf : t.WellFormed) (accepted : isSideFileName name = true)
    {removed : Except Fault Unit}
    (answered : t.answer base now (.remove (Path.join dir name)) = (removed, t')) :
    t.Swept t' := by
  have inner : name ≠ ['.', '.'] := by
    rintro rfl
    cases accepted
  rw [answer] at answered
  cases result : t.remove base (Path.join dir name) with
  | error fault =>
      rw [result] at answered
      cases answered
      exact .refl wf
  | ok left =>
      obtain ⟨loc, entry, walked, stands, plain, rfl⟩ := exists_of_remove result
      obtain ⟨above, rfl⟩ := exists_parent_of_walk
        (getLast?_steps_join (slash_notMem_of_isSideFileName accepted))
        (isSilent_of_isSideFileName accepted) inner walked
      rw [result] at answered
      cases answered
      refine ⟨wellFormed_erase_entry wf stands plain, fun place => ?_⟩
      rw [node?_erase_entry wf stands plain]
      split
      · exact .inr ⟨rfl, above, name, ‹_›, accepted⟩
      · exact .inl rfl

theorem swept_removesAll {paths : List Path} {log : Log FileRequest.Answer}
    (named : ∀ path ∈ paths, ∃ name, isSideFileName name = true ∧ path = Path.join dir name)
    (way : RemovesAll (fun t q r t' => t.answer base now q = (r, t')) paths t log t')
    (wf : t.WellFormed) : t.Swept t' := by
  induction way with
  | nil => exact .refl wf
  | cons removing _ ih =>
      obtain ⟨⟨name, accepted, rfl⟩, others⟩ := List.forall_mem_cons.mp named
      have first := swept_remove wf accepted removing
      exact first.trans (ih others first.wf)

/-- Whatever stands in the tree, a sweep takes away side files only. -/
theorem swept_sweep (wf : t.WellFormed) (base : Location) (now : Time) (dir : Path)
    (keep : List Path) : t.Swept (Script.run (answer base now) (sweep dir keep) t).2 := by
  obtain ⟨result, t', ran⟩ :
      ∃ result t', Script.run (answer base now) (sweep dir keep) t = (result, t') := ⟨_, _, rfl⟩
  obtain ⟨log, run⟩ := Script.run_eq_iff.mp ran
  rw [ran]
  cases runs_sweep_iff.mp ⟨result, run⟩ with
  | absent looking =>
      obtain rfl := (Prod.mk.inj looking).2
      exact .refl wf
  | unlisted looking listing =>
      obtain rfl := (Prod.mk.inj looking).2
      obtain rfl := (Prod.mk.inj listing).2
      exact .refl wf
  | @swept names _ _ _ _ looking listing removing =>
      obtain rfl := (Prod.mk.inj looking).2
      obtain rfl := (Prod.mk.inj listing).2
      have named : ∀ path ∈ sweepable dir keep names, ∃ name,
          isSideFileName name = true ∧ path = Path.join dir name := by
        intro path h
        obtain ⟨name, _, accepted, same⟩ := mem_sweepable h
        exact ⟨name, accepted, same⟩
      exact swept_removesAll named removing wf

end FileTree

/-- The name of a side file is accepted and tells its counter and its token, so names with other counters
are other names. All that is accepted is `Live`, a number in the digits of any script, `_`, eight
hexadecimal digits and `.qml`, in one way and with nothing around it. A sweep asks for the removal of
entries with such names only, and in a tree it changes no other place. -/
theorem side_file_names_unambiguous :
    (∀ counter token, isSideFileName (sideFileName counter token) = true ∧
      readSideFileName? (sideFileName counter token) = some (counter.toNat, token.short) ∧
      NamesSideFile (sideFileName counter token) (Text.ofNat counter.toNat) token.short) ∧
    (∀ short : Text, (∃ token : Token, token.short = short) ↔
      short.length = 8 ∧ ∀ c ∈ short, c ∈ "0123456789abcdef".toList) ∧
    (∀ counter counter' token token', sideFileName counter token = sideFileName counter' token' ↔
      counter = counter' ∧ token.short = token'.short) ∧
    (∀ name, isSideFileName name = true ↔
      ∃! parts : Text × Text, NamesSideFile name parts.1 parts.2) ∧
    (∀ name, isSideFileName name = true → '\n' ∉ name ∧ '/' ∉ name ∧ '\\' ∉ name) ∧
    ∀ dir keep,
      (∀ (σ : Type) (answers : Answers σ FileRequest.Answer) s log result s',
        Runs answers (sweep dir keep) s log result s' → ∀ x ∈ log,
          x.1 = .isPresent dir ∨ x.1 = .list dir ∨
            ∃ name, isSideFileName name = true ∧ x.1 = .remove (Path.join dir name)) ∧
      ∀ (base : Location) (now : Time) (t : FileTree), t.WellFormed →
        t.LosesSideFiles (Script.run (FileTree.answer base now) (sweep dir keep) t).2 := by
  refine ⟨fun counter token => ⟨isSideFileName_sideFileName counter token,
    readSideFileName?_sideFileName counter token, namesSideFile_sideFileName counter token⟩,
    fun _ => exists_token_iff, fun _ _ _ _ => sideFileName_eq_iff, fun name => ?_,
    fun name accepted => ?_, fun dir keep => ⟨?_, ?_⟩⟩
  · rw [isSideFileName_iff]
    constructor
    · rintro ⟨digits, token, names⟩
      refine ⟨(digits, token), names, fun parts names' => ?_⟩
      obtain ⟨first, last⟩ := names'.unique names
      exact Prod.ext first last
    · rintro ⟨parts, names, _⟩
      exact ⟨parts.1, parts.2, names⟩
  · have apart {c : Char} := notMem_of_isSideFileName (c := c) accepted
    exact ⟨apart (by decide) (by decide), apart (by decide) (by decide),
      apart (by decide) (by decide)⟩
  · intro σ answers s log result s' run
    exact (runs_sweep_iff.mp ⟨result, run⟩).requests
  · intro base now t wf
    exact (FileTree.swept_sweep wf base now dir keep).loses

/-- Two generations with one token have two names. A name with Arabic digits is accepted and comes apart.
A sweep asks to remove the side file that it finds, and leaves the authored file beside it. -/
theorem side_file_names_unambiguous_in_directory :
    let token := Token.ofNat 0xdeadbeef000000000000000000000000
    let arabic := "Live٤٢_0badf00d.qml".toList
    let stale := "Live3_0badf00d.qml".toList
    let backup := "Live3_0badf00d.qml.bak".toList
    let log : Log FileRequest.Answer := [⟨.isPresent "ui".toList, true⟩,
      ⟨.list "ui".toList, .ok [stale, backup]⟩, ⟨.remove "ui/Live3_0badf00d.qml".toList, .ok ()⟩]
    let t : FileTree := ⟨[(["ui".toList], .directory Time.epoch),
      (["ui".toList, stale], .file [] Time.epoch), (["ui".toList, backup], .file [] Time.epoch)]⟩
    readSideFileName? (sideFileName 4 token) = some (4, "deadbeef".toList) ∧
      sideFileName 4 token ≠ sideFileName 42 token ∧
      ('\n' ∉ arabic ∧ '/' ∉ arabic ∧ '\\' ∉ arabic) ∧
      (∃! parts : Text × Text, NamesSideFile arabic parts.1 parts.2) ∧
      (∀ x ∈ log, x.1 = .isPresent "ui".toList ∨ x.1 = .list "ui".toList ∨
        ∃ name, isSideFileName name = true ∧ x.1 = .remove (Path.join "ui".toList name)) ∧
      (Script.run (FileTree.answer [] Time.epoch) (sweep "ui".toList []) t).2.node?
        ["ui".toList, backup] = some (.file [] Time.epoch) := by
  intro token arabic stale backup log t
  obtain ⟨generated, _, apart, names, clean, sweeping⟩ := side_file_names_unambiguous
  obtain ⟨requests, left⟩ := sweeping "ui".toList []
  have accepted : isSideFileName arabic = true := by decide
  have run : Runs (fun _ _ _ s' => s' = ()) (sweep "ui".toList []) () log (.ok 1) () :=
    .ask rfl (.ask rfl (.ask rfl (.done _ _)))
  have wf : t.WellFormed := ⟨by decide, by decide, by decide, by decide⟩
  refine ⟨(generated 4 token).2.1, fun same => ?_, clean arabic accepted,
    (names arabic).mp accepted, requests _ _ _ _ _ _ run, ?_⟩
  · cases ((apart _ _ _ _).mp same).1
  · obtain same | ⟨_, above, name, place, accepted⟩ :=
      left [] Time.epoch t wf ["ui".toList, backup]
    · exact same
    · have last := congrArg List.getLast? place
      rw [List.getLast?_concat] at last
      obtain rfl : backup = name := Option.some.inj last
      exact absurd accepted (by decide)

end QmlPreview
