import QmlPreview.Proofs.ElementHeads
import QmlPreview.Proofs.Headers

/-! Import statements, written and read. Whatever blanks stand between the parts of a statement and
around it, reading it gives back the parts. What is kept of a statement is read as the same import,
unless blanks stood between the semicolons after it. -/

namespace QmlPreview

namespace Text

/-- Blanks that keep two words apart. -/
structure Gap where
  text : Text
  nonempty : text ≠ []
  blank : ∀ c ∈ text, isBlank c = true

/-- Visible characters without a blank between them. -/
structure Word where
  text : Text
  nonempty : text ≠ []
  visible : ∀ c ∈ text, isBlank c = false

theorem words_nil : words [] = [] := rfl

theorem words_blank {c : Char} (blank : isBlank c = true) (t : Text) : words (c :: t) = words t := by
  have split := List.splitOnP_append_cons (p := isBlank) [] t blank
  rw [List.nil_append, List.splitOnP_nil, List.singleton_append] at split
  rw [words, split]
  rfl

theorem words_append_blank {gap : Text} (blank : ∀ c ∈ gap, isBlank c = true) (t : Text) :
    words (gap ++ t) = words t := by
  induction gap with
  | nil => rfl
  | cons c gap ih =>
      rw [List.forall_mem_cons] at blank
      rw [List.cons_append, words_blank blank.1, ih blank.2]

theorem Word.words_append (word : Word) {t : Text} (apart : ∀ c ∈ t.head?, isBlank c = true) :
    words (word.text ++ t) = word.text :: words t := by
  have keep : (!word.text.isEmpty) = true := by
    rw [List.isEmpty_eq_false_iff.mpr word.nonempty]
    rfl
  cases t with
  | nil =>
      have split := List.splitOnP_eq_singleton (p := isBlank) word.visible
      rw [List.append_nil, words, split, List.filter_cons, if_pos keep]
      rfl
  | cons c t =>
      have blank := apart c rfl
      have split := List.splitOnP_append_cons_of_forall_mem (p := isBlank) word.visible c blank t
      rw [words_blank blank, words, split, List.filter_cons, if_pos keep]
      rfl

end Text

namespace Import

open Text (Gap Word)

/-! ### What is kept of a statement -/

def dropSemicolons (t : Text) : Text := (t.reverse.dropWhile (· == ';')).reverse

theorem bare_eq (s : Text) : bare s = Text.trimEnd (dropSemicolons (Text.trim s)) := rfl

theorem endsVisible_bare (s : Text) : Text.EndsVisible (bare s) := Text.endsVisible_trimEnd _

theorem dropSemicolons_append {t : Text} (last : t.getLast? ≠ some ';') (n : Nat) :
    dropSemicolons (t ++ List.replicate n ';') = t := by
  have all : ∀ c ∈ List.replicate n ';', (c == ';') = true := by
    intro c hc
    rw [List.eq_of_mem_replicate hc]
    rfl
  rw [dropSemicolons, List.reverse_append, List.reverse_replicate, List.dropWhile_append_of_pos all]
  cases mirrored : t.reverse with
  | nil =>
      rw [List.reverse_eq_nil_iff.mp mirrored]
      rfl
  | cons c r =>
      have other : (c == ';') = false := by
        rw [beq_eq_false_iff_ne]
        rintro rfl
        rw [← List.head?_reverse, mirrored] at last
        exact last rfl
      rw [List.dropWhile_cons, other, if_neg Bool.false_ne_true, ← mirrored, List.reverse_reverse]

theorem exists_dropSemicolons (t : Text) :
    ∃ n, t = dropSemicolons t ++ List.replicate n ';' := by
  refine ⟨(t.reverse.takeWhile (· == ';')).length, ?_⟩
  have run : t.reverse.takeWhile (· == ';') =
      List.replicate (t.reverse.takeWhile (· == ';')).length ';' := by
    apply List.eq_replicate_of_mem
    intro c hc
    exact beq_iff_eq.mp (List.all_eq_true.mp List.all_takeWhile c hc)
  calc t = (t.reverse.takeWhile (· == ';') ++ t.reverse.dropWhile (· == ';')).reverse := by
        rw [List.takeWhile_append_dropWhile, List.reverse_reverse]
    _ = dropSemicolons t ++
          (List.replicate (t.reverse.takeWhile (· == ';')).length ';').reverse := by
        rw [List.reverse_append, ← run, dropSemicolons]
    _ = _ := by rw [List.reverse_replicate]

theorem getLast?_dropSemicolons (t : Text) : (dropSemicolons t).getLast? ≠ some ';' := by
  intro semicolon
  have other := List.head?_dropWhile_not (· == ';') t.reverse
  rw [dropSemicolons, List.getLast?_reverse] at semicolon
  rw [semicolon] at other
  cases other

theorem getLast?_append_blank {t gap : Text} (blank : ∀ c ∈ gap, Text.isBlank c = true)
    (last : gap = [] → t.getLast? ≠ some ';') : (t ++ gap).getLast? ≠ some ';' := by
  cases gap with
  | nil =>
      rw [List.append_nil]
      exact last rfl
  | cons c gap =>
      rw [Text.getLast?_append_of_ne_nil t (List.cons_ne_nil c gap)]
      intro semicolon
      have visible := blank ';' (List.mem_of_getLast? semicolon)
      cases visible

/-- Blanks around a text, and semicolons after it, are no part of the statement. -/
theorem bare_around {lead gap trail core : Text} (leadBlank : ∀ c ∈ lead, Text.isBlank c = true)
    (gapBlank : ∀ c ∈ gap, Text.isBlank c = true) (trailBlank : ∀ c ∈ trail, Text.isBlank c = true)
    (nonempty : core ≠ []) (starts : Text.StartsVisible core) (ends : Text.EndsVisible core)
    (last : gap = [] → core.getLast? ≠ some ';') {n : Nat} (none : n = 0 → gap = []) :
    bare (lead ++ (core ++ (gap ++ (List.replicate n ';' ++ trail)))) = core := by
  have startsWhole : Text.StartsVisible (core ++ (gap ++ (List.replicate n ';' ++ trail))) := by
    intro c hc
    obtain ⟨d, core, rfl⟩ := List.exists_cons_of_ne_nil nonempty
    exact starts c hc
  have endsWhole : Text.EndsVisible (core ++ gap ++ List.replicate n ';') := by
    cases n with
    | zero =>
        rw [none rfl, List.append_nil, List.replicate_zero, List.append_nil]
        exact ends
    | succ n =>
        apply Text.endsVisible_append (List.cons_ne_nil _ _)
        intro c hc
        rw [List.eq_of_mem_replicate (n := n + 1) (List.mem_of_getLast? hc)]
        rfl
  have trimmed : Text.trim (lead ++ (core ++ (gap ++ (List.replicate n ';' ++ trail)))) =
      core ++ gap ++ List.replicate n ';' := by
    rw [Text.trim, Text.trimStart_append leadBlank, Text.trimStart_eq_self startsWhole,
      ← List.append_assoc, ← List.append_assoc, Text.trimEnd_append endsWhole trailBlank]
  rw [bare_eq, trimmed, dropSemicolons_append (getLast?_append_blank gapBlank last),
    Text.trimEnd_append ends gapBlank]

theorem bare_unended {lead trail core : Text} (leadBlank : ∀ c ∈ lead, Text.isBlank c = true)
    (trailBlank : ∀ c ∈ trail, Text.isBlank c = true) (nonempty : core ≠ [])
    (starts : Text.StartsVisible core) (ends : Text.EndsVisible core)
    (last : core.getLast? ≠ some ';') : bare (lead ++ (core ++ trail)) = core := by
  have noBlanks : ∀ c ∈ ([] : Text), Text.isBlank c = true := nofun
  exact bare_around leadBlank noBlanks trailBlank nonempty starts ends (fun _ => last) (n := 0)
    (fun _ => rfl)

/-- A statement is what is kept of it, and what reading drops around that. -/
theorem exists_bare (s : Text) : ∃ lead gap n trail, (∀ c ∈ lead, Text.isBlank c = true) ∧
    (∀ c ∈ gap, Text.isBlank c = true) ∧ (∀ c ∈ trail, Text.isBlank c = true) ∧
    s = lead ++ (bare s ++ (gap ++ (List.replicate n ';' ++ trail))) ∧
    (gap = [] → (bare s).getLast? ≠ some ';') ∧ (n = 0 → gap = []) := by
  obtain ⟨lead, leadBlank, start⟩ := Text.exists_trimStart s
  obtain ⟨trail, trailBlank, stop⟩ := Text.exists_trimEnd (Text.trimStart s)
  obtain ⟨n, kept⟩ := exists_dropSemicolons (Text.trim s)
  obtain ⟨gap, gapBlank, parts⟩ := Text.exists_trimEnd (dropSemicolons (Text.trim s))
  have last := getLast?_dropSemicolons (Text.trim s)
  rw [← bare_eq] at parts
  rw [parts] at kept last
  refine ⟨lead, gap, n, trail, leadBlank, gapBlank, trailBlank, ?_, ?_, ?_⟩
  · calc s = lead ++ (Text.trim s ++ trail) := by rw [Text.trim, ← stop, ← start]
      _ = lead ++ ((bare s ++ gap ++ List.replicate n ';') ++ trail) := by rw [← kept]
      _ = lead ++ (bare s ++ (gap ++ (List.replicate n ';' ++ trail))) := by
        simp only [List.append_assoc]
  · intro empty
    rwa [empty, List.append_nil] at last
  · intro zero
    have ends : Text.EndsVisible (Text.trim s) := Text.endsVisible_trimEnd _
    rw [zero, List.replicate_zero, List.append_nil] at kept
    rw [kept] at ends
    have same := Text.trimEnd_eq_self ends
    rw [Text.trimEnd_append (endsVisible_bare s) gapBlank] at same
    exact List.self_eq_append_right.mp same

theorem startsVisible_bare (s : Text) : Text.StartsVisible (bare s) := by
  have starts : Text.StartsVisible (Text.trim s) :=
    fun c hc => Text.startsVisible_trimStart s c (Text.head?_trimEnd hc)
  obtain ⟨n, kept⟩ := exists_dropSemicolons (Text.trim s)
  obtain ⟨gap, _, parts⟩ := Text.exists_trimEnd (dropSemicolons (Text.trim s))
  rw [← bare_eq] at parts
  rw [parts, List.append_assoc] at kept
  rw [kept] at starts
  intro c hc
  apply starts
  rw [List.head?_append, Option.mem_def.mp hc]
  rfl

/-- What is kept of a statement is kept of itself, unless it ends in a semicolon. -/
theorem bare_bare_iff (s : Text) : bare (bare s) = bare s ↔ (bare s).getLast? ≠ some ';' := by
  constructor
  · intro same
    obtain ⟨lead, gap, n, trail, _, _, _, parts, last, _⟩ := exists_bare (bare s)
    rw [same] at parts last
    apply last
    have length := congrArg List.length parts
    simp only [List.length_append] at length
    exact List.length_eq_zero_iff.mp (by omega)
  · intro last
    cases kept : bare s with
    | nil => rfl
    | cons c rest =>
        rw [← kept]
        have noBlanks : ∀ c ∈ ([] : Text), Text.isBlank c = true := nofun
        have nonempty : bare s ≠ [] := by
          rw [kept]
          exact List.cons_ne_nil c rest
        have whole := bare_unended noBlanks noBlanks nonempty (startsVisible_bare s)
          (endsVisible_bare s) last
        rwa [List.nil_append, List.append_nil] at whole

/-- Blanks stand between two semicolons at the end of the statement. -/
def SpacesSemicolons (s : Text) : Prop :=
  ∃ front gap n trail, s = front ++ ';' :: (gap ++ (List.replicate (n + 1) ';' ++ trail)) ∧
    gap ≠ [] ∧ (∀ c ∈ gap, Text.isBlank c = true) ∧ ∀ c ∈ trail, Text.isBlank c = true

theorem getLast?_bare_iff (s : Text) :
    (bare s).getLast? = some ';' ↔ SpacesSemicolons s := by
  constructor
  · intro semicolon
    obtain ⟨lead, gap, n, trail, _, gapBlank, trailBlank, parts, last, none⟩ := exists_bare s
    have nonempty : gap ≠ [] := fun empty => last empty semicolon
    obtain ⟨front, kept⟩ := List.getLast?_eq_some_iff.mp semicolon
    cases n with
    | zero => exact absurd (none rfl) nonempty
    | succ n =>
        refine ⟨lead ++ front, gap, n, trail, ?_, nonempty, gapBlank, trailBlank⟩
        rw [kept] at parts
        simpa only [List.append_assoc, List.cons_append, List.nil_append] using parts
  · rintro ⟨front, gap, n, trail, rfl, nonempty, gapBlank, trailBlank⟩
    obtain ⟨lead, rest, leadBlank, trimmed, parts⟩ :=
      Text.exists_dropWhile (p := Text.isBlank) (c := ';') rfl front
    have starts : Text.StartsVisible (rest ++ [';']) := by
      rw [← trimmed]
      exact Text.startsVisible_trimStart (front ++ [';'])
    have ends : Text.EndsVisible (rest ++ [';']) := by
      intro c hc
      rw [List.getLast?_concat] at hc
      cases hc
      rfl
    have kept := bare_around (n := n + 1) leadBlank gapBlank trailBlank
      (List.concat_ne_nil ';' rest) starts ends (fun empty => absurd empty nonempty) nofun
    have whole : front ++ ';' :: (gap ++ (List.replicate (n + 1) ';' ++ trail)) =
        lead ++ (rest ++ [';'] ++ (gap ++ (List.replicate (n + 1) ';' ++ trail))) := by
      rw [← List.append_assoc lead, ← parts, List.append_assoc]
      rfl
    rw [whole, kept, List.getLast?_concat]

/-! ### Reading what is written -/

/-- A word that is not cut where it ends a statement: a semicolon at its end would be. -/
structure Name extends Word where
  unended : text.getLast? ≠ some ';'

/-- What a statement can name: a module, or a path between double quotes. -/
inductive Target where
  | module (name : Name) (unquoted : name.text.head? ≠ some '"')
  | path (p : Text) (nonempty : p ≠ []) (unquoted : '"' ∉ p)

namespace Target

def name : Target → Text
  | module name _ => name.text
  | path p _ _ => p

def isPath : Target → Bool
  | module _ _ => false
  | path _ _ _ => true

def text : Target → Text
  | module name _ => name.text
  | path p _ _ => '"' :: (p ++ ['"'])

end Target

/-- A number of digits and dots that starts with a digit. -/
structure Version where
  text : Text
  digits : ∀ c ∈ text, c.isDigit = true ∨ c = '.'
  first : ∃ d ∈ text.head?, d.isDigit = true

/-- A statement in its parts, each with the blanks before it. -/
structure Spelling where
  gap : Gap
  target : Target
  version : Option (Gap × Version)
  /-- The blanks before `as`, those after it, and the name. -/
  qualifier : Option (Gap × Gap × Name)

namespace Spelling

def versionText (s : Spelling) : Text :=
  match s.version with
  | none => []
  | some (gap, version) => gap.text ++ version.text

def qualifierText (s : Spelling) : Text :=
  match s.qualifier with
  | none => []
  | some (gap, gap', name) => gap.text ++ ("as".toList ++ (gap'.text ++ name.text))

def text (s : Spelling) : Text :=
  "import".toList ++ (s.gap.text ++ (s.target.text ++ (s.versionText ++ s.qualifierText)))

def «import» (s : Spelling) : Import where
  target := s.target.name
  version := s.version.map (·.2.text)
  qualifier := s.qualifier.map (·.2.2.text)
  isPath := s.target.isPath
  raw := s.text

end Spelling

theorem apart_gap (gap : Gap) (t : Text) : ∀ c ∈ (gap.text ++ t).head?, Text.isBlank c = true := by
  intro c hc
  obtain ⟨d, rest, parts⟩ := List.exists_cons_of_ne_nil gap.nonempty
  rw [parts] at hc
  cases hc
  apply gap.blank
  rw [parts]
  exact List.mem_cons_self

/-- The last character of the text stays where the text ends a statement. -/
def EndsStatement (t : Text) : Prop := ∃ c ∈ t.getLast?, Text.isBlank c = false ∧ c ≠ ';'

theorem EndsStatement.append {b : Text} (h : EndsStatement b) (a : Text) :
    EndsStatement (a ++ b) := by
  obtain ⟨c, hc, ends⟩ := h
  refine ⟨c, ?_, ends⟩
  rw [List.getLast?_append, Option.mem_def.mp hc]
  rfl

theorem Name.endsStatement (name : Name) : EndsStatement name.text := by
  have last := List.getLast?_eq_some_getLast name.nonempty
  refine ⟨_, last, name.visible _ (List.getLast_mem name.nonempty), ?_⟩
  intro semicolon
  apply name.unended
  rw [last, semicolon]

namespace Version

theorem nonempty (v : Version) : v.text ≠ [] := by
  intro empty
  obtain ⟨d, first, _⟩ := v.first
  rw [empty] at first
  cases first

theorem visible (v : Version) : ∀ c ∈ v.text, Text.isBlank c = false := by
  intro c hc
  rcases v.digits c hc with digit | rfl
  · exact ElementHead.isBlank_of_isDigit digit
  · rfl

def word (v : Version) : Word := ⟨v.text, v.nonempty, v.visible⟩

theorem isVersion (v : Version) : isVersion v.text = true := by
  obtain ⟨d, first, digit⟩ := v.first
  rw [Import.isVersion, Bool.and_eq_true, List.all_eq_true]
  constructor
  · intro c hc
    rw [Bool.or_eq_true, beq_iff_eq]
    exact v.digits c hc
  · rw [Option.mem_def.mp first]
    exact digit

theorem ne_as (v : Version) : v.text ≠ "as".toList := by
  intro same
  obtain ⟨d, first, digit⟩ := v.first
  rw [same] at first
  cases first
  cases digit

theorem endsStatement (v : Version) : EndsStatement v.text := by
  have last := List.getLast?_eq_some_getLast v.nonempty
  have member := List.getLast_mem v.nonempty
  refine ⟨_, last, v.visible _ member, ?_⟩
  intro semicolon
  rw [semicolon] at member
  rcases v.digits ';' member with digit | dot
  · cases digit
  · cases dot

end Version

theorem Target.endsStatement (target : Target) : EndsStatement target.text := by
  cases target with
  | module name unquoted => exact name.endsStatement
  | path p nonempty unquoted =>
      refine ⟨'"', ?_, rfl, by decide⟩
      rw [Target.text, ← List.cons_append, List.getLast?_concat]
      rfl

theorem Target.startsVisible (target : Target) (t : Text) :
    Text.StartsVisible (target.text ++ t) := by
  intro c hc
  cases target with
  | module name unquoted =>
      obtain ⟨d, rest, parts⟩ := List.exists_cons_of_ne_nil name.nonempty
      rw [Target.text, parts] at hc
      cases hc
      apply name.visible
      rw [parts]
      exact List.mem_cons_self
  | path p nonempty unquoted =>
      cases hc
      rfl

namespace Spelling

variable (s : Spelling)

theorem endsStatement_text : EndsStatement s.text := by
  unfold text
  apply EndsStatement.append
  apply EndsStatement.append
  cases qualified : s.qualifier with
  | some q =>
      obtain ⟨gap, gap', name⟩ := q
      rw [qualifierText, qualified]
      exact (((name.endsStatement.append gap'.text).append _).append gap.text).append _ |>.append _
  | none =>
      rw [qualifierText, qualified, List.append_nil]
      cases versioned : s.version with
      | some v =>
          obtain ⟨gap, version⟩ := v
          rw [versionText, versioned]
          exact (version.endsStatement.append gap.text).append _
      | none =>
          rw [versionText, versioned, List.append_nil]
          exact s.target.endsStatement

theorem startsVisible_text : Text.StartsVisible s.text := by
  intro c hc
  cases hc
  rfl

/-- What follows the target is nothing, or starts with a blank. -/
theorem apart_tail : ∀ c ∈ (s.versionText ++ s.qualifierText).head?, Text.isBlank c = true := by
  cases versioned : s.version with
  | some v =>
      obtain ⟨gap, version⟩ := v
      rw [versionText, versioned, List.append_assoc]
      exact apart_gap gap _
  | none =>
      rw [versionText, versioned, List.nil_append]
      cases qualified : s.qualifier with
      | some q =>
          obtain ⟨gap, gap', name⟩ := q
          rw [qualifierText, qualified]
          exact apart_gap gap _
      | none =>
          rw [qualifierText, qualified]
          exact nofun

theorem readTarget?_text : readTarget? (s.target.text ++ (s.versionText ++ s.qualifierText)) =
    some (s.target.name, s.target.isPath, s.versionText ++ s.qualifierText) := by
  have apart := s.apart_tail
  generalize s.versionText ++ s.qualifierText = tail at apart
  cases s.target with
  | module name unquoted =>
      have stops : ∀ c ∈ tail.head?, (!Text.isBlank c) = false := by
        intro c hc
        rw [apart c hc]
        rfl
      have runs : ∀ c ∈ name.text, (!Text.isBlank c) = true := by
        intro c hc
        rw [name.visible c hc]
        rfl
      obtain ⟨taken, left⟩ := ElementHead.takeWhile_dropWhile_append runs stops
      obtain ⟨d, rest, parts⟩ := List.exists_cons_of_ne_nil name.nonempty
      rw [parts] at unquoted
      have other : d ≠ '"' := fun same => unquoted (congrArg some same)
      rw [Target.text, Target.name, Target.isPath]
      unfold readTarget?
      split
      · rename_i quote
        rw [parts] at quote
        exact absurd (List.cons.inj quote).1 other
      · rw [taken, left]
  | path p nonempty unquoted =>
      have runs : ∀ c ∈ p, (c != '"') = true := by
        intro c hc
        rw [bne_iff_ne]
        rintro rfl
        exact unquoted hc
      obtain ⟨taken, left⟩ := ElementHead.takeWhile_dropWhile_append (b := '"' :: tail) runs
        fun c hc => by cases hc; rfl
      rw [Target.text, Target.name, Target.isPath, List.cons_append, List.append_assoc,
        List.singleton_append, readTarget?, left, taken]

/-- The words after the target: the version, then `as` and the qualifier. -/
theorem words_tail : Text.words (s.versionText ++ s.qualifierText) =
    (s.version.map (·.2.text)).toList ++
      match s.qualifier with
      | none => []
      | some (_, _, name) => ["as".toList, name.text] := by
  have qualifier : Text.words s.qualifierText =
      match s.qualifier with
      | none => []
      | some (_, _, name) => ["as".toList, name.text] := by
    cases qualified : s.qualifier with
    | none =>
        rw [qualifierText, qualified]
        rfl
    | some q =>
        obtain ⟨gap, gap', name⟩ := q
        have as : ∀ t, Text.words ("as".toList ++ (gap'.text ++ t)) =
            "as".toList :: Text.words (gap'.text ++ t) := fun t =>
          Word.words_append ⟨"as".toList, by decide, by decide⟩ (apart_gap gap' t)
        have last := name.toWord.words_append (t := []) nofun
        rw [List.append_nil, Text.words_nil] at last
        rw [qualifierText, qualified]
        simp only []
        rw [Text.words_append_blank gap.blank, as, Text.words_append_blank gap'.blank, last]
  cases versioned : s.version with
  | none =>
      rw [versionText, versioned, List.nil_append, qualifier]
      rfl
  | some v =>
      obtain ⟨gap, version⟩ := v
      have apart : ∀ c ∈ s.qualifierText.head?, Text.isBlank c = true := by
        cases qualified : s.qualifier with
        | none =>
            rw [qualifierText, qualified]
            exact nofun
        | some q =>
            rw [qualifierText, qualified]
            exact apart_gap q.1 _
      have first : Text.words (version.text ++ s.qualifierText) =
          version.text :: Text.words s.qualifierText := version.word.words_append apart
      rw [versionText, versioned, List.append_assoc]
      rw [Text.words_append_blank gap.blank, first, qualifier]
      rfl

theorem readWords_tail : readWords none none (Text.words (s.versionText ++ s.qualifierText)) =
    (s.version.map (·.2.text), s.qualifier.map (·.2.2.text)) := by
  rw [s.words_tail]
  cases s.version with
  | none =>
      cases s.qualifier with
      | none => rfl
      | some q => rfl
  | some v =>
      have other := v.2.ne_as
      have read := v.2.isVersion
      cases s.qualifier with
      | none =>
          simp only [Option.map_some, Option.map_none, Option.toList_some, List.append_nil, readWords,
            other, if_false, read, Option.isNone_none, Bool.and_self, if_true]
      | some q =>
          simp only [Option.map_some, Option.toList_some, List.singleton_append, readWords, other,
            if_false, read, Option.isNone_none, Bool.and_self, if_true]

theorem parse?_text {statement : Text} (kept : bare statement = s.text) :
    parse? statement = some s.import := by
  have keyword : Text.dropLead? "import".toList s.text =
      some (s.gap.text ++ (s.target.text ++ (s.versionText ++ s.qualifierText))) :=
    Text.dropLead?_eq_some_iff.mpr rfl
  have blank : (s.gap.text ++ (s.target.text ++ (s.versionText ++ s.qualifierText))).head?.any
      Text.isBlank = true := by
    obtain ⟨b, rest, parts⟩ := List.exists_cons_of_ne_nil s.gap.nonempty
    have first := apart_gap s.gap (s.target.text ++ (s.versionText ++ s.qualifierText)) b
    rw [parts] at first ⊢
    exact first rfl
  have target : Text.trimStart
      (s.gap.text ++ (s.target.text ++ (s.versionText ++ s.qualifierText))) =
        s.target.text ++ (s.versionText ++ s.qualifierText) := by
    rw [Text.trimStart_append s.gap.blank]
    exact Text.trimStart_eq_self (s.target.startsVisible _)
  have named : s.target.name.isEmpty = false := by
    rw [List.isEmpty_eq_false_iff]
    cases s.target with
    | module name unquoted => exact name.nonempty
    | path p nonempty unquoted => exact nonempty
  simp only [parse?, kept, keyword, blank, if_true, target, s.readTarget?_text, named,
    Bool.false_eq_true, if_false, s.readWords_tail]
  rfl

end Spelling

/-- A statement is read as the import it was written for, whatever blanks stand around it and before
the semicolons after it. -/
theorem written_import_reads_back (s : Spelling) {lead gap trail : Text}
    (leadBlank : ∀ c ∈ lead, Text.isBlank c = true) (gapBlank : ∀ c ∈ gap, Text.isBlank c = true)
    (trailBlank : ∀ c ∈ trail, Text.isBlank c = true) (semicolons : Nat) :
    parse? (lead ++ (s.text ++ (gap ++ (List.replicate semicolons ';' ++ trail)))) =
      some s.import := by
  obtain ⟨c, last, visible, other⟩ := s.endsStatement_text
  have nonempty : s.text ≠ [] := List.cons_ne_nil _ _
  have ends : Text.EndsVisible s.text := by
    intro d hd
    cases last.symm.trans hd
    exact visible
  have unended : s.text.getLast? ≠ some ';' := by
    intro semicolon
    cases last.symm.trans semicolon
    exact other rfl
  apply s.parse?_text
  cases semicolons with
  | zero =>
      -- Without semicolons the two blank parts after the statement are one.
      exact bare_unended leadBlank (List.forall_mem_append.mpr ⟨gapBlank, trailBlank⟩) nonempty
        s.startsVisible_text ends unended
  | succ n =>
      exact bare_around leadBlank gapBlank trailBlank nonempty s.startsVisible_text ends
        (fun _ => unended) nofun

/-- A path that holds a semicolon, blanks and `as`, a qualifier that looks like a version, and blanks
of all kinds. -/
theorem written_import_reads_back_of_odd_path :
    let statement := "\n import\t\"a; as b 1.0\"  6.0\n as  2.15 ;;\t".toList
    parse? statement = some
      { target := "a; as b 1.0".toList, version := some "6.0".toList
        qualifier := some "2.15".toList, isPath := true
        raw := "import\t\"a; as b 1.0\"  6.0\n as  2.15".toList } := by
  intro statement
  let spelling : Spelling :=
    { gap := ⟨"\t".toList, by decide, by decide⟩
      target := .path "a; as b 1.0".toList (by decide) (by decide)
      version := some (⟨"  ".toList, by decide, by decide⟩,
        ⟨"6.0".toList, by decide, '6', rfl, rfl⟩)
      qualifier := some (⟨"\n ".toList, by decide, by decide⟩, ⟨"  ".toList, by decide, by decide⟩,
        ⟨⟨"2.15".toList, by decide, by decide⟩, by decide⟩) }
  have lead : ∀ c ∈ "\n ".toList, Text.isBlank c = true := by decide
  have gap : ∀ c ∈ " ".toList, Text.isBlank c = true := by decide
  have trail : ∀ c ∈ "\t".toList, Text.isBlank c = true := by decide
  exact written_import_reads_back spelling lead gap trail 2

/-! ### Reading what is displayed -/

theorem parse?_congr {s s' : Text} (same : bare s = bare s') : parse? s = parse? s' := by
  unfold parse?
  rw [same]

/-- What is displayed of an import starts and ends visible. It is read as that import, and has no
semicolon at its end, unless blanks stand between two semicolons at the end of the statement. -/
theorem displayed_import_reads_back_iff {s : Text} {i : Import} (parsed : parse? s = some i) :
    Text.StartsVisible i.raw ∧ Text.EndsVisible i.raw ∧
      (i.raw.getLast? = some ';' ↔ SpacesSemicolons s) ∧
      (parse? i.display = some i ↔ ¬ SpacesSemicolons s) := by
  have raw := raw_of_parse? parsed
  rw [display, raw, ← getLast?_bare_iff]
  refine ⟨startsVisible_bare s, endsVisible_bare s, Iff.rfl, ?_⟩
  rw [← ne_eq, ← bare_bare_iff]
  constructor
  · intro again
    rw [← raw_of_parse? again, raw]
  · intro same
    rw [parse?_congr same, parsed]

/-- Semicolons that nothing stands between leave no trace. -/
theorem displayed_import_reads_back_of_path :
    let s := " import \"a b\" 2.0 as Q \n;; ".toList
    ∃ i, parse? s = some i ∧ i.display = "import \"a b\" 2.0 as Q".toList ∧
      ¬ SpacesSemicolons s ∧ parse? i.display = some i := by
  intro s
  let i : Import :=
    { target := "a b".toList, version := some "2.0".toList, qualifier := some "Q".toList
      isPath := true, raw := "import \"a b\" 2.0 as Q".toList }
  have parsed : parse? s = some i := by decide +kernel
  obtain ⟨_, _, semicolon, again⟩ := displayed_import_reads_back_iff parsed
  have apart : ¬ SpacesSemicolons s := by
    rw [← semicolon]
    decide
  exact ⟨i, parsed, rfl, apart, again.mpr apart⟩

/-- A blank between two semicolons leaves the first one at the end of the module's name, and reading
the import again gives another module. -/
theorem displayed_import_keeps_semicolon :
    let s := "import QtQuick; ;".toList
    ∃ i again, parse? s = some i ∧ i.raw.getLast? = some ';' ∧ i.target = "QtQuick;".toList ∧
      parse? i.display = some again ∧ again ≠ i ∧ again.target = "QtQuick".toList := by
  refine ⟨⟨"QtQuick;".toList, none, none, false, "import QtQuick;".toList⟩,
    ⟨"QtQuick".toList, none, none, false, "import QtQuick".toList⟩, ?_⟩
  decide +kernel

end Import

end QmlPreview
