import Mathlib.Data.List.SplitBy
import QmlPreview.Proofs.Rehosting

/-! Stripping as a filter. The body of a root is cut after every newline and every semicolon that
ends a statement directly in the root. What stripping keeps is every segment that assigns none of
the properties to remove, whole, and the brace that closes the root. -/

namespace QmlPreview

theorem splitBy_cons_cons {α : Type} (r : α → α → Bool) (a b : α) (l : List α) :
    (a :: b :: l).splitBy r =
      if r a b then ((b :: l).splitBy r).modifyHead (a :: ·) else [a] :: (b :: l).splitBy r := by
  cases related : r a b with
  | false =>
      have apart : ∀ x ∈ [a].getLast?, r x b = false := by
        rintro x ⟨rfl⟩
        exact related
      exact List.splitBy_append_cons l apart
  | true =>
      have full : (b :: l).splitBy r ≠ [] := List.splitBy_ne_nil.mpr (List.cons_ne_nil b l)
      obtain ⟨run, runs, split⟩ := List.exists_cons_of_ne_nil full
      obtain ⟨whole, nonempty, chains, breaks⟩ := List.splitBy_eq_iff.mp split
      rw [split, if_pos rfl, List.modifyHead_cons]
      cases run with
      | nil => exact absurd List.mem_cons_self nonempty
      | cons c run =>
          obtain ⟨rfl, rest⟩ := List.cons.inj whole
          rw [List.forall_mem_cons] at chains
          rw [List.isChain_cons] at breaks
          refine List.splitBy_eq_iff.mpr ⟨?_, ?_, ?_, ?_⟩
          · rw [rest]
            rfl
          · simpa using nonempty
          · exact List.forall_mem_cons.mpr
              ⟨List.isChain_cons_cons.mpr ⟨related, chains.1⟩, chains.2⟩
          · refine List.isChain_cons.mpr ⟨fun later member => ?_, breaks.2⟩
            obtain ⟨_, full, ends⟩ := breaks.1 later member
            exact ⟨List.cons_ne_nil _ _, full, ends⟩

namespace Rehosting

open Lexeme (nested depthAfter staysOpen)

/-- The line assigns a property to remove: its name, with spaces and tabs before it and blanks and a
colon after it. -/
def Assigns (remove : Text → Bool) (line : Text) : Prop :=
  ∃ indent name gap value : Text, line = indent ++ (name ++ (gap ++ ':' :: value)) ∧
    (∀ c ∈ indent, isIndent c = true) ∧ name ≠ [] ∧ (∀ c ∈ name, isNameChar c = true) ∧
    (∀ c ∈ gap, Text.isBlank c = true) ∧ remove name = true

theorem isNameChar_of_isBlank {c : Char} (h : Text.isBlank c = true) : isNameChar c = false :=
  (Bool.or_eq_false_iff.mp (ElementHead.isNameChar_of_isBlank h)).1

theorem isIndent_of_isNameChar {c : Char} (h : isNameChar c = true) : isIndent c = false := by
  simp only [isIndent, Bool.or_eq_false_iff, beq_eq_false_iff_ne]
  constructor
  all_goals
    rintro rfl
    cases h

theorem assignedName?_eq_some_iff {line name : Text} : assignedName? line = some name ↔
    ∃ gap value : Text, line = name ++ (gap ++ ':' :: value) ∧ name ≠ [] ∧
      (∀ c ∈ name, isNameChar c = true) ∧ ∀ c ∈ gap, Text.isBlank c = true := by
  constructor
  · intro assigned
    simp only [assignedName?] at assigned
    split at assigned
    · rename_i found
      cases assigned
      simp only [Bool.and_eq_true, Bool.not_eq_true', List.isEmpty_eq_false_iff,
        beq_iff_eq] at found
      obtain ⟨value, colon⟩ := List.head?_eq_some_iff.mp found.2
      obtain ⟨gap, blank, parts⟩ := Text.exists_trimStart (line.dropWhile isNameChar)
      rw [colon] at parts
      refine ⟨gap, value, ?_, found.1, List.all_eq_true.mp List.all_takeWhile, blank⟩
      rw [← parts, List.takeWhile_append_dropWhile]
    · cases assigned
  · rintro ⟨gap, value, rfl, nonempty, chars, blank⟩
    have afterName : ∀ c ∈ (gap ++ ':' :: value).head?, isNameChar c = false := by
      cases gap with
      | nil =>
          rintro c ⟨rfl⟩
          rfl
      | cons d gap =>
          rintro c ⟨rfl⟩
          exact isNameChar_of_isBlank (blank d List.mem_cons_self)
    obtain ⟨taken, rest⟩ := ElementHead.takeWhile_dropWhile_append chars afterName
    have colon : Text.StartsVisible (':' :: value) := by
      rintro c ⟨rfl⟩
      rfl
    have shown := (Text.trimStart_append blank (':' :: value)).trans (Text.trimStart_eq_self colon)
    simp only [assignedName?, taken, rest, shown, List.head?_cons, beq_self_eq_true,
      Bool.and_true, Bool.not_eq_true', List.isEmpty_eq_false_iff, nonempty, ne_eq,
      not_false_eq_true, if_true]

theorem startsRemoved_iff {remove : Text → Bool} {line : Text} :
    startsRemoved remove line = true ↔ Assigns remove line := by
  simp only [startsRemoved, Option.any_eq_true, assignedName?_eq_some_iff]
  constructor
  · rintro ⟨name, ⟨gap, value, rest, nonempty, chars, blank⟩, removed⟩
    refine ⟨line.takeWhile isIndent, name, gap, value, ?_, List.all_eq_true.mp List.all_takeWhile,
      nonempty, chars, blank, removed⟩
    rw [← rest, List.takeWhile_append_dropWhile]
  · rintro ⟨indent, name, gap, value, rfl, spaces, nonempty, chars, blank, removed⟩
    refine ⟨name, ⟨gap, value, ?_, nonempty, chars, blank⟩, removed⟩
    refine (ElementHead.takeWhile_dropWhile_append spaces ?_).2
    obtain ⟨c, name, rfl⟩ := List.exists_cons_of_ne_nil nonempty
    rintro d ⟨rfl⟩
    exact isIndent_of_isNameChar (chars c List.mem_cons_self)

instance (remove : Text → Bool) (line : Text) : Decidable (Assigns remove line) :=
  decidable_of_iff _ startsRemoved_iff

/-- A segment ends with the lexeme, which is met at the given depth. -/
def endsSegment (p : Lexeme × Int) : Bool := endsStatement p.1 && p.2 == 0

/-- The characters of the lexemes, which begin at depth `d`, cut after each end of a segment. -/
def segmentsFrom (d : Int) (xs : List Lexeme) : List Text :=
  ((nested d xs).splitBy fun p _ => !endsSegment p).map fun segment => segment.map (·.1.char)

/-- The segments of a body: each ends with a statement directly in the root, but for the last. -/
def segments (body : Text) : List Text := segmentsFrom 0 (lex body)

/-- What is kept of a segment that others follow: all of it, or nothing if it is removed, but for
the last one, which leaves the closing brace. -/
def keepSegment (removed : Bool) (segment : Text) (later : List Text) : Text :=
  if removed then if later.isEmpty then ['}'] else [] else segment

/-- What is kept of the segments in order. The colon of an assignment may stand on a later line than
its name, so an assignment is looked for in all of the text from the segment on. -/
def keepSegments (remove : Text → Bool) : List Text → Text
  | [] => []
  | segment :: later =>
    keepSegment (decide (Assigns remove (segment ++ later.flatten))) segment later ++
      keepSegments remove later

theorem flatten_segmentsFrom (d : Int) (xs : List Lexeme) :
    (segmentsFrom d xs).flatten = xs.map (·.char) := by
  have chars := congrArg (List.map Lexeme.char) (Lexeme.map_fst_nested d xs)
  rw [List.map_map] at chars
  rw [segmentsFrom, ← List.map_flatten, List.flatten_splitBy]
  exact chars

theorem flatten_segments (body : Text) : (segments body).flatten = body := by
  rw [segments, flatten_segmentsFrom, Lexer.map_char_lex]

section
variable {x : Lexeme}

theorem isBrace_of_endsStatement (h : endsStatement x = true) : x.isBrace = false := by
  rcases Lexeme.brace_cases x with rfl | rfl | other
  · cases h
  · cases h
  · exact other

theorem segmentsFrom_ends {d : Int} (h : endsSegment (x, d) = true) (y : Lexeme)
    (xs : List Lexeme) : segmentsFrom d (x :: y :: xs) =
      [x.char] :: segmentsFrom (depthAfter d x) (y :: xs) := by
  simp only [segmentsFrom, nested, splitBy_cons_cons, h, Bool.not_true, Bool.false_eq_true,
    if_false, List.map_cons, List.map_nil]

theorem segmentsFrom_goes_on {d : Int} (h : endsSegment (x, d) = false) (y : Lexeme)
    (xs : List Lexeme) : segmentsFrom d (x :: y :: xs) =
      (segmentsFrom (depthAfter d x) (y :: xs)).modifyHead (x.char :: ·) := by
  have full : (nested (depthAfter d x) (y :: xs)).splitBy (fun p _ => !endsSegment p) ≠ [] :=
    List.splitBy_ne_nil.mpr (List.cons_ne_nil _ _)
  obtain ⟨segment, later, split⟩ := List.exists_cons_of_ne_nil full
  simp only [segmentsFrom, nested, splitBy_cons_cons, h] at split ⊢
  simp only [split, Bool.not_false, if_true, List.modifyHead_cons, List.map_cons]

variable {σ : State} {remove : Text → Bool} {line : Text}

theorem depth_count (σ : State) (x : Lexeme) : (σ.count x).depth = depthAfter σ.depth x := by
  unfold State.count depthAfter
  split
  · rfl
  · split <;> rfl

theorem skipping_count {xs : List Lexeme}
    (h : staysOpen (σ.depth.toNat + 1) (x :: xs) = some 1) :
    (σ.count x).skipping = σ.skipping := by
  rcases Lexeme.brace_cases x with rfl | rfl | other
  · rfl
  · rw [Lexeme.staysOpen_close] at h
    split at h
    · cases h
    · rename_i deep
      rw [count_close (by omega)]
  · rw [count_other other]

theorem endsSegment_depthAfter (d : Int) (x : Lexeme) :
    endsSegment (x, depthAfter d x) = endsSegment (x, d) := by
  simp only [endsSegment]
  cases ends : endsStatement x with
  | true => rw [Lexeme.depthAfter_other d (isBrace_of_endsStatement ends)]
  | false => rfl

theorem stripFrom_cons (remove : Text → Bool) (σ : State) (x : Lexeme) (xs : List Lexeme) :
    stripFrom remove σ (x :: xs) =
      (if (σ.meet remove ((x :: xs).map (·.char)) x).skipping then [] else [x.char]) ++
        stripFrom remove ((σ.meet remove ((x :: xs).map (·.char)) x).leave x) xs := by
  unfold State.meet
  simp only [stripFrom]
  split <;> rfl

/-- Where no segment ends, no removal begins. -/
theorem enter_leave (h : endsSegment (x, σ.depth) = false) :
    ((σ.leave x).enter remove line).skipping = σ.skipping := by
  simp only [endsSegment] at h
  simp only [State.leave, h, Bool.false_eq_true, if_false, State.enter]
  split
  · rename_i begins
    simp only [Bool.and_eq_true] at begins
    simp only [endsStatement, begins.1.1, begins.1.2, Bool.true_or, Bool.and_self] at h
    cases h
  · rfl

theorem leave_of_endsSegment (h : endsSegment (x, σ.depth) = true) : σ.leave x = {} := by
  obtain ⟨depth, start, skipping⟩ := σ
  have root : depth = 0 := beq_iff_eq.mp (Bool.and_eq_true_iff.mp h).2
  subst root
  exact if_pos h

/-- A segment is removed if it starts with an assignment to remove. -/
theorem enter_start : (State.enter {} remove line).skipping = decide (Assigns remove line) := by
  rw [Bool.eq_iff_iff, decide_eq_true_iff]
  exact startsRemoved_iff

end

/-- Stripping the rest of a segment and all that follows it. -/
theorem stripFrom_eq (remove : Text → Bool) {σ : State} (depth : 0 ≤ σ.depth) {xs : List Lexeme}
    (h : staysOpen (σ.depth.toNat + 1) xs = some 1) :
    ∃ segment later, segmentsFrom σ.depth (xs ++ [⟨'}', .code⟩]) = segment :: later ∧
      stripFrom remove σ (xs ++ [⟨'}', .code⟩]) =
        keepSegment (σ.enter remove ((xs ++ [⟨'}', .code⟩] : List Lexeme).map (·.char))).skipping
          segment later ++ keepSegments remove later := by
  induction xs generalizing σ with
  | nil =>
      have root : σ.depth = 0 := by
        simp only [Lexeme.staysOpen_nil, Option.some.injEq] at h
        omega
      refine ⟨['}'], [], rfl, ?_⟩
      have kept := count_root (s := σ.enter remove ['}']) (by rw [depth_enter, root])
      simp only [List.nil_append, stripFrom, List.map_cons, List.map_nil, kept, keepSegment,
        keepSegments, List.isEmpty_nil, if_true, ite_self, List.append_nil, Bool.false_eq_true,
        if_false]
  | cons x xs ih =>
      let line := (x :: (xs ++ [⟨'}', .code⟩])).map (·.char)
      have counts := counts_meet remove line depth h
      have met : (σ.meet remove line x).skipping = (σ.enter remove line).skipping :=
        skipping_count (by rwa [depth_enter])
      have deeper : (σ.meet remove line x).depth = depthAfter σ.depth x := by
        rw [State.meet, depth_count, depth_enter]
      obtain ⟨segment, later, split, stripped⟩ := ih (σ := (σ.meet remove line x).leave x)
        (by rw [depth_leave]; exact counts.depth) (by rw [depth_leave]; exact counts.stays)
      obtain ⟨y, ys, more⟩ := List.exists_cons_of_ne_nil
        (List.append_ne_nil_of_right_ne_nil xs (List.cons_ne_nil (⟨'}', .code⟩ : Lexeme) []))
      have parts := flatten_segmentsFrom (depthAfter σ.depth x) (xs ++ [⟨'}', .code⟩])
      have same := endsSegment_depthAfter σ.depth x
      rw [depth_leave, deeper] at split
      rw [← deeper] at same
      rw [split, List.flatten_cons] at parts
      rw [List.cons_append, stripFrom_cons, stripped, met]
      cases ends : endsSegment (x, σ.depth) with
      | true =>
          -- The next segment is met in the state that stripping starts in.
          refine ⟨[x.char], segment :: later, ?_, ?_⟩
          · rw [more] at split ⊢
            rw [segmentsFrom_ends ends, split]
          · rw [leave_of_endsSegment (same.trans ends), keepSegments, parts, enter_start]
            unfold keepSegment
            split <;> rfl
      | false =>
          rw [enter_leave (same.trans ends), met]
          refine ⟨x.char :: segment, later, ?_, ?_⟩
          · rw [more] at split ⊢
            rw [segmentsFrom_goes_on ends, split, List.modifyHead_cons]
          · unfold keepSegment
            split <;> rfl

theorem flatten_segmentsFrom_cons {d : Int} {xs : List Lexeme} {segment : Text}
    {later : List Text} (h : segmentsFrom d xs = segment :: later) :
    segment ++ later.flatten = xs.map (·.char) := by
  rw [← flatten_segmentsFrom d xs, h, List.flatten_cons]

/-- What is not removed is kept whole. -/
theorem infix_keepSegments {remove : Text → Bool} {before later : List Text} {segment : Text}
    (h : ¬ Assigns remove (segment ++ later.flatten)) :
    segment <:+: keepSegments remove (before ++ segment :: later) := by
  induction before with
  | nil =>
      simp only [List.nil_append, keepSegments, keepSegment, h, decide_false, Bool.false_eq_true,
        if_false]
      exact ⟨[], keepSegments remove later, rfl⟩
  | cons first before ih => exact ih.trans (List.suffix_append _ _).isInfix

/-- Stripping the body of the root of an accepted document keeps each of its segments that assigns
none of the properties to remove, nested text and all, and the brace that closes the root. -/
theorem stripping_filters_segments {t : Text} {parts : Parts} (taken : decompose t = .ok parts)
    (remove : Text → Bool) :
    (segments parts.rootBody).flatten = parts.rootBody ∧
      strip parts.rootBody remove = keepSegments remove (segments parts.rootBody) ∧
      (∀ before segment later, segments parts.rootBody = before ++ segment :: later →
        ¬ Assigns remove (segment ++ later.flatten) →
          segment <:+: strip parts.rootBody remove) ∧
      ∃ kept, strip parts.rootBody remove = kept ++ ['}'] := by
  obtain ⟨body, _, lexed, stays, _⟩ := exists_rootBody taken
  obtain ⟨segment, later, split, stripped⟩ :=
    stripFrom_eq remove (σ := {}) (Int.le_refl 0) stays
  have filtered : strip parts.rootBody remove =
      keepSegments remove (segments parts.rootBody) := by
    rw [strip, segments, lexed, stripped, split, keepSegments, flatten_segmentsFrom_cons split,
      enter_start]
  refine ⟨flatten_segments parts.rootBody, filtered, fun before kept rest cut unassigned => ?_, ?_⟩
  · rw [filtered, cut]
    exact infix_keepSegments unassigned
  · obtain ⟨kept, closed, _⟩ := @exists_keptFrom remove {} (Int.le_refl 0) _ stays
    refine ⟨kept.map (·.char), ?_⟩
    rw [strip, lexed, ← map_char_keptFrom, closed, List.map_append]
    rfl

/-- An assignment goes to the semicolon, and one of an element to the end of the line that closes
it; the last one leaves the brace of the root. What a kept element or a literal holds stays. -/
theorem stripping_filters_segments_of_page :
    let t := ("Page \x7b\n\tx: 9; Text \x7b\n  x: 1\n\x7d\n".toList ++
      "  menuBar: Bar \x7b\n  y: 2\n\x7d\n  title: `a\nx: 2`\n  y: 3 \x7d".toList)
    ∃ parts, decompose t = .ok parts ∧
      segments parts.rootBody =
        ["\n".toList, "\tx: 9;".toList, " Text \x7b\n  x: 1\n\x7d\n".toList,
          "  menuBar: Bar \x7b\n  y: 2\n\x7d\n".toList, "  title: `a\nx: 2`\n".toList,
          "  y: 3 \x7d".toList] ∧
      strip parts.rootBody Container.applicationWindow.loses =
        "\n Text \x7b\n  x: 1\n\x7d\n  title: `a\nx: 2`\n\x7d".toList := by
  intro t
  let parts : Parts :=
    { pragmas := [], imports := [], contentStart := 0, content := t
      rootType := "Page".toList, rootOpen := 5 }
  have taken : decompose t = .ok parts := decompose_of_toOption (by decide +kernel)
  obtain ⟨_, filtered, _⟩ := stripping_filters_segments taken Container.applicationWindow.loses
  exact ⟨parts, taken, by decide +kernel, filtered.trans (by decide +kernel)⟩

end Rehosting

end QmlPreview
