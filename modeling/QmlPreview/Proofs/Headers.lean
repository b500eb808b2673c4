import QmlPreview.Document.Header
import QmlPreview.Proofs.Blanks

/-! Reading a header gives well-formed statements, and printing such statements one a line and reading
them again gives them back. -/

namespace QmlPreview

namespace Keyword

theorem startsText_iff {k : Keyword} {t : Text} :
    startsText k t = true ↔
      ∃ rest : Text, t = k.spelling ++ rest ∧ rest.head?.any Text.isBlank = true := by
  unfold startsText
  cases dropped : Text.dropLead? k.spelling t with
  | none =>
      simp only [Bool.false_eq_true, false_iff, not_exists, not_and]
      intro rest parts
      rw [Text.dropLead?_eq_some_iff.mpr parts] at dropped
      cases dropped
  | some rest =>
      rw [Text.dropLead?_eq_some_iff] at dropped
      subst dropped
      simp only [List.append_cancel_left_eq]
      constructor
      · intro blank
        exact ⟨rest, rfl, blank⟩
      · rintro ⟨rest', rfl, blank⟩
        exact blank

theorem startsText_unique {k k' : Keyword} {t : Text} (h : startsText k t = true)
    (h' : startsText k' t = true) : k = k' := by
  obtain ⟨rest, rfl, _⟩ := startsText_iff.mp h
  obtain ⟨rest', same, _⟩ := startsText_iff.mp h'
  have first := congrArg List.head? same
  cases k <;> cases k'
  · rfl
  · exact absurd (Option.some.inj first) (by decide)
  · exact absurd (Option.some.inj first) (by decide)
  · rfl

theorem ofText?_eq_some_iff {k : Keyword} {t : Text} :
    ofText? t = some k ↔ startsText k t = true := by
  unfold ofText?
  constructor
  · intro h
    split at h
    · cases h
      assumption
    · split at h
      · cases h
        assumption
      · cases h
  · intro h
    split
    · rename_i other
      rw [startsText_unique other h]
    · rename_i notImport
      cases k with
      | «import» => exact absurd h notImport
      | pragma => rw [if_pos h]

theorem endsVisible_spelling (k : Keyword) : Text.EndsVisible k.spelling := by
  unfold Text.EndsVisible
  cases k <;> decide

theorem spelling_noEnd (k : Keyword) : ∀ c ∈ k.spelling, Statement.isEnd c = false := by
  cases k <;> decide

theorem startsVisible_spelling (k : Keyword) (t : Text) :
    Text.StartsVisible (k.spelling ++ t) := by
  cases k <;> exact fun c hc => by cases hc; rfl

end Keyword

namespace Statement

/-- The statement is one that reading a header can give: its keyword, alone or with a blank after it,
and no character that would end it. -/
structure WellFormed (s : Statement) : Prop where
  spelled : ∃ tail : Text, s.text = s.keyword.spelling ++ tail ∧
    ∀ c ∈ tail.head?, Text.isBlank c = true
  noEnd : ∀ c ∈ s.text, isEnd c = false
  endsVisible : Text.EndsVisible s.text

theorem readAll_of_none {t : Text} (h : Keyword.ofText? (Text.trimStart t) = none) :
    readAll t = ([], Text.trimStart t) := by
  rw [readAll]
  split
  · rfl
  · rename_i k statement
    rw [h] at statement
    cases statement

theorem readAll_nil : readAll [] = ([], []) := readAll_of_none Keyword.ofText?_nil

theorem readAll_of_some {t : Text} {k : Keyword}
    (h : Keyword.ofText? (Text.trimStart t) = some k) :
    readAll t =
      (⟨k, Text.trimEnd ((Text.trimStart t).takeWhile (fun c => !isEnd c))⟩ ::
        (readAll ((Text.trimStart t).dropWhile (fun c => !isEnd c)).tail).1,
      (readAll ((Text.trimStart t).dropWhile (fun c => !isEnd c)).tail).2) := by
  rw [readAll]
  split
  · rename_i statement
    rw [h] at statement
    cases statement
  · rename_i k' statement
    rw [h] at statement
    cases statement
    rfl

theorem wellFormed_first {k : Keyword} {start : Text} (h : Keyword.startsText k start = true) :
    WellFormed ⟨k, Text.trimEnd (start.takeWhile (fun c => !isEnd c))⟩ := by
  obtain ⟨rest, rfl, blank⟩ := Keyword.startsText_iff.mp h
  have whole : (k.spelling ++ rest).takeWhile (fun c => !isEnd c) =
      k.spelling ++ rest.takeWhile (fun c => !isEnd c) :=
    List.takeWhile_append_of_pos fun c hc => by rw [k.spelling_noEnd c hc]; rfl
  rw [whole]
  refine ⟨⟨Text.trimEnd (rest.takeWhile (fun c => !isEnd c)), ?_, ?_⟩, ?_, ?_⟩
  · exact Text.trimEnd_append_visible k.endsVisible_spelling _
  · intro c hc
    have first := Text.head?_trimEnd hc
    cases rest with
    | nil => cases first
    | cons d rest =>
        rw [List.takeWhile_cons] at first
        split at first
        · cases first
          exact blank
        · cases first
  · intro c hc
    rcases List.mem_append.mp (Text.mem_of_mem_trimEnd hc) with inKeyword | inRest
    · exact k.spelling_noEnd c inKeyword
    · exact Bool.not_eq_true' _ |>.mp (List.all_eq_true.mp List.all_takeWhile c inRest)
  · exact Text.endsVisible_trimEnd _

theorem wellFormed_of_mem_readAll {t : Text} {s : Statement} (h : s ∈ (readAll t).1) :
    s.WellFormed := by
  induction t using readAll.induct with
  | case1 t none =>
      rw [readAll_of_none none] at h
      cases h
  | case2 t k statement _ _ _ _ ih =>
      rw [readAll_of_some statement, List.mem_cons] at h
      rcases h with rfl | later
      · exact wellFormed_first (Keyword.ofText?_eq_some_iff.mp statement)
      · exact ih later

/-- What is left of a text after its header starts visible and with no keyword, and the header before
it ends in a blank or in the end of a statement. -/
theorem exists_readAll (t : Text) : ∃ header : Text, t = header ++ (readAll t).2 ∧
    Text.StartsVisible (readAll t).2 ∧ Keyword.ofText? (readAll t).2 = none ∧
    ((readAll t).2 ≠ [] → ∀ c ∈ header.getLast?, isEnd c = true ∨ Text.isBlank c = true) := by
  induction t using readAll.induct with
  | case1 t none =>
      obtain ⟨lead, blank, parts⟩ := Text.exists_trimStart t
      rw [readAll_of_none none]
      exact ⟨lead, parts, Text.startsVisible_trimStart t, none,
        fun _ c hc => .inr (blank c (List.mem_of_getLast? hc))⟩
  | case2 t k statement _ _ _ _ ih =>
      rw [readAll_of_some statement]
      obtain ⟨later, split, visible, noKeyword, ends⟩ := ih
      obtain ⟨lead, _, parts⟩ := Text.exists_trimStart t
      have body : (Text.trimStart t).takeWhile (fun c => !isEnd c) ++
          (Text.trimStart t).dropWhile (fun c => !isEnd c) = Text.trimStart t :=
        List.takeWhile_append_dropWhile
      refine ⟨lead ++ (Text.trimStart t).takeWhile (fun c => !isEnd c) ++
        ((Text.trimStart t).dropWhile (fun c => !isEnd c)).take 1 ++ later, ?_, visible, noKeyword, ?_⟩
      · rw [List.append_assoc, ← split, List.append_assoc, ← List.drop_one, List.take_append_drop,
          List.append_assoc, body, ← parts]
      · intro nonempty c hc
        cases later with
        | cons d later =>
            rw [Text.getLast?_append_of_ne_nil _ (List.cons_ne_nil d later)] at hc
            exact ends nonempty c hc
        | nil =>
            -- The statement ends right before what is left, so it ends with what ends statements.
            rw [List.append_nil] at hc
            cases last : (Text.trimStart t).dropWhile (fun c => !isEnd c) with
            | nil =>
                rw [last, List.tail_nil, readAll_nil] at nonempty
                exact absurd rfl nonempty
            | cons d tail =>
                rw [last, List.take_succ_cons, List.take_zero, List.getLast?_append,
                  List.getLast?_singleton, Option.some_or, Option.mem_some_iff] at hc
                subst hc
                have stop := List.head?_dropWhile_not (fun c => !isEnd c) (Text.trimStart t)
                rw [last] at stop
                exact .inl (Bool.not_eq_false' _ |>.mp stop)

theorem WellFormed.startsVisible {s : Statement} (h : s.WellFormed) (t : Text) :
    Text.StartsVisible (s.text ++ t) := by
  obtain ⟨tail, spelled, _⟩ := h.spelled
  rw [spelled, List.append_assoc]
  exact s.keyword.startsVisible_spelling _

/-- A line that starts with a keyword and has no end of a statement in it is read as one statement. -/
theorem readAll_spelled {k : Keyword} {tail : Text} (blank : ∀ c ∈ tail.head?, Text.isBlank c = true)
    (noEnd : ∀ c ∈ tail, isEnd c = false) (rest : Text) :
    readAll (k.spelling ++ tail ++ '\n' :: rest) =
      (⟨k, Text.trimEnd (k.spelling ++ tail)⟩ :: (readAll rest).1, (readAll rest).2) := by
  have trimmed : Text.trimStart (k.spelling ++ tail ++ '\n' :: rest) =
      k.spelling ++ tail ++ '\n' :: rest := by
    rw [List.append_assoc]
    exact Text.trimStart_eq_self (k.startsVisible_spelling _)
  have keyword : Keyword.ofText? (Text.trimStart (k.spelling ++ tail ++ '\n' :: rest)) = some k := by
    rw [trimmed, Keyword.ofText?_eq_some_iff, Keyword.startsText_iff]
    refine ⟨tail ++ '\n' :: rest, by rw [List.append_assoc], ?_⟩
    cases tail with
    | nil => rfl
    | cons c tail => exact blank c rfl
  have body : ∀ c ∈ k.spelling ++ tail, (!isEnd c) = true := by
    refine List.forall_mem_append.mpr ⟨fun c hc => ?_, fun c hc => ?_⟩
    · rw [k.spelling_noEnd c hc]
      rfl
    · rw [noEnd c hc]
      rfl
  have newline : (!isEnd '\n') = false := rfl
  rw [readAll_of_some keyword, trimmed, List.takeWhile_append_of_pos body,
    List.dropWhile_append_of_pos body]
  simp only [List.takeWhile_cons, List.dropWhile_cons, newline, Bool.false_eq_true, if_false,
    List.append_nil, List.tail_cons]

/-- A statement on a line of its own is read back as it is. -/
theorem readAll_line {s : Statement} (h : s.WellFormed) (rest : Text) :
    readAll (s.text ++ '\n' :: rest) = (s :: (readAll rest).1, (readAll rest).2) := by
  obtain ⟨tail, spelled, blank⟩ := h.spelled
  have noEnd : ∀ c ∈ tail, isEnd c = false := by
    intro c hc
    refine h.noEnd c ?_
    rw [spelled]
    exact List.mem_append_right _ hc
  have line := readAll_spelled (k := s.keyword) blank noEnd rest
  rwa [← spelled, Text.trimEnd_eq_self h.endsVisible] at line

def lines (ss : List Statement) : Text := ss.flatMap (fun s => s.text ++ ['\n'])

theorem readAll_lines {ss : List Statement} (h : ∀ s ∈ ss, s.WellFormed) (rest : Text) :
    readAll (lines ss ++ rest) = (ss ++ (readAll rest).1, (readAll rest).2) := by
  induction ss with
  | nil => rfl
  | cons s ss ih =>
      rw [List.forall_mem_cons] at h
      have first : lines (s :: ss) ++ rest = s.text ++ '\n' :: (lines ss ++ rest) := by
        simp only [lines, List.flatMap_cons, List.append_assoc, List.cons_append, List.nil_append]
      rw [first, readAll_line h.1, ih h.2]
      rfl

end Statement

namespace Import

theorem bare_eq_self {t : Text} (starts : Text.StartsVisible t) (ends : Text.EndsVisible t)
    (unended : ∀ c ∈ t, Statement.isEnd c = false) : bare t = t := by
  have last : t.reverse.dropWhile (· == ';') = t.reverse := by
    cases mirrored : t.reverse with
    | nil => rfl
    | cons c r =>
        have member : c ∈ t := List.mem_reverse.mp (by rw [mirrored]; exact List.mem_cons_self)
        have notEnd := unended c member
        simp only [Statement.isEnd, Bool.or_eq_false_iff] at notEnd
        simp only [List.dropWhile_cons, notEnd.2, Bool.false_eq_true, if_false]
  simp only [bare, Text.trim, Text.trimStart_eq_self starts, Text.trimEnd_eq_self ends, last,
    List.reverse_reverse]

theorem raw_of_parse? {t : Text} {i : Import} (h : parse? t = some i) : i.raw = bare t := by
  unfold parse? at h
  dsimp only at h
  split at h
  · cases h
  · split at h
    · split at h
      · cases h
      · split at h
        · cases h
        · cases h
          rfl
    · cases h

theorem raw_eq_text {s : Statement} (hs : s.WellFormed) {i : Import}
    (h : parse? s.text = some i) : i.raw = s.text := by
  rw [raw_of_parse? h]
  refine bare_eq_self ?_ hs.endsVisible hs.noEnd
  simpa only [List.append_nil] using hs.startsVisible []

end Import

namespace Header

def statements (h : Header) : List Statement :=
  h.pragmas.map (fun t => ⟨.pragma, t⟩) ++ h.imports.map (fun i => ⟨.«import», i.raw⟩)

theorem filter_keyword {α : Type} (f : α → Statement) {k : Keyword}
    (h : ∀ a, (f a).keyword = k) (as : List α) :
    (as.map f).filter (·.keyword = k) = as.map f := by
  refine List.filter_eq_self.mpr ?_
  intro s hs
  obtain ⟨a, _, rfl⟩ := List.mem_map.mp hs
  exact decide_eq_true (h a)

theorem filter_other_keyword {α : Type} (f : α → Statement) {k : Keyword}
    (h : ∀ a, (f a).keyword ≠ k) (as : List α) : (as.map f).filter (·.keyword = k) = [] := by
  refine List.filter_eq_nil_iff.mpr ?_
  intro s hs
  obtain ⟨a, _, rfl⟩ := List.mem_map.mp hs
  simpa only [decide_eq_true_eq] using h a

section
variable {ss : List Statement} (wellFormed : ∀ s ∈ ss, s.WellFormed) (n : Nat)
include wellFormed

theorem wellFormed_of_pragma {t : Text} (ht : t ∈ (ofStatements ss n).pragmas) :
    Statement.WellFormed ⟨.pragma, t⟩ := by
  simp only [ofStatements, List.mem_map, List.mem_filter, decide_eq_true_eq] at ht
  obtain ⟨⟨keyword, text⟩, ⟨member, rfl⟩, rfl⟩ := ht
  exact wellFormed _ member

theorem statement_of_import {i : Import} (hi : i ∈ (ofStatements ss n).imports) :
    Statement.WellFormed ⟨.«import», i.raw⟩ ∧ Import.parse? i.raw = some i := by
  simp only [ofStatements, List.mem_filterMap, List.mem_filter, decide_eq_true_eq] at hi
  obtain ⟨⟨keyword, text⟩, ⟨member, rfl⟩, parsed⟩ := hi
  have kept := Import.raw_eq_text (wellFormed _ member) parsed
  rw [kept]
  exact ⟨wellFormed _ member, parsed⟩

theorem wellFormed_statements : ∀ s ∈ (ofStatements ss n).statements, s.WellFormed := by
  intro s hs
  simp only [statements, List.mem_append, List.mem_map] at hs
  rcases hs with ⟨t, ht, rfl⟩ | ⟨i, hi, rfl⟩
  · exact wellFormed_of_pragma wellFormed n ht
  · exact (statement_of_import wellFormed n hi).1

/-- The statements that repeat a header are read as that header, whatever imports come after them. -/
theorem ofStatements_statements (added : List Import) (m : Nat)
    (ha : ∀ i ∈ added, Import.parse? i.raw = some i) :
    ofStatements ((ofStatements ss n).statements ++ added.map (fun i => ⟨.«import», i.raw⟩)) m =
      ⟨(ofStatements ss n).pragmas, (ofStatements ss n).imports ++ added, m⟩ := by
  have imports (is : List Import) (h : ∀ i ∈ is, Import.parse? i.raw = some i) :
      (is.map (fun i => (⟨.«import», i.raw⟩ : Statement))).filterMap (Import.parse? ·.text) =
        is := by
    induction is with
    | nil => rfl
    | cons i is ih =>
        rw [List.forall_mem_cons] at h
        simp only [List.map_cons, List.filterMap_cons, h.1, ih h.2]
  have own : ∀ i ∈ (ofStatements ss n).imports, Import.parse? i.raw = some i :=
    fun i hi => (statement_of_import wellFormed n hi).2
  have names : ((ofStatements ss n).pragmas.map (fun t => (⟨.pragma, t⟩ : Statement))).map
      (·.text) = (ofStatements ss n).pragmas := by
    rw [List.map_map]
    exact List.map_id _
  rw [ofStatements.eq_1 (_ ++ _)]
  simp only [statements, List.filter_append, List.filterMap_append,
    filter_keyword (Statement.mk .pragma) fun _ => rfl,
    filter_keyword (fun i : Import => ⟨.«import», i.raw⟩) fun _ => rfl,
    filter_other_keyword (Statement.mk .pragma) (k := .«import») fun _ => nofun,
    filter_other_keyword (fun i : Import => ⟨.«import», i.raw⟩) (k := .pragma) fun _ => nofun,
    imports _ own, imports _ ha, List.append_nil, List.nil_append, names]

end

end Header

end QmlPreview
