import QmlPreview.Proofs.RemovalLines
import QmlPreview.Proofs.Tokenization

/-! The members of a re-hosted root. A member is meant to be removed whole or kept whole, and a removal
goes from line to line, so the two agree where no line break and no comment comes between them. -/

namespace QmlPreview

open Lexeme (nested depthAfter staysOpen maskedText)

/-- The lexeme is a blank of code or belongs to a comment. -/
def Lexeme.isTrivia (x : Lexeme) : Bool :=
  x.region.isComment || (x.region == .code && Text.isBlank x.char)

namespace Rehosting

/-- What a property is assigned: an expression, or an element with blanks before its two parts. -/
inductive Value where
  | expression (xs : List Lexeme)
  | element (indent typeName gap : Text) (inner : List Lexeme)

namespace Value

def lexemes : Value → List Lexeme
  | expression xs => xs
  | element indent typeName gap inner =>
    Region.code.mark indent ++ (Region.code.mark typeName ++ (Region.code.mark gap ++
      ⟨'{', .code⟩ :: (inner ++ [⟨'}', .code⟩])))

/-- An expression ends before the newline or semicolon that ends its line. -/
def WellFormed : Value → Prop
  | expression xs => (∃ x ∈ xs, x.isTrivia = false) ∧ staysOpen 1 xs = some 1 ∧
      ∀ p ∈ nested 0 xs, endsSegment p = false
  | element indent typeName gap inner =>
      (∀ c ∈ indent, Text.isBlank c = true) ∧ typeName ≠ [] ∧
        (∀ c ∈ typeName, ElementHead.isNameChar c = true) ∧
        (∀ c ∈ gap, Text.isBlank c = true) ∧ staysOpen 1 inner = some 1

instance : DecidablePred WellFormed
  | expression xs => inferInstanceAs (Decidable ((∃ x ∈ xs, x.isTrivia = false) ∧
      staysOpen 1 xs = some 1 ∧ ∀ p ∈ nested 0 xs, endsSegment p = false))
  | element indent typeName gap inner =>
    inferInstanceAs (Decidable ((∀ c ∈ indent, Text.isBlank c = true) ∧ typeName ≠ [] ∧
      (∀ c ∈ typeName, ElementHead.isNameChar c = true) ∧
      (∀ c ∈ gap, Text.isBlank c = true) ∧ staysOpen 1 inner = some 1))

def OnOneLine : Value → Prop
  | expression _ => True
  | element indent _ gap _ => '\n' ∉ indent ∧ '\n' ∉ gap

instance : DecidablePred OnOneLine
  | expression _ => inferInstanceAs (Decidable True)
  | element indent _ gap _ => inferInstanceAs (Decidable ('\n' ∉ indent ∧ '\n' ∉ gap))

end Value

/-- A direct member of the root: an assignment, or an element or declaration. -/
inductive Member where
  | assignment (name gap : Text) (value : Value)
  | other (xs : List Lexeme)

namespace Member

def lexemes : Member → List Lexeme
  | assignment name gap value =>
    Region.code.mark name ++ (Region.code.mark gap ++ ⟨':', .code⟩ :: value.lexemes)
  | other xs => xs

/-- The lexeme can be the first one of an element or a declaration. -/
def startsWord (x : Lexeme) : Bool :=
  x.region == .code && !(Text.isBlank x.char || ['{', '}', ':', ';'].contains x.char)

/-- An element or declaration starts with a word and, comments apart, assigns nothing to be lost. -/
def WellFormed (c : Container) : Member → Prop
  | assignment name gap value => name ≠ [] ∧ (∀ d ∈ name, isNameChar d = true) ∧
      (∀ d ∈ gap, Text.isBlank d = true) ∧ value.WellFormed
  | other xs => xs.head?.any startsWord = true ∧
      staysOpen 1 xs = some 1 ∧ ∀ name ∈ assignedName? (maskedText xs), c.loses name = false

instance (c : Container) : DecidablePred (WellFormed c)
  | assignment name gap value => inferInstanceAs (Decidable (name ≠ [] ∧
      (∀ d ∈ name, isNameChar d = true) ∧ (∀ d ∈ gap, Text.isBlank d = true) ∧ value.WellFormed))
  | other xs => inferInstanceAs (Decidable (xs.head?.any startsWord = true ∧
      staysOpen 1 xs = some 1 ∧ ∀ name ∈ assignedName? (maskedText xs), c.loses name = false))

/-- The member assigns a property that the replacement of the root does not have. -/
def isLost (c : Container) : Member → Bool
  | assignment name _ _ => c.loses name
  | other _ => false

/-- The name, the colon and the head of an assigned element stand on one line. -/
def OnOneLine : Member → Prop
  | assignment _ gap value => '\n' ∉ gap ∧ value.OnOneLine
  | other _ => True

instance : DecidablePred OnOneLine
  | assignment _ gap value => inferInstanceAs (Decidable ('\n' ∉ gap ∧ value.OnOneLine))
  | other _ => inferInstanceAs (Decidable True)

end Member

/-- A member with the blanks and comments before it, on the lines above and beside it, and with those
before the semicolon that ends it, if one does. -/
structure Item where
  above : List Lexeme
  beside : List Lexeme
  member : Member
  ending : Option (List Lexeme)

namespace Item

def lead (item : Item) : List Lexeme := item.above ++ item.beside

def closing (item : Item) : List Lexeme :=
  item.ending.elim [] (· ++ [⟨';', .code⟩])

def lexemes (item : Item) : List Lexeme := item.lead ++ (item.member.lexemes ++ item.closing)

structure WellFormed (c : Container) (item : Item) : Prop where
  above : ∀ x ∈ item.above, x.isTrivia = true
  newline : ∀ x ∈ item.above.getLast?, x.endsLine = true
  beside : ∀ x ∈ item.beside, x.isTrivia = true ∧ x.endsLine = false
  member : item.member.WellFormed c
  ending : ∀ gap ∈ item.ending, ∀ x ∈ gap, x.isTrivia = true

instance (c : Container) : DecidablePred (WellFormed c) := fun item =>
  decidable_of_iff ((∀ x ∈ item.above, x.isTrivia = true) ∧
      (∀ x ∈ item.above.getLast?, x.endsLine = true) ∧
      (∀ x ∈ item.beside, x.isTrivia = true ∧ x.endsLine = false) ∧ item.member.WellFormed c ∧
      ∀ gap ∈ item.ending, ∀ x ∈ gap, x.isTrivia = true)
    ⟨fun ⟨above, newline, beside, member, ending⟩ => ⟨above, newline, beside, member, ending⟩,
      fun h => ⟨h.above, h.newline, h.beside, h.member, h.ending⟩⟩

def line (item : Item) (after : Text) : Text :=
  (item.beside ++ item.member.lexemes).map (·.char) ++ after

/-- A member to lose is met where its line starts, and removed with that line. Any other member lies
on lines that read as no assignment to remove. -/
def Handled (c : Container) (item : Item) (after : Text) : Prop :=
  if item.member.isLost c then Assigns c.loses (item.line after) ∧ item.member.OnOneLine
  else ∀ p ∈ linesFrom after 0 (item.line after) item.member.lexemes,
    p.1.isTrivia = false → ¬ Assigns c.loses p.2

instance (c : Container) (item : Item) (after : Text) : Decidable (item.Handled c after) :=
  inferInstanceAs (Decidable (if item.member.isLost c then
    Assigns c.loses (item.line after) ∧ item.member.OnOneLine
    else ∀ p ∈ linesFrom after 0 (item.line after) item.member.lexemes,
      p.1.isTrivia = false → ¬ Assigns c.loses p.2))

end Item

/-- The body of a root as its members, each of which starts a line or follows a semicolon. -/
structure Layout (c : Container) (body : List Lexeme) (items : List Item) (trail : List Lexeme) :
    Prop where
  lexed : body = items.flatMap Item.lexemes ++ trail ++ [⟨'}', .code⟩]
  wellFormed : ∀ item ∈ items, item.WellFormed c
  separated : items.IsChain (fun item next => item.ending.isSome = true ∨ next.above ≠ [])
  trail : ∀ x ∈ trail, x.isTrivia = true

def textAfter (item : Item) (later : List Item) (trail : List Lexeme) : Text :=
  (item.closing ++ (later.flatMap Item.lexemes ++ trail)).map (·.char) ++ ['}']

/-- What marks a body, cut to the member of an item that others precede. -/
def memberMarks {α : Type} (marks : List α) (before : List Item) (item : Item) : List α :=
  (marks.drop (before.flatMap Item.lexemes ++ item.lead).length).take item.member.lexemes.length

/-- The code of every member to lose is removed, and that of every other member is kept. -/
def RemovesExactly (c : Container) (items : List Item) (marks : List (Lexeme × Bool)) : Prop :=
  ∀ i, (h : i < items.length) → ∀ p ∈ memberMarks marks (items.take i) items[i],
    p.1.isTrivia = false → p.2 = !items[i].member.isLost c

instance (c : Container) (items : List Item) (marks : List (Lexeme × Bool)) :
    Decidable (RemovesExactly c items marks) :=
  inferInstanceAs (Decidable (∀ i, (h : i < items.length) →
    ∀ p ∈ memberMarks marks (items.take i) items[i],
      p.1.isTrivia = false → p.2 = !items[i].member.isLost c))

section
variable {x : Lexeme}

theorem isBrace_of_isTrivia (h : x.isTrivia = true) : x.isBrace = false := by
  rcases Lexeme.brace_cases x with rfl | rfl | other
  · cases h
  · cases h
  · exact other

theorem endsStatement_of_isTrivia (h : x.isTrivia = true) : endsStatement x = x.endsLine := by
  have code : x.isCode ';' = false := by
    cases semicolon : x.isCode ';' with
    | false => rfl
    | true =>
        rw [Lexeme.eq_of_isCode semicolon] at h
        cases h
  rw [endsStatement, code, Bool.or_false]

theorem staysOpen_trivia {xs : List Lexeme} (h : ∀ x ∈ xs, x.isTrivia = true) (d : Nat) :
    staysOpen d xs = some d :=
  Lexeme.staysOpen_of_no_brace d fun x hx => isBrace_of_isTrivia (h x hx)

theorem quiet_of_no_end {d : Int} {xs : List Lexeme} (h : ∀ x ∈ xs, endsStatement x = false) :
    ∀ p ∈ nested d xs, endsSegment p = false := by
  intro p hp
  have member : p.1 ∈ xs := by
    rw [← Lexeme.map_fst_nested d xs]
    exact List.mem_map_of_mem hp
  rw [endsSegment, h p.1 member, Bool.false_and]

end

/-- The character stands in a name or between two words. -/
def isWordy (c : Char) : Bool := Text.isBlank c || ElementHead.isNameChar c

section
variable {t : Text}

theorem isWordy_of_blank (h : ∀ c ∈ t, Text.isBlank c = true) : ∀ c ∈ t, isWordy c = true :=
  fun c hc => by rw [isWordy, h c hc, Bool.true_or]

theorem isWordy_of_name (h : ∀ c ∈ t, ElementHead.isNameChar c = true) : ∀ c ∈ t, isWordy c = true :=
  fun c hc => by rw [isWordy, h c hc, Bool.or_true]

theorem nameChars_of_isNameChar (h : ∀ c ∈ t, isNameChar c = true) :
    ∀ c ∈ t, ElementHead.isNameChar c = true := by
  intro c hc
  have name : ElementHead.continuesIdentifier c = true := h c hc
  rw [ElementHead.isNameChar, name, Bool.true_or]

theorem noBrace_mark (h : ∀ c ∈ t, isWordy c = true) :
    ∀ x ∈ Region.code.mark t, x.isBrace = false := by
  intro x hx
  obtain ⟨c, hc, rfl⟩ := List.mem_map.mp hx
  rcases Lexeme.brace_cases ⟨c, .code⟩ with brace | brace | other
  · cases brace
    exact absurd (h '{' hc) (by decide)
  · cases brace
    exact absurd (h '}' hc) (by decide)
  · exact other

theorem staysOpen_mark (h : ∀ c ∈ t, isWordy c = true) (d : Nat) :
    staysOpen d (Region.code.mark t) = some d :=
  Lexeme.staysOpen_of_no_brace d (noBrace_mark h)

theorem noEnd_mark (h : ∀ c ∈ t, isWordy c = true) (unbroken : '\n' ∉ t) :
    ∀ x ∈ Region.code.mark t, endsStatement x = false := by
  intro x hx
  obtain ⟨c, hc, rfl⟩ := List.mem_map.mp hx
  have newline : c ≠ '\n' := by
    rintro rfl
    exact unbroken hc
  have semicolon : c ≠ ';' := by
    rintro rfl
    exact absurd (h ';' hc) (by decide)
  simp [endsStatement, Lexeme.endsLine, Lexeme.isCode, newline, semicolon]

theorem map_char_mark (r : Region) (t : Text) : (r.mark t).map (·.char) = t := by
  rw [Region.mark, List.map_map]
  exact List.map_id t

end

section
variable {c : Container}

theorem Value.WellFormed.staysOpen {value : Value} (h : value.WellFormed) :
    Lexeme.staysOpen 1 value.lexemes = some 1 := by
  cases value with
  | expression xs => exact h.2.1
  | element indent typeName gap inner =>
      obtain ⟨indentBlank, _, nameChars, gapBlank, inside⟩ := h
      have deeper := Lexeme.staysOpen_add inside 1
      rw [lexemes, Lexeme.staysOpen_append_of_eq (staysOpen_mark (isWordy_of_blank indentBlank) 1),
        Lexeme.staysOpen_append_of_eq (staysOpen_mark (isWordy_of_name nameChars) 1),
        Lexeme.staysOpen_append_of_eq (staysOpen_mark (isWordy_of_blank gapBlank) 1),
        Lexeme.staysOpen_open, Lexeme.staysOpen_append_of_eq deeper]
      rfl

theorem Member.WellFormed.staysOpen {member : Member} (h : member.WellFormed c) :
    Lexeme.staysOpen 1 member.lexemes = some 1 := by
  cases member with
  | other xs => exact h.2.1
  | assignment name gap value =>
      obtain ⟨_, nameChars, gapBlank, valueWellFormed⟩ := h
      have nameWords := isWordy_of_name (nameChars_of_isNameChar nameChars)
      have colon : (⟨':', .code⟩ : Lexeme).isBrace = false := rfl
      rw [lexemes, Lexeme.staysOpen_append_of_eq (staysOpen_mark nameWords 1),
        Lexeme.staysOpen_append_of_eq (staysOpen_mark (isWordy_of_blank gapBlank) 1),
        Lexeme.staysOpen_other 1 colon, valueWellFormed.staysOpen]

/-- The last lexeme ends a statement directly in the root. -/
def EndsInRoot (xs : List Lexeme) : Prop :=
  ∃ front x, xs = front ++ [x] ∧ endsStatement x = true ∧ staysOpen 1 front = some 1

theorem EndsInRoot.append_left {xs ys : List Lexeme} (h : EndsInRoot ys)
    (stays : staysOpen 1 xs = some 1) : EndsInRoot (xs ++ ys) := by
  obtain ⟨front, x, rfl, ends, root⟩ := h
  refine ⟨xs ++ front, x, (List.append_assoc _ _ _).symm, ends, ?_⟩
  rw [Lexeme.staysOpen_append_of_eq stays, root]

namespace Item.WellFormed

variable {item : Item} (h : item.WellFormed c)
include h

theorem staysOpen_above : staysOpen 1 item.above = some 1 := staysOpen_trivia h.above 1

theorem staysOpen_closing : staysOpen 1 item.closing = some 1 := by
  cases ending : item.ending with
  | none => rw [closing, ending]; rfl
  | some gap =>
      rw [closing, ending]
      exact (Lexeme.staysOpen_append_of_eq (staysOpen_trivia (h.ending gap ending) 1) _).trans rfl

theorem staysOpen_beside : staysOpen 1 item.beside = some 1 :=
  staysOpen_trivia (fun x hx => (h.beside x hx).1) 1

theorem staysOpen_lexemes : staysOpen 1 item.lexemes = some 1 := by
  rw [lexemes, lead, List.append_assoc, Lexeme.staysOpen_append_of_eq h.staysOpen_above,
    Lexeme.staysOpen_append_of_eq h.staysOpen_beside,
    Lexeme.staysOpen_append_of_eq h.member.staysOpen, h.staysOpen_closing]

theorem quiet_beside : ∀ p ∈ nested 0 item.beside, endsSegment p = false := by
  refine quiet_of_no_end ?_
  intro x hx
  rw [endsStatement_of_isTrivia (h.beside x hx).1, (h.beside x hx).2]

theorem endsInRoot_above (nonempty : item.above ≠ []) : EndsInRoot item.above := by
  obtain ⟨front, x, above⟩ := List.eq_nil_or_concat item.above |>.resolve_left nonempty
  rw [List.concat_eq_append] at above
  have trivia := h.above
  rw [above] at trivia
  have last : x ∈ item.above.getLast? := by
    rw [above, List.getLast?_append]
    rfl
  refine ⟨front, x, above, ?_, ?_⟩
  · rw [endsStatement, h.newline x last, Bool.true_or]
  · exact staysOpen_trivia (fun y hy => trivia y (List.mem_append_left _ hy)) 1

theorem endsInRoot_lexemes (ended : item.ending.isSome = true) : EndsInRoot item.lexemes := by
  obtain ⟨gap, ending⟩ := Option.isSome_iff_exists.mp ended
  have gapOpen := staysOpen_trivia (h.ending gap ending) 1
  refine ⟨item.lead ++ (item.member.lexemes ++ gap), ⟨';', .code⟩, ?_, rfl, ?_⟩
  · simp only [lexemes, closing, ending, Option.elim_some, List.append_assoc]
  · rw [lead, List.append_assoc, Lexeme.staysOpen_append_of_eq h.staysOpen_above,
      Lexeme.staysOpen_append_of_eq h.staysOpen_beside,
      Lexeme.staysOpen_append_of_eq h.member.staysOpen, gapOpen]

end Item.WellFormed

theorem staysOpen_items {items : List Item} (h : ∀ item ∈ items, item.WellFormed c) :
    staysOpen 1 (items.flatMap Item.lexemes) = some 1 := by
  induction items with
  | nil => rfl
  | cons item items ih =>
      rw [List.forall_mem_cons] at h
      rw [List.flatMap_cons, Lexeme.staysOpen_append_of_eq h.1.staysOpen_lexemes, ih h.2]

/-- The line that is open after lexemes which leave none open is what follows them. -/
theorem lineAfter_start {xs : List Lexeme} (after : Text) (starts : xs = [] ∨ EndsInRoot xs) :
    lineAfter after 0 (xs.map (·.char) ++ after) xs = after := by
  rcases starts with rfl | ⟨front, x, rfl, ends, stays⟩
  · rfl
  · refine lineAfter_ends ?_
    rw [Lexeme.foldl_depthAfter_root stays, endsSegment, ends]
    rfl

namespace Layout

variable {body : List Lexeme} {items : List Item} {trail : List Lexeme}
  (laid : Layout c body items trail) {before later : List Item} {item : Item}
  (split : items = before ++ item :: later)
include laid split

/-- A member is met at the start of a line or after a semicolon. -/
theorem starts : before.flatMap Item.lexemes ++ item.above = [] ∨
    EndsInRoot (before.flatMap Item.lexemes ++ item.above) := by
  have wellFormed := laid.wellFormed
  have separated := laid.separated
  rw [split, List.forall_mem_append, List.forall_mem_cons] at wellFormed
  rw [split] at separated
  obtain ⟨earlier, own, _⟩ := wellFormed
  by_cases above : item.above = []
  · rcases List.eq_nil_or_concat before with rfl | ⟨first, last, rfl⟩
    · exact .inl above
    · -- Nothing stands between the members, so the one before ends with its semicolon.
      rw [List.concat_eq_append] at earlier separated ⊢
      rw [List.forall_mem_append, List.forall_mem_singleton] at earlier
      rw [List.append_assoc] at separated
      have next := List.isChain_append.mp separated |>.2.1
      rw [List.singleton_append, List.isChain_cons_cons] at next
      have ended := next.1.resolve_right (not_not_intro above)
      rw [above, List.append_nil, List.flatMap_append, List.flatMap_singleton]
      exact .inr ((earlier.2.endsInRoot_lexemes ended).append_left (staysOpen_items earlier.1))
  · exact .inr ((own.endsInRoot_above above).append_left (staysOpen_items earlier))

/-- What marks the code of a member are the lines that it lies on. -/
theorem memberMarks_eq : memberMarks (marksFrom c.loses {} body) before item =
    (linesFrom (textAfter item later trail) 0 (item.line (textAfter item later trail))
      item.member.lexemes).map (fun p => (p.1, !decide (Assigns c.loses p.2))) := by
  have wellFormed := laid.wellFormed
  rw [split, List.forall_mem_append, List.forall_mem_cons] at wellFormed
  obtain ⟨earlier, own, _⟩ := wellFormed
  let front := before.flatMap Item.lexemes ++ item.above
  let rest := item.closing ++ (later.flatMap Item.lexemes ++ trail)
  have parts : items.flatMap Item.lexemes ++ trail =
      front ++ (item.beside ++ (item.member.lexemes ++ rest)) := by
    simp only [front, rest, split, List.flatMap_append, List.flatMap_cons, Item.lexemes, Item.lead,
      List.append_assoc]
  have after : rest.map (·.char) ++ ['}'] = textAfter item later trail := rfl
  have start : front.foldl depthAfter 0 = 0 := by
    refine Lexeme.foldl_depthAfter_root ?_
    rw [Lexeme.staysOpen_append_of_eq (staysOpen_items earlier), own.staysOpen_above]
  have besideOpen := Lexeme.foldl_depthAfter_root own.staysOpen_beside
  have line : (item.beside ++ (item.member.lexemes ++ rest)).map (·.char) ++ ['}'] =
      item.line (textAfter item later trail) := by
    simp only [Item.line, ← after, List.map_append, List.append_assoc]
  have whole : (items.flatMap Item.lexemes ++ trail ++ [⟨'}', .code⟩] : List Lexeme).map (·.char) =
      front.map (·.char) ++ item.line (textAfter item later trail) := by
    rw [parts, ← line]
    simp only [List.map_append, List.append_assoc, List.map_cons, List.map_nil]
  have met : lineAfter (item.line (textAfter item later trail)) 0
      (front.map (·.char) ++ item.line (textAfter item later trail)) front =
        item.line (textAfter item later trail) := lineAfter_start _ (laid.starts split)
  have stays : staysOpen 1 (items.flatMap Item.lexemes ++ trail) = some 1 := by
    rw [Lexeme.staysOpen_append_of_eq (staysOpen_items laid.wellFormed),
      staysOpen_trivia laid.trail]
  have marks := marksFrom_eq c.loses (σ := {}) (Int.le_refl 0) stays enter_start
  rw [whole, parts, linesFrom_append _ 0 _ front, line, met, start,
    linesFrom_append _ 0 _ item.beside, besideOpen, (linesFrom_quiet own.quiet_beside).2,
    linesFrom_append _ 0 _ item.member.lexemes, after, ← parts, ← laid.lexed] at marks
  rw [memberMarks, marks, ← List.append_assoc, List.map_append, List.append_assoc]
  refine (congrArg _ (List.drop_left' ?_)).trans ?_
  · simp only [front, Item.lead, List.length_map, List.length_append, length_linesFrom]
    omega
  · rw [List.map_append, List.append_assoc]
    exact List.take_left' (by rw [List.length_map, length_linesFrom])

end Layout

section
variable {remove : Text → Bool}

theorem isBlank_of_isIndent {c : Char} (h : isIndent c = true) : Text.isBlank c = true := by
  simp only [isIndent, Bool.or_eq_true, beq_iff_eq] at h
  rcases h with rfl | rfl <;> rfl

theorem not_assigns_colon {w : Text} (blank : ∀ c ∈ w, Text.isBlank c = true) (rest : Text) :
    ¬ Assigns remove (w ++ ':' :: rest) := by
  rintro ⟨indent, name, gap, value, text, spaces, nonempty, chars, _⟩
  obtain ⟨d, name, rfl⟩ := List.exists_cons_of_ne_nil nonempty
  have first := chars d List.mem_cons_self
  have indentBlank : ∀ c ∈ indent, Text.isBlank c = true :=
    fun c hc => isBlank_of_isIndent (spaces c hc)
  have visible : Text.isBlank d = false := by
    cases shown : Text.isBlank d with
    | false => rfl
    | true => cases (isNameChar_of_isBlank shown).symm.trans first
  have trimmed := congrArg Text.trimStart text
  rw [Text.trimStart_append blank, Text.trimStart_append indentBlank,
    Text.trimStart_eq_self (t := ':' :: rest) fun c hc => by cases hc; rfl,
    List.cons_append, Text.trimStart_eq_self fun c hc => by cases hc; exact visible] at trimmed
  cases trimmed
  cases first

/-- A line of words that a brace follows assigns nothing. -/
theorem not_assigns_brace {w : Text} (words : ∀ c ∈ w, isWordy c = true) (rest : Text) :
    ¬ Assigns remove (w ++ '{' :: rest) := by
  rintro ⟨indent, name, gap, value, text, spaces, _, chars, blank, _⟩
  have nameWords := isWordy_of_name (nameChars_of_isNameChar chars)
  have indentWords := isWordy_of_blank fun c hc => isBlank_of_isIndent (spaces c hc)
  have before : ∀ c ∈ indent ++ (name ++ gap), isWordy c = true :=
    List.forall_mem_append.mpr
      ⟨indentWords, List.forall_mem_append.mpr ⟨nameWords, isWordy_of_blank blank⟩⟩
  have regrouped : indent ++ (name ++ (gap ++ ':' :: value)) =
      indent ++ (name ++ gap) ++ ':' :: value := by
    simp only [List.append_assoc]
  have rests := congrArg (List.dropWhile isWordy) (text.trans regrouped)
  rw [List.dropWhile_append_of_pos words, List.dropWhile_append_of_pos before] at rests
  cases rests

/-- A line break among blanks begins a line with the blanks after the last one. -/
theorem lineAfter_blank {gap : Text} (blank : ∀ c ∈ gap, Text.isBlank c = true)
    (newline : '\n' ∈ gap) (after line : Text) : ∃ w, (∀ c ∈ w, Text.isBlank c = true) ∧
      lineAfter after 0 line (Region.code.mark gap) = w ++ after := by
  induction gap generalizing line with
  | nil => cases newline
  | cons c gap ih =>
      rw [List.forall_mem_cons] at blank
      have level : depthAfter 0 ⟨c, .code⟩ = 0 :=
        Lexeme.depthAfter_other 0 (noBrace_mark (t := [c])
          (List.forall_mem_singleton.mpr (by rw [isWordy, blank.1, Bool.true_or])) _
          List.mem_cons_self)
      have lexemes : Region.code.mark (c :: gap) = ⟨c, .code⟩ :: Region.code.mark gap := rfl
      rw [lexemes, lineAfter, level, map_char_mark]
      by_cases later : '\n' ∈ gap
      · exact ih blank.2 later _
      · obtain rfl := (List.mem_cons.mp newline).resolve_right later
        have quiet := quiet_of_no_end (d := 0) (noEnd_mark (isWordy_of_blank blank.2) later)
        refine ⟨gap, blank.2, ?_⟩
        rw [(linesFrom_quiet quiet).2]
        rfl

/-- What follows a line break directly in the root lies on the line that it begins. -/
theorem exists_broken_line {xs : List Lexeme} {gap : Text}
    (stays : staysOpen 1 xs = some 1) (blank : ∀ c ∈ gap, Text.isBlank c = true)
    (newline : '\n' ∈ gap) (x : Lexeme) (rest : List Lexeme) (after line : Text) :
    ∃ w, (∀ c ∈ w, Text.isBlank c = true) ∧
      (x, w ++ ((x :: rest).map (·.char) ++ after)) ∈
        linesFrom after 0 line (xs ++ (Region.code.mark gap ++ x :: rest)) := by
  obtain ⟨w, shown, last⟩ := lineAfter_blank blank newline ((x :: rest).map (·.char) ++ after)
    (lineAfter ((Region.code.mark gap ++ x :: rest).map (·.char) ++ after) 0 line xs)
  have level : (Region.code.mark gap).foldl depthAfter 0 = 0 :=
    Lexeme.foldl_depthAfter_root (staysOpen_mark (isWordy_of_blank blank) 1)
  refine ⟨w, shown, ?_⟩
  rw [linesFrom_append _ 0 _ xs, Lexeme.foldl_depthAfter_root stays,
    linesFrom_append _ 0 _ (Region.code.mark gap), level, last, linesFrom]
  exact List.mem_append_right _ (List.mem_append_right _ List.mem_cons_self)

end

theorem quiet_append {xs ys : List Lexeme} (stays : staysOpen 1 xs = some 1)
    (first : ∀ p ∈ nested 0 xs, endsSegment p = false)
    (second : ∀ p ∈ nested 0 ys, endsSegment p = false) :
    ∀ p ∈ nested 0 (xs ++ ys), endsSegment p = false := by
  rw [Lexeme.nested_append, Lexeme.foldl_depthAfter_root stays]
  exact List.forall_mem_append.mpr ⟨first, second⟩

theorem one_le_nested {d e : Nat} {xs : List Lexeme} (h : staysOpen d xs = some e) (hd : 1 ≤ d) :
    ∀ p ∈ nested d xs, 1 ≤ p.2 := by
  induction xs generalizing d with
  | nil => exact nofun
  | cons x xs ih =>
      have first : (1 : Int) ≤ d := by omega
      refine List.forall_mem_cons.mpr ⟨first, ?_⟩
      rcases Lexeme.brace_cases x with rfl | rfl | other
      · exact ih (d := d + 1) h (by omega)
      · rw [Lexeme.staysOpen_close] at h
        split at h
        · cases h
        · have cast : ((d - 1 : Nat) : Int) = (d : Int) - 1 := by omega
          rw [Lexeme.depthAfter_close, ← cast]
          exact ih h (by omega)
      · rw [Lexeme.staysOpen_other d other] at h
        rw [Lexeme.depthAfter_other _ other]
        exact ih h hd

/-- Between its braces an element ends no segment of the root. -/
theorem quiet_braces {inner : List Lexeme} (h : staysOpen 1 inner = some 1) :
    ∀ p ∈ nested 0 (⟨'{', .code⟩ :: (inner ++ [⟨'}', .code⟩])), endsSegment p = false := by
  have depths := one_le_nested h (Nat.le_refl 1)
  refine List.forall_mem_cons.mpr ⟨rfl, ?_⟩
  rw [Lexeme.depthAfter_open, Int.zero_add]
  refine (Lexeme.nested_append_of_eq (d := 1) h _).symm ▸ List.forall_mem_append.mpr ⟨?_, ?_⟩
  · intro p hp
    have deep : (p.2 == 0) = false := by
      have below := depths p hp
      exact beq_eq_false_iff_ne.mpr (by omega)
    rw [endsSegment, deep, Bool.and_false]
  · exact List.forall_mem_singleton.mpr rfl

theorem Value.WellFormed.quiet {value : Value} (h : value.WellFormed) (one : value.OnOneLine) :
    ∀ p ∈ nested 0 value.lexemes, endsSegment p = false := by
  cases value with
  | expression xs => exact h.2.2
  | element indent typeName gap inner =>
      obtain ⟨indentBlank, _, nameChars, gapBlank, inside⟩ := h
      obtain ⟨indentUnbroken, gapUnbroken⟩ := one
      have nameUnbroken : '\n' ∉ typeName := by
        intro broken
        exact absurd (nameChars _ broken) (by decide)
      have indentWords := isWordy_of_blank indentBlank
      have nameWords := isWordy_of_name nameChars
      have gapWords := isWordy_of_blank gapBlank
      refine quiet_append (staysOpen_mark indentWords 1)
        (quiet_of_no_end (noEnd_mark indentWords indentUnbroken)) ?_
      refine quiet_append (staysOpen_mark nameWords 1)
        (quiet_of_no_end (noEnd_mark nameWords nameUnbroken)) ?_
      exact quiet_append (staysOpen_mark gapWords 1)
        (quiet_of_no_end (noEnd_mark gapWords gapUnbroken)) (quiet_braces inside)

/-- Where all code of a value lies on lines that assign, the head of an element lies on one line. -/
theorem Value.WellFormed.onOneLine_of_assigns {value : Value} (h : value.WellFormed)
    {before : List Lexeme} (stays : Lexeme.staysOpen 1 before = some 1) {remove : Text → Bool}
    {after line : Text} (assigns : ∀ p ∈ linesFrom after 0 line (before ++ value.lexemes),
      p.1.isTrivia = false → Assigns remove p.2) : value.OnOneLine := by
  cases value with
  | expression xs => trivial
  | element indent typeName gap inner =>
      obtain ⟨indentBlank, nonempty, typeChars, gapBlank, _⟩ := h
      have typeWords := isWordy_of_name typeChars
      rw [lexemes] at assigns
      constructor
      · intro newline
        obtain ⟨d, typeName, rfl⟩ := List.exists_cons_of_ne_nil nonempty
        obtain ⟨w, blank, met⟩ := exists_broken_line stays indentBlank newline ⟨d, .code⟩
          (Region.code.mark typeName ++ (Region.code.mark gap ++
            ⟨'{', .code⟩ :: (inner ++ [⟨'}', .code⟩]))) after line
        have visible : Lexeme.isTrivia ⟨d, .code⟩ = false :=
          ElementHead.isBlank_of_isNameChar (typeChars d List.mem_cons_self)
        have assigned : Assigns remove (w ++ (d :: typeName ++ gap) ++
            '{' :: ((inner ++ [⟨'}', .code⟩] : List Lexeme).map (·.char) ++ after)) := by
          simpa only [List.map_cons, List.map_append, map_char_mark, List.append_assoc,
            List.cons_append] using assigns _ met visible
        refine not_assigns_brace ?_ _ assigned
        exact List.forall_mem_append.mpr ⟨isWordy_of_blank blank,
          List.forall_mem_append.mpr ⟨typeWords, isWordy_of_blank gapBlank⟩⟩
      · intro newline
        have typeOpen : Lexeme.staysOpen 1
            (before ++ (Region.code.mark indent ++ Region.code.mark typeName)) = some 1 := by
          rw [Lexeme.staysOpen_append_of_eq stays,
            Lexeme.staysOpen_append_of_eq (staysOpen_mark (isWordy_of_blank indentBlank) 1),
            staysOpen_mark typeWords 1]
        obtain ⟨w, blank, met⟩ := exists_broken_line typeOpen gapBlank newline ⟨'{', .code⟩
          (inner ++ [⟨'}', .code⟩]) after line
        rw [List.append_assoc before, List.append_assoc (Region.code.mark indent)] at met
        exact not_assigns_brace (isWordy_of_blank blank) _ (assigns _ met rfl)

namespace Member.WellFormed

variable {name gap : Text} {value : Value}
  (h : (Member.assignment name gap value).WellFormed c)
include h

theorem quiet (one : (Member.assignment name gap value).OnOneLine) :
    ∀ p ∈ nested 0 (Member.assignment name gap value).lexemes, endsSegment p = false := by
  obtain ⟨_, nameChars, gapBlank, wellFormed⟩ := h
  obtain ⟨gapUnbroken, oneValue⟩ := one
  have nameWords := isWordy_of_name (nameChars_of_isNameChar nameChars)
  have gapWords := isWordy_of_blank gapBlank
  have nameUnbroken : '\n' ∉ name := by
    intro broken
    exact absurd (nameChars _ broken) (by decide)
  have colon : ∀ p ∈ nested 0 [⟨':', .code⟩], endsSegment p = false :=
    List.forall_mem_singleton.mpr rfl
  have colonOpen : Lexeme.staysOpen 1 [⟨':', .code⟩] = some 1 := rfl
  refine quiet_append (staysOpen_mark nameWords 1)
    (quiet_of_no_end (noEnd_mark nameWords nameUnbroken)) ?_
  refine quiet_append (staysOpen_mark gapWords 1)
    (quiet_of_no_end (noEnd_mark gapWords gapUnbroken)) ?_
  exact quiet_append colonOpen colon (wellFormed.quiet oneValue)

/-- Where all code of an assignment lies on lines that assign, it lies on one line. -/
theorem onOneLine_of_assigns {remove : Text → Bool} {after line : Text}
    (assigns : ∀ p ∈ linesFrom after 0 line (Member.assignment name gap value).lexemes,
      p.1.isTrivia = false → Assigns remove p.2) :
    (Member.assignment name gap value).OnOneLine := by
  obtain ⟨_, nameChars, gapBlank, wellFormed⟩ := h
  have nameOpen := staysOpen_mark (isWordy_of_name (nameChars_of_isNameChar nameChars)) 1
  have gapOpen := staysOpen_mark (isWordy_of_blank gapBlank) 1
  refine ⟨?_, ?_⟩
  · intro newline
    obtain ⟨w, blank, met⟩ := exists_broken_line nameOpen gapBlank newline ⟨':', .code⟩
      value.lexemes after line
    exact not_assigns_colon blank _ (assigns _ met rfl)
  · have headOpen : Lexeme.staysOpen 1
        (Region.code.mark name ++ (Region.code.mark gap ++ [⟨':', .code⟩])) = some 1 := by
      rw [Lexeme.staysOpen_append_of_eq nameOpen, Lexeme.staysOpen_append_of_eq gapOpen]
      rfl
    have parts : (Member.assignment name gap value).lexemes =
        Region.code.mark name ++ (Region.code.mark gap ++ [⟨':', .code⟩]) ++ value.lexemes := by
      simp only [lexemes, List.append_assoc, List.cons_append, List.nil_append]
    rw [parts] at assigns
    exact wellFormed.onOneLine_of_assigns headOpen assigns

/-- All code of an assignment is removed exactly if its line assigns and it lies on that line. -/
theorem assigns_iff (remove : Text → Bool) (after line : Text) :
    (∀ p ∈ linesFrom after 0 line (Member.assignment name gap value).lexemes,
      p.1.isTrivia = false → Assigns remove p.2) ↔
      Assigns remove line ∧ (Member.assignment name gap value).OnOneLine := by
  constructor
  · intro assigns
    refine ⟨?_, h.onOneLine_of_assigns assigns⟩
    obtain ⟨nonempty, nameChars, _, _⟩ := h
    obtain ⟨d, name, rfl⟩ := List.exists_cons_of_ne_nil nonempty
    refine assigns (⟨d, .code⟩, line) List.mem_cons_self ?_
    exact ElementHead.isBlank_of_isNameChar (nameChars_of_isNameChar nameChars d List.mem_cons_self)
  · rintro ⟨assigns, one⟩ p hp _
    rw [(linesFrom_quiet (h.quiet one)).1] at hp
    obtain ⟨_, _, rfl⟩ := List.mem_map.mp hp
    exact assigns

end Member.WellFormed

end

/-- The code of an item's member is removed or kept as it is meant to be exactly if the item is
handled. -/
theorem Item.WellFormed.handled_iff {c : Container} {item : Item} (h : item.WellFormed c)
    (after : Text) : (∀ p ∈ (linesFrom after 0 (item.line after) item.member.lexemes).map
        (fun p => (p.1, !decide (Assigns c.loses p.2))),
      p.1.isTrivia = false → p.2 = !item.member.isLost c) ↔ item.Handled c after := by
  have member := h.member
  rw [List.forall_mem_map, Item.Handled]
  cases lost : item.member.isLost c with
  | true =>
      cases assigned : item.member with
      | other xs =>
          rw [assigned] at lost
          cases lost
      | assignment name gap value =>
          rw [assigned] at member
          rw [if_pos rfl, ← member.assigns_iff c.loses after]
          simp only [Bool.not_true, Bool.not_eq_false', decide_eq_true_eq]
  | false =>
      rw [if_neg Bool.false_ne_true]
      simp only [Bool.not_false, Bool.not_eq_true', decide_eq_false_iff_not]

theorem Layout.removesExactly_iff {c : Container} {body : List Lexeme} {items : List Item}
    {trail : List Lexeme} (laid : Layout c body items trail) :
    RemovesExactly c items (marksFrom c.loses {} body) ↔ ∀ i, (h : i < items.length) →
      items[i].Handled c (textAfter items[i] (items.drop (i + 1)) trail) := by
  refine forall_congr' fun i => forall_congr' fun h => ?_
  have split : items = items.take i ++ items[i] :: items.drop (i + 1) := by
    rw [List.getElem_cons_drop, List.take_append_drop]
  rw [laid.memberMarks_eq split]
  exact (laid.wellFormed _ (List.getElem_mem h)).handled_iff _

theorem Item.WellFormed.assigns_line {c : Container} {item : Item} (h : item.WellFormed c)
    (lost : item.member.isLost c = true) (indent : ∀ x ∈ item.beside, isIndent x.char = true)
    (after : Text) : Assigns c.loses (item.line after) := by
  have member := h.member
  cases assigned : item.member with
  | other xs =>
      rw [assigned] at lost
      cases lost
  | assignment name gap value =>
      rw [assigned] at lost member
      refine ⟨item.beside.map (·.char), name, gap, value.lexemes.map (·.char) ++ after, ?_, ?_,
        member.1, member.2.1, member.2.2.1, lost⟩
      · simp only [Item.line, assigned, Member.lexemes, List.map_append, List.map_cons,
          map_char_mark, List.append_assoc, List.cons_append]
      · exact List.forall_mem_map.mpr indent

end Rehosting

/-- Each lexeme of the body of the root with whether it is kept when the root is re-hosted. -/
def Parts.marks (parts : Parts) (c : Container) : List (Lexeme × Bool) :=
  Rehosting.marksFrom c.loses {} (lex parts.rootBody)

/-- Re-hosting a root removes the code of exactly those members that assign what only windows have if
and only if each of them is met at the start of its line and has its head on that line, and no line
of another member reads like one of them. -/
theorem rehosting_removes_exactly_iff {doc : Document} {parts : Parts} {c : Container}
    (taken : decompose doc.text = .ok parts)
    (container : Container.ofKind? parts.rootKind = some c) {items : List Rehosting.Item}
    {trail : List Lexeme} (laid : Rehosting.Layout c (lex parts.rootBody) items trail) :
    (∃ g, frameInPhone doc true = .ok g ∧
      g.text = framedBefore doc parts c ++ (framedBody parts c ++ framedAfter doc)) ∧
    (parts.marks c).map (·.1) = lex parts.rootBody ∧
    parts.keptBody c = ((parts.marks c).filter (·.2)).map (·.1) ∧
    (Rehosting.RemovesExactly c items (parts.marks c) ↔ ∀ i, (h : i < items.length) →
      items[i].Handled c (Rehosting.textAfter items[i] (items.drop (i + 1)) trail)) ∧
    ∀ item ∈ items, item.member.isLost c = true →
      (∀ x ∈ item.beside, Rehosting.isIndent x.char = true) →
      ∀ after, Rehosting.Assigns c.loses (item.line after) := by
  refine ⟨⟨_, frameInPhone_rehosted taken c rfl container, rfl⟩,
    Rehosting.map_fst_marksFrom c.loses {} _, Rehosting.keptFrom_eq_filter c.loses {} _,
    laid.removesExactly_iff, ?_⟩
  intro item member lost indent after
  exact (laid.wellFormed item member).assigns_line lost indent after

/-- A page with two assignments on one line and one of an element. -/
theorem rehosting_removes_exactly_from_page :
    let doc : Document := ⟨"/a/Main.qml".toList, "import QtQuick.Controls\n".toList ++
      "ApplicationWindow \x7b\n  id: app\n  visible: true; color: \"red\"\n".toList ++
      "  menuBar: Bar \x7b // \x7b\n    y: 2\n  \x7d\n  Text \x7b x: 1 \x7d\n\x7d\n".toList,
      Time.epoch⟩
    ∃ parts, decompose doc.text = .ok parts ∧
      Container.ofKind? parts.rootKind = some .applicationWindow ∧ ∃ items trail,
      Rehosting.Layout .applicationWindow (lex parts.rootBody) items trail ∧
      items.map (·.member.isLost .applicationWindow) = [false, true, true, true, false] ∧
      Rehosting.RemovesExactly .applicationWindow items (parts.marks .applicationWindow) := by
  intro doc
  let code := Region.code.mark
  let parts : Parts :=
    { pragmas := [], contentStart := 24
      imports := [⟨"QtQuick.Controls".toList, none, none, false, "import QtQuick.Controls".toList⟩]
      content := (doc.text.drop 24).dropLast
      rootType := "ApplicationWindow".toList, rootOpen := 18 }
  let newline := code "\n".toList
  let indent := code "  ".toList
  let items : List Rehosting.Item :=
    [⟨newline, indent, .assignment "id".toList [] (.expression (code " app".toList)), none⟩,
      ⟨newline, indent, .assignment "visible".toList [] (.expression (code " true".toList)),
        some []⟩,
      ⟨[], code " ".toList, .assignment "color".toList [] (.expression
        (code " ".toList ++ (Region.literal '"').mark "\"red\"".toList)), none⟩,
      ⟨newline, indent, .assignment "menuBar".toList [] (.element " ".toList "Bar".toList
        " ".toList (code " ".toList ++ (Region.lineComment.mark "// \x7b".toList ++
          code "\n    y: 2\n  ".toList))), none⟩,
      ⟨newline, indent, .other (code "Text \x7b x: 1 \x7d".toList), none⟩]
  have taken : decompose doc.text = .ok parts := decompose_of_toOption (by decide +kernel)
  have container : Container.ofKind? parts.rootKind = some .applicationWindow := by decide +kernel
  have laid : Rehosting.Layout .applicationWindow (lex parts.rootBody) items newline :=
    ⟨by decide +kernel, by decide +kernel, by decide +kernel, by decide +kernel⟩
  obtain ⟨_, _, _, exact_iff, _⟩ := rehosting_removes_exactly_iff taken container laid
  exact ⟨parts, taken, container, items, newline, laid, by decide +kernel,
    exact_iff.mpr (by decide +kernel)⟩

/-- The braces of an assigned element stay where the first of them stands on a line of its own. -/
theorem rehosting_leaves_braces :
    let doc : Document := ⟨"/a/Main.qml".toList, "import QtQuick.Controls\n".toList ++
      "ApplicationWindow \x7b\n    menuBar: MenuBar\n    \x7b\n    \x7d\n\x7d\n".toList, Time.epoch⟩
    ∃ parts, decompose doc.text = .ok parts ∧
      Container.ofKind? parts.rootKind = some .applicationWindow ∧ ∃ item trail,
      Rehosting.Layout .applicationWindow (lex parts.rootBody) [item] trail ∧
      item.member.isLost .applicationWindow = true ∧
      ¬ Rehosting.RemovesExactly .applicationWindow [item] (parts.marks .applicationWindow) ∧
      Rehosting.strip parts.rootBody Container.applicationWindow.loses =
        "\n    \x7b\n    \x7d\n\x7d".toList := by
  intro doc
  let code := Region.code.mark
  let parts : Parts :=
    { pragmas := [], contentStart := 24
      imports := [⟨"QtQuick.Controls".toList, none, none, false, "import QtQuick.Controls".toList⟩]
      content := (doc.text.drop 24).dropLast
      rootType := "ApplicationWindow".toList, rootOpen := 18 }
  let item : Rehosting.Item :=
    ⟨code "\n".toList, code "    ".toList, .assignment "menuBar".toList [] (.element " ".toList
      "MenuBar".toList "\n    ".toList (code "\n    ".toList)), none⟩
  have taken : decompose doc.text = .ok parts := decompose_of_toOption (by decide +kernel)
  have laid : Rehosting.Layout .applicationWindow (lex parts.rootBody) [item] (code "\n".toList) :=
    ⟨by decide +kernel, by decide +kernel, by decide +kernel, by decide +kernel⟩
  exact ⟨parts, taken, by decide +kernel, item, _, laid, by decide +kernel, by decide +kernel,
    by decide +kernel⟩

end QmlPreview
