import QmlPreview.Document.Facts
import QmlPreview.Proofs.Cuts
import QmlPreview.Proofs.Decomposition
import QmlPreview.Wrap.Frame

/-! Reading by offsets. The functions here find a byte offset first and cut the text there, and each
cut is checked. No cut is refused, and they give what the functions give that they spell out. -/

namespace QmlPreview

/-! ### Headers -/

namespace Import

def readTargetByOffsets (t : Text) : Sliced (Option (Text × Bool × Text)) :=
  match Text.dropLead? ['"'] t with
  | some inner =>
    match Text.firstNot? (· != '"') inner with
    | none => return none
    | some stop => do
      let target ← Text.cutTo stop inner
      let tail ← Text.cutFrom (stop + 1) inner
      return some (target, true, tail)
  | none => do
    let stop := (Text.firstNot? (fun c => !Text.isBlank c) t).getD (Text.byteLength t)
    let target ← Text.cutTo stop t
    let tail ← Text.cutFrom stop t
    return some (target, false, tail)

def parseByOffsets (statement : Text) : Sliced (Option Import) :=
  let raw := bare statement
  match Text.dropLead? "import".toList raw with
  | none => return none
  | some rest =>
    if rest.head?.any Text.isBlank then do
      match ← readTargetByOffsets (Text.trimStart rest) with
      | none => return none
      | some (target, isPath, tail) =>
        if target.isEmpty then return none
        else
          let (version, qualifier) := readWords none none (Text.words tail)
          return some ⟨target, version, qualifier, isPath, raw⟩
    else return none

theorem readTargetByOffsets_eq (t : Text) : readTargetByOffsets t = .ok (readTarget? t) := by
  unfold readTargetByOffsets
  split
  · rename_i inner quoted
    rw [Text.dropLead?_eq_some_iff] at quoted
    subst quoted
    rw [Text.firstNot?_eq, List.singleton_append, readTarget?]
    cases closing : inner.dropWhile (· != '"') with
    | nil => rfl
    | cons c tail =>
        obtain ⟨parts, quote⟩ := Text.eq_of_dropWhile closing
        obtain rfl : c = '"' := by simpa using quote
        have cut := Text.cutFrom_append (inner.takeWhile (· != '"') ++ ['"']) tail
        rw [← parts, Text.byteLength_append] at cut
        rw [if_neg (List.cons_ne_nil _ _)]
        simp only [Text.cutTo_takeWhile, Sliced.bind_ok]
        exact congrArg (· >>= fun tail => pure (some (_, true, tail))) cut
  · rename_i plain
    have target : readTarget? t = some (t.takeWhile (fun c => !Text.isBlank c), false,
        t.dropWhile (fun c => !Text.isBlank c)) := by
      unfold readTarget?
      split
      · rw [Text.dropLead?_eq_some_iff.mpr List.singleton_append.symm] at plain
        cases plain
      · rfl
    simp only [target, Text.getD_firstNot?, Text.cutTo_takeWhile, Text.cutFrom_takeWhile,
      Sliced.bind_ok]
    rfl

theorem parseByOffsets_eq (statement : Text) :
    parseByOffsets statement = .ok (parse? statement) := by
  cases dropped : Text.dropLead? "import".toList (bare statement) with
  | none =>
      simp only [parseByOffsets, parse?, dropped]
      rfl
  | some rest =>
      simp only [parseByOffsets, parse?, dropped, readTargetByOffsets_eq, Sliced.bind_ok]
      split
      · cases readTarget? (Text.trimStart rest) with
        | none => rfl
        | some found =>
            dsimp only
            split <;> rfl
      · rfl

end Import

namespace Header

/-- What stands at an offset of a header: a statement, and the offset after it, or the content. -/
inductive Found where
  | statement (s : Statement) (next : Nat)
  | content (start : Nat)

def stepByOffsets (masked : Text) (pos : Nat) : Sliced Found := do
  let rest ← Text.cutFrom pos masked
  let trimmed := Text.trimStart rest
  let start := pos + (← difference (Text.byteLength rest) (Text.byteLength trimmed))
  match Keyword.ofText? trimmed with
  | none => return .content start
  | some keyword =>
    let end? := Text.firstNot? (fun c => !Statement.isEnd c) trimmed
    let stop := end?.getD (Text.byteLength trimmed)
    let text ← Text.cutTo stop trimmed
    let next := start + stop
    return .statement ⟨keyword, Text.trimEnd text⟩
      (if next < Text.byteLength masked then next + 1 else next)

def importByOffsets (s : Statement) : Sliced (Option Import) :=
  match s.keyword with
  | .pragma => return none
  | .«import» => Import.parseByOffsets s.text

/-- The header with one more statement in front, which makes the given import. -/
def cons (s : Statement) (found : Option Import) (later : Header) : Header :=
  match s.keyword with
  | .pragma => { later with pragmas := s.text :: later.pragmas }
  | .«import» => { later with imports := found.toList ++ later.imports }

def readByOffsets (masked : Text) (pos : Nat) : Sliced Header := do
  match ← stepByOffsets masked pos with
  | .content start => return ⟨[], [], start⟩
  | .statement s next =>
    if _advances : pos < next ∧ next ≤ Text.byteLength masked then
      let found ← importByOffsets s
      let later ← readByOffsets masked next
      return later.cons s found
    else throw (.stays pos)
termination_by Text.byteLength masked - pos
decreasing_by omega

/-- Wherever it stands, the loop over a header finds something, and it goes on from a statement at a
later boundary. -/
def Advances (masked : Text) : Prop :=
  ∀ pos, masked.IsBoundary pos → ∃ found, stepByOffsets masked pos = .ok found ∧
    ∀ s next, found = .statement s next → pos < next ∧ masked.IsBoundary next

theorem exists_start (t : Text) : ∃ blanks : Text, t = blanks ++ Text.trimStart t ∧
    difference (Text.byteLength t) (Text.byteLength (Text.trimStart t)) =
      .ok (Text.byteLength blanks) := by
  obtain ⟨blanks, _, parts⟩ := Text.exists_trimStart t
  refine ⟨blanks, parts, ?_⟩
  have length := congrArg Text.byteLength parts
  rw [Text.byteLength_append] at length
  rw [length, difference_add]

theorem utf8Size_of_isEnd {c : Char} (ends : Statement.isEnd c = true) : c.utf8Size = 1 := by
  simp only [Statement.isEnd, Bool.or_eq_true, beq_iff_eq] at ends
  rcases ends with rfl | rfl <;> rfl

/-- A statement has its keyword at least, so the loop does not stay where it is. -/
theorem byteLength_statement_pos {k : Keyword} {t : Text} (some : Keyword.ofText? t = some k) :
    0 < Text.byteLength (t.takeWhile fun c => !Statement.isEnd c) := by
  obtain ⟨tail, rfl, _⟩ := Keyword.startsText_iff.mp (Keyword.ofText?_eq_some_iff.mp some)
  have inKeyword : ∀ c ∈ k.spelling, (!Statement.isEnd c) = true :=
    fun c hc => by rw [k.spelling_noEnd c hc]; rfl
  rw [List.takeWhile_append_of_pos inKeyword, Text.byteLength_append]
  exact Nat.add_pos_left (by cases k <;> decide) _

section
variable (front : Text) {rest : Text}

theorem stepByOffsets_of_none (none : Keyword.ofText? (Text.trimStart rest) = none) :
    stepByOffsets (front ++ rest) (Text.byteLength front) =
      .ok (.content (Text.byteLength (front ++ rest) - Text.byteLength (Text.trimStart rest))) := by
  obtain ⟨blanks, parts, start⟩ := exists_start rest
  have place : Text.byteLength (front ++ rest) - Text.byteLength (Text.trimStart rest) =
      Text.byteLength front + Text.byteLength blanks := by
    have length := congrArg Text.byteLength parts
    rw [Text.byteLength_append] at length ⊢
    omega
  simp only [stepByOffsets, Text.cutFrom_append, Sliced.bind_ok, start, none, place]
  rfl

theorem exists_stepByOffsets {k : Keyword} (some : Keyword.ofText? (Text.trimStart rest) = some k) :
    ∃ passed : Text,
      front ++ rest = passed ++ ((Text.trimStart rest).dropWhile fun c => !Statement.isEnd c).tail ∧
      Text.byteLength front < Text.byteLength passed ∧
      stepByOffsets (front ++ rest) (Text.byteLength front) = .ok (.statement
        ⟨k, Text.trimEnd ((Text.trimStart rest).takeWhile fun c => !Statement.isEnd c)⟩
        (Text.byteLength passed)) := by
  obtain ⟨blanks, parts, start⟩ := exists_start rest
  have nonempty := byteLength_statement_pos some
  simp only [stepByOffsets, Text.cutFrom_append, Sliced.bind_ok, start, some, Text.getD_firstNot?,
    Text.cutTo_takeWhile]
  generalize named : (Text.trimStart rest).takeWhile (fun c => !Statement.isEnd c) = text
    at nonempty
  have whole : front ++ rest = (front ++ (blanks ++ text)) ++
      (Text.trimStart rest).dropWhile fun c => !Statement.isEnd c := by
    rw [← named, List.append_assoc, List.append_assoc, List.takeWhile_append_dropWhile, ← parts]
  have next : Text.byteLength front + Text.byteLength blanks + Text.byteLength text =
      Text.byteLength (front ++ (blanks ++ text)) := by
    rw [Text.byteLength_append, Text.byteLength_append, Nat.add_assoc]
  rw [next, whole]
  cases left : (Text.trimStart rest).dropWhile (fun c => !Statement.isEnd c) with
  | nil =>
      refine ⟨front ++ (blanks ++ text), rfl, by omega, ?_⟩
      rw [List.append_nil, if_neg (Nat.lt_irrefl _)]
      rfl
  | cons c tail =>
      have ends := utf8Size_of_isEnd (Bool.not_eq_false' _ |>.mp (Text.eq_of_dropWhile left).2)
      refine ⟨front ++ (blanks ++ text) ++ [c], ?_, ?_, ?_⟩
      · rw [List.append_assoc _ [c], List.singleton_append]
        rfl
      · rw [Text.byteLength_append]
        omega
      · rw [Text.byteLength_append _ (c :: tail), Text.byteLength_append _ [c],
          Text.byteLength_cons, Text.byteLength_cons, ends, if_pos (by omega)]
        rfl

end

theorem advances (masked : Text) : Advances masked := by
  rintro _ ⟨front, rest, rfl, rfl⟩
  cases statement : Keyword.ofText? (Text.trimStart rest) with
  | none => exact ⟨_, stepByOffsets_of_none front statement, nofun⟩
  | some k =>
      obtain ⟨passed, parts, later, step⟩ := exists_stepByOffsets front statement
      refine ⟨_, step, ?_⟩
      rintro _ _ ⟨⟩
      exact ⟨later, passed, _, parts, rfl⟩

theorem ofStatements_cons (s : Statement) (ss : List Statement) (start : Nat) :
    ∃ found, importByOffsets s = .ok found ∧
      ofStatements (s :: ss) start = (ofStatements ss start).cons s found := by
  obtain ⟨keyword, text⟩ := s
  cases keyword with
  | pragma => exact ⟨none, rfl, rfl⟩
  | «import» =>
      refine ⟨_, Import.parseByOffsets_eq text, ?_⟩
      cases parsed : Import.parse? text with
      | none => simp [ofStatements, cons, parsed]
      | some i => simp [ofStatements, cons, parsed]

theorem readByOffsets_append (front rest : Text) :
    readByOffsets (front ++ rest) (Text.byteLength front) =
      .ok (ofStatements (Statement.readAll rest).1
        (Text.byteLength (front ++ rest) - Text.byteLength (Statement.readAll rest).2)) := by
  -- `front` is what the loop has passed, so it stands at a boundary; each statement makes it longer.
  induction rest using Statement.readAll.induct generalizing front with
  | case1 rest none =>
      rw [readByOffsets, stepByOffsets_of_none front none, Statement.readAll_of_none none]
      rfl
  | case2 rest k statement _ _ _ _ ih =>
      obtain ⟨passed, parts, later, step⟩ := exists_stepByOffsets front statement
      have inside : Text.byteLength passed ≤ Text.byteLength (front ++ rest) := by
        rw [parts, Text.byteLength_append]
        exact Nat.le_add_right _ _
      rw [readByOffsets, step, Sliced.bind_ok, Statement.readAll_of_some statement]
      dsimp only
      rw [dif_pos ⟨later, inside⟩]
      have later := ih passed
      rw [← parts] at later
      obtain ⟨found, imported, more⟩ := ofStatements_cons
        ⟨k, Text.trimEnd ((Text.trimStart rest).takeWhile fun c => !Statement.isEnd c)⟩
        (Statement.readAll ((Text.trimStart rest).dropWhile fun c => !Statement.isEnd c).tail).1
        (Text.byteLength (front ++ rest) - Text.byteLength
          (Statement.readAll ((Text.trimStart rest).dropWhile fun c => !Statement.isEnd c).tail).2)
      rw [imported, later, more]
      rfl

theorem readByOffsets_eq (masked : Text) : readByOffsets masked 0 = .ok (ofMasked masked) :=
  readByOffsets_append [] masked

end Header

/-! ### Re-hosting -/

namespace Rehosting

def assignedNameByOffsets (line : Text) : Sliced (Option Text) :=
  match Text.firstNot? isNameChar line with
  | none => return none
  | some stop => do
    let name ← Text.cutTo stop line
    if name.isEmpty then return none
    else
      let rest ← Text.cutFrom stop line
      return if (Text.trimStart rest).head? == some ':' then some name else none

/-- The state in which the character at the given offset of the body is met. -/
def State.enterByOffsets (s : State) (remove : Text → Bool) (body : Text) (offset : Nat) :
    Sliced State :=
  if s.lineStart && s.depth == 0 && !s.skipping then do
    let line ← Text.cutFrom offset body
    let name ← assignedNameByOffsets (line.dropWhile isIndent)
    return { s with skipping := name.any remove }
  else return s

def stripFromByOffsets (remove : Text → Bool) (body : Text) :
    State → Nat → List Lexeme → Sliced Text
  | _, _, [] => return []
  | s, offset, x :: xs => do
    let entered ← s.enterByOffsets remove body offset
    let met := entered.count x
    let rest ← stripFromByOffsets remove body (met.leave x) (offset + x.char.utf8Size) xs
    return if met.skipping then rest else x.char :: rest

def stripByOffsets (body : Text) (remove : Text → Bool) : Sliced Text :=
  stripFromByOffsets remove body {} 0 (lex body)

theorem assignedNameByOffsets_eq (line : Text) :
    assignedNameByOffsets line = .ok (assignedName? line) := by
  rw [assignedNameByOffsets, Text.firstNot?_eq]
  cases left : line.dropWhile isNameChar with
  | nil =>
      have none : assignedName? line = none := by
        simp [assignedName?, left, Text.trimStart]
      rw [none]
      rfl
  | cons c rest =>
      have cut := Text.cutFrom_takeWhile isNameChar line
      rw [left] at cut
      simp only [reduceCtorEq, if_false, Text.cutTo_takeWhile, cut, Sliced.bind_ok, assignedName?,
        left]
      cases (line.takeWhile isNameChar).isEmpty with
      | true => rfl
      | false => rfl

theorem State.enterByOffsets_eq (s : State) (remove : Text → Bool) (front line : Text) :
    s.enterByOffsets remove (front ++ line) (Text.byteLength front) =
      .ok (s.enter remove line) := by
  unfold State.enterByOffsets State.enter
  split
  · simp only [Text.cutFrom_append, Sliced.bind_ok, assignedNameByOffsets_eq, startsRemoved]
    rfl
  · rfl

theorem stripFromByOffsets_eq (remove : Text → Bool) (s : State) (front : Text) (xs : List Lexeme) :
    stripFromByOffsets remove (front ++ xs.map (·.char)) s (Text.byteLength front) xs =
      .ok (stripFrom remove s xs) := by
  induction xs generalizing s front with
  | nil => rfl
  | cons x xs ih =>
      have rest (s : State) := ih s (front ++ [x.char])
      simp only [List.append_assoc, List.singleton_append, Text.byteLength_append,
        Text.byteLength_cons, Text.byteLength_nil, Nat.add_zero, ← List.map_cons] at rest
      simp only [stripFromByOffsets, State.enterByOffsets_eq, Sliced.bind_ok, rest, stripFrom]
      rfl

theorem stripByOffsets_eq (body : Text) (remove : Text → Bool) :
    stripByOffsets body remove = .ok (strip body remove) := by
  have whole := stripFromByOffsets_eq remove {} [] (lex body)
  rwa [Lexer.map_char_lex] at whole

end Rehosting

def Parts.rehostedByOffsets (parts : Parts) : Sliced (Option Text) :=
  match Container.ofKind? parts.rootKind with
  | none => return none
  | some container => do
    let stop ← difference (Text.byteLength parts.rootType) (Text.byteLength parts.rootKind)
    let qualifier ← Text.cutTo stop parts.rootType
    let inner ← Text.cutFrom (parts.rootOpen + 1) parts.content
    let body ← Rehosting.stripByOffsets inner container.loses
    let trimmed := (body.dropWhile Rehosting.isIndent).dropWhile (· == '\n')
    return some (qualifier ++ container.replacement ++
      " \x7b\n    anchors.fill: parent\n".toList ++ trimmed)

theorem Parts.rehostedByOffsets_eq {t : Text} {parts : Parts} (taken : decompose t = .ok parts) :
    parts.rehostedByOffsets = .ok parts.rehosted? := by
  cases kind : Container.ofKind? parts.rootKind with
  | none =>
      simp only [rehostedByOffsets, rehosted?, kind]
      rfl
  | some container =>
      obtain ⟨head, parsed, -, rfl⟩ := decompose_eq_ok_iff.mp taken
      obtain ⟨gap, body, opening⟩ := exists_opening parsed
      have qualifier := Text.cutTo_append (ElementHead.qualifier head.typeName)
        (ElementHead.unqualified head.typeName)
      have stop := difference_add (Text.byteLength (ElementHead.qualifier head.typeName))
        (Text.byteLength (ElementHead.unqualified head.typeName))
      rw [← Text.byteLength_append] at stop
      rw [ElementHead.qualifier_append_unqualified] at qualifier stop
      obtain ⟨front, text, length⟩ := opening.exists_front
      have inner := Text.cutFrom_append front body
      rw [← text, length] at inner
      rw [rehostedByOffsets, rehosted?, kind]
      simp only [rootKind, partsWith, stop, qualifier, inner, opening.dropBytes_brace,
        Sliced.bind_ok, Rehosting.stripByOffsets_eq]
      rfl

/-! ### Documents -/

def scanByOffsets (t : Text) : Sliced Facts := do
  let masked := maskComments t
  let header ← Header.readByOffsets masked 0
  let content ← Text.cutFrom header.contentStart masked
  return Facts.ofParts header.imports ((ElementHead.parse? content).map (·.typeName))

def decomposeByOffsets (t : Text) : Sliced (Except Malformation Parts) := do
  let masked := maskComments t
  let header ← Header.readByOffsets masked 0
  let rest ← Text.cutFrom header.contentStart masked
  let maskedContent := Text.trimEnd rest
  if maskedContent.isEmpty then return .error .noContent
  else
    match ElementHead.parse? maskedContent with
    | none => return .error .notAnElement
    | some head =>
      let stop := header.contentStart + Text.byteLength maskedContent
      let content ← Text.cutBetween header.contentStart stop t
      if !bracesBalanced content then return .error .unbalancedBraces
      else if (rootClose content).any (fun close => close + 1 < Text.byteLength content) then
        return .error .textAfterRoot
      else return .ok { header with content, rootType := head.typeName, rootOpen := head.brace }

def wrapByOffsets (doc : Document) (size : WindowSize) :
    Sliced (Except Error GeneratedDocument) := do
  let taken ← decomposeByOffsets doc.text
  return (taken.mapError (Error.malformed doc.path)).map fun parts =>
    { text := (Outline.window doc size parts).render
      locator := .directory doc.directory
      kind := .window
      source := doc.path }

def shownByOffsets (doc : Document) (alreadyHasRoot : Bool) (parts : Parts) :
    Sliced (Except Error Outline) :=
  if alreadyHasRoot then do
    match ← parts.rehostedByOffsets with
    | some text => return .ok [.block text]
    | none =>
      return .error (.wrapFailed doc.path
        ("no visual replacement for root type ".toList ++ parts.rootType))
  else return .ok (Outline.host parts.content)

def frameByOffsets (doc : Document) (alreadyHasRoot : Bool) :
    Sliced (Except Error GeneratedDocument) := do
  match ← decomposeByOffsets doc.text with
  | .error m => return .error (.malformed doc.path m)
  | .ok parts =>
    let shown ← shownByOffsets doc alreadyHasRoot parts
    return shown.map fun shown =>
      { text := (Outline.device doc .phone parts shown).render
        locator := .directory doc.directory
        kind := .frame
        source := doc.path }

theorem scanByOffsets_eq (t : Text) : scanByOffsets t = .ok (scan t) := by
  obtain ⟨front, split, -⟩ := Statement.exists_readAll (maskComments t)
  have cut := Text.cutFrom_append front (Statement.readAll (maskComments t)).2
  rw [← split, ← Header.contentStart_ofMasked split] at cut
  simp only [scanByOffsets, Header.readByOffsets_eq, Sliced.bind_ok, cut, scan,
    dropBytes_contentStart]
  rfl

/-- The offsets that cut the content out of the masked text cut it out of the text. -/
theorem exists_contentCut (t : Text) : ∃ front back : Text, t = front ++ (rawContent t ++ back) ∧
    Text.byteLength front = (Header.ofMasked (maskComments t)).contentStart ∧
    Text.byteLength (rawContent t) = Text.byteLength (maskedContent t) := by
  obtain ⟨header, content, tail, cut⟩ := exists_sections t
  refine ⟨header.map (·.char), tail.map (·.char), ?_, ?_, ?_⟩
  · rw [← cut.raw, ← List.map_append, ← List.map_append, ← cut.lexed, Lexer.map_char_lex]
  · rw [← cut.start, Lexeme.bytes]
  · rw [← cut.raw, ← cut.masked, Lexeme.byteLength_maskedText]

theorem decomposeByOffsets_eq (t : Text) : decomposeByOffsets t = .ok (decompose t) := by
  obtain ⟨front, split, -⟩ := Statement.exists_readAll (maskComments t)
  have rest := Text.cutFrom_append front (Statement.readAll (maskComments t)).2
  rw [← split, ← Header.contentStart_ofMasked split] at rest
  obtain ⟨before, after, whole, start, size⟩ := exists_contentCut t
  have content := Text.cutBetween_append before (rawContent t) after
  rw [← whole, start, size, maskedContent, dropBytes_contentStart] at content
  have raw : rawContent t = Text.slice _ _ t := rfl
  rw [maskedContent, dropBytes_contentStart] at raw
  simp only [decomposeByOffsets, Header.readByOffsets_eq, Sliced.bind_ok, rest, content, decompose,
    dropBytes_contentStart, ← raw]
  split
  · rfl
  · cases ElementHead.parse? (Text.trimEnd (Statement.readAll (maskComments t)).2) with
    | none => rfl
    | some head =>
        dsimp only
        split
        · rfl
        · split <;> rfl

theorem wrapByOffsets_eq (doc : Document) (size : WindowSize) :
    wrapByOffsets doc size = .ok (wrapInWindow doc size) := by
  rw [wrapByOffsets, decomposeByOffsets_eq]
  rfl

theorem shownByOffsets_eq {doc : Document} {parts : Parts} (taken : decompose doc.text = .ok parts)
    (alreadyHasRoot : Bool) : shownByOffsets doc alreadyHasRoot parts =
      .ok (shownContent doc alreadyHasRoot parts) := by
  cases alreadyHasRoot with
  | false => rfl
  | true =>
      simp only [shownByOffsets, shownContent, Parts.rehostedByOffsets_eq taken, if_true,
        Sliced.bind_ok]
      cases parts.rehosted? with
      | none => rfl
      | some text => rfl

theorem frameByOffsets_eq (doc : Document) (alreadyHasRoot : Bool) :
    frameByOffsets doc alreadyHasRoot = .ok (frameInPhone doc alreadyHasRoot) := by
  rw [frameByOffsets, decomposeByOffsets_eq, Sliced.bind_ok, frameInPhone, Document.decompose]
  cases taken : decompose doc.text with
  | error m => rfl
  | ok parts =>
      dsimp only
      rw [shownByOffsets_eq taken, Sliced.bind_ok]
      rfl

/-- The offsets found in the masked text are boundaries of the text itself: where the content starts and
ends, and the two sides of the root's opening brace. -/
structure CutsText (t : Text) : Prop where
  start : t.IsBoundary (Header.ofMasked (maskComments t)).contentStart
  stop : t.IsBoundary ((Header.ofMasked (maskComments t)).contentStart +
    Text.byteLength (maskedContent t))
  brace : ∀ head ∈ ElementHead.parse? (maskedContent t),
    t.IsBoundary ((Header.ofMasked (maskComments t)).contentStart + head.brace) ∧
      t.IsBoundary ((Header.ofMasked (maskComments t)).contentStart + (head.brace + 1))

theorem cutsText (t : Text) : CutsText t := by
  obtain ⟨front, back, whole, start, size⟩ := exists_contentCut t
  constructor
  · exact ⟨front, _, whole, start⟩
  · refine ⟨front ++ rawContent t, back, ?_, ?_⟩
    · rw [List.append_assoc, ← whole]
    · rw [Text.byteLength_append, start, size]
  · intro head parsed
    obtain ⟨gap, body, opening⟩ := exists_opening parsed
    have parts : t = front ++ (head.typeName ++ gap) ++ '\x7b' :: (body ++ back) := by
      refine whole.trans ?_
      rw [opening.text]
      simp only [List.append_assoc, List.cons_append]
    have lead : Text.byteLength (front ++ (head.typeName ++ gap)) =
        (Header.ofMasked (maskComments t)).contentStart + head.brace := by
      rw [Text.byteLength_append, start, opening.place]
    refine ⟨⟨_, _, parts, lead⟩, front ++ (head.typeName ++ gap) ++ ['\x7b'], body ++ back, ?_, ?_⟩
    · rw [List.append_assoc _ ['\x7b'], List.singleton_append]
      exact parts
    · rw [Text.byteLength_append, lead]
      rfl

/-- No cut is refused: every offset by which a document is scanned, taken apart and presented is a
boundary of the text that is cut there, and the loop over its header ends. -/
theorem cuts_stay_in_range (doc : Document) :
    scanByOffsets doc.text = .ok (scan doc.text) ∧
    decomposeByOffsets doc.text = .ok (decompose doc.text) ∧
    (∀ size, wrapByOffsets doc size = .ok (wrapInWindow doc size)) ∧
    (∀ alreadyHasRoot,
      frameByOffsets doc alreadyHasRoot = .ok (frameInPhone doc alreadyHasRoot)) ∧
    CutsText doc.text ∧
    ∀ t, Header.readByOffsets t 0 = .ok (Header.ofMasked t) ∧ Header.Advances t :=
  ⟨scanByOffsets_eq doc.text, decomposeByOffsets_eq doc.text, wrapByOffsets_eq doc,
    frameByOffsets_eq doc, cutsText doc.text,
    fun t => ⟨Header.readByOffsets_eq t, Header.advances t⟩⟩

end QmlPreview
