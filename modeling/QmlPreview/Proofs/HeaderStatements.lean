import QmlPreview.Proofs.HeaderRoundTrip

/-! Which statements of a header reach a generated document. A header is cut into statements by
keywords, newlines and semicolons alone, inside of quotes as well; pragmas are repeated first, then the
imports that name a target. An import that is cut inside of its quotes names none, and is lost. -/

namespace QmlPreview

theorem Keyword.ofText?_eq_none_iff {t : Text} :
    ofText? t = none ↔ ∀ k, startsText k t = false := by
  constructor
  · intro none k
    cases starts : startsText k t with
    | false => rfl
    | true => cases none.symm.trans (ofText?_eq_some_iff.mpr starts)
  · intro none
    cases found : ofText? t with
    | none => rfl
    | some k => cases (none k).symm.trans (ofText?_eq_some_iff.mp found)

namespace Statement

/-- The text is a header of the given statements and the rest after it. A statement is a keyword that
a blank follows, with all that stands before the next newline or semicolon, or else before the end. -/
inductive HeaderOf : Text → List Statement → Text → Prop
  | done {lead rest : Text} (blank : ∀ c ∈ lead, Text.isBlank c = true)
      (visible : Text.StartsVisible rest) (noKeyword : ∀ k, Keyword.startsText k rest = false) :
      HeaderOf (lead ++ rest) [] rest
  | statement {lead tail later rest : Text} {k : Keyword} {stop : Option Char}
      {ss : List Statement} (blank : ∀ c ∈ lead, Text.isBlank c = true)
      (separated : (tail ++ stop.toList).head?.any Text.isBlank = true)
      (runs : ∀ c ∈ tail, isEnd c = false) (stops : ∀ c ∈ stop, isEnd c = true)
      (last : stop = none → later = []) (more : HeaderOf later ss rest) :
      HeaderOf (lead ++ (k.spelling ++ tail ++ (stop.toList ++ later)))
        (⟨k, Text.trimEnd (k.spelling ++ tail)⟩ :: ss) rest

section
variable {k : Keyword} {tail : Text} {stop : Option Char}

theorem trimStart_statement (rest : Text) :
    Text.trimStart (k.spelling ++ tail ++ rest) = k.spelling ++ tail ++ rest := by
  rw [List.append_assoc]
  exact Text.trimStart_eq_self (k.startsVisible_spelling _)

theorem startsText_statement (separated : (tail ++ stop.toList).head?.any Text.isBlank = true)
    (later : Text) :
    Keyword.startsText k (k.spelling ++ tail ++ (stop.toList ++ later)) = true := by
  refine Keyword.startsText_iff.mpr ⟨tail ++ stop.toList ++ later, ?_, ?_⟩
  · simp only [List.append_assoc]
  · obtain ⟨c, first, blank⟩ := Option.any_eq_true _ _ |>.mp separated
    rw [List.head?_append, first]
    exact blank

theorem span_statement (runs : ∀ c ∈ tail, isEnd c = false) (stops : ∀ c ∈ stop, isEnd c = true)
    {later : Text} (last : stop = none → later = []) :
    (k.spelling ++ tail ++ (stop.toList ++ later)).takeWhile (fun c => !isEnd c) =
        k.spelling ++ tail ∧
      (k.spelling ++ tail ++ (stop.toList ++ later)).dropWhile (fun c => !isEnd c) =
        stop.toList ++ later := by
  have body : ∀ c ∈ k.spelling ++ tail, (!isEnd c) = true := by
    refine List.forall_mem_append.mpr ⟨fun c hc => ?_, fun c hc => ?_⟩
    · rw [k.spelling_noEnd c hc]
      rfl
    · rw [runs c hc]
      rfl
  rw [List.takeWhile_append_of_pos body, List.dropWhile_append_of_pos body]
  cases stop with
  | none =>
      rw [last rfl]
      exact ⟨List.append_nil _, rfl⟩
  | some c =>
      have ends : (!isEnd c) = false := by
        rw [stops c rfl]
        rfl
      simp only [Option.toList_some, List.cons_append, List.nil_append, List.takeWhile_cons,
        List.dropWhile_cons, ends, Bool.false_eq_true, if_false, List.append_nil, and_self]

theorem tail_stop {later : Text} (last : stop = none → later = []) :
    (stop.toList ++ later).tail = later := by
  cases stop with
  | none => rw [last rfl]; rfl
  | some c => rfl

end

theorem HeaderOf.readAll_eq {t rest : Text} {ss : List Statement} (h : HeaderOf t ss rest) :
    readAll t = (ss, rest) := by
  induction h with
  | @done lead rest blank visible noKeyword =>
      have trimmed : Text.trimStart (lead ++ rest) = rest := by
        rw [Text.trimStart_append blank, Text.trimStart_eq_self visible]
      have none : Keyword.ofText? (Text.trimStart (lead ++ rest)) = none := by
        rw [trimmed]
        exact Keyword.ofText?_eq_none_iff.mpr noKeyword
      rw [readAll_of_none none, trimmed]
  | @statement lead tail later rest k stop ss blank separated runs stops last more ih =>
      have trimmed : Text.trimStart (lead ++ (k.spelling ++ tail ++ (stop.toList ++ later))) =
          k.spelling ++ tail ++ (stop.toList ++ later) := by
        rw [Text.trimStart_append blank, trimStart_statement]
      have some : Keyword.ofText?
          (Text.trimStart (lead ++ (k.spelling ++ tail ++ (stop.toList ++ later)))) = some k := by
        rw [trimmed]
        exact Keyword.ofText?_eq_some_iff.mpr (startsText_statement separated later)
      obtain ⟨text, left⟩ := span_statement (k := k) runs stops last
      rw [readAll_of_some some, trimmed, text, left, tail_stop last, ih]

theorem HeaderOf.next {k : Keyword} {lead start rest : Text} {ss : List Statement}
    (blank : ∀ c ∈ lead, Text.isBlank c = true) (starts : Keyword.startsText k start = true)
    (more : HeaderOf (start.dropWhile (fun c => !isEnd c)).tail ss rest) :
    HeaderOf (lead ++ start)
      (⟨k, Text.trimEnd (start.takeWhile (fun c => !isEnd c))⟩ :: ss) rest := by
  obtain ⟨tail, rfl, separated⟩ := Keyword.startsText_iff.mp starts
  have spelled : ∀ c ∈ k.spelling, (!isEnd c) = true := by
    intro c hc
    rw [k.spelling_noEnd c hc]
    rfl
  rw [List.dropWhile_append_of_pos spelled] at more
  rw [List.takeWhile_append_of_pos spelled]
  have left : (tail.dropWhile (fun c => !isEnd c)).head?.toList ++
      (tail.dropWhile (fun c => !isEnd c)).tail = tail.dropWhile (fun c => !isEnd c) := by
    cases tail.dropWhile (fun c => !isEnd c) <;> rfl
  have parts : k.spelling ++ tail = k.spelling ++ tail.takeWhile (fun c => !isEnd c) ++
      ((tail.dropWhile (fun c => !isEnd c)).head?.toList ++
        (tail.dropWhile (fun c => !isEnd c)).tail) := by
    rw [left, List.append_assoc, List.takeWhile_append_dropWhile]
  -- The first character that is not taken ends the statement, if there is one.
  rw [parts]
  refine .statement blank ?_ ?_ ?_ ?_ more
  · cases tail with
    | nil => cases separated
    | cons c tail =>
        cases ends : isEnd c <;>
          simpa [List.takeWhile_cons, List.dropWhile_cons, ends] using separated
  · intro c hc
    exact Bool.not_eq_true' _ |>.mp (List.all_eq_true.mp List.all_takeWhile c hc)
  · intro c hc
    have stop := List.head?_dropWhile_not (fun c => !isEnd c) tail
    rw [Option.mem_def.mp hc] at stop
    exact Bool.not_eq_false' _ |>.mp stop
  · intro none
    rw [List.head?_eq_none_iff.mp none]
    rfl

theorem headerOf_readAll (t : Text) : HeaderOf t (readAll t).1 (readAll t).2 := by
  induction t using readAll.induct with
  | case1 t none =>
      obtain ⟨lead, blank, parts⟩ := Text.exists_trimStart t
      have header := HeaderOf.done blank (Text.startsVisible_trimStart t)
        (Keyword.ofText?_eq_none_iff.mp none)
      rw [readAll_of_none none]
      rwa [← parts] at header
  | case2 t k statement _ _ _ _ ih =>
      obtain ⟨lead, blank, parts⟩ := Text.exists_trimStart t
      have header := HeaderOf.next blank (Keyword.ofText?_eq_some_iff.mp statement) ih
      rw [readAll_of_some statement]
      rwa [← parts] at header

theorem headerOf_iff {t rest : Text} {ss : List Statement} :
    HeaderOf t ss rest ↔ readAll t = (ss, rest) := by
  constructor
  · exact HeaderOf.readAll_eq
  · intro read
    have header := headerOf_readAll t
    rwa [read] at header

theorem HeaderOf.wellFormed {t rest : Text} {ss : List Statement} (h : HeaderOf t ss rest) :
    ∀ s ∈ ss, s.WellFormed := by
  intro s hs
  refine wellFormed_of_mem_readAll (t := t) ?_
  rwa [h.readAll_eq]

end Statement

namespace Import

/-- After the keyword the statement names a target: a word, or a path between two double quotes. -/
def NamesTarget (statement : Text) : Prop :=
  ∃ gap c tail, statement = "import".toList ++ (gap ++ c :: tail) ∧ gap ≠ [] ∧
    (∀ b ∈ gap, Text.isBlank b = true) ∧ Text.isBlank c = false ∧
    (c = '"' → ∃ path rest, tail = path ++ '"' :: rest ∧ path ≠ [] ∧ '"' ∉ path)

def namesTarget (statement : Text) : Bool :=
  (Text.dropLead? "import".toList statement).any fun rest =>
    rest.head?.any Text.isBlank && (readTarget? (Text.trimStart rest)).any (!·.1.isEmpty)

theorem isSome_parse? (statement : Text) :
    (parse? statement).isSome = namesTarget (bare statement) := by
  unfold parse? namesTarget
  dsimp only
  cases Text.dropLead? "import".toList (bare statement) with
  | none => rfl
  | some rest =>
      cases blank : rest.head?.any Text.isBlank with
      | false => simp [blank]
      | true =>
          cases read : readTarget? (Text.trimStart rest) with
          | none => simp [blank, read]
          | some found =>
              obtain ⟨target, isPath, tail⟩ := found
              cases empty : target.isEmpty with
              | false => simp [blank, read, empty]
              | true => simp [blank, read, empty]

theorem readTarget?_quoted (tail : Text) : (readTarget? ('"' :: tail)).any (!·.1.isEmpty) = true ↔
    ∃ path rest, tail = path ++ '"' :: rest ∧ path ≠ [] ∧ '"' ∉ path := by
  have unquoted : ∀ c ∈ tail.takeWhile (· != '"'), (c != '"') = true :=
    fun c hc => List.all_eq_true.mp List.all_takeWhile c hc
  constructor
  · intro read
    cases left : tail.dropWhile (· != '"') with
    | nil => simp [readTarget?, left] at read
    | cons c rest =>
        have quote := List.head?_dropWhile_not (· != '"') tail
        rw [left] at quote
        have same : c = '"' := by simpa using quote
        subst same
        refine ⟨tail.takeWhile (· != '"'), rest, ?_, ?_, ?_⟩
        · rw [← left, List.takeWhile_append_dropWhile]
        · simpa [readTarget?, left] using read
        · intro member
          exact absurd (unquoted _ member) (by decide)
  · rintro ⟨path, rest, rfl, nonempty, unquoted⟩
    have path_all : ∀ c ∈ path, (c != '"') = true := by
      intro c hc
      refine bne_iff_ne.mpr ?_
      rintro rfl
      exact unquoted hc
    simp [readTarget?, List.takeWhile_append_of_pos path_all,
      List.dropWhile_append_of_pos path_all, nonempty]

theorem readTarget?_iff {c : Char} {tail : Text} (visible : Text.isBlank c = false) :
    (readTarget? (c :: tail)).any (!·.1.isEmpty) = true ↔
      (c = '"' → ∃ path rest, tail = path ++ '"' :: rest ∧ path ≠ [] ∧ '"' ∉ path) := by
  by_cases quoted : c = '"'
  · subst quoted
    simp only [readTarget?_quoted, forall_const]
  · have word : readTarget? (c :: tail) = some ((c :: tail).takeWhile (fun c => !Text.isBlank c),
        false, (c :: tail).dropWhile (fun c => !Text.isBlank c)) := by
      unfold readTarget?
      split
      · rename_i same
        exact absurd (List.cons.inj same).1 quoted
      · rfl
    simp [word, visible, quoted]

theorem namesTarget_iff {statement : Text} :
    namesTarget statement = true ↔ NamesTarget statement := by
  unfold namesTarget
  cases dropped : Text.dropLead? "import".toList statement with
  | none =>
      refine ⟨nofun, ?_⟩
      rintro ⟨gap, c, tail, spelled, -⟩
      cases dropped.symm.trans (Text.dropLead?_eq_some_iff.mpr spelled)
  | some rest =>
      obtain rfl := Text.dropLead?_eq_some_iff.mp dropped
      rw [Option.any_some, Bool.and_eq_true]
      constructor
      · rintro ⟨blank, read⟩
        obtain ⟨gap, gapBlank, parts⟩ := Text.exists_trimStart rest
        cases start : Text.trimStart rest with
        | nil =>
            rw [start] at read
            cases read
        | cons c tail =>
            have visible : Text.isBlank c = false := by
              refine Text.startsVisible_trimStart rest c ?_
              rw [start]
              rfl
            rw [start] at parts read
            refine ⟨gap, c, tail, by rw [← parts], ?_, gapBlank, visible,
              (readTarget?_iff visible).mp read⟩
            rintro rfl
            rw [parts] at blank
            cases visible.symm.trans blank
      · rintro ⟨gap, c, tail, spelled, nonempty, gapBlank, visible, target⟩
        obtain rfl := List.append_cancel_left spelled
        have start : Text.trimStart (gap ++ c :: tail) = c :: tail := by
          rw [Text.trimStart_append gapBlank]
          exact Text.trimStart_eq_self fun d hd => by cases hd; exact visible
        rw [start]
        refine ⟨?_, (readTarget?_iff visible).mpr target⟩
        obtain ⟨b, gap, rfl⟩ := List.exists_cons_of_ne_nil nonempty
        exact gapBlank b List.mem_cons_self

instance : DecidablePred NamesTarget :=
  fun statement => decidable_of_iff (namesTarget statement = true) namesTarget_iff

end Import

namespace Statement

/-- The statements that a generated document repeats: pragmas, then imports that name a target. -/
def repeatable (ss : List Statement) : List Statement :=
  ss.filter (·.keyword = .pragma) ++
    ss.filter (fun s => s.keyword = .«import» ∧ Import.NamesTarget s.text)

theorem WellFormed.raw_parse? {s : Statement} (h : s.WellFormed) :
    (Import.parse? s.text).map (·.raw) =
      if Import.NamesTarget s.text then some s.text else none := by
  have bare : Import.bare s.text = s.text := by
    refine Import.bare_eq_self ?_ h.endsVisible h.noEnd
    simpa only [List.append_nil] using h.startsVisible []
  have target := Import.isSome_parse? s.text
  rw [bare] at target
  cases parsed : Import.parse? s.text with
  | none =>
      rw [parsed] at target
      have targetless : ¬ Import.NamesTarget s.text := by
        rw [← Import.namesTarget_iff, ← target]
        nofun
      rw [if_neg targetless]
      rfl
  | some i =>
      rw [parsed] at target
      rw [if_pos (Import.namesTarget_iff.mp target.symm), Option.map_some,
        Import.raw_eq_text h parsed]

theorem raw_imports {ss : List Statement} (h : ∀ s ∈ ss, s.WellFormed) (n : Nat) :
    (Header.ofStatements ss n).imports.map (·.raw) =
      (ss.filter (fun s => s.keyword = .«import» ∧ Import.NamesTarget s.text)).map (·.text) := by
  simp only [Header.ofStatements]
  induction ss with
  | nil => rfl
  | cons s ss ih =>
      rw [List.forall_mem_cons] at h
      obtain ⟨wellFormed, later⟩ := h
      have first := wellFormed.raw_parse?
      by_cases keyword : s.keyword = .«import»
      · by_cases target : Import.NamesTarget s.text
        · rw [if_pos target, Option.map_eq_some_iff] at first
          obtain ⟨i, parsed, raw⟩ := first
          simp [keyword, target, parsed, raw, ih later]
        · rw [if_neg target, Option.map_eq_none_iff] at first
          simp [keyword, target, first, ih later]
      · simp [keyword, ih later]

/-- All imports are repeated exactly if each of them names a target. -/
theorem raw_imports_eq_iff {ss : List Statement} (h : ∀ s ∈ ss, s.WellFormed) (n : Nat) :
    (Header.ofStatements ss n).imports.map (·.raw) =
        (ss.filter (·.keyword = .«import»)).map (·.text) ↔
      ∀ s ∈ ss, s.keyword = .«import» → Import.NamesTarget s.text := by
  have both : ss.filter (fun s => s.keyword = .«import» ∧ Import.NamesTarget s.text) =
      (ss.filter (·.keyword = .«import»)).filter (fun s => Import.NamesTarget s.text) := by
    rw [List.filter_filter]
    refine List.filter_congr fun s _ => ?_
    rw [Bool.decide_and, Bool.and_comm]
  rw [raw_imports h n, both]
  constructor
  · intro same
    have length := congrArg List.length same
    rw [List.length_map, List.length_map, List.length_filter_eq_length_iff] at length
    intro s member keyword
    exact of_decide_eq_true
      (length s (List.mem_filter.mpr ⟨member, decide_eq_true keyword⟩))
  · intro targets
    rw [List.filter_eq_self.mpr]
    intro s kept
    obtain ⟨member, keyword⟩ := List.mem_filter.mp kept
    exact decide_eq_true (targets s member (of_decide_eq_true keyword))

theorem lines_eq (ss : List Statement) : lines ss = (ss.map (·.text)).flatMap (· ++ ['\n']) := by
  rw [lines, List.flatMap_map]

end Statement

section
variable {t : Text} {parts : Parts} (taken : decompose t = .ok parts) {ss : List Statement}
  {rest : Text} (header : Statement.HeaderOf (maskComments t) ss rest)
include taken header

theorem pragmas_of_headerOf :
    parts.pragmas = (ss.filter (·.keyword = .pragma)).map (·.text) := by
  have read := congrArg Header.pragmas (toHeader_of_decompose taken)
  rwa [Header.ofMasked, header.readAll_eq] at read

theorem imports_eq_of_headerOf : parts.imports = (Header.ofStatements ss 0).imports := by
  have read := congrArg Header.imports (toHeader_of_decompose taken)
  rwa [Header.ofMasked, header.readAll_eq] at read

theorem imports_of_headerOf : parts.imports.map (·.raw) =
    (ss.filter (fun s => s.keyword = .«import» ∧ Import.NamesTarget s.text)).map (·.text) := by
  rw [imports_eq_of_headerOf taken header]
  exact Statement.raw_imports header.wellFormed 0

theorem imports_eq_iff_of_headerOf :
    parts.imports.map (·.raw) = (ss.filter (·.keyword = .«import»)).map (·.text) ↔
      ∀ s ∈ ss, s.keyword = .«import» → Import.NamesTarget s.text := by
  rw [imports_eq_of_headerOf taken header]
  exact Statement.raw_imports_eq_iff header.wellFormed 0

theorem printed_of_headerOf (text : Text) : Statement.lines (Statement.repeatable ss) <+:
    printed parts.repeated text := by
  have own : Statement.lines parts.toHeader.statements =
      Statement.lines (Statement.repeatable ss) := by
    rw [Statement.lines_eq, Statement.lines_eq, Statement.repeatable, List.map_append,
      ← pragmas_of_headerOf taken header, ← imports_of_headerOf taken header, Header.statements]
    simp only [List.map_append, List.map_map, Function.comp_def, List.map_id']
  rw [← own, printed, Parts.repeated, Statement.lines, Statement.lines, List.flatMap_append,
    List.append_assoc]
  exact List.prefix_append _ _

end

theorem rehosted_of_framed {doc : Document} {parts : Parts} (taken : decompose doc.text = .ok parts)
    {g : GeneratedDocument} (framed : frameInPhone doc true = .ok g) :
    ∃ text, parts.rehosted? = some text := by
  cases rehosted : parts.rehosted? with
  | some text => exact ⟨text, rfl⟩
  | none =>
      obtain ⟨e, refused⟩ := frameInPhone_rehost_error taken rehosted
      cases framed.symm.trans refused

/-- Of a document that can be taken apart, a generated text repeats every pragma and every import that
names a target, as they are written and in order; any other document is reported as malformed. So no
statement is lost exactly if every import, as the header is cut, names a target. -/
theorem header_statements_repeated (doc : Document) (size : WindowSize) :
    ∃ ss rest, Statement.HeaderOf (maskComments doc.text) ss rest ∧
      ((∃ m, decompose doc.text = .error m ∧
          wrapInWindow doc size = .error (.malformed doc.path m) ∧
          ∀ rehost, frameInPhone doc rehost = .error (.malformed doc.path m)) ∨
        ∃ parts, decompose doc.text = .ok parts ∧
          Text.dropBytes parts.contentStart (maskComments doc.text) = rest ∧
          parts.pragmas = (ss.filter (·.keyword = .pragma)).map (·.text) ∧
          parts.imports.map (·.raw) =
            (ss.filter (fun s => s.keyword = .«import» ∧ Import.NamesTarget s.text)).map (·.text) ∧
          (parts.imports.map (·.raw) = (ss.filter (·.keyword = .«import»)).map (·.text) ↔
            ∀ s ∈ ss, s.keyword = .«import» → Import.NamesTarget s.text) ∧
          (∃ g, wrapInWindow doc size = .ok g ∧
            Statement.lines (Statement.repeatable ss) <+: g.text) ∧
          (∃ g, frameInPhone doc false = .ok g ∧
            Statement.lines (Statement.repeatable ss) <+: g.text) ∧
          ∀ g, frameInPhone doc true = .ok g →
            Statement.lines (Statement.repeatable ss) <+: g.text) := by
  have header := Statement.headerOf_readAll (maskComments doc.text)
  refine ⟨_, _, header, ?_⟩
  cases taken : decompose doc.text with
  | error m =>
      have malformed : doc.decompose = .error (.malformed doc.path m) := by
        rw [Document.decompose, taken]
        rfl
      refine .inl ⟨m, rfl, ?_, fun rehost => ?_⟩
      · rw [wrapInWindow, malformed]
        rfl
      · rw [frameInPhone, malformed]
        rfl
  | ok parts =>
      have start : parts.contentStart = (Header.ofMasked (maskComments doc.text)).contentStart :=
        congrArg Header.contentStart (toHeader_of_decompose taken)
      refine .inr ⟨parts, rfl, ?_, pragmas_of_headerOf taken header,
        imports_of_headerOf taken header, imports_eq_iff_of_headerOf taken header,
        ⟨_, wrapInWindow_eq taken size, ?_⟩, ⟨_, frameInPhone_host_eq taken, ?_⟩, ?_⟩
      · rw [start, dropBytes_contentStart]
      · exact printed_of_headerOf taken header _
      · exact printed_of_headerOf taken header _
      · intro g framed
        obtain ⟨text, rehosted⟩ := rehosted_of_framed taken framed
        rw [frameInPhone_rehost_eq taken rehosted] at framed
        cases framed
        exact printed_of_headerOf taken header _

/-- An import of a directory whose name holds a semicolon is cut there. The first piece names no target,
and no line of the generated text starts with it. -/
theorem cut_import_not_repeated :
    let doc : Document := ⟨"/a/Page.qml".toList, "import \"a; import b\"\nItem \x7b\x7d\n".toList,
      Time.epoch⟩
    Statement.HeaderOf (maskComments doc.text)
        [⟨.«import», "import \"a".toList⟩, ⟨.«import», "import b\"".toList⟩]
        "Item \x7b\x7d\n".toList ∧
      ¬ Import.NamesTarget "import \"a".toList ∧
      ∃ parts, decompose doc.text = .ok parts ∧ parts.pragmas = [] ∧
        parts.imports.map (·.raw) = ["import b\"".toList] ∧
        ∃ g, wrapInWindow doc {} = .ok g ∧
          ∀ line ∈ Text.lines g.text, ¬ "import \"a".toList <+: line := by
  intro doc
  let parts : Parts :=
    { pragmas := []
      imports := [⟨"b\"".toList, none, none, false, "import b\"".toList⟩]
      contentStart := 21, content := "Item \x7b\x7d".toList
      rootType := "Item".toList, rootOpen := 5 }
  have taken : decompose doc.text = .ok parts := decompose_of_toOption (by decide +kernel)
  refine ⟨?_, by decide, parts, taken, rfl, rfl, _, wrapInWindow_eq taken {}, by decide +kernel⟩
  exact Statement.headerOf_iff.mpr (by decide +kernel)

end QmlPreview
