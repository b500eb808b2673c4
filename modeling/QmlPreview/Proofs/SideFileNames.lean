import Mathlib.Data.List.TakeWhile
import QmlPreview.Live.Sweep

/-! What the names of side files are made of. A name is taken apart in one way. It is a name indeed: no
slash stands in one, so a directory tells them apart. -/

namespace QmlPreview

/-- The name of a side file, taken apart into the digits of its number and its token. -/
structure NamesSideFile (name digits token : Text) : Prop where
  text : name = "Live".toList ++ (digits ++ '_' :: (token ++ ".qml".toList))
  numbered : digits ≠ []
  decimal : ∀ c ∈ digits, Text.isDecimalDigit c = true
  length_token : token.length = 8
  hex : ∀ c ∈ token, c ∈ "0123456789abcdef".toList

theorem isLowerHex_iff {c : Char} : isLowerHex c = true ↔ c ∈ "0123456789abcdef".toList := by
  constructor
  · intro hex
    have ascii : ∀ n < 103, isLowerHex (Char.ofNat n) = true →
        Char.ofNat n ∈ "0123456789abcdef".toList := by decide
    have small : c.toNat < 103 := by
      simp only [isLowerHex, Char.isDigit, Bool.or_eq_true, Bool.and_eq_true, decide_eq_true_eq,
        Char.le_def, UInt32.le_iff_toNat_le] at hex
      rcases hex with ⟨_, upper⟩ | ⟨_, upper⟩
      · exact Nat.lt_of_le_of_lt upper (by decide)
      · exact Nat.lt_of_le_of_lt upper (by decide)
    have hex' := ascii c.toNat small
    rw [Char.ofNat_toNat] at hex'
    exact hex' hex
  · have all : ∀ d ∈ "0123456789abcdef".toList, isLowerHex d = true := by decide
    exact all c

theorem isTokenSuffix_iff {t : Text} : isTokenSuffix t = true ↔
    ∃ token : Text, token.length = 8 ∧ (∀ c ∈ token, c ∈ "0123456789abcdef".toList) ∧
      t = token ++ ".qml".toList := by
  simp only [isTokenSuffix, Bool.and_eq_true, beq_iff_eq, List.all_eq_true, isLowerHex_iff]
  constructor
  · rintro ⟨⟨length, hex⟩, suffix⟩
    refine ⟨t.take 8, length, hex, ?_⟩
    rw [← suffix, List.take_append_drop]
  · rintro ⟨token, length, hex, rfl⟩
    rw [← length, List.take_left, List.drop_left]
    exact ⟨⟨rfl, hex⟩, rfl⟩

/-- A name of a side file is `Live`, a number in the digits of any script, `_`, eight hexadecimal
digits and `.qml`, with nothing before or after. -/
theorem isSideFileName_iff {name : Text} :
    isSideFileName name = true ↔ ∃ digits token, NamesSideFile name digits token := by
  constructor
  · intro accepted
    unfold isSideFileName at accepted
    cases lead : Text.dropLead? "Live".toList name with
    | none => simp only [lead, Bool.false_eq_true] at accepted
    | some rest =>
        obtain rfl := Text.dropLead?_eq_some_iff.mp lead
        simp only [lead, Bool.and_eq_true] at accepted
        obtain ⟨nonempty, suffixed⟩ := accepted
        split at suffixed
        case h_1 suffix after =>
          obtain ⟨token, length, hex, rfl⟩ := isTokenSuffix_iff.mp suffixed
          refine ⟨rest.takeWhile Text.isDecimalDigit, token, ?_, ?_, ?_, length, hex⟩
          · rw [← after, List.takeWhile_append_dropWhile]
          · simpa using nonempty
          · exact fun c h => List.mem_takeWhile_imp h
        case h_2 => cases suffixed
  · rintro ⟨digits, token, rfl, numbered, decimal, length, hex⟩
    have suffix := isTokenSuffix_iff.mpr ⟨token, length, hex, rfl⟩
    have lead := Text.dropLead?_eq_some_iff.mpr
      (rfl : "Live".toList ++ (digits ++ '_' :: (token ++ ".qml".toList)) = _)
    have stop : Text.isDecimalDigit '_' = false := by decide
    simp only [isSideFileName, lead, List.takeWhile_append_of_pos decimal,
      List.dropWhile_append_of_pos decimal]
    simp only [List.takeWhile_cons, List.dropWhile_cons, stop, Bool.false_eq_true, if_false,
      List.append_nil, suffix, Bool.and_true]
    simpa using numbered

/-- The token and the suffix have one length in all names, so they end a name alike. -/
theorem NamesSideFile.unique {name digits digits' token token' : Text}
    (names : NamesSideFile name digits token) (names' : NamesSideFile name digits' token') :
    digits = digits' ∧ token = token' := by
  have same := List.append_cancel_left (names.text.symm.trans names'.text)
  have lengths : ('_' :: (token ++ ".qml".toList)).length =
      ('_' :: (token' ++ ".qml".toList)).length := by
    rw [List.length_cons, List.length_cons, List.length_append, List.length_append,
      names.length_token, names'.length_token]
  obtain ⟨first, last⟩ := List.append_inj' same lengths
  exact ⟨first, List.append_cancel_right (List.cons.inj last).2⟩

theorem Token.length_short (token : Token) : token.short.length = 8 := by
  rw [short, List.length_take, token.length_digits]
  rfl

theorem Token.isLowerHex_short (token : Token) : ∀ c ∈ token.short, isLowerHex c = true :=
  fun c h => token.isLowerHex_digits c (List.mem_of_mem_take h)

theorem sideFileName_eq (counter : UInt64) (token : Token) : sideFileName counter token =
    "Live".toList ++ (Text.ofNat counter.toNat ++ '_' :: (token.short ++ ".qml".toList)) := by
  unfold sideFileName
  generalize "Live".toList = lead, ".qml".toList = suffix
  rw [List.append_assoc, List.append_assoc, List.cons_append]

theorem namesSideFile_sideFileName (counter : UInt64) (token : Token) :
    NamesSideFile (sideFileName counter token) (Text.ofNat counter.toNat) token.short where
  text := sideFileName_eq counter token
  numbered := Nat.toDigits_ne_nil
  decimal := fun _ h => Text.isDecimalDigit_of_isDigit (Text.isDigit_of_mem_ofNat h)
  length_token := token.length_short
  hex := fun c h => isLowerHex_iff.mp (token.isLowerHex_short c h)

theorem isSideFileName_sideFileName (counter : UInt64) (token : Token) :
    isSideFileName (sideFileName counter token) = true :=
  isSideFileName_iff.mpr ⟨_, _, namesSideFile_sideFileName counter token⟩

/-- Names with different tokens are different. -/
theorem short_eq_of_sideFileName_eq {counter counter' : UInt64} {token token' : Token}
    (same : sideFileName counter token = sideFileName counter' token') :
    token.short = token'.short :=
  ((namesSideFile_sideFileName counter token).unique
    (same ▸ namesSideFile_sideFileName counter' token')).2

/-- Nothing but the parts of a name stands in it. -/
theorem notMem_of_isSideFileName {name : Text} (accepted : isSideFileName name = true) {c : Char}
    (other : c ∉ "Live_.qml0123456789abcdef".toList) (digit : Text.isDecimalDigit c = false) :
    c ∉ name := by
  obtain ⟨digits, token, rfl, _, decimal, _, hex⟩ := isSideFileName_iff.mp accepted
  have fixed : "Live_.qml0123456789abcdef".toList =
      "Live".toList ++ '_' :: (".qml".toList ++ "0123456789abcdef".toList) := rfl
  rw [fixed] at other
  simp only [List.mem_append, List.mem_cons, not_or] at other ⊢
  exact ⟨other.1, fun h => Bool.eq_false_iff.mp digit (decimal c h), other.2.1,
    fun h => other.2.2.2 (hex c h), other.2.2.1⟩

theorem slash_notMem_of_isSideFileName {name : Text} (accepted : isSideFileName name = true) :
    '/' ∉ name :=
  notMem_of_isSideFileName accepted (by decide) (by decide)

theorem isSilent_of_isSideFileName {name : Text} (accepted : isSideFileName name = true) :
    Path.isSilent name = false := by
  obtain ⟨digits, token, rfl, _⟩ := isSideFileName_iff.mp accepted
  rfl

namespace Path

theorem isAbsolute_eq_false {name : Text} (slashless : '/' ∉ name) : isAbsolute name = false := by
  cases name with
  | nil => rfl
  | cons c rest =>
      have other : c ≠ '/' := by
        rintro rfl
        exact slashless (List.mem_cons_self ..)
      simpa [isAbsolute] using other

/-- Two names in a directory have two paths. -/
theorem join_inj {dir name name' : Path} (h : '/' ∉ name) (h' : '/' ∉ name') :
    join dir name = join dir name' ↔ name = name' := by
  constructor
  · intro same
    simp only [join, isAbsolute_eq_false h, isAbsolute_eq_false h', Bool.false_eq_true,
      if_false] at same
    split at same
    · exact same
    · split at same
      · exact List.append_cancel_left same
      · exact (List.cons.inj (List.append_cancel_left same)).2
  · rintro rfl
    rfl

theorem length_lead_le (p : Path) : (lead p).length ≤ 1 := by
  unfold lead
  split <;> simp

theorem lead_eq_nil {name : Text} (slashless : '/' ∉ name) (loud : isSilent name = false) :
    lead name = [] := by
  unfold lead
  split
  · exact absurd (List.mem_cons_self ..) slashless
  · cases loud
  · exact absurd (List.mem_cons_of_mem _ (List.mem_cons_self ..)) slashless
  · rfl

theorem exists_splitOn_body {name : Text} (slashless : '/' ∉ name) (before : Path) :
    ∃ pieces, (body (before ++ '/' :: name)).splitOn '/' = pieces ++ [name] := by
  have named : name.splitOn '/' = [name] := List.splitOn_eq_singleton slashless
  cases before with
  | nil => exact ⟨[], named⟩
  | cons c rest =>
      have short := length_lead_le (c :: rest ++ '/' :: name)
      have within : (lead (c :: rest ++ '/' :: name)).length ≤ (c :: rest).length :=
        short.trans (Nat.succ_le_succ (Nat.zero_le _))
      rw [body, List.drop_append_of_le_length within, List.splitOn_append_cons_self, named]
      exact ⟨_, rfl⟩

/-- The last component of the path of a name in a directory is the name. -/
theorem getLast?_components_join {dir name : Path} (slashless : '/' ∉ name)
    (loud : isSilent name = false) : (components (join dir name)).2.getLast? = some name := by
  have piece : ∃ pieces, (body (join dir name)).splitOn '/' = pieces ++ [name] := by
    simp only [join, isAbsolute_eq_false slashless, Bool.false_eq_true, if_false]
    split
    · rw [body, lead_eq_nil slashless loud]
      exact ⟨[], List.splitOn_eq_singleton slashless⟩
    · split
      case isTrue ends =>
        obtain ⟨front, rfl⟩ := List.getLast?_eq_some_iff.mp ends
        rw [List.append_assoc]
        exact exists_splitOn_body slashless front
      case isFalse => exact exists_splitOn_body slashless dir
  obtain ⟨pieces, split⟩ := piece
  simp [components, split, loud]

end Path

end QmlPreview
