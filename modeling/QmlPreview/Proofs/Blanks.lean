import QmlPreview.Text

/-! Blanks at the two ends of a text, and what trimming makes of them. -/

namespace QmlPreview.Text

/-- The text does not start with a blank. -/
def StartsVisible (t : Text) : Prop := ∀ c ∈ t.head?, isBlank c = false

/-- The text does not end with a blank. -/
def EndsVisible (t : Text) : Prop := ∀ c ∈ t.getLast?, isBlank c = false

theorem startsVisible_trimStart (t : Text) : StartsVisible (trimStart t) := by
  intro c hc
  have visible := List.head?_dropWhile_not isBlank t
  rw [show (t.dropWhile isBlank).head? = some c from hc] at visible
  exact visible

theorem exists_trimStart (t : Text) :
    ∃ lead : Text, (∀ c ∈ lead, isBlank c = true) ∧ t = lead ++ trimStart t :=
  ⟨t.takeWhile isBlank, List.all_eq_true.mp List.all_takeWhile,
    (List.takeWhile_append_dropWhile).symm⟩

theorem trimStart_eq_self {t : Text} (h : StartsVisible t) : trimStart t = t := by
  cases t with
  | nil => rfl
  | cons c t =>
      have visible := h c rfl
      simp only [trimStart, List.dropWhile_cons, visible, Bool.false_eq_true, if_false]

theorem trimStart_append {lead : Text} (h : ∀ c ∈ lead, isBlank c = true) (t : Text) :
    trimStart (lead ++ t) = trimStart t := List.dropWhile_append_of_pos h

theorem endsVisible_trimEnd (t : Text) : EndsVisible (trimEnd t) := by
  intro c hc
  simp only [trimEnd, List.getLast?_reverse] at hc
  exact startsVisible_trimStart t.reverse c hc

theorem exists_trimEnd (t : Text) :
    ∃ trail : Text, (∀ c ∈ trail, isBlank c = true) ∧ t = trimEnd t ++ trail := by
  obtain ⟨lead, blank, parts⟩ := exists_trimStart t.reverse
  refine ⟨lead.reverse, fun c hc => blank c (List.mem_reverse.mp hc), ?_⟩
  have mirrored := congrArg List.reverse parts
  rwa [List.reverse_reverse, List.reverse_append] at mirrored

theorem trimEnd_append {t : Text} (h : EndsVisible t) {trail : Text}
    (blank : ∀ c ∈ trail, isBlank c = true) : trimEnd (t ++ trail) = t := by
  have skipped : trimStart (t ++ trail).reverse = t.reverse := by
    rw [List.reverse_append, trimStart_append fun c hc => blank c (List.mem_reverse.mp hc)]
    refine trimStart_eq_self ?_
    intro c hc
    rw [List.head?_reverse] at hc
    exact h c hc
  rw [trimEnd, show (t ++ trail).reverse.dropWhile isBlank = t.reverse from skipped,
    List.reverse_reverse]

theorem trimEnd_eq_self {t : Text} (h : EndsVisible t) : trimEnd t = t := by
  have kept := trimEnd_append h (List.forall_mem_nil (isBlank · = true))
  rwa [List.append_nil] at kept

theorem getLast?_append_of_ne_nil (a : Text) {b : Text} (hb : b ≠ []) :
    (a ++ b).getLast? = b.getLast? := by
  rw [List.getLast?_append, List.getLast?_eq_some_getLast hb, Option.some_or]

theorem endsVisible_append {a b : Text} (hb : b ≠ []) (h : EndsVisible b) :
    EndsVisible (a ++ b) := by
  intro c hc
  refine h c ?_
  rwa [getLast?_append_of_ne_nil a hb] at hc

/-- Trimming does not reach beyond a visible end. -/
theorem trimEnd_append_visible {a : Text} (h : EndsVisible a) (b : Text) :
    trimEnd (a ++ b) = a ++ trimEnd b := by
  obtain ⟨trail, blank, parts⟩ := exists_trimEnd b
  have visible : EndsVisible (a ++ trimEnd b) := by
    cases kept : trimEnd b with
    | nil => rwa [List.append_nil]
    | cons c t =>
        refine endsVisible_append (List.cons_ne_nil c t) ?_
        rw [← kept]
        exact endsVisible_trimEnd b
  calc trimEnd (a ++ b) = trimEnd (a ++ trimEnd b ++ trail) := by
        rw [List.append_assoc, ← parts]
    _ = a ++ trimEnd b := trimEnd_append visible blank

theorem mem_of_mem_trimEnd {t : Text} {c : Char} (h : c ∈ trimEnd t) : c ∈ t := by
  obtain ⟨trail, _, parts⟩ := exists_trimEnd t
  rw [parts]
  exact List.mem_append_left trail h

theorem head?_trimEnd {t : Text} {c : Char} (h : c ∈ (trimEnd t).head?) : c ∈ t.head? := by
  obtain ⟨trail, _, parts⟩ := exists_trimEnd t
  rw [parts, List.head?_append]
  cases first : (trimEnd t).head? with
  | none =>
      rw [first] at h
      cases h
  | some d => rwa [Option.some_or, ← first]

theorem exists_dropWhile {p : Char → Bool} {c : Char} (stays : p c = false) (t : Text) :
    ∃ lead rest, (∀ x ∈ lead, p x = true) ∧ (t ++ [c]).dropWhile p = rest ++ [c] ∧
      t ++ [c] = lead ++ (rest ++ [c]) := by
  induction t with
  | nil => exact ⟨[], [], nofun, by simp only [List.nil_append, List.dropWhile_cons, stays,
      Bool.false_eq_true, if_false], rfl⟩
  | cons d t ih =>
      cases drops : p d with
      | true =>
          obtain ⟨lead, rest, all, dropped, text⟩ := ih
          refine ⟨d :: lead, rest, List.forall_mem_cons.mpr ⟨drops, all⟩, ?_, ?_⟩
          · rw [List.cons_append, List.dropWhile_cons_of_pos drops, dropped]
          · rw [List.cons_append, text, List.cons_append]
      | false =>
          refine ⟨[], d :: t, nofun, ?_, rfl⟩
          rw [List.cons_append, List.dropWhile_cons_of_neg (by rw [drops]; exact nofun)]

/-- Induction over the lines of a text. -/
@[elab_as_elim]
theorem lineRec {motive : Text → Prop} (last : ∀ line, '\n' ∉ line → motive line)
    (more : ∀ line rest, '\n' ∉ line → motive rest → motive (line ++ '\n' :: rest)) (t : Text) :
    motive t := by
  suffices started : ∀ line, '\n' ∉ line → motive (line ++ t) from started [] nofun
  induction t with
  | nil =>
      intro line unbroken
      rw [List.append_nil]
      exact last line unbroken
  | cons c t ih =>
      intro line unbroken
      by_cases newline : c = '\n'
      · subst newline
        exact more line t unbroken (ih [] nofun)
      · have longer := ih (line ++ [c]) (by simp [unbroken, Ne.symm newline])
        rwa [List.append_assoc] at longer

end QmlPreview.Text
