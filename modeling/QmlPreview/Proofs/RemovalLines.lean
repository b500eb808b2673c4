import QmlPreview.Proofs.Segments

/-! Stripping one lexeme at a time. Each lexeme of a body is removed or kept with the segment that it
lies in, and that is told by the line of the segment: all of the text from the segment's start on. -/

namespace QmlPreview.Rehosting

open Lexeme (nested depthAfter staysOpen)

/-- Each lexeme of a body with whether stripping keeps it. -/
def marksFrom (remove : Text → Bool) : State → List Lexeme → List (Lexeme × Bool)
  | _, [] => []
  | s, x :: xs =>
    let met := s.meet remove ((x :: xs).map (·.char)) x
    (x, !met.skipping) :: marksFrom remove (met.leave x) xs

/-- Each lexeme with the line of its segment. The lexemes begin at depth `d` in a segment with the
given line, and the text `after` follows them. -/
def linesFrom (after : Text) : Int → Text → List Lexeme → List (Lexeme × Text)
  | _, _, [] => []
  | d, line, x :: xs =>
    (x, line) :: linesFrom after (depthAfter d x)
      (if endsSegment (x, d) then xs.map (·.char) ++ after else line) xs

def lineAfter (after : Text) : Int → Text → List Lexeme → Text
  | _, line, [] => line
  | d, line, x :: xs =>
    lineAfter after (depthAfter d x)
      (if endsSegment (x, d) then xs.map (·.char) ++ after else line) xs

theorem keptFrom_eq_filter (remove : Text → Bool) (σ : State) (xs : List Lexeme) :
    keptFrom remove σ xs = ((marksFrom remove σ xs).filter (·.2)).map (·.1) := by
  induction xs generalizing σ with
  | nil => rfl
  | cons x xs ih =>
      cases met : (σ.meet remove ((x :: xs).map (·.char)) x).skipping with
      | true =>
          rw [keptFrom_removed met, ih]
          simp only [marksFrom, met, Bool.not_true, List.filter_cons, Bool.false_eq_true, if_false]
      | false =>
          rw [keptFrom_kept met, ih]
          simp only [marksFrom, met, Bool.not_false, List.filter_cons, if_true]
          rfl

theorem map_fst_marksFrom (remove : Text → Bool) (σ : State) (xs : List Lexeme) :
    (marksFrom remove σ xs).map (·.1) = xs := by
  induction xs generalizing σ with
  | nil => rfl
  | cons x xs ih => rw [marksFrom, List.map_cons, ih]

section
variable (after : Text) (d : Int) (line : Text)

theorem length_linesFrom (xs : List Lexeme) : (linesFrom after d line xs).length = xs.length := by
  induction xs generalizing d line with
  | nil => rfl
  | cons x xs ih => rw [linesFrom, List.length_cons, List.length_cons, ih]

theorem linesFrom_append (xs ys : List Lexeme) : linesFrom after d line (xs ++ ys) =
    linesFrom (ys.map (·.char) ++ after) d line xs ++
      linesFrom after (xs.foldl depthAfter d) (lineAfter (ys.map (·.char) ++ after) d line xs) ys := by
  induction xs generalizing d line with
  | nil => rfl
  | cons x xs ih =>
      simp only [List.cons_append, linesFrom, lineAfter, List.foldl_cons, ih, List.map_append,
        List.append_assoc]

theorem lineAfter_append (xs ys : List Lexeme) : lineAfter after d line (xs ++ ys) =
    lineAfter after (xs.foldl depthAfter d) (lineAfter (ys.map (·.char) ++ after) d line xs) ys := by
  induction xs generalizing d line with
  | nil => rfl
  | cons x xs ih =>
      simp only [List.cons_append, lineAfter, List.foldl_cons, ih, List.map_append,
        List.append_assoc]

variable {after d line}

/-- Where no segment ends all lexemes lie in the one that they begin in. -/
theorem linesFrom_quiet {xs : List Lexeme} (quiet : ∀ p ∈ nested d xs, endsSegment p = false) :
    linesFrom after d line xs = xs.map (·, line) ∧ lineAfter after d line xs = line := by
  induction xs generalizing d with
  | nil => exact ⟨rfl, rfl⟩
  | cons x xs ih =>
      rw [nested, List.forall_mem_cons] at quiet
      obtain ⟨first, later⟩ := quiet
      obtain ⟨lines, last⟩ := ih later
      simp only [linesFrom, lineAfter, first, Bool.false_eq_true, if_false, lines, last,
        List.map_cons, and_self]

theorem lineAfter_ends {xs : List Lexeme} {x : Lexeme}
    (ends : endsSegment (x, xs.foldl depthAfter d) = true) :
    lineAfter after d line (xs ++ [x]) = after := by
  rw [lineAfter_append]
  simp only [lineAfter, ends, if_true, List.map_nil, List.nil_append]

end

/-- What is kept of a lexeme's segment is told by its line, but for the brace that closes the root. -/
theorem marksFrom_eq (remove : Text → Bool) {σ : State} (depth : 0 ≤ σ.depth) {xs : List Lexeme}
    (h : staysOpen (σ.depth.toNat + 1) xs = some 1) {line : Text}
    (entered : (σ.enter remove ((xs ++ [⟨'}', .code⟩] : List Lexeme).map (·.char))).skipping =
      decide (Assigns remove line)) :
    marksFrom remove σ (xs ++ [⟨'}', .code⟩]) =
      (linesFrom ['}'] σ.depth line xs).map (fun p => (p.1, !decide (Assigns remove p.2))) ++
        [(⟨'}', .code⟩, true)] := by
  induction xs generalizing σ line with
  | nil =>
      have root : σ.depth = 0 := by
        simp only [Lexeme.staysOpen_nil, Option.some.injEq] at h
        omega
      have kept := count_root (s := σ.enter remove ['}']) (by rw [depth_enter, root])
      simp only [List.nil_append, marksFrom, State.meet, List.map_cons, List.map_nil, kept,
        linesFrom, Bool.not_false]
  | cons x xs ih =>
      let text := (x :: (xs ++ [⟨'}', .code⟩])).map (·.char)
      have counts := counts_meet remove text depth h
      have met : (σ.meet remove text x).skipping = decide (Assigns remove line) :=
        (skipping_count (by rwa [depth_enter])).trans entered
      have deeper : (σ.meet remove text x).depth = depthAfter σ.depth x := by
        rw [State.meet, depth_count, depth_enter]
      have same : endsSegment (x, (σ.meet remove text x).depth) = endsSegment (x, σ.depth) := by
        rw [deeper, endsSegment_depthAfter]
      have next : (((σ.meet remove text x).leave x).enter remove
          ((xs ++ [⟨'}', .code⟩] : List Lexeme).map (·.char))).skipping =
            decide (Assigns remove
              (if endsSegment (x, σ.depth) then xs.map (·.char) ++ ['}'] else line)) := by
        cases ends : endsSegment (x, σ.depth) with
        | true =>
            rw [leave_of_endsSegment (same.trans ends), enter_start, if_pos rfl, List.map_append]
            rfl
        | false =>
            rw [enter_leave (same.trans ends), met, if_neg Bool.false_ne_true]
      have rest := ih (σ := (σ.meet remove text x).leave x)
        (by rw [depth_leave]; exact counts.depth) (by rw [depth_leave]; exact counts.stays) next
      rw [depth_leave, deeper] at rest
      change (x, !(σ.meet remove text x).skipping) :: marksFrom remove
        ((σ.meet remove text x).leave x) (xs ++ [⟨'}', .code⟩]) = _
      rw [met, rest]
      rfl

end QmlPreview.Rehosting
