import QmlPreview.Proofs.Blanks
import QmlPreview.Proofs.Nesting
import QmlPreview.Wrap.Outline
import QmlPreview.Wrap.Window

/-! Rendered outlines: what each item does to the brace depth, and that it leaves the lexer in code.
The items of a shell are quiet, that is, nothing in them is a comment, an open literal or a brace of
its own; the one block in a shell is what it shows. -/

namespace QmlPreview

open Lexer (stateAfter Apart Inert isIdle)
open Lexeme (staysOpen)

/-- The text leads the lexer from code to code and the brace depth from `d` to `e`, and closes no
brace but those that it opened or that are nested in another one. -/
structure Nests (d e : Nat) (t : Text) : Prop where
  ends : stateAfter {} t = {}
  depth : staysOpen d (lex t) = some e

theorem Nests.lex_append {d e : Nat} {a : Text} (h : Nests d e a) {b : Text} (apart : Apart a b) :
    lex (a ++ b) = lex a ++ lex b := by
  rw [Lexer.lex_append apart, h.ends]
  rfl

theorem Nests.append {d e f : Nat} {a b : Text} (ha : Nests d e a) (hb : Nests e f b)
    (apart : Apart a b) : Nests d f (a ++ b) where
  ends := by rw [Lexer.stateAfter_append {} apart, ha.ends, hb.ends]
  depth := by rw [ha.lex_append apart, Lexeme.staysOpen_append_of_eq ha.depth, hb.depth]

theorem nests_of_inert {t : Text} (h : Inert t) (d : Nat) : Nests d d t where
  ends := h.stateAfter
  depth := Lexeme.staysOpen_of_no_brace d h.noBrace

namespace Outline

/-- Nothing in the item is a comment, an open literal or a brace of its own. -/
def Item.IsQuiet : Item → Prop
  | .line text => Inert text
  | .blank => True
  | .property name value => Inert (name ++ ": ".toList ++ value)
  | .opening typeName => Inert typeName
  | .closing => True
  | .block _ => False

/-- The depth after the items of an outline, unless one of them closes the outermost level or one
more. -/
def levels : Nat → Outline → Option Nat
  | d, [] => some d
  | d, .opening _ :: o => levels (d + 1) o
  | d, .closing :: o => if d ≤ 1 then none else levels (d - 1) o
  | d, .line _ :: o | d, .blank :: o | d, .property _ _ :: o | d, .block _ :: o => levels d o

theorem inert_indentation (d : Nat) : Inert (indentation d) :=
  Lexer.inert_of_idle fun c hc => by rw [List.eq_of_mem_replicate hc]; rfl

theorem inert_newline : Inert ['\n'] := Lexer.inert_of_idle (by decide)

theorem apart_indentation (d : Nat) (t : Text) : Apart (indentation d) t :=
  .inl fun c hc => by rw [List.eq_of_mem_replicate (List.mem_of_getLast? hc)]; rfl

theorem nests_lineAt {d e : Nat} {t : Text} (h : Nests d e t) (k : Nat) :
    Nests d e (lineAt k t) := by
  have apart : Apart (indentation k ++ t) ['\n'] := .inr (by decide)
  exact ((nests_of_inert (inert_indentation k) d).append h (apart_indentation k t)).append
    (nests_of_inert inert_newline e) apart

theorem nests_open (d : Nat) : Nests d (d + 1) " \x7b".toList := ⟨rfl, rfl⟩

theorem nests_close {d : Nat} (h : 2 ≤ d) : Nests d (d - 1) ['}'] where
  ends := rfl
  depth := by
    have lexed : lex ['}'] = [⟨'}', .code⟩] := rfl
    rw [lexed, Lexeme.staysOpen_close, if_neg (by omega), Lexeme.staysOpen_nil]

/-- A quiet item changes the brace depth as it changes the level. -/
theorem nests_render {item : Item} (quiet : item.IsQuiet) {o : Outline} {d e : Nat}
    (h : levels d (item :: o) = some e) :
    Nests d (item.depthAfter d) (item.render d) ∧ levels (item.depthAfter d) o = some e := by
  cases item with
  | line text => exact ⟨nests_lineAt (nests_of_inert quiet d) d, h⟩
  | blank => exact ⟨nests_of_inert inert_newline d, h⟩
  | property name value => exact ⟨nests_lineAt (nests_of_inert quiet d) d, h⟩
  | opening typeName =>
      refine ⟨nests_lineAt ?_ d, h⟩
      exact (nests_of_inert quiet d).append (nests_open d) (.inr (by decide))
  | closing =>
      simp only [levels] at h
      split at h
      · cases h
      · exact ⟨nests_lineAt (nests_close (by omega)) _, h⟩
  | block text => cases quiet

theorem exists_render (d : Nat) (item : Item) : ∃ t : Text, item.render d = t ++ ['\n'] := by
  cases item with
  | line text => exact ⟨_, rfl⟩
  | blank => exact ⟨[], rfl⟩
  | property name value => exact ⟨_, rfl⟩
  | opening typeName => exact ⟨_, rfl⟩
  | closing => exact ⟨_, rfl⟩
  | block text => exact ⟨_, rfl⟩

theorem renderFrom_nil (d : Nat) : renderFrom d [] = [] := rfl

theorem renderFrom_cons (d : Nat) (item : Item) (o : Outline) :
    renderFrom d (item :: o) = item.render d ++ renderFrom (item.depthAfter d) o := rfl

theorem nests_renderFrom {o : Outline} (quiet : ∀ item ∈ o, item.IsQuiet) {d e : Nat}
    (h : levels d o = some e) : Nests d e (renderFrom d o) := by
  induction o generalizing d with
  | nil =>
      cases h
      exact nests_of_inert Lexer.inert_nil _
  | cons item o ih =>
      rw [List.forall_mem_cons] at quiet
      obtain ⟨first, later⟩ := nests_render quiet.1 h
      obtain ⟨t, line⟩ := exists_render d item
      rw [renderFrom_cons]
      refine first.append (ih quiet.2 later) ?_
      rw [line]
      exact Lexer.apart_newline _ _

theorem renderFrom_append (d : Nat) (o o' : Outline) :
    renderFrom d (o ++ o') = renderFrom d o ++ renderFrom (o.foldl Item.depthAfter d) o' := by
  induction o generalizing d with
  | nil => rfl
  | cons item o ih =>
      rw [List.cons_append, renderFrom_cons, renderFrom_cons, ih, List.append_assoc,
        List.foldl_cons]

theorem foldl_depthAfter {o : Outline} {d e : Nat} (h : levels d o = some e) :
    o.foldl Item.depthAfter d = e := by
  induction o generalizing d with
  | nil =>
      cases h
      rfl
  | cons item o ih =>
      cases item with
      | closing =>
          simp only [levels] at h
          split at h
          · cases h
          · exact ih h
      | line text => exact ih h
      | blank => exact ih h
      | property name value => exact ih h
      | opening typeName => exact ih h
      | block text => exact ih h

/-- A newline before an outline keeps it apart from what follows. -/
theorem apart_renderFrom (d : Nat) (o : Outline) (t : Text) :
    Apart ('\n' :: renderFrom d o) t := by
  rcases List.eq_nil_or_concat o with rfl | ⟨front, last, rfl⟩
  · exact Lexer.apart_newline [] t
  · obtain ⟨u, line⟩ := exists_render (front.foldl Item.depthAfter d) last
    have ends : '\n' :: renderFrom d (front.concat last) =
        ('\n' :: renderFrom d front ++ u) ++ ['\n'] := by
      simp only [List.concat_eq_append, renderFrom_append, renderFrom_cons, renderFrom_nil, line,
        List.append_nil, List.append_assoc, List.cons_append]
    rw [ends]
    exact Lexer.apart_newline _ t

theorem quiet_property {name value : Text} (idle : ∀ c ∈ name, isIdle c = true)
    (h : Inert value) : (Item.property name value).IsQuiet := by
  have colon : ∀ c ∈ ": ".toList, isIdle c = true := by decide
  have lead : ∀ c ∈ name ++ ": ".toList, isIdle c = true :=
    fun c hc => (List.mem_append.mp hc).elim (idle c) (colon c)
  refine (Lexer.inert_of_idle lead).append h (.inl ?_)
  intro c hc
  rw [Text.getLast?_append_of_ne_nil name (by decide)] at hc
  cases hc
  rfl

theorem isIdle_of_isDigit {c : Char} (h : c.isDigit = true) : isIdle c = true := by
  simp only [isIdle, Lexer.isPlain, Lexer.isQuote, Bool.and_eq_true, bne_iff_ne, Bool.not_eq_true',
    Bool.or_eq_false_iff, beq_eq_false_iff_ne]
  refine ⟨⟨⟨?_, ⟨?_, ?_⟩, ?_⟩, ?_⟩, ?_⟩ <;> rintro rfl <;> exact absurd h (by decide)

theorem isIdle_of_mem_ofNat {n : Nat} {c : Char} (h : c ∈ Text.ofNat n) : isIdle c = true :=
  isIdle_of_isDigit (Text.isDigit_of_mem_ofNat h)

theorem quiet_number {name : Text} (idle : ∀ c ∈ name, isIdle c = true) (value : UInt32) :
    (numberProperty name value).IsQuiet :=
  quiet_property idle (Lexer.inert_of_idle fun _ hc => isIdle_of_mem_ofNat hc)

theorem quiet_quoted {name : Text} (idle : ∀ c ∈ name, isIdle c = true) (value : Text) :
    (Item.property name (quoted value)).IsQuiet :=
  quiet_property idle (Lexer.inert_quoted value)

theorem quiet_opening {typeName : Text} (idle : ∀ c ∈ typeName, isIdle c = true) :
    (Item.opening typeName).IsQuiet := Lexer.inert_of_idle idle

theorem quiet_source (path : Path) : (sourceProperty path).IsQuiet :=
  (Lexer.inert_of_idle (by decide)).append (Lexer.inert_quoted path) (.inl (by decide))

end Outline

end QmlPreview
