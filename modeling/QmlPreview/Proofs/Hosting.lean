import QmlPreview.Proofs.HeaderRoundTrip

/-! Hosting: content that is put into a window stays what it was. The window can be taken apart again,
and every visible character of the content has its region there, and its brace depth but for the
braces of the window around it. -/

namespace QmlPreview

open Lexeme (nested visible isVisible)
open Outline (indentation)

/-- The generated text is one window that shows the content, indented to depth `k`: its visible
characters lie in the regions they have in the content, and `k` braces deeper. -/
def Hosts (k : Nat) (content generated : Text) : Prop :=
  ∃ window : Parts, decompose generated = .ok window ∧
    window.rootType = "Window".toList ∧
    (∃ before after, lex generated = before ++ lex window.content ++ after) ∧
    ∃ front shown back, nested 0 (lex window.content) = front ++ shown ++ back ∧
      shown.map (·.1.char) = reindent content (indentation k) ∧
      shown.filter (·.1.isVisible) =
        ((nested 0 (lex content)).filter (·.1.isVisible)).map (fun p => (p.1, p.2 + (k : Int)))

/-- An element in a place of depth at least one opens and closes nothing of that place. -/
theorem Lexeme.IsElement.staysOpen {xs : List Lexeme} (h : IsElement xs) {k : Nat} (hk : 1 ≤ k) :
    Lexeme.staysOpen k xs = some k := by
  obtain ⟨inner, rfl, stays⟩ := h
  have deeper := staysOpen_add stays k
  rw [Nat.zero_add] at deeper
  rw [staysOpen_append_of_eq deeper, staysOpen_close, if_neg (by omega), staysOpen_nil,
    Nat.add_sub_cancel_left]

theorem blank_indentation (k : Nat) : ∀ c ∈ indentation k, Text.isBlank c = true :=
  fun c hc => by rw [List.eq_of_mem_replicate hc]; rfl

theorem newline_indentation (k : Nat) : '\n' ∉ indentation k := by
  intro member
  cases List.eq_of_mem_replicate member

theorem lex_reindent {t : Text} (keeps : Lexer.keepsLiterals {} t = true)
    (ends : Text.EndsVisible t) (k : Nat) :
    visible (lex (reindent t (indentation k))) = visible (lex t) ∧
      Lexer.stateAfter {} (reindent t (indentation k)) = Lexer.stateAfter {} t := by
  obtain ⟨shown, state⟩ := Lexer.lexFrom_reindentFrom (blank_indentation k) (newline_indentation k)
    Lexer.valid_start rfl keeps false
  exact ⟨shown, state ends⟩

theorem Nests.reindent {d e : Nat} {t : Text} (h : Nests d e t)
    (keeps : Lexer.keepsLiterals {} t = true) (ends : Text.EndsVisible t) (k : Nat) :
    Nests d e (reindent t (indentation k)) := by
  obtain ⟨shown, state⟩ := lex_reindent keeps ends k
  refine ⟨state.trans h.ends, ?_⟩
  rw [← Lexeme.staysOpen_visible, shown, Lexeme.staysOpen_visible, h.depth]

theorem Shell.Sound.hosts {s : Shell} (h : s.Sound) (hd : 1 ≤ s.depth) {t : Text} {parts : Parts}
    (taken : decompose t = .ok parts) (closed : parts.toHeader.IsClosed)
    (keeps : Lexer.keepsLiterals {} parts.content = true) :
    Hosts s.depth parts.content (printed parts.repeated (s.around parts.content).render) := by
  obtain ⟨e, sound, content, _, _⟩ := exists_element taken
  have ends : Text.EndsVisible parts.content := by
    rw [content]
    exact e.endsVisible_text
  have whole : Nests s.depth s.depth parts.content := by
    rw [content]
    exact ⟨sound.stateAfter_text, sound.isElement.staysOpen hd⟩
  have nests : Nests s.depth s.depth (s.shown parts.content) := whole.reindent keeps ends s.depth
  have window := decompose_printed (wellFormed_repeated taken) closed.closed_repeated
    (h.sound_element nests) windowType_ne_spelling
  rw [← h.render_around] at window
  refine ⟨_, window, rfl, ?_, nested 0 (lex s.head), nested s.depth (lex (s.shown parts.content)),
    nested s.depth (lex s.tail), ?_, ?_, ?_⟩
  · refine ⟨lex (printed parts.repeated []), [⟨'\n', .code⟩], ?_⟩
    rw [h.render_around, lex_printed closed.closed_repeated,
      (h.sound_element nests).lex_text_newline, List.append_assoc]
  · have head := Lexeme.nested_append_of_eq h.nests_head.depth
      (lex (s.shown parts.content) ++ lex s.tail)
    rw [Lexeme.nested_append_of_eq nests.depth, ← h.lex_element nests] at head
    rw [List.append_assoc]
    exact head
  · have chars : (nested s.depth (lex (s.shown parts.content))).map (·.1.char) =
        ((nested s.depth (lex (s.shown parts.content))).map Prod.fst).map (·.char) := by
      rw [List.map_map]
      rfl
    rw [chars, Lexeme.map_fst_nested, Lexer.map_char_lex]
    rfl
  · rw [Lexeme.filter_nested, Shell.shown, (lex_reindent keeps ends s.depth).1,
      Lexeme.filter_nested, ← Lexeme.nested_add,
      Int.zero_add]

/-- Hosting a document makes a window of its content, both in the plain window and in the phone. -/
theorem hosting_keeps_content {doc : Document} {parts : Parts}
    (taken : decompose doc.text = .ok parts) (closed : parts.toHeader.IsClosed)
    (keeps : Lexer.keepsLiterals {} parts.content = true) (size : WindowSize) :
    (∃ g, wrapInWindow doc size = .ok g ∧ Hosts 2 parts.content g.text) ∧
      ∃ g, frameInPhone doc false = .ok g ∧ Hosts 4 parts.content g.text :=
  ⟨⟨_, wrapInWindow_eq taken size,
      (sound_windowShell doc size).hosts (by decide : 1 ≤ 2) taken closed keeps⟩,
    _, frameInPhone_host_eq taken,
      (sound_deviceHostShell doc).hosts (by decide : 1 ≤ 4) taken closed keeps⟩

/-- Braces in a comment and in a string, inside the content. -/
theorem hosting_keeps_literals :
    let doc : Document := ⟨"/a/Page.qml".toList,
      "import QtQuick\nItem \x7b /* \x7b */\n  property string s: \"\x7d\" \x7d\n".toList, Time.epoch⟩
    ∃ parts, decompose doc.text = .ok parts ∧ parts.toHeader.IsClosed ∧
      Lexer.keepsLiterals {} parts.content = true ∧
      (∃ g, wrapInWindow doc {} = .ok g ∧ Hosts 2 parts.content g.text) ∧
      ∃ g, frameInPhone doc false = .ok g ∧ Hosts 4 parts.content g.text := by
  intro doc
  let parts : Parts :=
    { pragmas := [], imports := [.quick], contentStart := 15
      content := "Item \x7b /* \x7b */\n  property string s: \"\x7d\" \x7d".toList
      rootType := "Item".toList, rootOpen := 5 }
  have taken : decompose doc.text = .ok parts := decompose_of_toOption (by decide +kernel)
  have closed : parts.toHeader.IsClosed :=
    ⟨nofun, List.forall_mem_singleton.mpr ⟨by decide, by decide⟩⟩
  have keeps : Lexer.keepsLiterals {} parts.content = true := by decide
  exact ⟨parts, taken, closed, keeps, hosting_keeps_content taken closed keeps {}⟩

end QmlPreview
