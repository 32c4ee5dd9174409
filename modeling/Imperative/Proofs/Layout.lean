import Imperative.Proofs.Relocation
import Imperative.Proofs.Scanning

/-! Layout does not matter.  The text of a token tells the token, and its number tells its place
among the others, so sources whose tokens have the same texts have the same lexemes but for their
lines.  Parsing carries these lines into trees and errors, and evaluation carries them on into
procedures and errors.  Nothing else depends on them, so both sources end in the same way. -/

namespace Imperative

/-! ### Texts of tokens -/

/-- The text of the token spells it. -/
def Token.Legible (t : Token) : Prop := Token.ofText t.text = t

theorem Token.legible_mark (m : Mark) : (Token.mark m).Legible := by
  simp [Legible, ofText, text, Mark.ofChar?_char]

theorem Token.legible_word {s : String} (h : ∀ c ∈ s.toList, Word.isPlain c = true) :
    (Token.word s).Legible := by
  show Token.ofText s = .word s
  unfold Token.ofText
  split
  · next c hs =>
    have hc : Text.isBlank c = false ∧ Mark.ofChar? c = none := by
      simpa [Word.isPlain] using h c (by simp [hs])
    simp [hc.2]
  · rfl

/-- All tokens found are legible, and so is the word begun. -/
structure Scan.Legible (s : Scan) : Prop where
  lexemes : ∀ l ∈ s.lexemes, l.token.Legible
  pending : ∀ c ∈ s.pending.toList, Word.isPlain c = true

namespace Scan.Legible

variable {s : Scan}

theorem emit (h : s.Legible) {t : Token} (ht : t.Legible) : (s.emit t).Legible := by
  refine ⟨fun l hl => ?_, h.pending⟩
  rcases Array.mem_push.mp hl with hl | rfl
  · exact h.lexemes l hl
  · exact ht

theorem endWord (h : s.Legible) : s.endWord.Legible := by
  unfold Scan.endWord
  split
  · exact h
  · have hemit := h.emit (Token.legible_word h.pending)
    exact ⟨hemit.lexemes, by simp⟩

theorem step (h : s.Legible) (c : Char) : (s.step c).Legible := by
  unfold Scan.step Scan.blank
  split
  · split
    · exact ⟨h.endWord.lexemes, h.endWord.pending⟩
    · exact h.endWord
  · next hblank =>
    split
    · next m hm => exact h.endWord.emit (Token.legible_mark m)
    · next hm =>
      refine ⟨h.lexemes, fun d hd => ?_⟩
      rcases (by simpa using hd : d ∈ s.pending.toList ∨ d = c) with hd | rfl
      · exact h.pending d hd
      · simp [Word.isPlain, hm, Bool.not_eq_true _ ▸ hblank]

theorem run (h : s.Legible) (cs : List Char) : (s.run cs).Legible :=
  List.foldlRecOn cs _ h fun _ hs c _ => hs.step c

end Scan.Legible

/-- The tokens of a source are those that their texts spell. -/
theorem map_token_tokenize (source : String) : (tokenize source).map (fun l => l.token) =
    ((tokenize source).map fun l => l.token.text).map Token.ofText := by
  have hstart : Scan.start.Legible := ⟨by simp [Scan.start], by simp [Scan.start]⟩
  have hlegible := (hstart.run source.toList).endWord.lexemes
  rw [List.map_map]
  refine List.map_congr_left fun l hl => ?_
  exact (hlegible l (Array.mem_def.mpr hl)).symm

/-! ### Places of tokens -/

open Relocation

/-- Lexemes in one line are told by their tokens and numbers. -/
theorem map_move_inLine (line : Nat) (ts : List Lexeme) :
    ts.map (only (fun _ => line) id).move = List.zipWith (fun t i => ⟨t, line, i⟩)
      (ts.map fun l => l.token) (ts.map fun l => l.position.index) := by
  induction ts with
  | nil => rfl
  | cons l ts ih => exact congrArg _ ih

/-- Sources whose tokens have the same texts differ in the lines of their lexemes only. -/
theorem map_move_of_texts {a b : String}
    (h : (tokenize a).map (fun l => l.token.text) = (tokenize b).map fun l => l.token.text)
    (line : Nat) : (tokenize a).map (only (fun _ => line) id).move =
      (tokenize b).map (only (fun _ => line) id).move := by
  have hlength : (tokenize a).length = (tokenize b).length := by
    simpa using congrArg List.length h
  rw [map_move_inLine, map_move_inLine, map_token_tokenize, map_token_tokenize, h,
    tokenize_numbered, tokenize_numbered, hlength]

/-! ### Endings -/

/-- The error in another line. -/
def ParseError.atLine (line : Nat) (e : ParseError) : ParseError :=
  ⟨e.expected, e.found, line, e.position.index⟩

/-- The result of parsing, in another line. -/
def parsedAtLine (line : Nat) : Except ParseError Statement → Except ParseError Statement
  | .ok p => .ok (p.atLine line)
  | .error e => .error (e.atLine line)

/-- The ending with its error, if there is one, in another line. -/
def Ending.atLine (line : Nat) : Ending → Ending
  | completed rendering output => completed rendering output
  | rejected e => rejected (e.atLine line)
  | aborted e output => aborted ⟨e.cause, e.name, line⟩ output
  | unfinished => unfinished

theorem stuckAt_moved (line : Nat) (ts : List Lexeme) (e : Stuck) :
    ((Cursor.ofLexemes (ts.map (only (fun _ => line) id).move)).stuckAt
      ⟨e.expected, e.rest.map (only (fun _ => line) id).move⟩).1.atLine line =
      ((Cursor.ofLexemes ts).stuckAt e).1.atLine line := by
  obtain ⟨expected, rest⟩ := e
  cases rest with
  | nil => simp [Cursor.stuckAt, Cursor.error, Cursor.position, Cursor.peek?, Cursor.ofLexemes,
      endPosition, ParseError.atLine]
  | cons l rest => rfl

theorem parsedAtLine_moved (line : Nat) (ts : List Lexeme) :
    parsedAtLine line (parseLexemes (ts.map (only (fun _ => line) id).move)) =
      parsedAtLine line (parseLexemes ts) := by
  cases h : parseLexemes ts with
  | ok p =>
    rw [parseLexemes_moved h]
    exact congrArg Except.ok (p.atLine_mapLines _ line)
  | error error =>
    obtain ⟨e, rfl, hmoved⟩ := parseLexemes_moved_error h (fun _ => line) id
    rw [hmoved]
    exact congrArg Except.error (stuckAt_moved line ts e)

theorem parsedAtLine_of_texts {a b : String}
    (h : (tokenize a).map (fun l => l.token.text) = (tokenize b).map fun l => l.token.text)
    (line : Nat) : parsedAtLine line (parse a) = parsedAtLine line (parse b) := by
  rw [parse, parse, ← parsedAtLine_moved, map_move_of_texts h, parsedAtLine_moved]

/-- Running a program with all its names in one line tells the same, with the error in that line. -/
theorem ending_atLine (line bound : Nat) (p : Statement) :
    ((p.atLine line).run bound).ending (p.atLine line).render =
      ((p.run bound).ending p.render).atLine line := by
  have hrun : (p.atLine line).run bound = (p.run bound).mapLines fun _ => line := by
    have hexecute := p.execute_mapLines (fun _ => line) bound .initial
    rwa [State.mapLines_initial, Statement.mapLines_const] at hexecute
  rw [hrun, Statement.render_atLine]
  cases p.run bound <;> rfl

/-- Sources whose tokens have the same texts end alike at every bound: with the same canonical text
and output, with the same parse error, with the same runtime error after the same output, or not at
all.  Only the line of the error may differ. -/
theorem run_atLine_of_texts {a b : String}
    (h : (tokenize a).map (fun l => l.token.text) = (tokenize b).map fun l => l.token.text)
    (line bound : Nat) : (run bound a).atLine line = (run bound b).atLine line := by
  have hparsed := parsedAtLine_of_texts h line
  rw [run_eq, run_eq]
  cases ha : parse a with
  | error e =>
    cases hb : parse b with
    | error e' =>
      rw [ha, hb] at hparsed
      exact congrArg Ending.rejected (Except.error.inj hparsed)
    | ok q => simp [ha, hb, parsedAtLine] at hparsed
  | ok p =>
    cases hb : parse b with
    | error e' => simp [ha, hb, parsedAtLine] at hparsed
    | ok q =>
      rw [ha, hb] at hparsed
      have hlines : p.atLine line = q.atLine line := Except.ok.inj hparsed
      show ((p.run bound).ending p.render).atLine line = ((q.run bound).ending q.render).atLine line
      rw [← ending_atLine, hlines, ending_atLine]

/-- A program whose error is inside a procedure, and a text that is no program, each in one line and
spread over several lines with other blanks. -/
theorem run_atLine_of_two_layouts :
    let a := "proc f(n) \x7b print n; m \x7d; f(2)"
    let b := "proc f\n(n)\u2003\x7b\n print\u00a0n;\n\tm\n\x7d ;\n\nf ( 2 )\n"
    let c := "x := (1 + "
    let d := "\n\nx : =\u3000(\n1 +"
    (run 100 a ≠ run 100 b ∧ (run 100 a).atLine 1 = (run 100 b).atLine 1) ∧
      run 100 c ≠ run 100 d ∧ (run 100 c).atLine 1 = (run 100 d).atLine 1 := by
  intro a b c d
  have hab : (tokenize a).map (fun l => l.token.text) = (tokenize b).map fun l => l.token.text := by
    decide +kernel
  have hcd : (tokenize c).map (fun l => l.token.text) = (tokenize d).map fun l => l.token.text := by
    decide +kernel
  exact ⟨⟨by decide +kernel, run_atLine_of_texts hab 1 100⟩, by decide +kernel,
    run_atLine_of_texts hcd 1 100⟩

end Imperative
