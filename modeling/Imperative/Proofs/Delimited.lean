import Imperative.Proofs.Pieces
import Imperative.Proofs.Spacing

/-! Words in the midst of a source.  Where a blank or a mark stands on both sides of a word, or the
source begins or ends, the scan finds the word as one token, and the texts before and behind it have
the tokens that they have alone.  The literal of a number without the sign bit is such a word, and
it is a numeral that denotes the number. -/

namespace Imperative

open Relocation

/-- Whether a text is empty, or ends with a blank or a mark, so that no word runs on behind it. -/
def endsApart (text : String) : Bool := text.toList.getLast?.all fun c => !Word.isPlain c

/-- Whether a text is empty, or begins with a blank or a mark, so that no word runs on into it. -/
def beginsApart (text : String) : Bool := text.toList.head?.all fun c => !Word.isPlain c

namespace Scan

theorem pending_step {c : Char} (hc : Word.isPlain c = false) (s : Scan) :
    (s.step c).pending = "" := by
  by_cases hblank : Text.isBlank c = true
  · exact (s.step_of_isBlank hblank).2
  · rw [Bool.not_eq_true] at hblank
    obtain ⟨m, hmark⟩ : ∃ m, Mark.ofChar? c = some m := by
      simpa [Word.isPlain, hblank, Option.isSome_iff_exists] using hc
    rw [step_mark s hblank hmark, emit_pending, endWord_pending]

theorem pending_run_of_endsApart {text : String} (h : endsApart text = true) :
    (Scan.start.run text.toList).pending = "" := by
  unfold endsApart at h
  rcases List.eq_nil_or_concat text.toList with hnil | ⟨front, c, hconcat⟩
  · rw [hnil]
    rfl
  · rw [hconcat, List.concat_eq_append] at h ⊢
    rw [run_append]
    exact pending_step (by simpa using h) _

/-- A word begun is ended by what follows, or by the end of the source. -/
theorem finish_run_of_beginsApart {text : String} (h : beginsApart text = true) (s : Scan) :
    (s.run text.toList).finish = (s.endWord.run text.toList).finish := by
  unfold beginsApart at h
  cases htext : text.toList with
  | nil =>
    show s.endWord.lexemes.toList = s.endWord.endWord.lexemes.toList
    rw [endWord_of_pending s.endWord_pending]
  | cons c cs =>
    have hc : Word.isPlain c = false := by simpa [htext] using h
    rw [run_cons, run_cons, endWord_step hc]

end Scan

/-- A word with delimiters on both sides is one token, and what stands before and behind it is
divided as if it stood alone. -/
theorem tokenize_delimited {before word after : String} (hbefore : endsApart before = true)
    (hword : Word.isPlainText word.toList = true) (hafter : beginsApart after = true) :
    tokenize (before ++ word ++ after) = tokenize before ++
      ⟨.word word, 1 + newlines before, (tokenize before).length⟩ ::
        (tokenize after).map
          (only (· + newlines before) ((tokenize before).length + 1 + ·)).move := by
  let s := Scan.start.run before.toList
  have hpending : s.pending = "" := Scan.pending_run_of_endsApart hbefore
  have hline : s.line = 1 + newlines before := Scan.run_line _ _
  have hlexemes : s.lexemes.toList = tokenize before := by
    rw [tokenize, Scan.finish, Scan.endWord_of_pending hpending]
  have hemit : (s.run word.toList).endWord = s.emit (.word word) := by
    have hreads := Reads.word hword s hpending
    rwa [String.ofList_toList] at hreads
  have hsize : s.lexemes.size = (tokenize before).length := by rw [← hlexemes]; rfl
  have hrest := Scan.finish_run (s := s.emit (.word word)) hpending hline after
  rw [tokenize, String.toList_append, String.toList_append, Scan.run_append, Scan.run_append,
    Scan.finish_run_of_beginsApart hafter, hemit, hrest]
  simp [hlexemes, hsize, hline]

namespace Number

/-- The literal of every finite number denotes it, bit for bit.  Without the sign bit it is a
numeral, and one word wherever a blank, a mark or an end of the source stands on either side. -/
theorem literal_delimited {x : Number} (hx : x.isFinite = true) :
    ofText? x.literal = some x ∧
    (x.isNegative = false → Word.isNumeral x.literal = true ∧
      ∀ before after : String, endsApart before = true → beginsApart after = true →
        tokenize (before ++ x.literal ++ after) = tokenize before ++
          ⟨.word x.literal, 1 + newlines before, (tokenize before).length⟩ ::
            (tokenize after).map
              (only (· + newlines before) ((tokenize before).length + 1 + ·)).move) := by
  refine ⟨ofText?_literal hx, fun hsign => ⟨isNumeral_literal hx hsign, ?_⟩⟩
  intro before after hbefore hafter
  obtain ⟨whole, fraction, htext, hwhole, hfraction, -⟩ := literal_eq hx
  have hword : Word.isPlainText x.literal.toList = true := by
    rw [htext, hsign, String.toList_ofList]
    exact Word.isPlainText_point hwhole hfraction
  exact tokenize_delimited hbefore hword hafter

/-- A quarter as an argument in the second line, and its negative, which still reads back. -/
theorem literal_delimited_argument :
    let quarter : Number := ⟨0x3fd0000000000000⟩
    let minusQuarter : Number := ⟨0xbfd0000000000000⟩
    let before := "x :=\n f("
    let after := ",y)"
    quarter.isFinite = true ∧ quarter.isNegative = false ∧ minusQuarter.isFinite = true ∧
    endsApart before = true ∧ beginsApart after = true ∧
    ofText? minusQuarter.literal = some minusQuarter ∧ Word.isNumeral quarter.literal = true ∧
    tokenize (before ++ quarter.literal ++ after) =
      [⟨.word "x", 1, 0⟩, ⟨.mark .colon, 1, 1⟩, ⟨.mark .equal, 1, 2⟩, ⟨.word "f", 2, 3⟩,
        ⟨.mark .leftParen, 2, 4⟩, ⟨.word "0.25", 2, 5⟩, ⟨.mark .comma, 2, 6⟩, ⟨.word "y", 2, 7⟩,
        ⟨.mark .rightParen, 2, 8⟩] := by
  intro quarter minusQuarter before after
  have hquarter : quarter.isFinite = true := by decide
  have hsign : quarter.isNegative = false := by decide
  have hminus : minusQuarter.isFinite = true := by decide
  have hbefore : endsApart before = true := by decide +kernel
  have hafter : beginsApart after = true := by decide +kernel
  obtain ⟨hnumeral, htokens⟩ := (literal_delimited hquarter).2 hsign
  refine ⟨hquarter, hsign, hminus, hbefore, hafter, (literal_delimited hminus).1, hnumeral, ?_⟩
  rw [htokens before after hbefore hafter]
  decide +kernel

end Number
end Imperative
