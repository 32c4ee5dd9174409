import Imperative.Proofs.Scanning

/-! Dividing a source into tokens undoes spacing.  Tokens may be spaced with any blanks, as long as
two words have at least one between them.  However that is done, the scan gives back the tokens,
numbered in order, each in the line where it begins.  There is no other source: every text is a
spacing of its tokens, so all that the scan drops is blanks. -/

namespace Imperative

namespace Token

/-- Whether a token is a word. -/
def isWord : Token → Bool
  | mark _ => false
  | word _ => true

/-- Whether a token can stand in a source: a mark, or a word of at least one plain character. -/
def isSound : Token → Bool
  | mark _ => true
  | word s => Word.isPlainText s.toList

theorem text_eq_cons_of_not_isWord {t : Token} (h : t.isWord = false) :
    ∃ c, t.text.toList = [c] ∧ Word.isPlain c = false := by
  cases t with
  | word s => cases h
  | mark m => exact ⟨m.char, by simp [text], by simp [Word.isPlain, Mark.ofChar?_char]⟩

theorem not_isBlank_of_isSound {t : Token} (h : t.isSound = true) :
    ∀ c ∈ t.text.toList, Text.isBlank c = false := by
  cases t with
  | mark m =>
    have hblank : Text.isBlank m.char = false := by cases m <;> decide
    simpa [text] using hblank
  | word s =>
    intro c hc
    have hplain := (Word.isPlainText_iff.mp h).2 c hc
    simp only [Word.isPlain, Bool.and_eq_true, Bool.not_eq_true'] at hplain
    exact hplain.1

end Token

/-! ### Spacings -/

/-- Tokens, each with the blanks behind it, and two words never without. -/
structure Spaced (parts : List (Token × List Char)) : Prop where
  sound : ∀ p ∈ parts, p.1.isSound = true
  blank : ∀ p ∈ parts, ∀ c ∈ p.2, Text.isBlank c = true
  apart : parts.IsChain fun p q => p.1.isWord = true → q.1.isWord = true → p.2 ≠ []

theorem spaced_nil : Spaced [] := ⟨by simp, by simp, .nil⟩

/-- A token does not run into what follows. -/
def Apart (t : Token) (w : List Char) (parts : List (Token × List Char)) : Prop :=
  ∀ q ∈ parts.head?, t.isWord = true → q.1.isWord = true → w ≠ []

theorem spaced_cons {t : Token} {w : List Char} {parts : List (Token × List Char)} :
    Spaced ((t, w) :: parts) ↔ t.isSound = true ∧ (∀ c ∈ w, Text.isBlank c = true) ∧
      Apart t w parts ∧ Spaced parts := by
  have hchain : ((t, w) :: parts).IsChain
      (fun p q => p.1.isWord = true → q.1.isWord = true → p.2 ≠ []) ↔ Apart t w parts ∧
        parts.IsChain fun p q => p.1.isWord = true → q.1.isWord = true → p.2 ≠ [] := by
    cases parts with
    | nil => simp [Apart, List.IsChain.nil, List.IsChain.singleton]
    | cons q parts => simp [Apart, List.isChain_cons_cons]
  constructor
  · rintro ⟨hsound, hblank, hapart⟩
    obtain ⟨ht, hsound⟩ := List.forall_mem_cons.mp hsound
    obtain ⟨hw, hblank⟩ := List.forall_mem_cons.mp hblank
    obtain ⟨hnext, hapart⟩ := hchain.mp hapart
    exact ⟨ht, hw, hnext, hsound, hblank, hapart⟩
  · rintro ⟨ht, hw, hnext, hsound, hblank, hapart⟩
    exact ⟨List.forall_mem_cons.mpr ⟨ht, hsound⟩, List.forall_mem_cons.mpr ⟨hw, hblank⟩,
      hchain.mpr ⟨hnext, hapart⟩⟩

/-- The characters of tokens with the blanks behind them. -/
def spread (parts : List (Token × List Char)) : List Char :=
  parts.flatMap fun p => p.1.text.toList ++ p.2

theorem spread_cons (t : Token) (w : List Char) (parts : List (Token × List Char)) :
    spread ((t, w) :: parts) = t.text.toList ++ w ++ spread parts := rfl

/-- Blanks, and then tokens that are spaced. -/
structure Spacing where
  leading : List Char
  parts : List (Token × List Char)
  leading_blank : ∀ c ∈ leading, Text.isBlank c = true
  spaced : Spaced parts

namespace Spacing

/-- The source of a spacing. -/
def text (l : Spacing) : String := String.ofList (l.leading ++ spread l.parts)

/-- All blanks before the token with this number. -/
def blanksBefore (l : Spacing) (i : Nat) : List Char :=
  l.leading ++ (l.parts.take i).flatMap Prod.snd

/-- The tokens of a spacing with their numbers, each in the line that the newlines before it make.
-/
def lexemes (l : Spacing) : List Lexeme :=
  l.parts.mapIdx fun i p => ⟨p.1, 1 + (l.blanksBefore i).count '\n', i⟩

end Spacing

/-! ### Scanning a spacing -/

namespace Scan

/-- A token and so many newlines behind it. -/
def place (t : Token) (lines : Nat) (s : Scan) : Scan := { s.emit t with line := s.line + lines }

theorem endWord_of_pending {s : Scan} (h : s.pending = "") : s.endWord = s := by
  simp [endWord, h]

theorem eq_of_fields {s s' : Scan} (hlexemes : s.lexemes = s'.lexemes)
    (hpending : s.pending = s'.pending) (hline : s.line = s'.line) : s = s' := by
  cases s
  cases s'
  simp_all

/-- A word is ended in time by whatever does not continue it. -/
theorem endWord_step {c : Char} (hc : Word.isPlain c = false) (s : Scan) :
    s.endWord.step c = s.step c := by
  have hend : s.endWord.endWord = s.endWord := endWord_of_pending s.endWord_pending
  unfold step blank
  split
  · rw [hend]
  · next hblank =>
    split
    · rw [hend]
    · next hmark => simp [Word.isPlain, hmark, hblank] at hc

theorem step_of_isBlank {c : Char} (hc : Text.isBlank c = true) (s : Scan) :
    (s.step c).lexemes = s.endWord.lexemes ∧ (s.step c).pending = "" := by
  simp only [step, hc, if_true, blank]
  split <;> exact ⟨rfl, s.endWord_pending⟩

theorem lexemes_run_blanks {w : List Char} (hw : ∀ c ∈ w, Text.isBlank c = true) (s : Scan) :
    (s.run w).endWord.lexemes = s.endWord.lexemes := by
  induction w generalizing s with
  | nil => rfl
  | cons c w ih =>
    obtain ⟨hc, hw⟩ := List.forall_mem_cons.mp hw
    obtain ⟨hlexemes, hpending⟩ := s.step_of_isBlank hc
    rw [run_cons, ih hw, endWord_of_pending hpending, hlexemes]

/-- Behind blanks no word is begun, unless there were none. -/
theorem pending_run_blanks {w : List Char} (hw : ∀ c ∈ w, Text.isBlank c = true) {s : Scan}
    (hs : w = [] → s.pending = "") : (s.run w).pending = "" := by
  induction w generalizing s with
  | nil => exact hs rfl
  | cons c w ih =>
    obtain ⟨hc, hw⟩ := List.forall_mem_cons.mp hw
    exact ih hw fun _ => (s.step_of_isBlank hc).2

theorem endWord_run_blanks {w : List Char} (hw : ∀ c ∈ w, Text.isBlank c = true) (s : Scan) :
    (s.run w).endWord = { s.endWord with line := s.line + w.count '\n' } := by
  apply eq_of_fields
  · exact lexemes_run_blanks hw s
  · rw [endWord_pending, endWord_pending]
  · rw [endWord_line, run_line]

/-- A token and the blanks behind it, begun between words. -/
theorem endWord_run_part {s : Scan} (hs : s.pending = "") {t : Token} (ht : t.isSound = true)
    {w : List Char} (hw : ∀ c ∈ w, Text.isBlank c = true) :
    (s.run (t.text.toList ++ w)).endWord = s.place t (w.count '\n') := by
  have hemit : (s.run t.text.toList).endWord = s.emit t := by
    cases t with
    | mark m =>
      have hreads := Reads.nil.mark_first m s hs
      simpa [Token.text, emitAll] using hreads
    | word text =>
      have hreads := Reads.word ht s hs
      simpa [Token.text, emitAll] using hreads
  have hline : (s.run t.text.toList).line = s.line := by
    rw [← endWord_line, hemit, emit_line]
  rw [run_append, endWord_run_blanks hw, hemit, hline]
  rfl

/-- No word is begun behind a token and its blanks, unless it is a word without any. -/
theorem pending_run_part {t : Token} {w : List Char} (hw : ∀ c ∈ w, Text.isBlank c = true)
    (h : t.isWord = true → w ≠ []) (s : Scan) : (s.run (t.text.toList ++ w)).pending = "" := by
  rw [run_append]
  apply pending_run_blanks hw
  intro hnil
  cases t with
  | word text => exact absurd hnil (h rfl)
  | mark m =>
    have hblank : Text.isBlank m.char = false := by cases m <;> decide
    simp [Token.text, run, step_mark _ hblank (Mark.ofChar?_char m), endWord_pending]

/-- The scan of a spacing goes on behind each part as if the word had been ended there. -/
theorem endWord_run_spread {t : Token} {w : List Char} {parts : List (Token × List Char)}
    (h : Spaced ((t, w) :: parts)) {s : Scan} (hs : s.pending = "") :
    (s.run (spread ((t, w) :: parts))).endWord =
      ((s.place t (w.count '\n')).run (spread parts)).endWord := by
  obtain ⟨ht, hw, hapart, -⟩ := spaced_cons.mp h
  rw [spread_cons, run_append, ← endWord_run_part hs ht hw]
  cases parts with
  | nil => exact (endWord_of_pending (endWord_pending _)).symm
  | cons q parts =>
    cases hq : q.1.isWord with
    | false =>
      -- A mark ends the word before it.
      obtain ⟨c, htext, hc⟩ := Token.text_eq_cons_of_not_isWord hq
      rw [spread_cons, htext]
      simp only [List.cons_append, run_cons, endWord_step hc]
    | true =>
      -- A word follows, so a mark or a blank was read last.
      rw [endWord_of_pending (pending_run_part hw (fun ht => hapart q rfl ht hq) s)]

theorem lexemes_run_spread {parts : List (Token × List Char)} (h : Spaced parts) {s : Scan}
    (hs : s.pending = "") : (s.run (spread parts)).endWord.lexemes.toList =
      s.lexemes.toList ++ parts.mapIdx fun i p =>
        ⟨p.1, s.line + ((parts.take i).flatMap Prod.snd).count '\n', s.lexemes.size + i⟩ := by
  induction parts generalizing s with
  | nil => simp [spread, run, endWord_of_pending hs]
  | cons p parts ih =>
    obtain ⟨t, w⟩ := p
    have hplace : (s.place t (w.count '\n')).pending = "" := hs
    rw [endWord_run_spread h hs, ih (spaced_cons.mp h).2.2.2 hplace]
    simp [place, List.mapIdx_cons, Nat.add_assoc, Nat.add_comm 1]

end Scan

/-- The scan gives back the tokens of a spacing, each at its place. -/
theorem Spacing.tokenize_text (l : Spacing) : tokenize l.text = l.lexemes := by
  have hblanks := Scan.endWord_run_blanks l.leading_blank .start
  have hpending : (Scan.start.run l.leading).pending = "" :=
    Scan.pending_run_blanks l.leading_blank fun _ => rfl
  rw [Scan.endWord_of_pending hpending] at hblanks
  rw [tokenize, text, String.toList_ofList, Scan.run_append, hblanks, Scan.finish,
    Scan.lexemes_run_spread l.spaced rfl]
  simp [lexemes, blanksBefore, Scan.start, Scan.endWord, Nat.add_assoc]

/-! ### Every source is a spacing -/

/-- The characters are those of a spacing. -/
def IsSpacing (cs : List Char) : Prop :=
  ∃ leading parts, (∀ c ∈ leading, Text.isBlank c = true) ∧ Spaced parts ∧
    leading ++ spread parts = cs

namespace IsSpacing

variable {cs : List Char} {c : Char}

theorem cons_blank (h : IsSpacing cs) (hc : Text.isBlank c = true) : IsSpacing (c :: cs) := by
  obtain ⟨leading, parts, hleading, hparts, rfl⟩ := h
  exact ⟨c :: leading, parts, List.forall_mem_cons.mpr ⟨hc, hleading⟩, hparts, rfl⟩

theorem cons_mark (h : IsSpacing cs) {m : Mark} (hc : Mark.ofChar? c = some m) :
    IsSpacing (c :: cs) := by
  obtain ⟨leading, parts, hleading, hparts, rfl⟩ := h
  have hapart : Apart (.mark m) leading parts := fun _ _ hm => absurd hm Bool.false_ne_true
  refine ⟨[], (.mark m, leading) :: parts, by simp,
    spaced_cons.mpr ⟨rfl, hleading, hapart, hparts⟩, ?_⟩
  simp [spread_cons, Token.text, Mark.char_of_ofChar? hc]

theorem cons_plain (h : IsSpacing cs) (hc : Word.isPlain c = true) : IsSpacing (c :: cs) := by
  obtain ⟨leading, parts, hleading, hparts, rfl⟩ := h
  by_cases hnext : leading = [] ∧ ∃ s w rest, parts = (.word s, w) :: rest
  · -- The character is the first one of the word that follows.
    obtain ⟨rfl, s, w, rest, rfl⟩ := hnext
    obtain ⟨hs, hw, hapart, hrest⟩ := spaced_cons.mp hparts
    have hsound : Token.isSound (.word (String.ofList (c :: s.toList))) = true := by
      have hplain := (Word.isPlainText_iff.mp hs).2
      rw [Token.isSound, String.toList_ofList]
      exact Word.isPlainText_iff.mpr ⟨by simp, List.forall_mem_cons.mpr ⟨hc, hplain⟩⟩
    refine ⟨[], (.word (String.ofList (c :: s.toList)), w) :: rest, by simp,
      spaced_cons.mpr ⟨hsound, hw, hapart, hrest⟩, ?_⟩
    simp [spread_cons, Token.text]
  · have hsound : Token.isSound (.word (String.ofList [c])) = true := by
      simp [Token.isSound, Word.isPlainText, hc]
    have hapart : Apart (.word (String.ofList [c])) leading parts := by
      rintro ⟨q, w⟩ hq - hword hnil
      obtain ⟨rest, hrest⟩ := List.head?_eq_some_iff.mp hq
      cases q with
      | mark m => cases hword
      | word s => exact hnext ⟨hnil, s, w, rest, hrest⟩
    refine ⟨[], (.word (String.ofList [c]), leading) :: parts, by simp,
      spaced_cons.mpr ⟨hsound, hleading, hapart, hparts⟩, ?_⟩
    simp [spread_cons, Token.text]

end IsSpacing

theorem isSpacing (cs : List Char) : IsSpacing cs := by
  induction cs with
  | nil => exact ⟨[], [], by simp, spaced_nil, rfl⟩
  | cons c cs ih =>
    cases hblank : Text.isBlank c with
    | true => exact ih.cons_blank hblank
    | false =>
      cases hmark : Mark.ofChar? c with
      | some m => exact ih.cons_mark hmark
      | none => exact ih.cons_plain (by simp [Word.isPlain, hblank, hmark])

theorem exists_spacing (source : String) : ∃ l : Spacing, l.text = source := by
  obtain ⟨leading, parts, hleading, hparts, hcs⟩ := isSpacing source.toList
  refine ⟨⟨leading, parts, hleading, hparts⟩, ?_⟩
  rw [Spacing.text, hcs, String.ofList_toList]

namespace Spacing

theorem map_text_lexemes (l : Spacing) :
    l.lexemes.map (fun x => x.token.text) = l.parts.map fun p => p.1.text :=
  List.ext_getElem (by simp [lexemes]) (by simp [lexemes])

/-- Only blanks are dropped. -/
theorem filter_text (l : Spacing) : l.text.toList.filter (fun c => !Text.isBlank c) =
    l.parts.flatMap fun p => p.1.text.toList := by
  have hleading : l.leading.filter (fun c => !Text.isBlank c) = [] := by
    simpa [List.filter_eq_nil_iff] using l.leading_blank
  have hpart : ∀ p ∈ l.parts, (p.1.text.toList ++ p.2).filter (fun c => !Text.isBlank c) =
      p.1.text.toList := by
    intro p hp
    have htoken : p.1.text.toList.filter (fun c => !Text.isBlank c) = p.1.text.toList := by
      simpa [List.filter_eq_self] using Token.not_isBlank_of_isSound (l.spaced.sound p hp)
    have hblanks : p.2.filter (fun c => !Text.isBlank c) = [] := by
      simpa [List.filter_eq_nil_iff] using l.spaced.blank p hp
    rw [List.filter_append, htoken, hblanks, List.append_nil]
  rw [text, String.toList_ofList, List.filter_append, hleading, List.nil_append, spread,
    List.filter_flatMap, List.flatMap_def, List.flatMap_def, List.map_congr_left hpart]

end Spacing

/-- However tokens are spaced, dividing the source gives them back, each with its number and in the
line that the newlines before it make.  Conversely every source spaces its own tokens, so without
its blanks it is the texts of its tokens. -/
theorem tokenize_spacing :
    (∀ l : Spacing, tokenize l.text = l.lexemes) ∧
    (∀ source, ∃ l : Spacing, l.text = source ∧ l.lexemes = tokenize source) ∧
    ∀ source, String.ofList (source.toList.filter fun c => !Text.isBlank c) =
      String.join ((tokenize source).map fun l => l.token.text) := by
  refine ⟨fun l => l.tokenize_text, fun source => ?_, fun source => ?_⟩
  · obtain ⟨l, rfl⟩ := exists_spacing source
    exact ⟨l, rfl, l.tokenize_text.symm⟩
  · obtain ⟨l, rfl⟩ := exists_spacing source
    rw [l.filter_text, l.tokenize_text, l.map_text_lexemes]
    exact String.toList_inj.mp (by simp [String.toList_join, List.flatMap_map])

end Imperative
