import Imperative.Token.Scan
import Imperative.Word
import Imperative.Proofs.Literal

/-! Scanning texts that stand in one line.  `Reads cs ts` says that the characters `cs`, begun
between words, add the tokens `ts`, all of them in the current line.  A mark or a blank between two
texts keeps their words apart, so readings are put together at marks and blanks. -/

namespace Imperative

/-- The lexemes of tokens that stand in one line, numbered from `index` on. -/
def inLine (line : Nat) : (index : Nat) → List Token → List Lexeme
  | _, [] => []
  | index, t :: ts => ⟨t, line, index⟩ :: inLine line (index + 1) ts

@[simp] theorem inLine_nil (line index : Nat) : inLine line index [] = [] := rfl

@[simp] theorem inLine_cons (line index : Nat) (t : Token) (ts : List Token) :
    inLine line index (t :: ts) = ⟨t, line, index⟩ :: inLine line (index + 1) ts := rfl

@[simp] theorem inLine_append (line index : Nat) (ts us : List Token) :
    inLine line index (ts ++ us) = inLine line index ts ++ inLine line (index + ts.length) us := by
  induction ts generalizing index with
  | nil => simp
  | cons t ts ih => simp [ih, Nat.add_comm, Nat.add_left_comm]

/-! ### Plain characters -/

namespace Text

theorem toNat_of_isBlank {c : Char} (h : isBlank c = true) :
    c.toNat ∈ [9, 10, 11, 12, 13, 32, 0x85, 0xa0, 0x1680, 0x2000, 0x2001, 0x2002, 0x2003, 0x2004,
      0x2005, 0x2006, 0x2007, 0x2008, 0x2009, 0x200a, 0x2028, 0x2029, 0x202f, 0x205f, 0x3000] := by
  simp [isBlank, within, blankRanges] at h
  simp
  omega

theorem not_isAlphanumeric_of_isBlank {c : Char} (h : isBlank c = true) :
    isAlphanumeric c = false := by
  have hn := toNat_of_isBlank h
  unfold isAlphanumeric
  generalize c.toNat = n at hn
  revert n
  decide

/-- The letters and digits of ASCII are letters and numbers. -/
theorem isAlphanumeric_of_ascii {c : Char} (h : 48 ≤ c.toNat ∧ c.toNat ≤ 57 ∨
    65 ≤ c.toNat ∧ c.toNat ≤ 90 ∨ 97 ≤ c.toNat ∧ c.toNat ≤ 122) : isAlphanumeric c = true := by
  have hlow : c.toNat < 0x530 := by omega
  simp [isAlphanumeric, hlow, within, latinRanges]
  omega

end Text

namespace Word

/-- Whether a character belongs to words: neither a blank nor a mark. -/
def isPlain (c : Char) : Bool := !Text.isBlank c && (Mark.ofChar? c).isNone

/-- Whether characters are one word: at least one, and all of them plain. -/
def isPlainText (cs : List Char) : Bool := !cs.isEmpty && cs.all isPlain

theorem isPlainText_iff {cs : List Char} :
    isPlainText cs = true ↔ cs ≠ [] ∧ ∀ c ∈ cs, isPlain c = true := by
  simp [isPlainText]

theorem isPlain_of_continuesIdentifier {c : Char} (h : continuesIdentifier c = true) :
    isPlain c = true := by
  have hmark : Mark.ofChar? c = none := by
    cases hm : Mark.ofChar? c with
    | none => rfl
    | some m =>
      rw [← Mark.char_of_ofChar? hm] at h
      cases m <;> revert h <;> decide
  have hblank : Text.isBlank c = false := by
    by_contra hb
    rw [Bool.not_eq_false] at hb
    rw [continuesIdentifier, Text.not_isAlphanumeric_of_isBlank hb, Bool.false_or, beq_iff_eq] at h
    subst h
    exact absurd hb (by decide)
  simp [isPlain, hmark, hblank]

theorem continuesIdentifier_of_startsIdentifier {c : Char} (h : startsIdentifier c = true) :
    continuesIdentifier c = true := by
  simp only [startsIdentifier, Bool.or_eq_true] at h
  simp only [continuesIdentifier, Bool.or_eq_true]
  exact h.imp_left fun halpha => Text.isAlphanumeric_of_ascii (.inr (toNat_of_isAlpha halpha))

theorem isPlain_of_isDigit {c : Char} (h : c.isDigit = true) : isPlain c = true := by
  refine isPlain_of_continuesIdentifier ?_
  have hdigit : 48 ≤ c.toNat ∧ c.toNat ≤ 57 := by
    simpa [Char.isDigit, UInt32.le_iff_toNat_le] using h
  simp [continuesIdentifier, Text.isAlphanumeric_of_ascii (.inl hdigit)]

/-- An identifier is one word. -/
theorem isPlainText_of_isIdentifier {s : String} (h : isIdentifier s = true) :
    isPlainText s.toList = true := by
  have hshape : hasIdentifierShape s.toList = true := by
    simp only [isIdentifier, Bool.and_eq_true] at h
    exact h.1
  cases hs : s.toList with
  | nil => simp [hs, hasIdentifierShape] at hshape
  | cons c cs =>
    simp only [hs, hasIdentifierShape, Bool.and_eq_true, List.all_eq_true] at hshape
    refine isPlainText_iff.mpr ⟨by simp, List.forall_mem_cons.mpr ⟨?_, fun d hd => ?_⟩⟩
    · exact isPlain_of_continuesIdentifier (continuesIdentifier_of_startsIdentifier hshape.1)
    · exact isPlain_of_continuesIdentifier (hshape.2 d hd)

/-- Digits around a point are one word. -/
theorem isPlainText_point {whole fraction : List Char} (hwhole : isDigits whole = true)
    (hfraction : isDigits fraction = true) : isPlainText (whole ++ '.' :: fraction) = true := by
  refine isPlainText_iff.mpr ⟨by simp, fun c hc => ?_⟩
  rcases List.mem_append.mp hc with hc | hc
  · exact isPlain_of_isDigit ((isDigits_iff.mp hwhole).2 c hc)
  · rcases List.mem_cons.mp hc with rfl | hc
    · decide
    · exact isPlain_of_isDigit ((isDigits_iff.mp hfraction).2 c hc)

end Word

/-! ### Scans -/

namespace Scan

/-- Adds tokens at the current place. -/
def emitAll (ts : List Token) (s : Scan) : Scan := ts.foldl (fun s t => s.emit t) s

theorem emitAll_cons (t : Token) (ts : List Token) (s : Scan) :
    s.emitAll (t :: ts) = (s.emit t).emitAll ts := rfl

theorem emitAll_append (ts us : List Token) (s : Scan) :
    s.emitAll (ts ++ us) = (s.emitAll ts).emitAll us := List.foldl_append

@[simp] theorem emit_line (t : Token) (s : Scan) : (s.emit t).line = s.line := rfl

@[simp] theorem emit_pending (t : Token) (s : Scan) : (s.emit t).pending = s.pending := rfl

@[simp] theorem emit_lexemes (t : Token) (s : Scan) :
    (s.emit t).lexemes = s.lexemes.push ⟨t, s.line, s.lexemes.size⟩ := rfl

theorem emitAll_pending (ts : List Token) (s : Scan) : (s.emitAll ts).pending = s.pending := by
  induction ts generalizing s with
  | nil => rfl
  | cons t ts ih => exact ih (s.emit t)

theorem emitAll_lexemes (ts : List Token) (s : Scan) :
    (s.emitAll ts).lexemes.toList = s.lexemes.toList ++ inLine s.line s.lexemes.size ts := by
  induction ts generalizing s with
  | nil => simp [emitAll]
  | cons t ts ih =>
    have h := ih (s.emit t)
    simp only [emit_lexemes, emit_line, Array.toList_push, Array.size_push] at h
    rw [emitAll_cons, h]
    simp

theorem run_append (s : Scan) (cs ds : List Char) : s.run (cs ++ ds) = (s.run cs).run ds :=
  List.foldl_append

theorem run_cons (s : Scan) (c : Char) (cs : List Char) : s.run (c :: cs) = (s.step c).run cs := rfl

theorem step_mark (s : Scan) {c : Char} {m : Mark} (hblank : Text.isBlank c = false)
    (hmark : Mark.ofChar? c = some m) : s.step c = s.endWord.emit (.mark m) := by
  simp [step, hblank, hmark]

theorem step_blank (s : Scan) {c : Char} (hblank : Text.isBlank c = true) (hline : c ≠ '\n') :
    s.step c = s.endWord := by
  simp [step, hblank, blank, hline]

/-- Plain characters are added to the word begun. -/
theorem run_plain (s : Scan) {cs : List Char} (hcs : ∀ c ∈ cs, Word.isPlain c = true) :
    s.run cs = { s with pending := s.pending ++ String.ofList cs } := by
  induction cs generalizing s with
  | nil => simp [run]
  | cons c cs ih =>
    have hc : Text.isBlank c = false ∧ Mark.ofChar? c = none := by
      simpa [Word.isPlain] using hcs c List.mem_cons_self
    have hstep : s.step c = { s with pending := s.pending.push c } := by
      simp [step, hc.1, hc.2]
    have hword : s.pending.push c ++ String.ofList cs = s.pending ++ String.ofList (c :: cs) :=
      String.toList_inj.mp (by simp)
    rw [run_cons, hstep, ih _ fun d hd => hcs d (List.mem_cons_of_mem c hd), ← hword]

end Scan

/-! ### Readings -/

/-- The characters add these tokens, all in one line, when they are begun between words. -/
def Reads (cs : List Char) (ts : List Token) : Prop :=
  ∀ s : Scan, s.pending = "" → (s.run cs).endWord = s.emitAll ts

namespace Reads

theorem nil : Reads [] [] := fun s hs => by simp [Scan.run, Scan.endWord, Scan.emitAll, hs]

/-- A word is read as one token. -/
theorem word {cs : List Char} (hcs : Word.isPlainText cs = true) :
    Reads cs [.word (String.ofList cs)] := by
  obtain ⟨hne, hplain⟩ := Word.isPlainText_iff.mp hcs
  intro s hs
  obtain ⟨lexemes, pending, line⟩ := s
  subst hs
  rw [Scan.run_plain _ hplain]
  simp [Scan.endWord, hne, Scan.emitAll, Scan.emit]

/-- Readings on both sides of a mark. -/
theorem mark {cs ds : List Char} {ts us : List Token} (first : Reads cs ts) (m : Mark)
    (second : Reads ds us) : Reads (cs ++ m.char :: ds) (ts ++ .mark m :: us) := by
  intro s hs
  have hblank : Text.isBlank m.char = false := by cases m <;> decide
  rw [Scan.run_append, Scan.run_cons, Scan.step_mark _ hblank (Mark.ofChar?_char m), first s hs]
  have hemit : (s.emitAll ts).emit (.mark m) = s.emitAll (ts ++ [.mark m]) := by
    rw [Scan.emitAll_append]
    rfl
  rw [hemit, second _ (by rw [Scan.emitAll_pending, hs]), ← Scan.emitAll_append,
    List.append_assoc, List.singleton_append]

/-- Readings on both sides of a blank. -/
theorem blank {cs ds : List Char} {ts us : List Token} (first : Reads cs ts)
    (second : Reads ds us) :
    Reads (cs ++ ' ' :: ds) (ts ++ us) := by
  intro s hs
  rw [Scan.run_append, Scan.run_cons, Scan.step_blank _ (by decide) (by decide), first s hs,
    second _ (by rw [Scan.emitAll_pending, hs]), ← Scan.emitAll_append]

/-- A mark before a reading. -/
theorem mark_first (m : Mark) {ds : List Char} {us : List Token} (second : Reads ds us) :
    Reads (m.char :: ds) (.mark m :: us) := nil.mark m second

/-- A blank before a reading. -/
theorem blank_first {ds : List Char} {us : List Token} (second : Reads ds us) :
    Reads (' ' :: ds) us := nil.blank second

end Reads

/-- A text that is read as tokens of one line has them as its lexemes. -/
theorem tokenize_of_reads {source : String} {ts : List Token} (h : Reads source.toList ts) :
    tokenize source = inLine 1 0 ts := by
  rw [tokenize, Scan.finish, h .start rfl, Scan.emitAll_lexemes]
  rfl

/-! ### Numbers of lexemes -/

theorem map_token_inLine (line index : Nat) (ts : List Token) :
    (inLine line index ts).map Lexeme.token = ts := by
  induction ts generalizing index with
  | nil => rfl
  | cons t ts ih => simp [ih]

namespace Scan

/-- The lexemes found so far are numbered from zero on. -/
def Numbered (s : Scan) : Prop :=
  s.lexemes.toList.map (fun l => l.position.index) = List.range s.lexemes.size

theorem Numbered.emit {s : Scan} (h : s.Numbered) (t : Token) : (s.emit t).Numbered := by
  unfold Numbered at h ⊢
  simp [h, List.range_succ]

theorem Numbered.endWord {s : Scan} (h : s.Numbered) : s.endWord.Numbered := by
  unfold Scan.endWord
  split
  · exact h
  · exact h.emit _

theorem Numbered.step {s : Scan} (h : s.Numbered) (c : Char) : (s.step c).Numbered := by
  unfold Scan.step Scan.blank
  split
  · split
    · exact h.endWord
    · exact h.endWord
  · split
    · exact h.endWord.emit _
    · exact h

theorem Numbered.run {s : Scan} (h : s.Numbered) (cs : List Char) : (s.run cs).Numbered := by
  induction cs generalizing s with
  | nil => exact h
  | cons c cs ih => exact ih (h.step c)

end Scan

/-- The lexemes of a source are numbered from zero on. -/
theorem tokenize_numbered (source : String) :
    (tokenize source).map (fun l => l.position.index) = List.range (tokenize source).length := by
  have hstart : Scan.start.Numbered := rfl
  exact (hstart.run source.toList).endWord

/-- The number of a lexeme tells how many stand before it. -/
theorem index_of_tokenize {source : String} {before rest : List Lexeme} {l : Lexeme}
    (h : tokenize source = before ++ l :: rest) : l.position.index = before.length := by
  have hnumbered := tokenize_numbered source
  rw [h] at hnumbered
  have hat := congrArg (fun ns : List Nat => ns[before.length]?) hnumbered
  simpa using hat

/-! ### Lines -/

namespace Scan

theorem endWord_line (s : Scan) : s.endWord.line = s.line := by
  unfold endWord
  split <;> rfl

theorem step_line (s : Scan) (c : Char) : (s.step c).line = s.line + [c].count '\n' := by
  unfold step blank
  split
  · split
    · next hc => simp [endWord_line, beq_iff_eq.mp hc]
    · next hc => simp [endWord_line, List.count_singleton, hc]
  · next hblank =>
    have hc : c ≠ '\n' := by
      rintro rfl
      exact hblank (by decide)
    split <;> simp [endWord_line, hc]

theorem run_line (s : Scan) (cs : List Char) : (s.run cs).line = s.line + cs.count '\n' := by
  induction cs generalizing s with
  | nil => rfl
  | cons c cs ih =>
    rw [run_cons, ih, step_line, Nat.add_assoc, ← List.count_append]
    rfl

end Scan

/-! ### Sources one after the other -/

namespace Scan

theorem endWord_pending (s : Scan) : s.endWord.pending = "" := by
  unfold endWord
  split
  · next h => simpa using h
  · rfl

theorem lexemes_endWord (s : Scan) : s.lexemes.toList <+: s.endWord.lexemes.toList := by
  unfold endWord
  split
  · exact List.prefix_rfl
  · simp

theorem lexemes_step (s : Scan) (c : Char) : s.lexemes.toList <+: (s.step c).lexemes.toList := by
  unfold step blank
  split
  · split
    · exact s.lexemes_endWord
    · exact s.lexemes_endWord
  · split
    · exact s.lexemes_endWord.trans (by simp)
    · exact List.prefix_rfl

/-- A scan only adds lexemes. -/
theorem lexemes_run (s : Scan) (cs : List Char) :
    s.lexemes.toList <+: (s.run cs).lexemes.toList := by
  induction cs generalizing s with
  | nil => exact List.prefix_rfl
  | cons c cs ih => exact (s.lexemes_step c).trans (ih (s.step c))

end Scan

/-- Behind a blank, the scan goes on from the lexemes before it. -/
theorem tokenize_blank (source text : String) : tokenize (source ++ " " ++ text) =
    ((Scan.start.run source.toList).endWord.run text.toList).finish := by
  have hcs : (source ++ " " ++ text).toList = source.toList ++ ' ' :: text.toList := by simp
  rw [tokenize, hcs, Scan.run_append, Scan.run_cons, Scan.step_blank _ (by decide) (by decide)]

/-- The lexemes of a source remain when text is added behind a blank. -/
theorem tokenize_append (source text : String) :
    ∃ us, tokenize (source ++ " " ++ text) = tokenize source ++ us := by
  rw [tokenize_blank]
  have hrun := (Scan.start.run source.toList).endWord.lexemes_run text.toList
  obtain ⟨us, hus⟩ := hrun.trans (Scan.lexemes_endWord _)
  exact ⟨us, hus.symm⟩

/-- The lexemes of a source with a text behind it that is read as tokens. -/
theorem tokenize_append_of_reads (source : String) {text : String} {ts : List Token}
    (h : Reads text.toList ts) :
    ∃ us, tokenize (source ++ " " ++ text) = tokenize source ++ us ∧
      us.map Lexeme.token = ts := by
  have hscan := h (Scan.start.run source.toList).endWord (Scan.endWord_pending _)
  rw [tokenize_blank, Scan.finish, hscan, Scan.emitAll_lexemes]
  exact ⟨_, rfl, map_token_inLine _ _ ts⟩

end Imperative
