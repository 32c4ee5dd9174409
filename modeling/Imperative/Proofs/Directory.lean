import Imperative.Proofs.Paths
import Mathlib.Tactic.SplitIfs

/-! Runs of a directory.  The files of a directory run in the order of the bytes of their names,
each as it runs by itself, up to the first that does not succeed. -/

namespace Imperative.CommandLine

/-! ### The bytes of a name -/

/-- The bytes of a text. -/
def bytes (text : String) : List UInt8 := text.toUTF8.data.toList

theorem bytes_eq (text : String) : bytes text = text.toList.flatMap String.utf8EncodeChar := by
  rw [bytes, String.toUTF8, ← String.utf8Encode_toList, List.utf8Encode, List.data_toByteArray]

theorem ofNat_lt {m n : Nat} (hm : m < 256) (hn : n < 256) :
    UInt8.ofNat m < UInt8.ofNat n ↔ m < n := by
  simp only [UInt8.lt_iff_toNat_lt, UInt8.toNat_ofNat', Nat.mod_eq_of_lt hm, Nat.mod_eq_of_lt hn]

theorem ofNat_inj {m n : Nat} (hm : m < 256) (hn : n < 256) :
    UInt8.ofNat m = UInt8.ofNat n ↔ m = n := by
  simp only [← UInt8.toNat_inj, UInt8.toNat_ofNat', Nat.mod_eq_of_lt hm, Nat.mod_eq_of_lt hn]

/-- The bytes of a smaller character come first, whatever follows them: the first byte grows with
the length of the encoding, and at equal lengths the bytes hold the digits of the character in base
64. -/
theorem utf8EncodeChar_lt {a b : Char} (h : a < b) (x y : List UInt8) :
    String.utf8EncodeChar a ++ x < String.utf8EncodeChar b ++ y := by
  have hlt : a.val.toNat < b.val.toNat := h
  have hb : b.val.toNat < 0x110000 := by
    rcases b.valid with hb | hb
    · exact Nat.lt_trans hb (by decide)
    · exact hb.2
  unfold String.utf8EncodeChar
  generalize a.val.toNat = m at *
  generalize b.val.toNat = n at *
  have hdiv (v : Nat) : v / 4096 = v / 64 / 64 ∧ v / 262144 = v / 64 / 64 / 64 := by omega
  dsimp only
  split_ifs
  all_goals first
    | omega
    | simp (disch := omega) only [List.cons_append, List.cons_lt_cons_iff, ofNat_lt, ofNat_inj,
        (hdiv _).1, (hdiv _).2]
      omega

theorem flatMap_utf8EncodeChar_lt {a b : List Char} (h : a < b) :
    a.flatMap String.utf8EncodeChar < b.flatMap String.utf8EncodeChar := by
  induction h with
  | @nil c cs =>
    obtain ⟨x, xs, hx⟩ := List.exists_cons_of_ne_nil (String.utf8EncodeChar_ne_nil (c := c))
    rw [List.flatMap_cons, hx]
    exact List.nil_lt_cons _ _
  | rel h => exact utf8EncodeChar_lt h _ _
  | cons h ih => exact List.append_left_lt ih

/-- Names in order have their bytes in order. -/
theorem bytes_lt_bytes {a b : String} (h : a < b) : bytes a < bytes b := by
  rw [bytes_eq, bytes_eq]
  exact flatMap_utf8EncodeChar_lt (String.lt_iff.1 h)

/-! ### The files of a directory -/

/-- Whether a file name has an extension: it is a stem, which is not empty, a dot, and the
extension, which has no dot. -/
def HasExtension (extension name : String) : Prop :=
  '.' ∉ extension.toList ∧ ∃ stem, stem ≠ "" ∧ name = stem ++ "." ++ extension

theorem extension?_eq_some_iff {extension name : String} :
    extension? name = some extension ↔ HasExtension extension name := by
  constructor
  · intro h
    have hsplit := List.takeWhile_append_dropWhile (p := (· != '.')) (l := name.toList.reverse)
    unfold extension? at h
    simp only at h
    split at h
    case h_1 c d rest hdrop =>
      have hdot : ∀ x ∈ name.toList.reverse.takeWhile (· != '.'), x ≠ '.' := fun x hx => by
        simpa using List.all_eq_true.1 List.all_takeWhile x hx
      have hc : c = '.' := by
        simpa [hdrop] using List.head?_dropWhile_not (· != '.') name.toList.reverse
      rw [hdrop, hc] at hsplit
      generalize name.toList.reverse.takeWhile (· != '.') = back at *
      cases h
      refine ⟨fun hmem => hdot '.' (by simpa using hmem) rfl, String.ofList (d :: rest).reverse,
        by simp, ?_⟩
      apply String.toList_inj.1
      rw [← List.reverse_reverse name.toList, ← hsplit]
      simp
    case h_2 => cases h
  · rintro ⟨hext, stem, hstem, rfl⟩
    have hpos : ∀ c ∈ extension.toList.reverse, (c != '.') = true := by
      intro c hc
      simpa using fun h : c = '.' => hext (h ▸ List.mem_reverse.1 hc)
    obtain ⟨d, rest, hrest⟩ := List.exists_cons_of_ne_nil (l := stem.toList.reverse) (by simpa)
    simp [extension?, List.takeWhile_append_of_pos hpos, List.dropWhile_append_of_pos hpos,
      hrest, List.takeWhile_cons_of_neg, List.dropWhile_cons_of_neg]

theorem mem_sources {extension name : String} {content : Content}
    {entries : List (String × Entry)} : (name, content) ∈ sources extension entries ↔
      (name, Entry.file content) ∈ entries ∧ HasExtension extension name := by
  simp only [sources, List.mem_mergeSort, List.mem_filterMap, ← extension?_eq_some_iff]
  constructor
  · rintro ⟨⟨n, entry⟩, hmem, h⟩
    cases entry with
    | directory => cases h
    | file c =>
      simp only [Option.ite_none_right_eq_some, Option.some.injEq, Prod.mk.injEq] at h
      obtain ⟨hext, rfl, rfl⟩ := h
      exact ⟨hmem, hext⟩
  · rintro ⟨hmem, hext⟩
    exact ⟨_, hmem, by simp [hext]⟩

theorem pairwise_sources (extension : String) {entries : List (String × Entry)}
    (h : (entries.map Prod.fst).Nodup) :
    (sources extension entries).Pairwise fun a b => a.1 < b.1 := by
  have hsorted := @List.pairwise_mergeSort _ (fun a b : String × Content => decide (a.1 ≤ b.1))
    (fun a b c hab hbc => by
      simpa using String.le_trans (of_decide_eq_true hab) (of_decide_eq_true hbc))
    (fun a b => by simpa using String.le_total a.1 b.1)
  have hnames : (sources extension entries).Pairwise fun a b => a.1 ≠ b.1 := by
    refine (List.mergeSort_perm _ _).symm.pairwise (List.pairwise_filterMap.2 ?_) Ne.symm
    refine (List.pairwise_map.1 h).imp ?_
    rintro ⟨a, ea⟩ ⟨b, eb⟩ hab x hx y hy
    cases ea with
    | directory => cases hx
    | file ca =>
      cases eb with
      | directory => cases hy
      | file cb =>
        simp only [Option.ite_none_right_eq_some, Option.some.injEq] at hx hy
        rw [← hx.2, ← hy.2]
        exact hab
  refine (hsorted _).imp₂ ?_ hnames
  intro a b hle hne
  exact String.not_le.1 fun hge => hne (String.le_antisymm (of_decide_eq_true hle) hge)

/-- The order in which a directory lists its entries does not matter. -/
theorem sources_perm (extension : String) {entries listing : List (String × Entry)}
    (hnodup : (entries.map Prod.fst).Nodup) (h : listing.Perm entries) :
    sources extension listing = sources extension entries := by
  have hlisting : (listing.map Prod.fst).Nodup := (h.map Prod.fst).nodup_iff.2 hnodup
  refine List.Perm.eq_of_pairwise ?_ (pairwise_sources extension hlisting)
    (pairwise_sources extension hnodup) ?_
  · intro a b _ _ hab hba
    exact absurd (String.lt_trans hab hba) (String.lt_irrefl _)
  · exact (List.mergeSort_perm _ _).trans ((h.filterMap _).trans (List.mergeSort_perm _ _).symm)

/-! ### Files one after another -/

/-- Reports, one after another: what each wrote, and how the last ended. -/
def Report.concat (reports : List Report) : Report where
  exit := (reports.getLast?.map Report.exit).getD .success
  stdout := String.join (reports.map Report.stdout)
  stderr := String.join (reports.map Report.stderr)

/-- Whether a run ends the runs after it. -/
def Report.fails (report : Report) : Bool := report.exit.code != 0

theorem Report.fails_eq_false {report : Report} :
    report.fails = false ↔ report.exit = .success := by
  cases h : report.exit <;> simp [fails, h, Exit.code]

theorem Report.fails_iff {report : Report} : report.fails = true ↔ report.exit.code = 1 := by
  cases h : report.exit <;> simp [fails, h, Exit.code]

theorem Report.concat_cons {first : Report} (h : first.exit = .success) (reports : List Report) :
    concat (first :: reports) = first.andThen (concat reports) := by
  cases hl : reports.getLast? with
  | none => simp [concat, andThen, h, List.getLast?_cons, hl, String.join_cons]
  | some last => simp [concat, andThen, List.getLast?_cons, hl, String.join_cons]

theorem Report.concat_singleton (report : Report) : concat [report] = report := by
  simp [concat, String.join_cons]

theorem Report.ne_findIdx_fails {reports : List Report} {i : Nat} {report : Report}
    (hi : reports[i]? = some report) (h : report.fails = false) :
    i ≠ reports.findIdx fails := by
  rintro rfl
  obtain ⟨hlt, rfl⟩ := List.getElem?_eq_some_iff.1 hi
  exact Bool.false_ne_true (h.symm.trans (List.findIdx_getElem (w := hlt)))

theorem Report.findIdx_fails_le {reports : List Report} {i : Nat} {report : Report}
    (hi : reports[i]? = some report) (h : report.fails = true) :
    reports.findIdx fails ≤ i := by
  obtain ⟨hlt, rfl⟩ := List.getElem?_eq_some_iff.1 hi
  exact Nat.le_of_not_lt fun hk => Bool.false_ne_true ((List.not_of_lt_findIdx hk).symm.trans h)

/-- Reports up to one that fails fail. -/
theorem Report.concat_take_findIdx {reports : List Report}
    (h : reports.findIdx fails < reports.length) :
    (concat (reports.take (reports.findIdx fails + 1))).fails = true := by
  have hlast := List.findIdx_getElem (w := h)
  have htake : (reports.take (reports.findIdx fails + 1)).getLast? =
      some reports[reports.findIdx fails] := by
    simp [List.getLast?_take, h]
  simpa [concat, htake, fails] using hlast

theorem runFiles_eq_concat (bound : Nat) (options : Options) (files : List (String × Content)) :
    let singles := files.map fun file => runFile bound options file.1 file.2
    runFiles bound options files = .concat (singles.take (singles.findIdx Report.fails + 1)) := by
  induction files with
  | nil => simp [runFiles, Report.concat, Report.empty]
  | cons file files ih =>
    simp only [runFiles, List.map_cons, List.findIdx_cons]
    split
    case isTrue hfirst =>
      rw [Report.fails_eq_false.2 hfirst, cond_false, List.take_succ_cons,
        Report.concat_cons hfirst, ← ih]
    case isFalse hfirst =>
      have hfails : (runFile bound options file.1 file.2).fails = true := by
        simpa using mt Report.fails_eq_false.1 hfirst
      rw [hfails, cond_true, List.take_succ_cons, List.take_zero, Report.concat_singleton]

/-! ### Showing the tree -/

/-- Two reports that differ at most in what was printed. -/
structure Report.Alike (a b : Report) : Prop where
  exit : a.exit = b.exit
  stderr : a.stderr = b.stderr

theorem Report.Alike.refl (r : Report) : r.Alike r := ⟨rfl, rfl⟩

theorem Report.Alike.andThen {a b c d : Report} (hfirst : a.Alike b) (hsecond : c.Alike d) :
    (a.andThen c).Alike (b.andThen d) :=
  ⟨hsecond.exit, by simp only [Report.andThen, hfirst.stderr, hsecond.stderr]⟩

section ShowTree

variable (bound : Nat) (extension path : String)

theorem runFile_alike (content : Content) :
    (runFile bound ⟨true, extension⟩ path content).Alike
      (runFile bound ⟨false, extension⟩ path content) := by
  cases content with
  | error e => exact .refl _
  | ok source =>
    simp only [runFile]
    cases run bound source <;> exact ⟨rfl, rfl⟩

theorem runFiles_alike (files : List (String × Content)) :
    (runFiles bound ⟨true, extension⟩ files).Alike (runFiles bound ⟨false, extension⟩ files) := by
  induction files with
  | nil => exact .refl _
  | cons file files ih =>
    have hfile := runFile_alike bound extension file.1 file.2
    simp only [runFiles, hfile.exit]
    split
    case isTrue => exact hfile.andThen ih
    case isFalse => exact hfile

theorem runPath_alike (tree : FileTree) :
    (runPath bound tree ⟨true, extension⟩ path).Alike
      (runPath bound tree ⟨false, extension⟩ path) := by
  unfold runPath
  cases tree.target path with
  | directory entries => exact runFiles_alike bound extension _
  | file content => exact runFile_alike bound extension path content

end ShowTree

/-! ### Runs of a directory -/

/-- A file that ends the run of its directory: it cannot be read, or its program stops on an
error. -/
def Fails (bound : Nat) (content : Content) : Prop :=
  (∃ e, content = .error e) ∨
    ∃ source p e t, content = .ok source ∧ parse source = .ok p ∧ p.run bound = .failed e t

theorem runFile_rejected {source : String} {e : ParseError} (h : parse source = .error e)
    (bound : Nat) (options : Options) (path : String) :
    (runFile bound options path (.ok source)).exit = .success := by
  simp only [runFile, run_eq, h, report]

theorem Fails.runFile {bound : Nat} {content : Content} (h : Fails bound content)
    (options : Options) (path : String) :
    (runFile bound options path content).exit = .failure := by
  rcases h with ⟨e, rfl⟩ | ⟨source, p, e, t, rfl, hparse, hrun⟩
  · rfl
  · simp only [CommandLine.runFile, run_eq, hparse, hrun, Outcome.ending, report]

theorem runFile_shown {bound : Nat} {source : String} {p : Statement} {v : Number} {s : State}
    (hparse : parse source = .ok p) (hrun : p.run bound = .finished v s)
    (extension path : String) : ∃ rest,
      (runFile bound ⟨false, extension⟩ path (.ok source)).stdout = banner path ++ rest ∧
        (runFile bound ⟨true, extension⟩ path (.ok source)).stdout =
          banner path ++ (p.render ++ "\n") ++ rest := by
  refine ⟨s.transcript.output ++ trailer, ?_⟩
  simp [runFile, run_eq, hparse, hrun, Outcome.ending, report, String.append_assoc]

theorem runFile_unshown {bound : Nat} {content : Content}
    (h : ∀ source p v s, content = .ok source → parse source = .ok p → p.run bound ≠ .finished v s)
    (extension path : String) : runFile bound ⟨true, extension⟩ path content =
      runFile bound ⟨false, extension⟩ path content := by
  cases content with
  | error e => rfl
  | ok source =>
    cases hparse : parse source with
    | error e => simp only [runFile, run_eq, hparse, report]
    | ok p =>
      cases hrun : p.run bound with
      | finished v s => exact absurd hrun (h source p v s rfl hparse)
      | failed e t => simp only [runFile, run_eq, hparse, hrun, Outcome.ending, report]
      | unfinished => simp only [runFile, run_eq, hparse, hrun, Outcome.ending, report]

/-- The runs of files of a directory, each by itself. -/
def singleRuns (bound : Nat) (tree : FileTree) (options : Options) (path : String)
    (files : List (String × Content)) : List Report :=
  files.map fun file => runPath bound tree options (join path file.1)

/-- The run of a directory with these entries is that of these files, of which the one at `k` is the
first to fail.  Where none fails, `k` is their number. -/
structure DirectoryRun (bound : Nat) (tree : FileTree) (extension path : String)
    (entries : List (String × Entry)) (files : List (String × Content)) (k : Nat) : Prop where
  chosen : ∀ name content, (name, content) ∈ files ↔
    (name, Entry.file content) ∈ entries ∧ HasExtension extension name
  ordered : files.Pairwise fun a b => bytes a.1 < bytes b.1
  firstFailure : ∀ showTree,
    (singleRuns bound tree ⟨showTree, extension⟩ path files).findIdx Report.fails = k
  whole : ∀ showTree, runPath bound tree ⟨showTree, extension⟩ path =
    .concat ((singleRuns bound tree ⟨showTree, extension⟩ path files).take (k + 1))
  anyListing : ∀ showTree listing, listing.Perm entries →
    runTarget bound ⟨showTree, extension⟩ path (.directory listing) =
      runPath bound tree ⟨showTree, extension⟩ path
  -- A source that is no program does not end the run; a file that fails does.
  rejected : ∀ i name source e, files[i]? = some (name, .ok source) → parse source = .error e →
    i ≠ k ∧ ∀ showTree, (runPath bound tree ⟨showTree, extension⟩ (join path name)).exit.code = 0
  failed : ∀ i name content, files[i]? = some (name, content) → Fails bound content →
    k ≤ i ∧ ∀ showTree,
      (runPath bound tree ⟨showTree, extension⟩ (join path name)).exit.code = 1 ∧
        (runPath bound tree ⟨showTree, extension⟩ path).exit.code = 1
  -- Showing the tree adds a line to what a program prints that runs to its end, and nothing else.
  alike : ∀ any, (runPath bound tree ⟨true, extension⟩ any).Alike
    (runPath bound tree ⟨false, extension⟩ any)
  shown : ∀ name source p v s, (name, .ok source) ∈ files → parse source = .ok p →
    p.run bound = .finished v s → ∃ rest,
      (runPath bound tree ⟨false, extension⟩ (join path name)).stdout =
          banner (join path name) ++ rest ∧
        (runPath bound tree ⟨true, extension⟩ (join path name)).stdout =
          banner (join path name) ++ (p.render ++ "\n") ++ rest
  unshown : ∀ name content, (name, content) ∈ files →
    (∀ source p v s, content = .ok source → parse source = .ok p → p.run bound ≠ .finished v s) →
      runPath bound tree ⟨true, extension⟩ (join path name) =
        runPath bound tree ⟨false, extension⟩ (join path name)

theorem findIdx_singleRuns (bound : Nat) (tree : FileTree) (extension path : String)
    (files : List (String × Content)) (showTree : Bool) :
    (singleRuns bound tree ⟨showTree, extension⟩ path files).findIdx Report.fails =
      (singleRuns bound tree ⟨false, extension⟩ path files).findIdx Report.fails := by
  cases showTree with
  | false => rfl
  | true =>
    have hexit (file : String × Content) :=
      (runPath_alike bound extension (join path file.1) tree).exit
    simp only [singleRuns, List.findIdx_map, Function.comp_def, Report.fails, hexit]

section Sources

variable {bound : Nat} {tree : FileTree} {extension path : String}
  {entries : List (String × Entry)} (hnamed : tree.Named)
  (h : tree.target path = .directory entries)

include hnamed h

/-- A file of a directory runs by itself as it runs with the others. -/
theorem runPath_join {name : String} {content : Content}
    (hmem : (name, content) ∈ sources extension entries) (options : Options) :
    runPath bound tree options (join path name) =
      runFile bound options (join path name) content := by
  obtain ⟨hfile, -, stem, -, rfl⟩ := mem_sources.1 hmem
  obtain ⟨-, place, -, -, rfl⟩ := FileTree.directory_of_target h
  have hname := FileTree.isName_of_mem_children hnamed hfile
  rw [runPath, FileTree.target_join h hname (by simp) hfile, runTarget]

theorem runPath_eq_concat (showTree : Bool) :
    let singles := singleRuns bound tree ⟨showTree, extension⟩ path (sources extension entries)
    runPath bound tree ⟨showTree, extension⟩ path =
      .concat (singles.take (singles.findIdx Report.fails + 1)) := by
  have hsingles : singleRuns bound tree ⟨showTree, extension⟩ path (sources extension entries) =
      (sources extension entries).map fun file =>
        runFile bound ⟨showTree, extension⟩ (join path file.1) file.2 :=
    List.map_congr_left fun _ hfile => runPath_join hnamed h hfile _
  rw [hsingles, runPath, h, runTarget, runFiles_eq_concat, List.map_map]
  rfl

theorem getElem?_singleRuns {i : Nat} {name : String} {content : Content}
    (hi : (sources extension entries)[i]? = some (name, content)) (options : Options) :
    (singleRuns bound tree options path (sources extension entries))[i]? =
      some (runFile bound options (join path name) content) := by
  rw [singleRuns, List.getElem?_map, hi, Option.map_some,
    runPath_join hnamed h (List.mem_of_getElem? hi)]

theorem ne_findIdx_of_rejected {i : Nat} {name source : String} {e : ParseError}
    (hi : (sources extension entries)[i]? = some (name, .ok source)) (he : parse source = .error e)
    (options : Options) :
    i ≠ (singleRuns bound tree options path (sources extension entries)).findIdx Report.fails ∧
      (runPath bound tree options (join path name)).exit.code = 0 := by
  have hexit := runFile_rejected he bound options (join path name)
  constructor
  · exact Report.ne_findIdx_fails (getElem?_singleRuns hnamed h hi options)
      (Report.fails_eq_false.2 hexit)
  · rw [runPath_join hnamed h (List.mem_of_getElem? hi), hexit, Exit.code]

theorem findIdx_le_of_fails {i : Nat} {name : String} {content : Content}
    (hi : (sources extension entries)[i]? = some (name, content)) (hfails : Fails bound content)
    (showTree : Bool) :
    (singleRuns bound tree ⟨showTree, extension⟩ path
        (sources extension entries)).findIdx Report.fails ≤ i ∧
      (runPath bound tree ⟨showTree, extension⟩ (join path name)).exit.code = 1 ∧
      (runPath bound tree ⟨showTree, extension⟩ path).exit.code = 1 := by
  have hcode : (runFile bound ⟨showTree, extension⟩ (join path name) content).exit.code = 1 := by
    rw [hfails.runFile, Exit.code]
  have hsingle : (singleRuns bound tree ⟨showTree, extension⟩ path
      (sources extension entries))[i]? = _ := getElem?_singleRuns hnamed h hi _
  have hle := Report.findIdx_fails_le hsingle (Report.fails_iff.2 hcode)
  have hlt := (List.getElem?_eq_some_iff.1 hsingle).1
  refine ⟨hle, ?_, ?_⟩
  · rw [runPath_join hnamed h (List.mem_of_getElem? hi), hcode]
  · rw [runPath_eq_concat hnamed h]
    exact Report.fails_iff.1 (Report.concat_take_findIdx (Nat.lt_of_le_of_lt hle hlt))

end Sources

/-- A directory runs as its files do, one after another, up to the first that fails. -/
theorem runPath_directory (bound : Nat) {tree : FileTree} (hnamed : tree.Named)
    (extension path : String) {entries : List (String × Entry)}
    (h : tree.target path = .directory entries) :
    ∃ files k, DirectoryRun bound tree extension path entries files k := by
  have hnodup : (entries.map Prod.fst).Nodup := by
    obtain ⟨-, place, -, -, rfl⟩ := FileTree.directory_of_target h
    exact tree.nodup_children place
  let files := sources extension entries
  let k := (singleRuns bound tree ⟨false, extension⟩ path files).findIdx Report.fails
  have hk (showTree : Bool) :
      (singleRuns bound tree ⟨showTree, extension⟩ path files).findIdx Report.fails = k :=
    findIdx_singleRuns bound tree extension path files showTree
  exact ⟨files, k, {
    chosen := fun _ _ => mem_sources
    ordered := (pairwise_sources extension hnodup).imp bytes_lt_bytes
    firstFailure := hk
    whole := fun showTree => hk showTree ▸ runPath_eq_concat hnamed h showTree
    anyListing := fun showTree listing hperm => by
      simp only [runPath, h, runTarget, sources_perm extension hnodup hperm]
    rejected := fun i name source e hi he =>
      have hi (showTree : Bool) := ne_findIdx_of_rejected hnamed h hi he ⟨showTree, extension⟩
      ⟨(hi false).1, fun showTree => (hi showTree).2⟩
    failed := fun i name content hi hfails =>
      have hi (showTree : Bool) := findIdx_le_of_fails hnamed h hi hfails showTree
      ⟨(hi false).1, fun showTree => (hi showTree).2⟩
    alike := fun any => runPath_alike bound extension any tree
    shown := fun name source p v s hmem hparse hrun => by
      rw [runPath_join hnamed h hmem, runPath_join hnamed h hmem]
      exact runFile_shown hparse hrun extension (join path name)
    unshown := fun name content hmem hunshown => by
      rw [runPath_join hnamed h hmem, runPath_join hnamed h hmem, runFile_unshown hunshown] }⟩

/-- A directory with a source that is no program, a program, one that stops on an error, a file that
cannot be read, a file with another extension and a directory, written in no order. -/
def mixedTree : FileTree :=
  FileTree.empty
    |>.writeFile "d/z.while" (.error .notText)
    |>.writeFile "d/c.while" (.ok "print 2; x")
    |>.makeDirectory "d/sub.while"
    |>.writeFile "d/b.while" (.ok "print 1")
    |>.writeFile "d/notes.txt" (.ok "print 3")
    |>.writeFile "d/a.while" (.ok "print")

theorem runPath_directory_mixed : mixedTree.Named ∧ ∃ entries,
    mixedTree.target "d" = .directory entries ∧
      entries.map Prod.fst =
        ["a.while", "notes.txt", "b.while", "sub.while", "c.while", "z.while"] ∧
      ∃ files k, DirectoryRun 20 mixedTree "while" "d" entries files k := by
  have hnamed : mixedTree.Named :=
    (((((FileTree.named_empty.writeFile _ _).writeFile _ _).makeDirectory _).writeFile _
      _).writeFile _ _).writeFile _ _
  have h : mixedTree.target "d" = .directory (mixedTree.children ["", "d"]) := by rfl
  exact ⟨hnamed, _, h, by decide +kernel, runPath_directory 20 hnamed "while" "d" h⟩

end Imperative.CommandLine
