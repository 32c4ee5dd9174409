import Imperative.CommandLine

/-! Paths of a file tree: where a path with a name put behind it leads, and which names can stand in
a tree.  Below a directory, the name of a file is followed to that file. -/

namespace Imperative.FileTree

/-! ### Names along a path -/

theorem stretches_ne_nil (cs : List Char) : stretches cs ≠ [] := by
  fun_cases stretches cs <;> simp

theorem stretches_append (a b : List Char) :
    stretches (a ++ '/' :: b) = stretches a ++ stretches b := by
  fun_induction stretches a with
  | case1 => simp [stretches]
  | case2 cs ih => simp [stretches, ih]
  | case3 c cs hc hnil => exact absurd hnil (stretches_ne_nil cs)
  | case4 c cs hc first others hcs ih => simp [stretches, hc, ih, hcs]

theorem stretches_of_not_mem {a : List Char} (h : '/' ∉ a) : stretches a = [a] := by
  induction a with
  | nil => rfl
  | cons c cs ih =>
    simp only [List.mem_cons, not_or] at h
    simp [stretches, Ne.symm h.1, ih h.2]

theorem not_mem_of_mem_stretches {cs stretch : List Char} (h : stretch ∈ stretches cs) :
    '/' ∉ stretch := by
  fun_induction stretches cs generalizing stretch with
  | case1 => simp_all
  | case2 cs ih =>
    rcases List.mem_cons.1 h with rfl | h
    · simp
    · exact ih h
  | case3 c cs hc hnil => exact absurd hnil (stretches_ne_nil cs)
  | case4 c cs hc first others hcs ih =>
    rw [hcs] at ih
    rcases List.mem_cons.1 h with rfl | h
    · have := ih List.mem_cons_self
      simp [this, Ne.symm hc]
    · exact ih (List.mem_cons_of_mem _ h)

theorem not_mem_of_mem_names {path name : String} (h : name ∈ names path) : '/' ∉ name.toList := by
  obtain ⟨stretch, hs, rfl⟩ := List.mem_map.1 h
  simpa using not_mem_of_mem_stretches hs

/-- A name behind a path is the last of the names along it.  A slash at the end of the path has put
an empty name there. -/
theorem names_join (path : String) {name : String} (h : '/' ∉ name.toList) :
    ∃ before, names (CommandLine.join path name) = before ++ [name] ∧
      (names path = before ∨ names path = before ++ [""]) := by
  unfold CommandLine.join
  split
  case isTrue hslash =>
    obtain ⟨front, hpath⟩ := List.getLast?_eq_some_iff.1 hslash
    refine ⟨(stretches front).map String.ofList, ?_, .inr ?_⟩
    · simp [names, hpath, stretches_append, stretches_of_not_mem h]
    · simp [names, hpath, stretches_append, stretches]
  case isFalse =>
    refine ⟨names path, ?_, .inl rfl⟩
    simp [names, stretches_append, stretches_of_not_mem h]

theorem origin_join {path : String} (name : String) (h : path ≠ "") :
    origin (CommandLine.join path name) = origin path := by
  have hne : path.toList ≠ [] := by simpa using h
  unfold origin CommandLine.join
  split <;> simp [List.head?_append, List.head?_eq_some_head hne]

/-! ### Names in a tree -/

/-- A name that a path can spell and that leads down.  The empty name, which is that of the working
directory, is let through here. -/
def IsName (name : String) : Prop := name ≠ "." ∧ name ≠ ".." ∧ '/' ∉ name.toList

instance (name : String) : Decidable (IsName name) :=
  inferInstanceAs (Decidable (_ ∧ _ ∧ _))

/-- Every name at which something stands in the tree is one that leads down. -/
def Named (tree : FileTree) : Prop := ∀ item ∈ tree.entries, ∀ name ∈ item.1, IsName name

instance (tree : FileTree) : Decidable tree.Named :=
  inferInstanceAs (Decidable (∀ item ∈ tree.entries, ∀ name ∈ item.1, IsName name))

theorem isName_origin (path : String) : ∀ name ∈ origin path, IsName name := by
  unfold origin
  split <;> decide

theorem isName_follow {place : List String} {name : String} (hplace : ∀ n ∈ place, IsName n)
    (hname : '/' ∉ name.toList) : ∀ n ∈ follow place name, IsName n := by
  unfold follow
  split
  case isTrue => exact hplace
  case isFalse hstay =>
    split
    case isTrue => exact fun n hn => hplace n (List.dropLast_subset _ hn)
    case isFalse hup =>
      intro n hn
      rcases List.mem_append.1 hn with hn | hn
      · exact hplace n hn
      · obtain rfl := List.mem_singleton.1 hn
        exact ⟨fun h => hstay (.inr h), hup, hname⟩

theorem named_empty : empty.Named := by decide

theorem Named.put {tree : FileTree} {place : List String} (h : tree.Named)
    (hplace : ∀ n ∈ place, IsName n) (entry : Entry) : (tree.put place entry).Named := by
  intro item hitem
  rcases List.mem_cons.1 hitem with rfl | hitem
  · exact hplace
  · exact h item hitem

theorem Named.makePlaces {tree : FileTree} {place names : List String} (h : tree.Named)
    (hplace : ∀ n ∈ place, IsName n) (hnames : ∀ n ∈ names, '/' ∉ n.toList) :
    (tree.makePlaces place names).1.Named ∧
      ∀ n ∈ (tree.makePlaces place names).2, IsName n := by
  induction names generalizing tree place with
  | nil => exact ⟨h, hplace⟩
  | cons name names ih =>
    have hnext := isName_follow hplace (hnames name List.mem_cons_self)
    have hrest : ∀ n ∈ names, '/' ∉ n.toList := fun n hn => hnames n (List.mem_cons_of_mem _ hn)
    simp only [FileTree.makePlaces]
    split
    case isTrue => exact ih (h.put hnext _) hnext hrest
    case isFalse => exact ih h hnext hrest

theorem Named.makeDirectory {tree : FileTree} (h : tree.Named) (path : String) :
    (tree.makeDirectory path).Named :=
  (h.makePlaces (isName_origin path) fun _ => not_mem_of_mem_names).1

theorem Named.writeFile {tree : FileTree} (h : tree.Named) (path : String) (content : Content) :
    (tree.writeFile path content).Named := by
  have hway : ∀ n ∈ (names path).dropLast, '/' ∉ n.toList :=
    fun n hn => not_mem_of_mem_names (List.dropLast_subset _ hn)
  have hlast : '/' ∉ ((names path).getLastD "").toList := by
    cases hl : (names path).getLast? with
    | none => simp [List.getLastD_eq_getLast?, hl]
    | some name =>
      simpa [List.getLastD_eq_getLast?, hl] using not_mem_of_mem_names (List.mem_of_getLast? hl)
  obtain ⟨htree, hplace⟩ := h.makePlaces (isName_origin path) hway
  exact htree.put (isName_follow hplace hlast) _

/-! ### What is inside a directory -/

theorem mem_entries_of_get?_file {tree : FileTree} {place : List String} {content : Content}
    (h : tree.get? place = some (.file content)) : (place, .file content) ∈ tree.entries := by
  unfold get? at h
  split at h
  case isTrue => cases h
  case isFalse =>
    obtain ⟨before, after, hl, -⟩ := List.lookup_eq_some_iff.1 h
    rw [hl]
    exact List.mem_append_right _ List.mem_cons_self

theorem mem_children_file {tree : FileTree} {place : List String} {name : String}
    {content : Content} : (name, Entry.file content) ∈ tree.children place ↔
      tree.get? (place ++ [name]) = some (.file content) := by
  simp only [children, List.mem_filterMap, List.mem_eraseDups, Option.map_eq_some_iff,
    Prod.mk.injEq]
  constructor
  · rintro ⟨n, -, entry, hget, rfl, rfl⟩
    exact hget
  · intro hget
    refine ⟨name, ⟨(place ++ [name], _), mem_entries_of_get?_file hget, ?_⟩, _, hget, rfl, rfl⟩
    simp

theorem isName_of_mem_children {tree : FileTree} (h : tree.Named) {place : List String}
    {name : String} {content : Content} (hmem : (name, .file content) ∈ tree.children place) :
    IsName name :=
  h _ (mem_entries_of_get?_file (mem_children_file.1 hmem)) name (by simp)

theorem nodup_eraseDups (l : List String) : l.eraseDups.Nodup := by
  induction h : l.length using Nat.strongRecOn generalizing l with
  | _ n ih =>
    cases l with
    | nil => simp
    | cons a l =>
      rw [List.eraseDups_cons, List.nodup_cons]
      refine ⟨by simp, ih _ ?_ _ rfl⟩
      have := List.length_filter_le (fun b => !b == a) l
      simp only [List.length_cons] at h
      omega

theorem nodup_children (tree : FileTree) (place : List String) :
    ((tree.children place).map Prod.fst).Nodup := by
  simp only [children, List.nodup_iff_pairwise_ne, List.pairwise_map, List.pairwise_filterMap,
    Option.map_eq_some_iff]
  refine (List.nodup_iff_pairwise_ne.1 (nodup_eraseDups _)).imp ?_
  rintro a b hab - ⟨_, -, rfl⟩ - ⟨_, -, rfl⟩
  exact hab

/-! ### Where a path leads -/

theorem directory_of_step {tree : FileTree} {place next : List String} {name : String}
    (h : tree.step place name = .ok next) :
    tree.get? place = some .directory ∧ next = follow place name := by
  unfold step at h
  split at h
  case h_3 hget =>
    cases h
    exact ⟨hget, rfl⟩
  all_goals cases h

theorem foldlM_step_snoc {tree : FileTree} {start place : List String} {before : List String}
    {name : String} : (before ++ [name]).foldlM tree.step start = .ok place ↔
      ∃ p, before.foldlM tree.step start = .ok p ∧ tree.step p name = .ok place := by
  rw [List.foldlM_append]
  cases before.foldlM tree.step start with
  | error e =>
    constructor
    · intro h
      cases h
    · rintro ⟨p, hp, -⟩
      cases hp
  | ok p =>
    simp only [List.foldlM_cons, List.foldlM_nil, bind_pure]
    constructor
    · intro h
      exact ⟨p, rfl, h⟩
    · rintro ⟨q, hq, h⟩
      cases hq
      exact h

theorem directory_of_target {tree : FileTree} {path : String} {entries : List (String × Entry)}
    (h : tree.target path = .directory entries) :
    path ≠ "" ∧ ∃ place, (names path).foldlM tree.step (origin path) = .ok place ∧
      tree.get? place = some .directory ∧ entries = tree.children place := by
  unfold target at h
  split at h
  case isTrue => cases h
  case isFalse hpath =>
    refine ⟨hpath, ?_⟩
    split at h
    case h_1 => cases h
    case h_2 place hwalk =>
      split at h
      case h_2 hget =>
        cases h
        exact ⟨place, hwalk, hget, rfl⟩
      all_goals cases h

/-- The name of a file below a directory leads from that directory to the file. -/
theorem target_join {tree : FileTree} {path : String} {entries : List (String × Entry)}
    (h : tree.target path = .directory entries) {name : String} {content : Content}
    (hname : IsName name) (hne : name ≠ "") (hmem : (name, .file content) ∈ entries) :
    tree.target (CommandLine.join path name) = .file content := by
  obtain ⟨hpath, place, hwalk, hplace, rfl⟩ := directory_of_target h
  have hget := mem_children_file.1 hmem
  obtain ⟨before, hnames, hbefore⟩ := names_join path hname.2.2
  -- The names before the last lead to the directory, with or without the empty one.
  have hway : before.foldlM tree.step (origin path) = .ok place := by
    rcases hbefore with hb | hb
    · rwa [hb] at hwalk
    · rw [hb] at hwalk
      obtain ⟨p, hp, hstep⟩ := foldlM_step_snoc.1 hwalk
      obtain rfl : place = p := by simpa [follow] using (directory_of_step hstep).2
      exact hp
  have hstep : tree.step place name = .ok (place ++ [name]) := by
    simp [step, hplace, follow, hne, hname.1, hname.2.1]
  have hjoin : CommandLine.join path name ≠ "" := by
    unfold CommandLine.join
    split <;> simp [hne]
  have hfold : (names (CommandLine.join path name)).foldlM tree.step
      (origin (CommandLine.join path name)) = .ok (place ++ [name]) := by
    rw [hnames, origin_join name hpath]
    exact foldlM_step_snoc.2 ⟨place, hway, hstep⟩
  simp only [target, hjoin, if_false, hfold, hget]

end Imperative.FileTree
