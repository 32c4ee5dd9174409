import Imperative.Proofs.Equality
import Mathlib.Data.Finset.Card

/-! Environments are finite maps, whatever their history is.  A history is a list of operations:
some start afresh, from no names or from parameters, and the others bind one name more.  Only the
entries since the last fresh start count, and among these the last one for each name.  The size is
the number of names that they have.  Environments compare equal exactly when they bind the same
names to equal bindings, in whatever order they came to do so. -/

namespace Imperative.Environment

/-! ### Names and comparison -/

/-- The names that are bound. -/
def names (env : Environment) : Finset String := env.bindings.keys.toFinset

theorem mem_names {env : Environment} {name : String} :
    name ∈ env.names ↔ (env.lookup name).isSome = true := by
  rw [names, List.mem_toFinset, Std.ExtTreeMap.mem_keys, Std.ExtTreeMap.mem_iff_isSome_getElem?,
    lookup]

theorem card_names (env : Environment) : env.names.card = env.size := by
  rw [names, List.toFinset_card_of_nodup env.bindings.nodup_keys, Std.ExtTreeMap.length_keys, size]

theorem isEmpty_iff {env : Environment} : env.isEmpty = true ↔ env.size = 0 := by
  rw [isEmpty, Std.ExtTreeMap.isEmpty_eq_size_beq_zero, beq_iff_eq, size]

theorem mem_toList {env : Environment} {name : String} {b : Binding} :
    (name, b) ∈ env.toList ↔ env.lookup name = some b :=
  Std.ExtTreeMap.mem_toList_iff_getElem?_eq_some

/-- An environment that has all names of another, and as many, has the same names. -/
theorem names_eq_of_subset {a b : Environment} (hsubset : a.names ⊆ b.names)
    (hsize : a.size = b.size) : a.names = b.names := by
  apply Finset.eq_of_subset_of_card_le hsubset
  rw [card_names, card_names, hsize]

/-- Environments compare equal exactly when they bind the same names to equal bindings. -/
theorem agrees_iff {a b : Environment} : a.agrees b = true ↔
    ∀ name, Option.Rel BindingEqual (a.lookup name) (b.lookup name) := by
  simp only [agrees, Bool.and_eq_true, beq_iff_eq, List.all_eq_true, Prod.forall, mem_toList,
    Option.any_eq_true, Binding.agrees_iff]
  constructor
  · rintro ⟨hsize, hbound⟩ name
    cases ha : a.lookup name with
    | some x =>
      obtain ⟨y, hb, hxy⟩ := hbound name x ha
      rw [hb]
      exact .some hxy
    | none =>
      -- Only the names of `a` are compared; `b` has no others, since there are as many.
      have hnames : a.names = b.names := by
        apply names_eq_of_subset _ hsize
        intro other hother
        obtain ⟨x, hx⟩ := Option.isSome_iff_exists.mp (mem_names.mp hother)
        obtain ⟨y, hy, -⟩ := hbound other x hx
        exact mem_names.mpr (by rw [hy, Option.isSome_some])
      have hb : ¬(b.lookup name).isSome = true := by
        rw [← mem_names, ← hnames, mem_names, ha]
        exact Bool.false_ne_true
      rw [Option.not_isSome_iff_eq_none.mp hb]
      exact .none
  · intro h
    constructor
    · have hnames : a.names = b.names := by
        ext name
        have hname := h name
        rw [mem_names, mem_names]
        generalize a.lookup name = x, b.lookup name = y at hname ⊢
        cases hname <;> simp
      rw [← card_names, ← card_names, hnames]
    · intro name x hx
      have hname := h name
      rw [hx] at hname
      generalize b.lookup name = y at hname ⊢
      cases hname with
      | some hxy => exact ⟨_, rfl, hxy⟩

-- The two zeros are equal, and what a name was bound to before does not count.
example : ((empty.bind "x" (.number .zero)).bind "y" (.number .one)).agrees
    (ofParameters [("y", .one), ("x", .one), ("x", ⟨0x8000000000000000⟩)]) = true := by
  decide +kernel

example : (ofParameters [("x", .nan)]).agrees (ofParameters [("x", .nan)]) = false := by
  decide +kernel

/-! ### Entries -/

section Entries

variable {entries : List (String × Binding)} {name : String} {b : Binding}

/-- The environment of these entries, bound one after another. -/
def ofEntries (entries : List (String × Binding)) : Environment :=
  entries.foldl (fun env (name, b) => env.bind name b) empty

/-- The entries bind the name to `b`, and no entry behind that one has the name. -/
def IsLastEntry (entries : List (String × Binding)) (name : String) (b : Binding) : Prop :=
  ∃ before after, entries = before ++ (name, b) :: after ∧ name ∉ after.map Prod.fst

theorem ofEntries_concat (entries : List (String × Binding)) (name : String) (b : Binding) :
    ofEntries (entries ++ [(name, b)]) = (ofEntries entries).bind name b := by
  rw [ofEntries, List.foldl_concat, ofEntries]

theorem ofParameters_eq_ofEntries (parameters : List (String × Number)) :
    ofParameters parameters = ofEntries (parameters.map fun (name, x) => (name, .number x)) := by
  rw [ofEntries, List.foldl_map, ofParameters]

/-- Read from the end, the entries are an association list. -/
theorem lookup_ofEntries (entries : List (String × Binding)) (name : String) :
    (ofEntries entries).lookup name = entries.reverse.lookup name := by
  induction entries using List.reverseRecOn with
  | nil => exact lookup_empty name
  | append_singleton entries entry ih =>
    obtain ⟨other, b⟩ := entry
    rw [ofEntries_concat, lookup_bind, ih, List.reverse_concat, List.lookup_cons]
    by_cases h : other = name
    · simp [h]
    · simp [h, beq_false_of_ne (Ne.symm h)]

theorem lookup_ofEntries_eq_none_iff :
    (ofEntries entries).lookup name = none ↔ name ∉ entries.map Prod.fst := by
  rw [lookup_ofEntries, List.lookup_eq_none_iff]
  constructor
  · intro h hname
    obtain ⟨entry, hentry, rfl⟩ := List.mem_map.mp hname
    simpa using h entry (List.mem_reverse.mpr hentry)
  · intro h entry hentry
    rw [bne_iff_ne]
    rintro rfl
    exact h (List.mem_map_of_mem (List.mem_reverse.mp hentry))

theorem lookup_ofEntries_eq_some_iff :
    (ofEntries entries).lookup name = some b ↔ IsLastEntry entries name b := by
  constructor
  · intro h
    rw [lookup_ofEntries, List.lookup_eq_some_iff] at h
    obtain ⟨after, before, hentries, hafter⟩ := h
    refine ⟨before.reverse, after.reverse, ?_, ?_⟩
    · rw [← List.reverse_reverse entries, hentries]
      simp
    · rwa [← lookup_ofEntries_eq_none_iff, lookup_ofEntries, List.reverse_reverse,
        List.lookup_eq_none_iff]
  · rintro ⟨before, after, rfl, hafter⟩
    rw [← lookup_ofEntries_eq_none_iff, lookup_ofEntries] at hafter
    rw [lookup_ofEntries, List.reverse_append, List.reverse_cons, List.append_assoc,
      List.lookup_append, hafter]
    simp

theorem size_ofEntries (entries : List (String × Binding)) :
    (ofEntries entries).size = (entries.map Prod.fst).toFinset.card := by
  have hnames : (ofEntries entries).names = (entries.map Prod.fst).toFinset := by
    ext name
    rw [mem_names, List.mem_toFinset, ← not_iff_not, Option.not_isSome_iff_eq_none,
      lookup_ofEntries_eq_none_iff]
  rw [← card_names, hnames]

end Entries

/-! ### Histories -/

/-- A step in the history of an environment. -/
inductive Operation where
  /-- Starts from no names. -/
  | empty
  /-- Starts from the parameters of a procedure. -/
  | ofParameters (parameters : List (String × Number))
  /-- Binds one name. -/
  | bind (name : String) (b : Binding)

namespace Operation

/-- The environment after the operation. -/
def apply (env : Environment) : Operation → Environment
  | empty => .empty
  | ofParameters parameters => .ofParameters parameters
  | bind name b => env.bind name b

/-- Whether the operation forgets what was bound before. -/
def isFresh : Operation → Bool
  | bind _ _ => false
  | _ => true

/-- The names that the operation binds and what it binds them to, in order. -/
def entries : Operation → List (String × Binding)
  | empty => []
  | ofParameters parameters => parameters.map fun (name, x) => (name, .number x)
  | bind name b => [(name, b)]

end Operation

/-- The environment that a history leaves. -/
def built (history : List Operation) : Environment := history.foldl Operation.apply empty

/-- The part of a history that counts: from its last fresh start on, or all of it. -/
def latest : List Operation → List Operation
  | [] => []
  | op :: history => if history.any Operation.isFresh then latest history else op :: history

/-- The entries of a history that count, in order. -/
def entriesOf (history : List Operation) : List (String × Binding) :=
  (latest history).flatMap Operation.entries

theorem built_concat (history : List Operation) (op : Operation) :
    built (history ++ [op]) = op.apply (built history) := by
  rw [built, List.foldl_concat, built]

theorem latest_concat (history : List Operation) (op : Operation) :
    latest (history ++ [op]) = if op.isFresh then [op] else latest history ++ [op] := by
  induction history with
  | nil => simp [latest]
  | cons first history ih =>
    rw [List.cons_append, latest, latest, ih, List.any_append]
    by_cases hop : op.isFresh = true
    · simp [hop]
    · cases history.any Operation.isFresh <;> simp [hop]

theorem entriesOf_concat (history : List Operation) (op : Operation) :
    entriesOf (history ++ [op]) =
      if op.isFresh then op.entries else entriesOf history ++ op.entries := by
  rw [entriesOf, latest_concat]
  split
  · rw [List.flatMap_singleton]
  · rw [List.flatMap_append, List.flatMap_singleton, entriesOf]

/-- A history leaves what its entries that count leave, bound one after another. -/
theorem built_eq_ofEntries (history : List Operation) :
    built history = ofEntries (entriesOf history) := by
  induction history using List.reverseRecOn with
  | nil => rfl
  | append_singleton history op ih =>
    rw [built_concat, entriesOf_concat]
    cases op with
    | empty => rfl
    | ofParameters parameters => exact ofParameters_eq_ofEntries parameters
    | bind name b =>
      show (built history).bind name b = ofEntries (entriesOf history ++ [(name, b)])
      rw [ofEntries_concat, ih]

theorem lookup_built_eq_some_iff {history : List Operation} {name : String} {b : Binding} :
    (built history).lookup name = some b ↔ IsLastEntry (entriesOf history) name b := by
  rw [built_eq_ofEntries, lookup_ofEntries_eq_some_iff]

/-- Histories leave the same environment if they have the same last entries, in any order. -/
theorem built_eq_built_iff {history other : List Operation} : built history = built other ↔
    ∀ name b, IsLastEntry (entriesOf history) name b ↔ IsLastEntry (entriesOf other) name b := by
  simp only [← lookup_built_eq_some_iff]
  constructor
  · intro h name b
    rw [h]
  · intro h
    ext1 name
    exact Option.ext (h name)

/-- After any history, a name is bound as its last entry says, if there is one since the last fresh
start.  The size is the number of names among these entries, and an environment is empty if it is
zero.  The order of entries for different names leaves no trace, and two environments compare equal
exactly when they bind the same names to equal bindings. -/
theorem built_extensional (history : List Operation) :
    (∀ name b, (built history).lookup name = some b ↔ IsLastEntry (entriesOf history) name b) ∧
    (∀ name, (built history).lookup name = none ↔ name ∉ (entriesOf history).map Prod.fst) ∧
    (built history).size = ((entriesOf history).map Prod.fst).toFinset.card ∧
    ((built history).isEmpty = true ↔ (built history).size = 0) ∧
    (∀ other, built history = built other ↔
      ∀ name b, IsLastEntry (entriesOf history) name b ↔ IsLastEntry (entriesOf other) name b) ∧
    ∀ other, (built history).agrees (built other) = true ↔ ∀ name,
      Option.Rel BindingEqual ((built history).lookup name) ((built other).lookup name) := by
  refine ⟨fun _ _ => lookup_built_eq_some_iff, ?_, ?_, isEmpty_iff, fun _ => built_eq_built_iff,
    fun _ => agrees_iff⟩
  · intro name
    rw [built_eq_ofEntries]
    exact lookup_ofEntries_eq_none_iff
  · rw [built_eq_ofEntries]
    exact size_ofEntries _

end Imperative.Environment
