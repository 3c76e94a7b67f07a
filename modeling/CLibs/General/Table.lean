import Mathlib.Data.List.AList
import Mathlib.Data.List.Sort

/-!
# Ordered tables

Finite maps that are read with a default, as `operator[]` of an ordered map does:
reading a missing key adds the default to the map.
-/

set_option autoImplicit false

namespace CLibs.General

abbrev Table (κ α : Type) := AList fun _ : κ => α

namespace Table

variable {κ α : Type} [DecidableEq κ]

def get (table : Table κ α) (key : κ) (fallback : α) : α := (table.lookup key).getD fallback

/-- Reading `key` adds it with the default value if it is missing. -/
def touch (table : Table κ α) (key : κ) (fallback : α) : Table κ α :=
  if (table.lookup key).isSome then table else table.insert key fallback

def mapVals (table : Table κ α) (f : κ → α → α) : Table κ α where
  entries := table.entries.map fun entry => ⟨entry.1, f entry.1 entry.2⟩
  nodupKeys := by
    have keys : List.keys (table.entries.map fun entry =>
        (⟨entry.1, f entry.1 entry.2⟩ : Sigma fun _ : κ => α)) = table.entries.keys := by
      simp only [List.keys, List.map_map]
      rfl
    rw [List.NodupKeys, keys]
    exact table.nodupKeys

/-- The keys in the order of iteration. -/
def sortedKeys [LinearOrder κ] (table : Table κ α) : List κ :=
  table.keys.insertionSort (· ≤ ·)

@[simp] theorem get_empty (key : κ) (fallback : α) :
    get (∅ : Table κ α) key fallback = fallback := rfl

theorem get_insert (table : Table κ α) (key other : κ) (value fallback : α) :
    get (table.insert key value) other fallback =
      if other = key then value else get table other fallback := by
  by_cases same : other = key
  · subst same
    simp [get]
  · simp [get, same, AList.lookup_insert_ne same]

@[simp] theorem get_touch (table : Table κ α) (key other : κ) (fallback : α) :
    get (table.touch key fallback) other fallback = get table other fallback := by
  unfold touch
  split
  · rfl
  · next missing =>
    rw [get_insert]
    split
    · next same =>
      rw [Bool.not_eq_true, Option.isSome_eq_false_iff, Option.isNone_iff_eq_none] at missing
      rw [get, same, missing, Option.getD_none]
    · rfl

theorem touch_of_mem {table : Table κ α} {key : κ} (member : key ∈ table) (fallback : α) :
    table.touch key fallback = table :=
  if_pos (AList.lookup_isSome.mpr member)

theorem touch_of_notMem {table : Table κ α} {key : κ} (missing : key ∉ table) (fallback : α) :
    table.touch key fallback = table.insert key fallback :=
  if_neg fun found => missing (AList.lookup_isSome.mp found)

theorem mem_touch_self (table : Table κ α) (key : κ) (fallback : α) :
    key ∈ table.touch key fallback := by
  unfold touch
  split
  · next found => exact AList.lookup_isSome.mp found
  · exact (AList.mem_insert table).mpr (.inl rfl)

theorem get_erase (table : Table κ α) (key other : κ) (fallback : α) :
    get (table.erase key) other fallback = if other = key then fallback else get table other fallback := by
  by_cases same : other = key
  · subst same
    rw [get, AList.lookup_erase, if_pos rfl, Option.getD_none]
  · rw [get, get, AList.lookup_erase_ne same, if_neg same]

theorem get_of_notMem {table : Table κ α} {key : κ} (missing : key ∉ table) (fallback : α) :
    get table key fallback = fallback := by
  rw [get, AList.lookup_eq_none.mpr missing]
  rfl

omit [DecidableEq κ] in
theorem mem_sortedKeys [LinearOrder κ] {table : Table κ α} {key : κ} :
    key ∈ table.sortedKeys ↔ key ∈ table := by
  rw [sortedKeys, List.mem_insertionSort, AList.mem_keys]

omit [DecidableEq κ] in
theorem nodup_sortedKeys [LinearOrder κ] (table : Table κ α) : table.sortedKeys.Nodup :=
  (List.perm_insertionSort _ _).nodup_iff.mpr table.keys_nodup

theorem get_mapVals (table : Table κ α) (f : κ → α → α) (key : κ) {fallback : α}
    (kept : f key fallback = fallback) :
    get (table.mapVals f) key fallback = f key (get table key fallback) := by
  have found : (table.mapVals f).lookup key = (table.lookup key).map (f key) :=
    @List.dlookup_map₂ κ _ (fun _ => α) (fun _ => α) table.entries f key
  rw [get, get, found]
  cases table.lookup key with
  | none => exact kept.symm
  | some value => rfl

/-- What holds of every entry, when one takes a place. -/
theorem forall_insert {table : Table κ α} {holds : κ → α → Prop} {key : κ} {value : α}
    (others : ∀ other old, table.lookup other = some old → holds other old)
    (new : holds key value) (other : κ) (old : α)
    (found : (table.insert key value).lookup other = some old) : holds other old := by
  by_cases same : other = key
  · subst same
    rw [AList.lookup_insert] at found
    cases found
    exact new
  · rw [AList.lookup_insert_ne same] at found
    exact others other old found

theorem lookup_of_lookup_erase {table : Table κ α} {key other : κ} {old : α}
    (found : (table.erase key).lookup other = some old) : table.lookup other = some old := by
  by_cases same : other = key
  · subst same
    rw [AList.lookup_erase] at found
    cases found
  · rwa [AList.lookup_erase_ne same] at found

/-- A loop over a table with small numbers as keys: an invariant of the turns, the turn of a
number that is no key being empty. -/
theorem foldl_sortedKeys {α σ : Type} (table : Table Int α) (bound : Nat)
    (small : ∀ key ∈ table, 0 ≤ key ∧ key < bound) (step : σ → Int → σ) (inv : Nat → σ → Prop)
    {s : σ} (start : inv 0 s) (turn : ∀ p s, inv p s → (p : Int) ∈ table → inv (p + 1) (step s p))
    (pass : ∀ p s, inv p s → (p : Int) ∉ table → inv (p + 1) s) :
    inv bound (table.sortedKeys.foldl step s) := by
  let below (n : Nat) : List Int := ((List.range n).map Nat.cast).filter (· ∈ table)
  have runs : ∀ n, inv n ((below n).foldl step s) := by
    intro n
    induction n with
    | zero => exact start
    | succ n ih =>
        have next : below (n + 1) = below n ++ if (n : Int) ∈ table then [(n : Int)] else [] := by
          simp only [below, List.range_succ, List.map_append, List.filter_append, List.map_cons,
            List.map_nil, List.filter_singleton]
          split <;> simp_all
        rw [next, List.foldl_append]
        split
        · next member => exact turn n _ ih member
        · next missing => exact pass n _ ih missing
  have same : table.sortedKeys = below bound := by
    have increasing : (below bound).Pairwise (· < ·) := by
      refine List.Pairwise.filter _ (List.Pairwise.map _ ?_ List.pairwise_lt_range)
      intro low high less
      exact_mod_cast less
    refine List.Perm.eq_of_sortedLE List.sortedLE_insertionSort
      (increasing.imp fun less => le_of_lt less).sortedLE ?_
    rw [List.perm_ext_iff_of_nodup table.nodup_sortedKeys (increasing.imp fun less => ne_of_lt less)]
    intro key
    rw [mem_sortedKeys]
    simp only [below, List.mem_filter, List.mem_map, List.mem_range, decide_eq_true_eq]
    constructor
    · intro member
      obtain ⟨low, high⟩ := small key member
      exact ⟨⟨key.toNat, by omega, by omega⟩, member⟩
    · exact fun found => found.2
  rw [same]
  exact runs bound

end Table

/-! ## Indexes -/

/-- `index` finds the entries of `table` that it shows by their names. -/
def IndexOf {ι κ α : Type} [DecidableEq ι] [DecidableEq κ] (index : Table ι κ) (table : Table κ α)
    (shows : α → Prop) (name : α → ι) : Prop :=
  ∀ i key, index.lookup i = some key ↔
    ∃ value, table.lookup key = some value ∧ shows value ∧ name value = i

namespace IndexOf

variable {ι κ α : Type} [DecidableEq ι] [DecidableEq κ] {index : Table ι κ} {table : Table κ α}
  {shows : α → Prop} {name : α → ι} {key : κ} {value : α}

/-- An entry that is not shown takes a place where none was shown. -/
theorem insert_hidden (indexes : IndexOf index table shows name)
    (before : ∀ old, table.lookup key = some old → ¬ shows old) (hidden : ¬ shows value) :
    IndexOf index (table.insert key value) shows name := by
  intro i other
  by_cases same : other = key
  · subst same
    rw [indexes, AList.lookup_insert]
    constructor
    · rintro ⟨old, found, shown, -⟩
      exact absurd shown (before old found)
    · rintro ⟨new, ⟨⟩, shown, -⟩
      exact absurd shown hidden
  · rw [indexes, AList.lookup_insert_ne same]

/-- An entry with a new name takes a place where none was shown. -/
theorem insert_shown (indexes : IndexOf index table shows name) (value : α)
    (before : ∀ old, table.lookup key = some old → ¬ shows old) (shown : shows value)
    (new : ∀ other old, table.lookup other = some old → shows old → name old ≠ name value) :
    IndexOf (index.insert (name value) key) (table.insert key value) shows name := by
  intro i other
  by_cases same : other = key
  · subst same
    rw [AList.lookup_insert]
    by_cases named : i = name value
    · subst named
      rw [AList.lookup_insert]
      exact ⟨fun _ => ⟨value, rfl, shown, rfl⟩, fun _ => rfl⟩
    · rw [AList.lookup_insert_ne named, indexes]
      constructor
      · rintro ⟨old, found, wasShown, -⟩
        exact absurd wasShown (before old found)
      · rintro ⟨_, ⟨⟩, -, rfl⟩
        exact absurd rfl named
  · rw [AList.lookup_insert_ne same]
    by_cases named : i = name value
    · subst named
      rw [AList.lookup_insert]
      constructor
      · rintro ⟨⟩
        exact absurd rfl same
      · rintro ⟨old, found, isShown, called⟩
        exact absurd called (new other old found isShown)
    · rw [AList.lookup_insert_ne named, indexes]

/-- An entry is replaced by one that is shown alike. -/
theorem insert_alike (indexes : IndexOf index table shows name) {old : α}
    (found : table.lookup key = some old) (alike : shows value ↔ shows old)
    (named : name value = name old) : IndexOf index (table.insert key value) shows name := by
  intro i other
  by_cases same : other = key
  · subst same
    rw [indexes, AList.lookup_insert, found]
    simp [alike, named]
  · rw [indexes, AList.lookup_insert_ne same]

/-- An entry leaves; the name that leaves with it names no other entry. -/
theorem erase (indexes : IndexOf index table shows name) {i : ι}
    (found : table.lookup key = some value) (own : shows value → name value = i)
    (unnamed : ∀ other old, other ≠ key → table.lookup other = some old → shows old →
      name old ≠ i) :
    IndexOf (index.erase i) (table.erase key) shows name := by
  intro j other
  by_cases same : other = key
  · subst same
    rw [AList.lookup_erase]
    constructor
    · intro listed
      by_cases named : j = i
      · subst named
        rw [AList.lookup_erase] at listed
        cases listed
      · rw [AList.lookup_erase_ne named, indexes, found] at listed
        obtain ⟨_, ⟨⟩, shown, rfl⟩ := listed
        exact absurd (own shown) named
    · rintro ⟨_, ⟨⟩, -, -⟩
  · rw [AList.lookup_erase_ne same]
    by_cases named : j = i
    · subst named
      rw [AList.lookup_erase]
      constructor
      · rintro ⟨⟩
      · rintro ⟨old, listed, shown, called⟩
        exact absurd called (unnamed other old same listed shown)
    · rw [AList.lookup_erase_ne named, indexes]

theorem unique (indexes : IndexOf index table shows name) {other : κ} {old : α}
    (first : table.lookup key = some value) (shown : shows value)
    (second : table.lookup other = some old) (shown' : shows old)
    (same : name value = name old) : other = key := by
  have byFirst := (indexes (name old) key).mpr ⟨value, first, shown, same⟩
  have bySecond := (indexes (name old) other).mpr ⟨old, second, shown', rfl⟩
  rw [byFirst] at bySecond
  cases bySecond
  rfl

theorem lookup_stays (indexes : IndexOf index table shows name) {index' : Table ι κ}
    {table' : Table κ α} (after : IndexOf index' table' shows name) {i : ι}
    (found : index.lookup i = some key) (same : table'.lookup key = table.lookup key) :
    index'.lookup i = some key := by
  rw [after, same, ← indexes]
  exact found

end IndexOf

/-- Entries that are shown have names of their own, under which the index finds them;
the others have the name `blank`. -/
structure Numbered {ι κ α : Type} [DecidableEq ι] [DecidableEq κ] (index : Table ι κ)
    (table : Table κ α) (shows : α → Prop) (name : α → ι) (blank : ι) : Prop where
  index : IndexOf index table shows name
  shown : ∀ key value, table.lookup key = some value → shows value → name value ≠ blank
  hidden : ∀ key value, table.lookup key = some value → ¬ shows value → name value = blank

namespace Numbered

variable {ι κ α : Type} [DecidableEq ι] [DecidableEq κ] {index : Table ι κ} {table : Table κ α}
  {shows : α → Prop} {name : α → ι} {blank : ι} {key : κ} {value : α}

theorem insert_hidden (numbered : Numbered index table shows name blank)
    (before : ∀ old, table.lookup key = some old → ¬ shows old) (hidden : ¬ shows value)
    (named : name value = blank) :
    Numbered index (table.insert key value) shows name blank where
  index := numbered.index.insert_hidden before hidden
  shown := Table.forall_insert numbered.shown fun shown => absurd shown hidden
  hidden := Table.forall_insert numbered.hidden fun _ => named

theorem insert_shown (numbered : Numbered index table shows name blank) (value : α)
    (before : ∀ old, table.lookup key = some old → ¬ shows old) (shown : shows value)
    (named : name value ≠ blank)
    (new : ∀ other old, table.lookup other = some old → shows old → name old ≠ name value) :
    Numbered (index.insert (name value) key) (table.insert key value) shows name blank where
  index := numbered.index.insert_shown value before shown new
  shown := Table.forall_insert numbered.shown fun _ => named
  hidden := Table.forall_insert numbered.hidden fun hidden => absurd shown hidden

/-- An entry leaves and its name with it: `blank` is in no index. -/
theorem erase (numbered : Numbered index table shows name blank)
    (found : table.lookup key = some value) :
    Numbered (index.erase (name value)) (table.erase key) shows name blank where
  index := by
    refine numbered.index.erase found (fun _ => rfl) ?_
    intro other old different isThere shown same
    by_cases closing : shows value
    · exact different (numbered.index.unique found closing isThere shown same.symm)
    · exact numbered.shown other old isThere shown (same.trans (numbered.hidden key value found closing))
  shown := fun other old isThere => numbered.shown other old (Table.lookup_of_lookup_erase isThere)
  hidden := fun other old isThere => numbered.hidden other old (Table.lookup_of_lookup_erase isThere)

end Numbered

end CLibs.General
