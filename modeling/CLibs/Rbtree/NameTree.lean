import CLibs.Rbtree.Usage

/-!
# The tree of names

The program of `test.c`: a tree with nodes that hold names, ordered by the hash of the name
and then by the name itself.
-/

set_option autoImplicit false

namespace CLibs.Rbtree

open General

/-! ## The functions of the program -/

/-- What a `char *` argument points to: the bytes before the first zero. -/
structure CString where
  bytes : List UInt8
  noZero : 0 ∉ bytes
  deriving DecidableEq

/-- The string in memory. -/
def CString.text (name : CString) : List UInt8 := name.bytes ++ [0]

def strlen (s : List UInt8) : Nat := (s.takeWhile (· != 0)).length

def strncpy (src : List UInt8) (n : Nat) : List UInt8 :=
  let bytes := (src.takeWhile (· != 0)).take n
  bytes ++ List.replicate (n - bytes.length) 0

def memcmp : List UInt8 → List UInt8 → Nat → Int
  | a :: s1, b :: s2, n + 1 => if a = b then memcmp s1 s2 n else (a.toNat : Int) - b.toNat
  | _, _, _ => 0

def ngxMemn2cmp (s1 s2 : List UInt8) (n1 n2 : Nat) : Int :=
  let (n, z) := if n1 ≤ n2 then (n1, -1) else (n2, 1)
  let m := memcmp s1 s2 n
  if m ≠ 0 ∨ n1 = n2 then m else z

/-- What `ngx_resolver_node_t` has beside the node of the tree, which is its first field. -/
structure ResolverName where
  name : List UInt8
  nlen : UInt16

/-- Whether `ngx_resolver_rbtree_insert_value` goes left from `temp`. -/
def resolverLess (node temp : UInt32 × ResolverName) : Bool :=
  if node.1 < temp.1 then true
  else if node.1 > temp.1 then false
  else ngxMemn2cmp node.2.name temp.2.name node.2.nlen.toNat temp.2.nlen.toNat < 0

namespace NgxRbtree

def ngxResolverRbtreeInsertValue :
    Nat → NgxRbtree ResolverName → Ptr → Ptr → Option (NgxRbtree ResolverName) :=
  insertLeaf resolverLess

/-- What `insert` has written to a node from `calloc` before it calls `ngx_rbtree_insert`. -/
def resolverNode (hash : List UInt8 → UInt32) (name : CString) : Node ResolverName :=
  let buffer := strncpy name.text 128
  let nlen := (strlen buffer).toUInt16
  { key := hash (buffer.take nlen.toNat), left := null, right := null, parent := null
    color := .black, data := { name := buffer, nlen := nlen } }

/-- `p` is what `calloc` returns, and `hash` is `ngx_crc32_short`. -/
def insert (hash : List UInt8 → UInt32) (fuel : Nat) (s : NgxRbtree ResolverName) (p : Ptr)
    (name : CString) : Option (NgxRbtree ResolverName) :=
  ngxRbtreeInsert ngxResolverRbtreeInsertValue fuel
    { s with mem := Function.update s.mem p (resolverNode hash name) } p

/-- The loop of `ngx_resolver_lookup_name`, from `node` on. -/
def lookupLoop (s : NgxRbtree ResolverName) (name : CString) (hash : UInt32) :
    Nat → Ptr → Option Ptr
  | 0, _ => none
  | fuel + 1, node =>
    if node = s.sentinel then some null
    else do
      let rn ← s.load node
      if hash < rn.key then lookupLoop s name hash fuel rn.left
      else if hash > rn.key then lookupLoop s name hash fuel rn.right
      else
        let rc := ngxMemn2cmp name.text rn.data.name (strlen name.text) rn.data.nlen.toNat
        if rc = 0 then some node
        else lookupLoop s name hash fuel (if rc < 0 then rn.left else rn.right)

def ngxResolverLookupName (fuel : Nat) (s : NgxRbtree ResolverName) (name : CString)
    (hash : UInt32) : Option Ptr :=
  lookupLoop s name hash fuel s.root

/-- The body of the loop in `deinit`; `junk` is what is in a node that was freed. -/
def deleteMin (junk : Node ResolverName) (fuel : Nat) (s : NgxRbtree ResolverName) :
    Option (NgxRbtree ResolverName × Ptr) := do
  let rn ← ngxRbtreeMin fuel s s.root
  let s ← ngxRbtreeDelete fuel s rn
  pure ({ s with mem := Function.update s.mem rn junk }, rn)

/-- The loop of `deinit`, with the nodes that it has freed so far. -/
def deinit (junk : Node ResolverName) :
    Nat → NgxRbtree ResolverName → List Ptr → Option (NgxRbtree ResolverName × List Ptr)
  | 0, _, _ => none
  | fuel + 1, s, freed =>
    if s.root ≠ s.sentinel then do
      let (s, rn) ← deleteMin junk (fuel + 1) s
      deinit junk fuel s (freed ++ [rn])
    else some (s, freed)

end NgxRbtree

/-! ## Comparing names -/

theorem ngxMemn2cmp_cons (a b : UInt8) (s1 s2 : List UInt8) (n1 n2 : Nat) :
    ngxMemn2cmp (a :: s1) (b :: s2) (n1 + 1) (n2 + 1) =
      if a = b then ngxMemn2cmp s1 s2 n1 n2 else (a.toNat : Int) - b.toNat := by
  have differ : a ≠ b → (a.toNat : Int) - b.toNat ≠ 0 := by
    intro other same
    exact other (UInt8.toNat_inj.mp (by omega))
  by_cases shorter : n1 ≤ n2
  · simp only [ngxMemn2cmp, Nat.add_le_add_iff_right, if_pos shorter, Nat.add_right_cancel_iff,
      memcmp]
    split
    · rfl
    · exact if_pos (.inl (differ ‹_›))
  · simp only [ngxMemn2cmp, Nat.add_le_add_iff_right, if_neg shorter, Nat.add_right_cancel_iff,
      memcmp]
    split
    · rfl
    · exact if_pos (.inl (differ ‹_›))

theorem ngxMemn2cmp_spec (first second rest rest' : List UInt8) :
    (ngxMemn2cmp (first ++ rest) (second ++ rest') first.length second.length < 0 ↔
        first.map UInt8.toNat < second.map UInt8.toNat) ∧
      (ngxMemn2cmp (first ++ rest) (second ++ rest') first.length second.length = 0 ↔
        first = second) := by
  induction first generalizing second with
  | nil =>
    cases second with
    | nil => simp [ngxMemn2cmp, memcmp]
    | cons b second =>
      simp [ngxMemn2cmp, memcmp]
  | cons a first ih =>
    cases second with
    | nil => simp [ngxMemn2cmp, memcmp]
    | cons b second =>
      rw [List.cons_append, List.cons_append, List.length_cons, List.length_cons,
        ngxMemn2cmp_cons, List.map_cons, List.map_cons, List.cons_lt_cons_iff, List.cons.injEq]
      by_cases same : a = b
      · subst same
        rw [if_pos rfl]
        simpa using ih second
      · have other : a.toNat ≠ b.toNat := fun equal => same (UInt8.toNat_inj.mp equal)
        rw [if_neg same]
        constructor
        · omega
        · exact iff_of_false (by omega) fun both => same both.1

/-! ## Names in nodes -/

/-- The key and then the name, as one sequence. -/
def nameRank (item : UInt32 × ResolverName) : List Nat :=
  item.1.toNat :: (item.2.name.take item.2.nlen.toNat).map UInt8.toNat

namespace CString

/-- `nlen` has room for the name, and its buffer for the zero behind it. -/
def Short (name : CString) : Prop := name.bytes.length < 128

instance (name : CString) : Decidable name.Short := Nat.decLt _ _

/-- What is compared of a node with this name. -/
def item (hash : List UInt8 → UInt32) (name : CString) : UInt32 × ResolverName :=
  (hash name.bytes, { name := strncpy name.text 128, nlen := name.bytes.length.toUInt16 })

variable {hash : List UInt8 → UInt32} {name : CString}

theorem takeWhile_bytes (name : CString) (rest : List UInt8) :
    (name.bytes ++ rest).takeWhile (· != 0) = name.bytes ++ rest.takeWhile (· != 0) := by
  refine List.takeWhile_append_of_pos fun a member => ?_
  rw [bne_iff_ne]
  exact ne_of_mem_of_not_mem member name.noZero

theorem strlen_text (name : CString) : strlen name.text = name.bytes.length := by
  rw [strlen, text, takeWhile_bytes]
  simp

theorem strncpy_text (short : name.Short) :
    strncpy name.text 128 =
      name.bytes ++ List.replicate (128 - name.bytes.length) 0 := by
  have whole : name.text.takeWhile (· != 0) = name.bytes := by
    rw [text, takeWhile_bytes]
    simp
  rw [strncpy, whole, List.take_of_length_le (Nat.le_of_lt short)]

theorem strlen_strncpy (short : name.Short) :
    strlen (strncpy name.text 128) = name.bytes.length := by
  rw [strncpy_text short, strlen, takeWhile_bytes]
  obtain ⟨more, same⟩ : ∃ more, 128 - name.bytes.length = more + 1 := by
    have bound : name.bytes.length < 128 := short
    exact ⟨127 - name.bytes.length, by omega⟩
  rw [same]
  simp [List.replicate_succ]

theorem nlen_toNat (short : name.Short) :
    name.bytes.length.toUInt16.toNat = name.bytes.length :=
  UInt16.toNat_ofNat_of_lt' (Nat.lt_trans short (by decide))

theorem item_resolverNode (short : name.Short) :
    (NgxRbtree.resolverNode hash name).item = name.item hash := by
  have buffer : (strncpy name.text 128).take name.bytes.length = name.bytes := by
    rw [strncpy_text short]
    exact List.take_left
  simp only [NgxRbtree.resolverNode, Node.item, strlen_strncpy short, nlen_toNat short, buffer]
  rfl

/-- The hash and then the name. -/
def rank (hash : List UInt8 → UInt32) (name : CString) : List Nat :=
  (hash name.bytes).toNat :: name.bytes.map UInt8.toNat

theorem name_item (short : name.Short) :
    (name.item hash).2.name.take (name.item hash).2.nlen.toNat = name.bytes := by
  rw [item, nlen_toNat short, strncpy_text short, List.take_left]

theorem nameRank_item (short : name.Short) : nameRank (name.item hash) = name.rank hash := by
  rw [nameRank, name_item short]
  rfl

theorem rank_inj {other : CString} : name.rank hash = other.rank hash ↔ name = other := by
  constructor
  · intro same
    have bytes : name.bytes = other.bytes :=
      List.map_injective_iff.mpr (fun _ _ => UInt8.toNat_inj.mp) (List.cons.inj same).2
    cases name
    cases bytes
    rfl
  · rintro rfl
    rfl

theorem rank_lt {other : CString} :
    name.rank hash < other.rank hash ↔ hash name.bytes < hash other.bytes ∨
      hash name.bytes = hash other.bytes ∧
        name.bytes.map UInt8.toNat < other.bytes.map UInt8.toNat := by
  rw [rank, rank, List.cons_lt_cons_iff, UInt32.lt_iff_toNat_lt, UInt32.toNat_inj]

theorem resolverLess_item {other : CString} (short : name.Short) (short' : other.Short) :
    resolverLess (name.item hash) (other.item hash) = true ↔
      name.rank hash < other.rank hash := by
  have compare := (ngxMemn2cmp_spec name.bytes other.bytes
    (List.replicate (128 - name.bytes.length) 0) (List.replicate (128 - other.bytes.length) 0)).1
  rw [← strncpy_text short, ← strncpy_text short'] at compare
  rw [rank_lt, ← compare]
  simp only [resolverLess, item, nlen_toNat short, nlen_toNat short']
  by_cases below : hash name.bytes < hash other.bytes
  · simp [below]
  by_cases above : hash name.bytes > hash other.bytes
  · have distinct : hash name.bytes ≠ hash other.bytes := (UInt32.ne_of_lt above).symm
    simp [below, above, distinct]
  · have same := UInt32.le_antisymm (UInt32.not_lt.mp above) (UInt32.not_lt.mp below)
    simp [same]

end CString

namespace NgxRbtree

variable {hash : List UInt8 → UInt32} {sentinel : Ptr} {s : NgxRbtree ResolverName}
  {name : CString}

/-! ## Looking a name up -/

/-- At a node the loop goes on to the side that the ranks say, or stops there. -/
theorem lookupLoop_node {p : Ptr} {other : CString} (short : other.Short)
    (holds : (s.mem p).item = other.item hash) (real : p ≠ s.sentinel) (valid : p ≠ null)
    (fuel : Nat) :
    lookupLoop s name (hash name.bytes) (fuel + 1) p =
      if name.rank hash < nameRank (s.mem p).item then
        lookupLoop s name (hash name.bytes) fuel (s.mem p).left
      else if nameRank (s.mem p).item < name.rank hash then
        lookupLoop s name (hash name.bytes) fuel (s.mem p).right
      else some p := by
  have key : (s.mem p).key = hash other.bytes := congrArg Prod.fst holds
  have data : (s.mem p).data = (other.item hash).2 := congrArg Prod.snd holds
  obtain ⟨isLess, isEqual⟩ := ngxMemn2cmp_spec name.bytes other.bytes [0]
    (List.replicate (128 - other.bytes.length) 0)
  rw [← CString.strncpy_text short, ← CString.text] at isLess isEqual
  rw [lookupLoop, if_neg real, load_eq valid, holds, CString.nameRank_item short]
  simp only [Option.bind_eq_bind, Option.bind_some, key, data, CString.item,
    CString.nlen_toNat short, CString.strlen_text, CString.rank_lt, isLess, isEqual]
  by_cases below : hash name.bytes < hash other.bytes
  · simp [below]
  by_cases above : hash name.bytes > hash other.bytes
  · have distinct : hash name.bytes ≠ hash other.bytes := (UInt32.ne_of_lt above).symm
    simp [below, above, distinct]
  · have same := UInt32.le_antisymm (UInt32.not_lt.mp above) (UInt32.not_lt.mp below)
    simp only [same, UInt32.lt_irrefl, gt_iff_lt, if_false, false_or, true_and]
    by_cases equal : name.bytes = other.bytes
    · simp [equal]
    · have distinct : name.bytes.map UInt8.toNat ≠ other.bytes.map UInt8.toNat :=
        (List.map_injective_iff.mpr fun _ _ => UInt8.toNat_inj.mp).ne equal
      rcases lt_or_gt_of_ne distinct with before | behind
      · simp [equal, before]
      · simp [equal, behind, behind.not_gt]

/-- Of these nodes one with the rank, or `NULL` if there is none. -/
def Finds (s : NgxRbtree ResolverName) (target : List Nat) (nodes : List Ptr) (result : Ptr) :
    Prop :=
  result ∈ nodes ∧ nameRank (s.mem result).item = target ∨
    result = null ∧ ∀ p ∈ nodes, nameRank (s.mem p).item ≠ target

theorem Finds.mono {target : List Nat} {nodes more : List Ptr} {result : Ptr}
    (finds : Finds s target nodes result) (inside : nodes ⊆ more)
    (other : ∀ p ∈ more, p ∈ nodes ∨ nameRank (s.mem p).item ≠ target) :
    Finds s target more result := by
  rcases finds with ⟨member, same⟩ | ⟨null, absent⟩
  · exact .inl ⟨inside member, same⟩
  · exact .inr ⟨null, fun p member => (other p member).elim (absent p) id⟩

theorem lookupLoop_finds {t : RBTree Ptr} {parent : Option Ptr}
    (rep : Rep s.mem s.sentinel parent t) (real : s.sentinel ∉ t.labels) (valid : null ∉ t.labels)
    (named : ∀ p ∈ t.labels, ∃ other : CString, other.Short ∧ (s.mem p).item = other.item hash)
    (sorted : t.labels.Pairwise fun p q => nameRank (s.mem p).item ≤ nameRank (s.mem q).item)
    {fuel : Nat} (enough : t.labels.length < fuel) :
    ∃ result, lookupLoop s name (hash name.bytes) fuel (ptr s.sentinel t) = some result ∧
      Finds s (name.rank hash) t.labels result := by
  induction t generalizing parent fuel with
  | nil =>
      obtain ⟨fuel, rfl⟩ := Nat.exists_eq_add_one.mpr enough
      exact ⟨null, if_pos rfl, .inr ⟨rfl, fun _ member => nomatch member⟩⟩
  | node color left p right leftIH rightIH =>
      obtain ⟨fuel, rfl⟩ := Nat.exists_eq_add_one.mpr (Nat.zero_lt_of_lt enough)
      simp only [RBTree.labels, List.mem_append, List.mem_cons, not_or, List.length_append,
        List.length_cons, List.pairwise_append, List.pairwise_cons] at real valid named sorted enough
      obtain ⟨leftSorted, ⟨belowRight, rightSorted⟩, aboveLeft⟩ := sorted
      obtain ⟨other, short, holds⟩ := named p (.inr (.inl rfl))
      have step := @lookupLoop_node hash s name p other short holds (Ne.symm real.2.1)
        (Ne.symm valid.2.1) fuel
      have shorter : left.labels.length < fuel ∧ right.labels.length < fuel := by omega
      rw [ptr, step]
      by_cases before : name.rank hash < nameRank (s.mem p).item
      · obtain ⟨result, run, finds⟩ := leftIH rep.2.2.2.2.1 real.1 valid.1
          (fun q member => named q (.inl member)) leftSorted shorter.1
        rw [if_pos before, rep.1]
        refine ⟨result, run, finds.mono (List.subset_append_left ..) fun q member => ?_⟩
        rcases List.mem_append.mp member with inLeft | here
        · exact .inl inLeft
        rcases List.mem_cons.mp here with rfl | inRight
        · exact .inr before.ne'
        · exact .inr (before.trans_le (belowRight q inRight)).ne'
      rw [if_neg before]
      by_cases behind : nameRank (s.mem p).item < name.rank hash
      · obtain ⟨result, run, finds⟩ := rightIH rep.2.2.2.2.2 real.2.2 valid.2.2
          (fun q member => named q (.inr (.inr member))) rightSorted shorter.2
        rw [if_pos behind, rep.2.1]
        refine ⟨result, run, finds.mono ?_ fun q member => ?_⟩
        · exact fun q member => List.mem_append_right _ (List.mem_cons_of_mem _ member)
        rcases List.mem_append.mp member with inLeft | here
        · exact .inr ((aboveLeft q inLeft p (.inl rfl)).trans_lt behind).ne
        rcases List.mem_cons.mp here with rfl | inRight
        · exact .inr behind.ne
        · exact .inl inRight
      · rw [if_neg behind]
        have same : nameRank (s.mem p).item = name.rank hash :=
          le_antisymm (not_lt.mp before) (not_lt.mp behind)
        exact ⟨p, rfl, .inl ⟨List.mem_append_right _ (List.mem_cons_self ..), same⟩⟩

theorem lookupLoop_extends (hash : UInt32) (fuel : Nat) (s : NgxRbtree ResolverName) (node : Ptr) :
    Extends (lookupLoop s name hash fuel node) (lookupLoop s name hash (fuel + 1) node) := by
  induction fuel generalizing node with
  | zero => exact .failed _
  | succ fuel ih =>
      rw [lookupLoop, lookupLoop]
      refine .ite (.refl _) (.bind_right _ fun _ => .ite (ih _) (.ite (ih _) ?_))
      exact .ite (.refl _) (ih _)

/-! ## The tree in use -/

/-- The tree holds these nodes with these names. -/
structure Named (hash : List UInt8 → UInt32) (sentinel : Ptr) (s : NgxRbtree ResolverName)
    (live : List (Ptr × CString)) (t : RBTree Ptr) : Prop where
  shaped : Shaped sentinel s (live.map Prod.fst) t
  sorted : t.labels.Pairwise fun p q => nameRank (s.mem p).item ≤ nameRank (s.mem q).item
  named : ∀ entry ∈ live, entry.2.Short ∧ (s.mem entry.1).item = entry.2.item hash

variable {live : List (Ptr × CString)} {t : RBTree Ptr}

theorem Named.mem_labels (holds : Named hash sentinel s live t) {p : Ptr} :
    p ∈ t.labels ↔ ∃ name, (p, name) ∈ live := by
  rw [holds.shaped.nodes.mem_iff, List.mem_map]
  constructor
  · rintro ⟨⟨p, name⟩, member, rfl⟩
    exact ⟨name, member⟩
  · rintro ⟨name, member⟩
    exact ⟨(p, name), member, rfl⟩

theorem Named.erase_eq (holds : Named hash sentinel s live t) {p : Ptr} :
    (live.map Prod.fst).erase p = (live.filter fun entry => entry.1 != p).map Prod.fst := by
  have distinct := holds.shaped.nodes.nodup_iff.mp holds.shaped.layout.nodup
  rw [distinct.erase_eq_filter, List.filter_map]
  rfl

theorem Named.insert (holds : Named hash sentinel s live t) {p : Ptr} (short : name.Short)
    (valid : p ≠ null) (real : p ≠ sentinel) (absent : p ∉ live.map Prod.fst) :
    ∃ next larger, Returns (insert hash · s p name) next ∧
      Named hash sentinel next ((p, name) :: live) larger := by
  have compares : ∀ q ∈ live.map Prod.fst,
      resolverLess (resolverNode hash name).item (s.mem q).item = true ↔
        nameRank (resolverNode hash name).item < nameRank (s.mem q).item := by
    intro q inside
    obtain ⟨entry, member, rfl⟩ := List.mem_map.mp inside
    obtain ⟨short', item⟩ := holds.named entry member
    rw [CString.item_resolverNode short, item, CString.nameRank_item short,
      CString.nameRank_item short']
    exact CString.resolverLess_item short short'
  obtain ⟨next, larger, front, back, returns, shaped, before, after, new, unchanged, sorted⟩ :=
    insert_placed nameRank resolverLess holds.shaped holds.sorted compares valid real absent
  refine ⟨next, larger, returns, shaped, sorted, fun entry member => ?_⟩
  rcases List.mem_cons.mp member with rfl | old
  · exact ⟨short, new.trans (CString.item_resolverNode short)⟩
  · obtain ⟨short', item⟩ := holds.named entry old
    exact ⟨short', (unchanged _ (holds.mem_labels.mpr ⟨entry.2, old⟩)).trans item⟩

theorem Named.deleteMin (holds : Named hash sentinel s live t) (some : live ≠ [])
    (junk : Node ResolverName) :
    ∃ next smaller p, Returns (deleteMin junk · s) (next, p) ∧ p ∈ live.map Prod.fst ∧
      Named hash sentinel next (live.filter fun entry => entry.1 != p) smaller := by
  obtain ⟨p, rest, labels, least⟩ := holds.shaped.min_first (by simpa using some)
  have inside : p ∈ t.labels := labels ▸ List.mem_cons_self ..
  have member : p ∈ live.map Prod.fst := holds.shaped.nodes.mem_iff.mp inside
  have real : p ≠ sentinel := ne_of_mem_of_not_mem inside holds.shaped.layout.notSentinel
  obtain ⟨next, smaller, front, back, returns, shaped, before, after, unchanged⟩ :=
    delete_removed holds.shaped member
  have other : ∀ q ∈ smaller.labels, q ≠ p ∧ q ∈ t.labels := by
    intro q remains
    rw [after] at remains
    refine ⟨holds.shaped.other before remains, ?_⟩
    rw [before, List.perm_middle.mem_iff]
    exact List.mem_cons_of_mem _ remains
  have absent : p ∉ smaller.labels := fun remains => (other p remains).1 rfl
  have kept : ∀ q, q ≠ p → (Function.update next.mem p junk q).item = (s.mem q).item := by
    intro q different
    rw [Function.update_of_ne different]
    exact unchanged q different
  have nodes := shaped.nodes.trans (.of_eq holds.erase_eq)
  obtain ⟨height, balanced⟩ := shaped.balanced
  refine ⟨{ next with mem := Function.update next.mem p junk }, smaller, p,
    least.bind (returns.bind (.pure _)), member,
    (shaped.layout.forget absent real junk).shaped nodes shaped.color balanced, ?_, ?_⟩
  · have sorted := holds.sorted
    rw [before] at sorted
    rw [after]
    refine (sorted.sublist ((List.sublist_cons_self _ _).append_left _)).imp_of_mem ?_
    intro q q' remains remains' below
    rw [kept q (other q (after ▸ remains)).1, kept q' (other q' (after ▸ remains')).1]
    exact below
  · intro entry remains
    obtain ⟨old, different⟩ := List.mem_filter.mp remains
    rw [kept _ (bne_iff_ne.mp different)]
    exact holds.named entry old

theorem Named.lookup (holds : Named hash sentinel s live t) (name : CString) :
    ∃ result, Returns (ngxResolverLookupName · s name (hash name.bytes)) result ∧
      (result ≠ null → (result, name) ∈ live ∧
        (s.mem result).data.name.take (s.mem result).data.nlen.toNat = name.bytes) ∧
      (result = null → ∀ p, (p, name) ∉ live) := by
  have named : ∀ p ∈ t.labels, ∃ other : CString,
      (p, other) ∈ live ∧ other.Short ∧ (s.mem p).item = other.item hash := by
    intro p inside
    obtain ⟨other, member⟩ := holds.mem_labels.mp inside
    exact ⟨other, member, holds.named _ member⟩
  have layout := holds.shaped.layout
  cases layout.sameSentinel
  obtain ⟨result, run, finds⟩ := @lookupLoop_finds hash s name _ _ layout.focus layout.notSentinel
    layout.notNull (fun p inside => (named p inside).imp fun _ both => both.2) holds.sorted _
    (Nat.lt_succ_self _)
  have found : ngxResolverLookupName (t.labels.length + 1) s name (hash name.bytes) =
      some result := by
    rw [ngxResolverLookupName, layout.root]
    exact run
  refine ⟨result, .of_extends (fun fuel => lookupLoop_extends _ fuel s _) found, ?_⟩
  rcases finds with ⟨inside, same⟩ | ⟨null, absent⟩
  · have different : result ≠ null := ne_of_mem_of_not_mem inside layout.notNull
    obtain ⟨other, member, short, item⟩ := named result inside
    rw [item, CString.nameRank_item short, CString.rank_inj] at same
    cases same
    have stored : (s.mem result).data = (name.item hash).2 := congrArg Prod.snd item
    refine ⟨fun _ => ⟨member, ?_⟩, fun null => absurd null different⟩
    rw [stored, CString.name_item short]
  · refine ⟨fun different => absurd null different, fun _ p member => ?_⟩
    obtain ⟨short, item⟩ := holds.named _ member
    refine absent p (holds.mem_labels.mpr ⟨name, member⟩) ?_
    rw [item, CString.nameRank_item short]

theorem Named.root_eq (holds : Named hash sentinel s live t) : s.root = s.sentinel ↔ live = [] := by
  have layout := holds.shaped.layout
  have nodes := holds.shaped.nodes
  rw [layout.root, layout.sameSentinel]
  cases t with
  | nil =>
      have none : live = [] := List.map_eq_nil_iff.mp (List.nil_perm.mp nodes)
      exact iff_of_true rfl none
  | node color left p right =>
      have inside : p ∈ (RBTree.node color left p right).labels := by simp [RBTree.labels]
      refine iff_of_false (ne_of_mem_of_not_mem inside layout.notSentinel) ?_
      rintro rfl
      exact absurd (nodes.mem_iff.mp inside) List.not_mem_nil

theorem Named.deinit (holds : Named hash sentinel s live t) (junk : Node ResolverName)
    (freed : List Ptr) :
    ∃ last more, Returns (deinit junk · s freed) (last, freed ++ more) ∧
      last.root = last.sentinel ∧ more.Perm (live.map Prod.fst) := by
  induction size : live.length using Nat.strong_induction_on generalizing live s t freed with
  | _ size ih =>
      subst size
      by_cases empty : live = []
      · have atSentinel := holds.root_eq.mpr empty
        subst empty
        refine ⟨s, [], ⟨1, fun fuel enough => ?_⟩, atSentinel, .nil⟩
        obtain ⟨fuel, rfl⟩ := Nat.exists_eq_add_one.mpr enough
        simp [NgxRbtree.deinit, atSentinel]
      · obtain ⟨next, smaller, p, returns, member, kept⟩ := holds.deleteMin empty junk
        have shorter : (live.filter fun entry => entry.1 != p).length < live.length := by
          obtain ⟨entry, old, rfl⟩ := List.mem_map.mp member
          exact List.length_filter_lt_length_iff_exists.mpr ⟨entry, old, by simp⟩
        obtain ⟨last, more, rest, atSentinel, nodes⟩ := ih _ shorter kept (freed ++ [p]) rfl
        refine ⟨last, p :: more, ?_, atSentinel, ?_⟩
        · obtain ⟨enough, first⟩ := returns
          obtain ⟨enough', further⟩ := rest
          refine ⟨max enough enough' + 1, fun fuel larger => ?_⟩
          obtain ⟨fuel, rfl⟩ := Nat.exists_eq_add_one.mpr (Nat.zero_lt_of_lt larger)
          rw [List.append_cons]
          simp [NgxRbtree.deinit, mt holds.root_eq.mp empty, first (fuel + 1) (by omega),
            further fuel (by omega)]
        · rw [← holds.erase_eq] at nodes
          exact (nodes.cons p).trans (List.perm_cons_erase member).symm

/-- What the program does with the tree. -/
inductive NameCall where
  | insert (p : Ptr) (name : CString)
  | deleteMin (junk : Node ResolverName)

/-- `calloc` returns no node in use. -/
def NameCall.Allowed (sentinel : Ptr) (live : List (Ptr × CString)) : NameCall → Prop
  | .insert p name => p ≠ null ∧ p ≠ sentinel ∧ p ∉ live.map Prod.fst ∧ name.Short
  | .deleteMin _ => live ≠ []

/-- The tree of the program, with the nodes inserted and not deleted and their names. -/
def nameUsage (hash : List UInt8 → UInt32) (mem : Ptr → Node ResolverName) (sentinel : Ptr) :
    System (NgxRbtree ResolverName × List (Ptr × CString)) NameCall where
  start state := ngxRbtreeInit mem sentinel = some state.1 ∧ state.2 = []
  step state call next := call.Allowed sentinel state.2 ∧
    match call with
    | .insert p name =>
        Returns (insert hash · state.1 p name) next.1 ∧ next.2 = (p, name) :: state.2
    | .deleteMin junk =>
        ∃ p, Returns (deleteMin junk · state.1) (next.1, p) ∧
          next.2 = state.2.filter fun entry => entry.1 != p

theorem NameCall.named (call : NameCall) (holds : Named hash sentinel s live t)
    (allowed : call.Allowed sentinel live) (mem : Ptr → Node ResolverName) :
    ∃ next larger, (nameUsage hash mem sentinel).step (s, live) call next ∧
      Named hash sentinel next.1 next.2 larger := by
  cases call with
  | insert p name =>
      obtain ⟨valid, real, absent, short⟩ := allowed
      obtain ⟨next, larger, returns, kept⟩ := holds.insert short valid real absent
      exact ⟨(next, _), larger, ⟨⟨valid, real, absent, short⟩, returns, rfl⟩, kept⟩
  | deleteMin junk =>
      obtain ⟨next, smaller, p, returns, -, kept⟩ := holds.deleteMin allowed junk
      exact ⟨(next, _), smaller, ⟨allowed, p, returns, rfl⟩, kept⟩

section NameUsage

variable {mem : Ptr → Node ResolverName} {calls : List NameCall}

theorem nameUsage_step_unique {state next next' : NgxRbtree ResolverName × List (Ptr × CString)}
    {call : NameCall} (taken : (nameUsage hash mem sentinel).step state call next)
    (again : (nameUsage hash mem sentinel).step state call next') : next = next' := by
  obtain ⟨-, taken⟩ := taken
  obtain ⟨-, again⟩ := again
  cases call with
  | insert p name => exact Prod.ext (taken.1.unique again.1) (taken.2.trans again.2.symm)
  | deleteMin junk =>
      obtain ⟨p, returns, left⟩ := taken
      obtain ⟨p', returns', left'⟩ := again
      obtain ⟨same, rfl⟩ := Prod.ext_iff.mp (returns.unique returns')
      exact Prod.ext same (left.trans left'.symm)

theorem nameUsage_named (run : (nameUsage hash mem sentinel).Run calls (s, live)) :
    ∃ t, Named hash sentinel s live t := by
  refine run.invariant (fun state => ∃ t, Named hash sentinel state.1 state.2 t) ?_ ?_
  · rintro ⟨s, live⟩ ⟨initial, rfl⟩
    exact ⟨.nil, init_shaped initial, .nil, fun _ member => nomatch member⟩
  · rintro ⟨s, live⟩ call next ⟨t, holds⟩ taken
    obtain ⟨next', larger, again, kept⟩ := call.named holds taken.1 mem
    rw [nameUsage_step_unique taken again]
    exact ⟨larger, kept⟩

theorem nameUsage_goes_on (run : (nameUsage hash mem sentinel).Run calls (s, live)) (p : Ptr)
    (name : CString) (allowed : (NameCall.insert p name).Allowed sentinel live) :
    ∃ next, (nameUsage hash mem sentinel).Run (calls ++ [.insert p name])
      (next, (p, name) :: live) := by
  obtain ⟨t, holds⟩ := nameUsage_named run
  obtain ⟨⟨next, live'⟩, -, taken, -⟩ := (NameCall.insert p name).named holds allowed mem
  have further := System.Run.step run taken
  rw [show live' = (p, name) :: live from taken.2.2] at further
  exact ⟨next, further⟩

/-- However the tree is used, every call comes back, a name is found just when a node in the
tree has it, and the loop of `deinit` frees each node once. -/
theorem nameUsage_dictionary (run : (nameUsage hash mem sentinel).Run calls (s, live)) :
    (∀ call : NameCall, call.Allowed sentinel live →
        ∃ next, (nameUsage hash mem sentinel).step (s, live) call next) ∧
      (∀ name, ∃ result,
        Returns (ngxResolverLookupName · s name (hash name.bytes)) result ∧
          (result ≠ null → (result, name) ∈ live ∧
            (s.mem result).data.name.take (s.mem result).data.nlen.toNat = name.bytes) ∧
          (result = null → ∀ p, (p, name) ∉ live)) ∧
      ∀ junk, ∃ last freed, Returns (NgxRbtree.deinit junk · s []) (last, freed) ∧
        last.root = last.sentinel ∧ freed.Perm (live.map Prod.fst) ∧ freed.Nodup := by
  obtain ⟨t, holds⟩ := nameUsage_named run
  refine ⟨fun call allowed => ?_, holds.lookup, fun junk => ?_⟩
  · obtain ⟨next, -, taken, -⟩ := call.named holds allowed mem
    exact ⟨next, taken⟩
  · obtain ⟨last, freed, returns, atSentinel, nodes⟩ := holds.deinit junk []
    exact ⟨last, freed, returns, atSentinel, nodes,
      (holds.shaped.nodes.trans nodes.symm).nodup_iff.mp holds.shaped.layout.nodup⟩

end NameUsage

/-- Fresh memory. -/
def blank : Node ResolverName := ⟨0, null, null, null, .black, [], 0⟩

/-- Two names with one hash, the first of them twice, and then the minimum is deleted. -/
theorem nameUsage_dictionary_collision :
    ∃ s live, (nameUsage (fun _ => 7) (fun _ => blank) 1).Run
        [.insert 2 ⟨[97], by decide⟩, .insert 3 ⟨[97], by decide⟩, .insert 4 ⟨[98], by decide⟩,
          .deleteMin blank] (s, live) ∧
      ((∀ call : NameCall, call.Allowed 1 live →
          ∃ next, (nameUsage (fun _ => 7) (fun _ => blank) 1).step (s, live) call next) ∧
        (∀ name, ∃ result, Returns (ngxResolverLookupName · s name 7) result ∧
          (result ≠ null → (result, name) ∈ live ∧
            (s.mem result).data.name.take (s.mem result).data.nlen.toNat = name.bytes) ∧
          (result = null → ∀ p, (p, name) ∉ live)) ∧
        ∀ junk, ∃ last freed, Returns (NgxRbtree.deinit junk · s []) (last, freed) ∧
          last.root = last.sentinel ∧ freed.Perm (live.map Prod.fst) ∧ freed.Nodup) := by
  obtain ⟨start, initial⟩ : ∃ start, ngxRbtreeInit (fun _ => blank) 1 = some start := ⟨_, rfl⟩
  obtain ⟨first, one⟩ := @nameUsage_goes_on (fun _ => 7) 1 _ _ _ _ (.start ⟨initial, rfl⟩) 2
    ⟨[97], by decide⟩ ⟨by decide, by decide, by decide, by decide⟩
  obtain ⟨second, two⟩ := nameUsage_goes_on one 3 ⟨[97], by decide⟩
    ⟨by decide, by decide, by decide, by decide⟩
  obtain ⟨third, three⟩ := nameUsage_goes_on two 4 ⟨[98], by decide⟩
    ⟨by decide, by decide, by decide, by decide⟩
  obtain ⟨t, holds⟩ := nameUsage_named three
  obtain ⟨⟨last, live⟩, -, taken, -⟩ :=
    (NameCall.deleteMin blank).named holds (by simp [NameCall.Allowed]) fun _ => blank
  have run := System.Run.step three taken
  exact ⟨last, live, run, nameUsage_dictionary run⟩

end NgxRbtree

end CLibs.Rbtree
