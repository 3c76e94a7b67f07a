import CLibs.Rbtree.Delete
import CLibs.General.Fuel
import CLibs.General.Runs

/-!
# The tree in use

A program inserts and deletes nodes, in any order and as often as it likes.
-/

set_option autoImplicit false

namespace CLibs.Rbtree

open General

variable {Data : Type}

namespace NgxRbtree

/-! ## The loops need no more than enough fuel -/

theorem descend_extends (less : UInt32 × Data → UInt32 × Data → Bool) (fuel : Nat)
    (s : NgxRbtree Data) (temp node : Ptr) :
    Extends (descend less fuel s temp node) (descend less (fuel + 1) s temp node) := by
  induction fuel generalizing temp with
  | zero => exact .failed _
  | succ fuel ih =>
      rw [descend, descend]
      exact .bind_right _ fun _ => .bind_right _ fun _ => .bind_right _ fun _ =>
        .ite (.refl _) (ih _)

theorem insertFixup_extends (fuel : Nat) (s : NgxRbtree Data) (node : Ptr) :
    Extends (insertFixup fuel s node) (insertFixup (fuel + 1) s node) := by
  induction fuel generalizing s node with
  | zero => exact .failed _
  | succ fuel ih =>
      rw [insertFixup, insertFixup]
      refine .ite (.refl _) (.bind_right _ fun _ => .bind_right _ fun _ => .ite (.refl _) ?_)
      refine .bind_right _ fun _ => .bind_right _ fun _ => .ite ?_ ?_
      · exact .bind_right _ fun _ => ih _ _
      · exact .bind_right _ fun _ => ih _ _

theorem ngxRbtreeMin_extends (fuel : Nat) (s : NgxRbtree Data) (node : Ptr) :
    Extends (ngxRbtreeMin fuel s node) (ngxRbtreeMin (fuel + 1) s node) := by
  induction fuel generalizing node with
  | zero => exact .failed _
  | succ fuel ih =>
      rw [ngxRbtreeMin, ngxRbtreeMin]
      exact .bind_right _ fun _ => .ite (.refl _) (ih _)

theorem deleteFixup_extends (fuel : Nat) (s : NgxRbtree Data) (temp : Ptr) :
    Extends (deleteFixup fuel s temp) (deleteFixup (fuel + 1) s temp) := by
  induction fuel generalizing s temp with
  | zero => exact .failed _
  | succ fuel ih =>
      rw [deleteFixup, deleteFixup]
      refine .ite (.refl _) (.bind_right _ fun _ => .ite (.refl _) ?_)
      refine .bind_right _ fun _ => .bind_right _ fun _ => .ite ?_ ?_
      · exact .bind_right _ fun _ => ih _ _
      · exact .bind_right _ fun _ => ih _ _

theorem ngxRbtreeInsert_extends (less : UInt32 × Data → UInt32 × Data → Bool) (fuel : Nat)
    (s : NgxRbtree Data) (node : Ptr) :
    Extends (ngxRbtreeInsert (insertLeaf less) fuel s node)
      (ngxRbtreeInsert (insertLeaf less) (fuel + 1) s node) := by
  refine .ite (.refl _) (.bind ?_ fun _ => .bind (insertFixup_extends fuel _ _) fun _ => .refl _)
  exact .bind (descend_extends _ fuel s _ _) fun _ => .refl _

theorem ngxRbtreeDelete_extends (fuel : Nat) (s : NgxRbtree Data) (node : Ptr) :
    Extends (ngxRbtreeDelete fuel s node) (ngxRbtreeDelete (fuel + 1) s node) := by
  refine .bind ?_ fun _ => .ite (.refl _) (.bind_right _ fun _ => .bind_right _ fun _ => ?_)
  · refine .bind_right _ fun _ => .bind_right _ fun _ => .ite (.refl _) (.ite (.refl _) ?_)
    exact .bind (ngxRbtreeMin_extends fuel s _) fun _ => .refl _
  · exact .ite (.refl _) (.bind (deleteFixup_extends fuel _ _) fun _ => .refl _)

/-! ## What the tree is -/

/-- The node at the end of a path, unless the path leaves the tree. -/
def walk (s : NgxRbtree Data) : Ptr → List Side → Option Ptr
  | p, [] => if p = s.sentinel then none else some p
  | p, side :: rest => if p = s.sentinel then none else walk s ((s.mem p).child side) rest

/-- These nodes are in the tree, each of them once. -/
def Reached (s : NgxRbtree Data) (live : List Ptr) : Prop :=
  (∀ p, (∃ path, s.walk s.root path = some p) ↔ p ∈ live) ∧
  ∀ p path path', s.walk s.root path = some p → s.walk s.root path' = some p → path = path'

/-- The keys from left to right. -/
def keys (s : NgxRbtree Data) (t : RBTree Ptr) : List UInt32 :=
  t.labels.map fun p => (s.mem p).key

/-- The tree in memory is the red-black tree `t` of the nodes in `live`. -/
structure Holds (sentinel : Ptr) (s : NgxRbtree Data) (live : List Ptr) (t : RBTree Ptr) : Prop where
  layout : Layout sentinel s [] t
  reached : s.Reached live
  nodes : t.labels.Perm live
  sorted : (s.keys t).Pairwise (· ≤ ·)
  rootBlack : (s.mem s.root).color = .black
  sentinelBlack : (s.mem sentinel).color = .black
  balanced : ∃ height, t.Balanced height

/-- `Holds` without the order of the keys. -/
structure Shaped (sentinel : Ptr) (s : NgxRbtree Data) (live : List Ptr) (t : RBTree Ptr) : Prop where
  layout : Layout sentinel s [] t
  reached : s.Reached live
  nodes : t.labels.Perm live
  rootBlack : (s.mem s.root).color = .black
  sentinelBlack : (s.mem sentinel).color = .black
  balanced : ∃ height, t.Balanced height

theorem Shaped.holds {sentinel : Ptr} {s : NgxRbtree Data} {live : List Ptr} {t : RBTree Ptr}
    (shaped : Shaped sentinel s live t) (sorted : (s.keys t).Pairwise (· ≤ ·)) :
    Holds sentinel s live t :=
  { shaped with sorted := sorted }

theorem Holds.shaped {sentinel : Ptr} {s : NgxRbtree Data} {live : List Ptr} {t : RBTree Ptr}
    (holds : Holds sentinel s live t) : Shaped sentinel s live t :=
  { holds with }

section Walk

variable {s : NgxRbtree Data}

theorem walk_nil (path : List Side) : s.walk s.sentinel path = none := by
  cases path with
  | nil => exact if_pos rfl
  | cons side rest => exact if_pos rfl

theorem walk_node {color : Color} {left right : RBTree Ptr} {p : Ptr} {parent : Option Ptr}
    (rep : Rep s.mem s.sentinel parent (.node color left p right)) (real : p ≠ s.sentinel)
    (path : List Side) :
    s.walk p path = match path with
      | [] => some p
      | .left :: rest => s.walk (ptr s.sentinel left) rest
      | .right :: rest => s.walk (ptr s.sentinel right) rest := by
  cases path with
  | nil => exact if_neg real
  | cons side rest =>
      rw [walk, if_neg real]
      cases side with
      | left => exact congrArg (s.walk · rest) rep.1
      | right => exact congrArg (s.walk · rest) rep.2.1

theorem walk_mem {t : RBTree Ptr} {parent : Option Ptr} (rep : Rep s.mem s.sentinel parent t)
    (real : s.sentinel ∉ t.labels) {q : Ptr} {path : List Side}
    (found : s.walk (ptr s.sentinel t) path = some q) : q ∈ t.labels := by
  induction t generalizing parent path with
  | nil =>
      rw [ptr_nil, walk_nil] at found
      cases found
  | node color left p right leftIH rightIH =>
      simp only [RBTree.labels, List.mem_append, List.mem_cons, not_or] at real ⊢
      rw [ptr, walk_node rep (Ne.symm real.2.1)] at found
      cases path with
      | nil => exact .inr (.inl (Option.some.inj found).symm)
      | cons side rest =>
          cases side with
          | left => exact .inl (leftIH rep.2.2.2.2.1 real.1 found)
          | right => exact .inr (.inr (rightIH rep.2.2.2.2.2 real.2.2 found))

theorem exists_walk {t : RBTree Ptr} {parent : Option Ptr} (rep : Rep s.mem s.sentinel parent t)
    (real : s.sentinel ∉ t.labels) {q : Ptr} (member : q ∈ t.labels) :
    ∃ path, s.walk (ptr s.sentinel t) path = some q := by
  induction t generalizing parent with
  | nil => cases member
  | node color left p right leftIH rightIH =>
      simp only [RBTree.labels, List.mem_append, List.mem_cons, not_or] at real member
      have step := walk_node rep (Ne.symm real.2.1)
      rcases member with inLeft | rfl | inRight
      · obtain ⟨path, found⟩ := leftIH rep.2.2.2.2.1 real.1 inLeft
        exact ⟨.left :: path, (step _).trans found⟩
      · exact ⟨[], step _⟩
      · obtain ⟨path, found⟩ := rightIH rep.2.2.2.2.2 real.2.2 inRight
        exact ⟨.right :: path, (step _).trans found⟩

theorem walk_unique {t : RBTree Ptr} {parent : Option Ptr} (rep : Rep s.mem s.sentinel parent t)
    (real : s.sentinel ∉ t.labels) (nodup : t.labels.Nodup) {q : Ptr} {path path' : List Side}
    (found : s.walk (ptr s.sentinel t) path = some q)
    (found' : s.walk (ptr s.sentinel t) path' = some q) : path = path' := by
  induction t generalizing parent path path' with
  | nil =>
      rw [ptr_nil, walk_nil] at found
      cases found
  | node color left p right leftIH rightIH =>
      have apart := (RBTree.perm_labels_join .left color left p right).nodup_iff.mp nodup
      rw [List.nodup_cons, List.mem_append, not_or, List.nodup_append'] at apart
      obtain ⟨⟨notLeft, notRight⟩, leftNodup, rightNodup, disjoint⟩ := apart
      simp only [RBTree.labels, List.mem_append, List.mem_cons, not_or] at real
      have leftRep := rep.2.2.2.2.1
      have rightRep := rep.2.2.2.2.2
      have inLeft : ∀ rest, s.walk (ptr s.sentinel left) rest = some q → q ∈ left.labels :=
        fun _ walked => walk_mem leftRep real.1 walked
      have inRight : ∀ rest, s.walk (ptr s.sentinel right) rest = some q → q ∈ right.labels :=
        fun _ walked => walk_mem rightRep real.2.2 walked
      have step := walk_node rep (Ne.symm real.2.1)
      rw [ptr] at found found'
      have below : ∀ side rest, s.walk p (side :: rest) = some q → p ≠ q := by
        rintro side rest walked rfl
        rw [step] at walked
        cases side with
        | left => exact notLeft (inLeft rest walked)
        | right => exact notRight (inRight rest walked)
      cases path with
      | nil =>
          have here : p = q := Option.some.inj ((step []).symm.trans found)
          cases path' with
          | nil => rfl
          | cons side' rest' => exact absurd here (below side' rest' found')
      | cons side rest =>
          cases path' with
          | nil =>
              have here : p = q := Option.some.inj ((step []).symm.trans found')
              exact absurd here (below side rest found)
          | cons side' rest' =>
              rw [step] at found found'
              cases side with
              | left =>
                  cases side' with
                  | left => rw [leftIH leftRep real.1 leftNodup found found']
                  | right => exact absurd (inRight rest' found') (disjoint (inLeft rest found))
              | right =>
                  cases side' with
                  | left => exact absurd (inRight rest found) (disjoint (inLeft rest' found'))
                  | right => rw [rightIH rightRep real.2.2 rightNodup found found']

theorem Layout.shaped {sentinel : Ptr} {t : RBTree Ptr} {live : List Ptr} {height : Nat}
    (layout : Layout sentinel s [] t) (nodes : t.labels.Perm live) (black : t.color = .black)
    (balanced : t.Balanced height) : Shaped sentinel s live t := by
  cases layout.sameSentinel
  have root : s.root = ptr s.sentinel t := layout.root
  refine ⟨layout, ⟨?_, ?_⟩, nodes, ?_, layout.sentinelBlack, height, balanced⟩
  · intro p
    rw [root, ← nodes.mem_iff]
    constructor
    · rintro ⟨path, found⟩
      exact walk_mem layout.focus layout.notSentinel found
    · exact exists_walk layout.focus layout.notSentinel
  · intro p path path' found found'
    rw [root] at found found'
    exact walk_unique layout.focus layout.notSentinel layout.nodup found found'
  · rw [root, layout.color_ptr, black]

end Walk

/-! ## Calls -/

/-- A call of the program. It fills in the fields of a node before it inserts it. -/
inductive Call (Data : Type) where
  | insert (node : Ptr) (fields : Node Data)
  | delete (node : Ptr)

def Call.run (fuel : Nat) (s : NgxRbtree Data) : Call Data → Option (NgxRbtree Data)
  | .insert node fields =>
      ngxRbtreeInsert ngxRbtreeInsertValue fuel
        { s with mem := Function.update s.mem node fields } node
  | .delete node => ngxRbtreeDelete fuel s node

/-- Only a node that is not in the tree is inserted, and only one in it is deleted. -/
def Call.Allowed (sentinel : Ptr) (live : List Ptr) : Call Data → Prop
  | .insert node _ => node ≠ null ∧ node ≠ sentinel ∧ node ∉ live
  | .delete node => node ∈ live

instance (sentinel : Ptr) (live : List Ptr) (call : Call Data) :
    Decidable (call.Allowed sentinel live) :=
  match call with
  | .insert node _ => inferInstanceAs (Decidable (node ≠ null ∧ node ≠ sentinel ∧ node ∉ live))
  | .delete node => inferInstanceAs (Decidable (node ∈ live))

/-- The nodes that are inserted and not deleted. -/
def Call.live (live : List Ptr) : Call Data → List Ptr
  | .insert node _ => node :: live
  | .delete node => live.erase node

/-- What a call does to the keys in the tree. -/
def Call.Splices (s : NgxRbtree Data) (before after : List UInt32) : Call Data → Prop
  | .insert _ fields => ∃ front back, before = front ++ back ∧ after = front ++ fields.key :: back
  | .delete node =>
      ∃ front back, before = front ++ (s.mem node).key :: back ∧ after = front ++ back

variable {sentinel : Ptr} {s : NgxRbtree Data} {live : List Ptr} {t : RBTree Ptr}

theorem Shaped.color (shaped : Shaped sentinel s live t) : t.color = .black := by
  rw [← shaped.layout.color_ptr]
  exact (congrArg (fun p => (s.mem p).color) shaped.layout.root).symm.trans shaped.rootBlack

theorem pairwise_insert {r : Ptr → Ptr → Prop} {front back : List Ptr} {n : Ptr}
    (sorted : (front ++ back).Pairwise r) (lower : ∀ p ∈ front, r p n) (upper : ∀ q ∈ back, r n q) :
    (front ++ n :: back).Pairwise r := by
  rw [List.pairwise_append] at sorted ⊢
  refine ⟨sorted.1, List.pairwise_cons.mpr ⟨upper, sorted.2.1⟩, ?_⟩
  intro p inFront q inside
  rcases List.mem_cons.mp inside with rfl | inBack
  · exact lower p inFront
  · exact sorted.2.2 p inFront q inBack

theorem splices_insert {next : NgxRbtree Data} {larger : RBTree Ptr} {front back : List Ptr}
    {n : Ptr} {fields : Node Data} (before : t.labels = front ++ back)
    (after : larger.labels = front ++ n :: back)
    (unchanged : ∀ q ∈ t.labels, (next.mem q).key = (s.mem q).key)
    (new : (next.mem n).key = fields.key) :
    (Call.insert n fields).Splices s (s.keys t) (next.keys larger) := by
  have atFront : (front.map fun p => (next.mem p).key) = front.map fun p => (s.mem p).key :=
    List.map_congr_left fun q inFront => unchanged q (before ▸ List.mem_append_left back inFront)
  have atBack : (back.map fun p => (next.mem p).key) = back.map fun p => (s.mem p).key :=
    List.map_congr_left fun q inBack => unchanged q (before ▸ List.mem_append_right front inBack)
  refine ⟨front.map fun p => (s.mem p).key, back.map fun p => (s.mem p).key, ?_, ?_⟩
  · rw [keys, before, List.map_append]
  · rw [keys, after, List.map_append, List.map_cons, atFront, atBack, new]

theorem splices_delete {next : NgxRbtree Data} {smaller : RBTree Ptr} {front back : List Ptr}
    {n : Ptr} (before : t.labels = front ++ n :: back) (after : smaller.labels = front ++ back)
    (unchanged : ∀ q ∈ smaller.labels, (next.mem q).key = (s.mem q).key) :
    (Call.delete n : Call Data).Splices s (s.keys t) (next.keys smaller) := by
  refine ⟨front.map fun p => (s.mem p).key, back.map fun p => (s.mem p).key, ?_, ?_⟩
  · rw [keys, before, List.map_append, List.map_cons]
  · rw [keys, List.map_congr_left unchanged, after, List.map_append]

/-- An insertion with a callback whose comparison is that of a rank of what it compares, on
the nodes at hand. -/
theorem insert_placed {Rank : Type} [LinearOrder Rank] (rank : UInt32 × Data → Rank)
    (less : UInt32 × Data → UInt32 × Data → Bool) (shaped : Shaped sentinel s live t)
    (sorted : t.labels.Pairwise fun p q => rank (s.mem p).item ≤ rank (s.mem q).item) {n : Ptr}
    {fields : Node Data}
    (compares : ∀ q ∈ live,
      less fields.item (s.mem q).item = true ↔ rank fields.item < rank (s.mem q).item)
    (valid : n ≠ null) (real : n ≠ sentinel) (absent : n ∉ live) :
    ∃ next larger front back, Returns (ngxRbtreeInsert (insertLeaf less) ·
        { s with mem := Function.update s.mem n fields } n) next ∧
      Shaped sentinel next (n :: live) larger ∧ t.labels = front ++ back ∧
      larger.labels = front ++ n :: back ∧ (next.mem n).item = fields.item ∧
      (∀ q ∈ t.labels, (next.mem q).item = (s.mem q).item) ∧
      larger.labels.Pairwise fun p q => rank (next.mem p).item ≤ rank (next.mem q).item := by
  obtain ⟨height, balanced⟩ := shaped.balanced
  have outside : n ∉ t.labels := fun inside => absent (shaped.nodes.mem_iff.mp inside)
  have ready := shaped.layout.forget outside real fields
  have kept : ∀ q ∈ t.labels, Function.update s.mem n fields q = s.mem q :=
    fun q inside => Function.update_of_ne (ne_of_mem_of_not_mem inside outside) ..
  have ranked : t.labels.Pairwise fun p q => rank (Function.update s.mem n fields p).item ≤
      rank (Function.update s.mem n fields q).item := by
    refine sorted.imp_of_mem ?_
    intro p q inside inside' below
    rw [kept p inside, kept q inside']
    exact below
  have chooses : ∀ q ∈ t.labels, less (Function.update s.mem n fields n).item
      (Function.update s.mem n fields q).item = true ↔
      rank (Function.update s.mem n fields n).item <
        rank (Function.update s.mem n fields q).item := by
    intro q inside
    rw [Function.update_self, kept q inside]
    exact compares q (shaped.nodes.mem_iff.mp inside)
  obtain ⟨next, larger, high, front, back, run, layout, largerBalanced, black, before, after, lower,
    upper, alike⟩ := insert_layout (fun p => rank (Function.update s.mem n fields p).item) less
      (t.labels.length + 1) ready balanced shaped.color valid real outside chooses ranked
      (Nat.lt_succ_self _)
  have items : ∀ q, (next.mem q).item = (Function.update s.mem n fields q).item := alike.items
  have nodes : larger.labels.Perm (n :: live) := by
    rw [after]
    refine List.perm_middle.trans (List.Perm.cons n ?_)
    rw [← before]
    exact shaped.nodes
  refine ⟨next, larger, front, back,
    .of_extends (fun fuel => ngxRbtreeInsert_extends less fuel _ n) run,
    layout.shaped nodes black largerBalanced, before, after, ?_, fun q inside => ?_, ?_⟩
  · rw [items n, Function.update_self]
  · rw [items q, kept q inside]
  · rw [after]
    simp only [items]
    exact pairwise_insert (before ▸ ranked) lower fun q inBack => (upper q inBack).le

theorem insert_shaped {Rank : Type} [LinearOrder Rank] (rank : UInt32 → Rank)
    (less : UInt32 × Data → UInt32 × Data → Bool) (shaped : Shaped sentinel s live t)
    (sorted : (s.keys t).Pairwise fun before after => rank before ≤ rank after) {n : Ptr}
    {fields : Node Data}
    (compares : ∀ q ∈ live,
      less fields.item (s.mem q).item = true ↔ rank fields.key < rank (s.mem q).key)
    (valid : n ≠ null) (real : n ≠ sentinel) (absent : n ∉ live) :
    ∃ next larger, Returns (ngxRbtreeInsert (insertLeaf less) ·
        { s with mem := Function.update s.mem n fields } n) next ∧
      Shaped sentinel next (n :: live) larger ∧
      ((next.keys larger).Pairwise fun before after => rank before ≤ rank after) ∧
      (Call.insert n fields).Splices s (s.keys t) (next.keys larger) := by
  rw [keys, List.pairwise_map] at sorted
  obtain ⟨next, larger, front, back, returns, larger_shaped, before, after, new, unchanged, ranked⟩ :=
    insert_placed (fun item => rank item.1) less shaped sorted compares valid real absent
  exact ⟨next, larger, returns, larger_shaped, List.pairwise_map.mpr ranked,
    splices_insert before after (fun q inside => congrArg Prod.fst (unchanged q inside))
      (congrArg Prod.fst new)⟩

theorem insert_holds (holds : Holds sentinel s live t) {n : Ptr} {fields : Node Data} (valid : n ≠ null)
    (real : n ≠ sentinel) (absent : n ∉ live) :
    ∃ next larger, Returns (Call.run · s (.insert n fields)) next ∧
      Holds sentinel next (n :: live) larger ∧
      (Call.insert n fields).Splices s (s.keys t) (next.keys larger) := by
  have sorted : (s.keys t).Pairwise fun before after => before.toNat ≤ after.toNat :=
    holds.sorted.imp UInt32.le_iff_toNat_le.mp
  have compares : ∀ q ∈ live, decide (fields.item.1 < (s.mem q).item.1) = true ↔
      fields.key.toNat < (s.mem q).key.toNat := by
    intro q _
    rw [decide_eq_true_eq, UInt32.lt_iff_toNat_lt]
    rfl
  obtain ⟨next, larger, returns, shaped, ranked, splices⟩ := insert_shaped UInt32.toNat
    (fun node temp => node.1 < temp.1) holds.shaped sorted compares valid real absent
  exact ⟨next, larger, returns, shaped.holds (ranked.imp UInt32.le_iff_toNat_le.mpr), splices⟩

theorem delete_removed (shaped : Shaped sentinel s live t) {n : Ptr} (member : n ∈ live) :
    ∃ next smaller front back, Returns (ngxRbtreeDelete · s n) next ∧
      Shaped sentinel next (live.erase n) smaller ∧ t.labels = front ++ n :: back ∧
      smaller.labels = front ++ back ∧ ∀ q, q ≠ n → (next.mem q).item = (s.mem q).item := by
  obtain ⟨height, balanced⟩ := shaped.balanced
  obtain ⟨next, run, smaller, high, front, back, layout, smallerBalanced, black, before, after,
    items⟩ := delete_layout (t.labels.length + 1) shaped.layout balanced shaped.color
      (shaped.nodes.mem_iff.mpr member) (Nat.lt_succ_self _)
  have nodes : smaller.labels.Perm (live.erase n) := by
    have removed : (front ++ n :: back).Perm live := before ▸ shaped.nodes
    rw [after]
    refine List.Perm.trans ?_ (removed.erase n)
    exact ((List.perm_middle.erase n).trans (by rw [List.erase_cons_head])).symm
  exact ⟨next, smaller, front, back,
    .of_extends (fun fuel => ngxRbtreeDelete_extends fuel s n) run,
    layout.shaped nodes black smallerBalanced, before, after, items⟩

theorem Shaped.other (shaped : Shaped sentinel s live t) {n : Ptr} {front back : List Ptr}
    (before : t.labels = front ++ n :: back) {q : Ptr} (inside : q ∈ front ++ back) : q ≠ n := by
  have apart := shaped.layout.nodup
  rw [show Context.plug [] t = t from rfl, before, List.perm_middle.nodup_iff, List.nodup_cons] at apart
  exact ne_of_mem_of_not_mem inside apart.1

theorem delete_shaped (shaped : Shaped sentinel s live t) {n : Ptr} (member : n ∈ live) :
    ∃ next smaller, Returns (ngxRbtreeDelete · s n) next ∧
      Shaped sentinel next (live.erase n) smaller ∧
      (Call.delete n : Call Data).Splices s (s.keys t) (next.keys smaller) := by
  obtain ⟨next, smaller, front, back, returns, smaller_shaped, before, after, items⟩ :=
    delete_removed shaped member
  refine ⟨next, smaller, returns, smaller_shaped, splices_delete before after fun q inside => ?_⟩
  exact congrArg Prod.fst (items q (shaped.other before (after ▸ inside)))

/-- A deletion leaves the order of the other keys, whatever it is. -/
theorem Call.Splices.pairwise {before after : List UInt32} {n : Ptr} {r : UInt32 → UInt32 → Prop}
    (splices : (Call.delete n : Call Data).Splices s before after) (sorted : before.Pairwise r) :
    after.Pairwise r := by
  obtain ⟨front, back, rfl, rfl⟩ := splices
  exact sorted.sublist ((List.sublist_cons_self _ _).append_left _)

theorem delete_holds (holds : Holds sentinel s live t) {n : Ptr} (member : n ∈ live) :
    ∃ next smaller, Returns (Call.run · s (.delete n)) next ∧ Holds sentinel next (live.erase n) smaller ∧
      (Call.delete n).Splices s (s.keys t) (next.keys smaller) := by
  obtain ⟨next, smaller, returns, shaped, splices⟩ := delete_shaped holds.shaped member
  exact ⟨next, smaller, returns, shaped.holds (splices.pairwise holds.sorted), splices⟩

theorem Shaped.min_first (shaped : Shaped sentinel s live t) (some : live ≠ []) :
    ∃ p rest, t.labels = p :: rest ∧ Returns (ngxRbtreeMin · s s.root) p := by
  have filled : t ≠ .nil := by
    rintro rfl
    exact some (List.nil_perm.mp shaped.nodes)
  obtain ⟨inner, color, y, right, found, plugged, leftmost⟩ :=
    ngxRbtreeMin_layout _ shaped.layout filled le_rfl
  have atRoot : ngxRbtreeMin t.labels.length s s.root = .some y := by
    rw [shaped.layout.root]
    exact found
  refine ⟨y, right.labels ++ Context.after inner, ?_,
    .of_extends (fun fuel => ngxRbtreeMin_extends fuel s s.root) atRoot⟩
  rw [plugged, Context.labels_plug, leftmost]
  rfl

theorem init_shaped {mem : Ptr → Node Data} (run : ngxRbtreeInit mem sentinel = some s) :
    Shaped sentinel s [] .nil := by
  have valid : sentinel ≠ null := by
    rintro rfl
    cases run
  rw [ngxRbtreeInit, store_eq valid] at run
  cases run
  refine Layout.shaped ⟨rfl, rfl, trivial, trivial, .nil, (by simp [Context.plug]),
    (by simp [Context.plug]), valid, ?_⟩ .nil rfl .nil
  simp

theorem init_holds {mem : Ptr → Node Data} (run : ngxRbtreeInit mem sentinel = some s) :
    Holds sentinel s [] .nil :=
  (init_shaped run).holds .nil

theorem Call.holds (call : Call Data) (holds : Holds sentinel s live t)
    (allowed : call.Allowed sentinel live) :
    ∃ next t', Returns (Call.run · s call) next ∧ Holds sentinel next (call.live live) t' ∧
      call.Splices s (s.keys t) (next.keys t') := by
  cases call with
  | insert node fields => exact insert_holds holds allowed.1 allowed.2.1 allowed.2.2
  | delete node => exact delete_holds holds allowed

/-- A program with a tree, and the nodes that it has inserted and not deleted. -/
def usage (mem : Ptr → Node Data) (sentinel : Ptr) :
    System (NgxRbtree Data × List Ptr) (Call Data) where
  start state := ngxRbtreeInit mem sentinel = some state.1 ∧ state.2 = []
  step state call next := call.Allowed sentinel state.2 ∧ Returns (Call.run · state.1 call) next.1 ∧
    next.2 = call.live state.2

section Usage

variable {mem : Ptr → Node Data} {calls : List (Call Data)}

theorem usage_holds (run : (usage mem sentinel).Run calls (s, live)) :
    ∃ t, Holds sentinel s live t := by
  refine run.invariant (fun state => ∃ t, Holds sentinel state.1 state.2 t) ?_ ?_
  · rintro ⟨s, live⟩ ⟨initial, rfl⟩
    exact ⟨.nil, init_holds initial⟩
  · rintro ⟨s, live⟩ call ⟨next, live'⟩ ⟨t, holds⟩ ⟨allowed, returns, rfl⟩
    obtain ⟨next', t', returns', holds', -⟩ := call.holds holds allowed
    cases returns.unique returns'
    exact ⟨t', holds'⟩

theorem usage_goes_on (run : (usage mem sentinel).Run calls (s, live)) (call : Call Data)
    (allowed : call.Allowed sentinel live) :
    ∃ next, (usage mem sentinel).Run (calls ++ [call]) (next, call.live live) := by
  obtain ⟨t, holds⟩ := usage_holds run
  obtain ⟨next, -, returns, -⟩ := call.holds holds allowed
  exact ⟨next, .step run ⟨allowed, returns, rfl⟩⟩

/-- However the tree is used, it is a red-black tree of the nodes that are in it, and
every call comes back and keeps it one. -/
theorem usage_keeps_tree (run : (usage mem sentinel).Run calls (s, live)) :
    ∃ t, Holds sentinel s live t ∧ ∀ call : Call Data, call.Allowed sentinel live →
      ∃ next t', Returns (Call.run · s call) next ∧ Holds sentinel next (call.live live) t' ∧
        call.Splices s (s.keys t) (next.keys t') := by
  obtain ⟨t, holds⟩ := usage_holds run
  exact ⟨t, holds, fun call allowed => call.holds holds allowed⟩

end Usage

/-- A node as a program may fill it in. -/
def filled (key : UInt32) : Node Unit := ⟨key, null, null, null, .red, ()⟩

theorem usage_keeps_tree_threeCalls :
    ∃ s, (usage (fun _ => filled 0) 1).Run [.insert 2 (filled 5), .insert 3 (filled 4), .delete 2]
        (s, [3]) ∧ ∃ t, Holds 1 s [3] t ∧ ∀ call : Call Unit, call.Allowed 1 [3] →
      ∃ next t', Returns (Call.run · s call) next ∧ Holds 1 next (call.live [3]) t' ∧
        call.Splices s (s.keys t) (next.keys t') := by
  obtain ⟨start, initial⟩ : ∃ start, ngxRbtreeInit (fun _ => filled 0) 1 = some start := ⟨_, rfl⟩
  obtain ⟨first, one⟩ := usage_goes_on (.start ⟨initial, rfl⟩) (.insert 2 (filled 5)) (by decide)
  obtain ⟨second, two⟩ := usage_goes_on one (.insert 3 (filled 4)) (by decide)
  obtain ⟨third, three⟩ := usage_goes_on two (.delete 2) (by decide)
  exact ⟨third, three, usage_keeps_tree three⟩

end NgxRbtree

end CLibs.Rbtree
