import CLibs.General.Fuel
import CLibs.SList.ListHead

/-!
# Kernel lists as sequences

What each function does to the lists of a heap, whatever else the heap holds, and the loop
that deletes while it goes on.
-/

set_option autoImplicit false
set_option linter.style.nameCheck false

namespace CLibs.SList

open General

variable {m : Heap} {h g t e n p : Ptr} {xs ys zs front back : List Ptr}
variable {rest : List (Ptr × List Ptr)}

/-- `ys` put in right after the node `t` of the list of `h`. -/
def insertAfter (h t : Ptr) (ys xs : List Ptr) : List Ptr :=
  if t = h then ys ++ xs else xs.flatMap fun x => if x = t then x :: ys else [x]

/-- `ys` put in right before the node `t` of the list of `h`. -/
def insertBefore (h t : Ptr) (ys xs : List Ptr) : List Ptr :=
  if t = h then xs ++ ys else xs.flatMap fun x => if x = t then ys ++ [x] else [x]

private theorem flatMap_apart (f : Ptr → List Ptr) (apart : t ∉ xs) :
    (xs.flatMap fun x => if x = t then f x else [x]) = xs := by
  induction xs with
  | nil => rfl
  | cons x xs ih =>
    rw [List.mem_cons, not_or] at apart
    rw [List.flatMap_cons, if_neg (Ne.symm apart.1), ih apart.2, List.singleton_append]

theorem insertAfter_split (distinct : (h :: xs).Nodup) (member : t ∈ h :: xs) (ys : List Ptr) :
    ∃ front back, xs = front ++ back ∧ t = front.getLastD h ∧
      insertAfter h t ys xs = front ++ (ys ++ back) := by
  by_cases head : t = h
  · exact ⟨[], xs, rfl, head, if_pos head⟩
  obtain ⟨front, back, rfl⟩ := List.append_of_mem ((List.mem_cons.mp member).resolve_left head)
  refine ⟨front ++ [t], back, by simp, by rw [List.getLastD_concat], ?_⟩
  have alone := (List.nodup_cons.mp distinct).2
  rw [List.nodup_middle, List.nodup_cons, List.mem_append, not_or] at alone
  rw [insertAfter, if_neg head, List.flatMap_append, List.flatMap_cons, if_pos rfl,
    flatMap_apart _ alone.1.1, flatMap_apart _ alone.1.2]
  simp

theorem insertBefore_split (distinct : (h :: xs).Nodup) (member : t ∈ h :: xs) (ys : List Ptr) :
    ∃ front back, xs = front ++ back ∧ t = back.headD h ∧
      insertBefore h t ys xs = front ++ (ys ++ back) := by
  by_cases head : t = h
  · exact ⟨xs, [], by simp, head, (if_pos head).trans (by simp)⟩
  obtain ⟨front, back, rfl⟩ := List.append_of_mem ((List.mem_cons.mp member).resolve_left head)
  refine ⟨front, t :: back, rfl, rfl, ?_⟩
  have alone := (List.nodup_cons.mp distinct).2
  rw [List.nodup_middle, List.nodup_cons, List.mem_append, not_or] at alone
  rw [insertBefore, if_neg head, List.flatMap_append, List.flatMap_cons, if_pos rfl,
    flatMap_apart _ alone.1.1, flatMap_apart _ alone.1.2]
  simp

/-- `m'` has these lists, and differs from `m` in the nodes `touched` at most. -/
structure Reaches (m m' : Heap) (touched : List Ptr) (lists : List (Ptr × List Ptr)) : Prop where
  rings : Rings m' lists
  frame : ∀ p ∉ touched, m.Untouched m' p

namespace Reaches

variable {m' m'' : Heap} {touched touched' : List Ptr} {lists lists' : List (Ptr × List Ptr)}

theorem perm (reaches : Reaches m m' touched lists) (same : lists.Perm lists') :
    Reaches m m' touched lists' :=
  ⟨reaches.rings.perm same, reaches.frame⟩

theorem trans (first : Reaches m m' touched lists) (second : Reaches m' m'' touched' lists')
    (subset : touched' ⊆ touched) : Reaches m m'' touched lists' :=
  ⟨second.rings, fun p outside =>
    (first.frame p outside).trans (second.frame p fun inside => outside (subset inside))⟩

theorem mono (reaches : Reaches m m' touched' lists) (subset : touched' ⊆ touched) :
    Reaches m m' touched lists :=
  ⟨reaches.rings, fun p outside => reaches.frame p fun inside => outside (subset inside)⟩

theorem init (reaches : Reaches m m' touched lists) (inside : e ∈ touched)
    (free : e ∉ ringNodes lists) :
    Reaches m (initListHead m' e) touched ((e, []) :: lists) where
  rings := by
    have same : initListHead m' e = m'.link e e := rfl
    rw [same]
    refine .cons (Ring.singleton m' e) (reaches.rings.link_frame free free) fun p alone => ?_
    exact List.mem_singleton.mp alone ▸ free
  frame p outside := by
    have other : p ≠ e := (ne_of_mem_of_not_mem inside outside).symm
    exact (reaches.frame p outside).trans (m'.untouched_link other other)

end Reaches

theorem __listDel_eq (m : Heap) (prev next : Ptr) :
    __listDel m prev next = m.link prev next := rfl

theorem getLastD_mem (front back : List Ptr) (h : Ptr) :
    front.getLastD h ∈ h :: (front ++ back) := by
  have member := @List.getLastD_mem_cons _ front h
  simp only [List.mem_cons, List.mem_append] at member ⊢
  tauto

theorem headD_mem (front back : List Ptr) (h : Ptr) : back.headD h ∈ h :: (front ++ back) := by
  have member := headD_mem_cons back h
  simp only [List.mem_cons, List.mem_append] at member ⊢
  tauto

theorem __listAdd_reaches (rings : Rings m ((h, front ++ back) :: rest))
    (fresh : n ∉ ringNodes ((h, front ++ back) :: rest)) :
    Reaches m (__listAdd m n (front.getLastD h) (back.headD h)) (n :: h :: (front ++ back))
      ((h, front ++ n :: back) :: rest) where
  rings := by
    refine rings.splice (.singleton n) (List.nodup_singleton n) (fun p member => ?_) rfl rfl
    exact List.mem_singleton.mp member ▸ fresh
  frame p outside := by
    rw [List.mem_cons, not_or] at outside
    have source := (ne_of_mem_of_not_mem (getLastD_mem front back h) outside.2).symm
    have target := (ne_of_mem_of_not_mem (headD_mem front back h) outside.2).symm
    exact (m.untouched_link outside.1 target).trans (Links.untouched_link _ source outside.1)

theorem listAdd_reaches (rings : Rings m ((h, xs) :: rest))
    (fresh : n ∉ ringNodes ((h, xs) :: rest)) (member : t ∈ h :: xs) :
    Reaches m (listAdd m n t) (n :: h :: xs) ((h, insertAfter h t [n] xs) :: rest) := by
  obtain ⟨front, back, rfl, rfl, same⟩ := insertAfter_split rings.head.distinct member [n]
  rw [same, listAdd, rings.head.next_at]
  exact __listAdd_reaches rings fresh

theorem listAddTail_reaches (rings : Rings m ((h, xs) :: rest))
    (fresh : n ∉ ringNodes ((h, xs) :: rest)) (member : t ∈ h :: xs) :
    Reaches m (listAddTail m n t) (n :: h :: xs) ((h, insertBefore h t [n] xs) :: rest) := by
  obtain ⟨front, back, rfl, rfl, same⟩ := insertBefore_split rings.head.distinct member [n]
  rw [same, listAddTail, rings.head.prev_at]
  exact __listAdd_reaches rings fresh

theorem erase_middle (distinct : (h :: xs).Nodup) (member : e ∈ xs) :
    ∃ front back, xs = front ++ ([e] ++ back) ∧ xs.erase e = front ++ back := by
  obtain ⟨front, back, rfl⟩ := List.append_of_mem member
  have alone := (List.nodup_cons.mp distinct).2
  rw [List.nodup_middle, List.nodup_cons, List.mem_append, not_or] at alone
  exact ⟨front, back, rfl, by rw [List.erase_append_right _ alone.1.1, List.erase_cons_head]⟩

theorem __listDel_reaches (rings : Rings m ((h, xs) :: rest)) (member : e ∈ xs) :
    Reaches m (__listDel m (m.prev e) (m.next e)) (h :: xs) ((h, xs.erase e) :: rest) := by
  obtain ⟨front, back, rfl, same⟩ := erase_middle rings.head.distinct member
  have prev : m.prev e = front.getLastD h := rings.head.prev_member
  have next : m.next e = back.headD h := rings.head.next_member
  rw [same, prev, next, __listDel_eq]
  refine ⟨rings.excise.1, fun p outside => m.untouched_link ?_ ?_⟩
  · exact (ne_of_mem_of_not_mem (getLastD_mem front ([e] ++ back) h) outside).symm
  · have inside := headD_mem (front ++ [e]) back h
    rw [List.append_assoc] at inside
    exact (ne_of_mem_of_not_mem inside outside).symm

theorem taken_free (rings : Rings m ((h, xs) :: rest)) (member : e ∈ xs) :
    e ∉ ringNodes ((h, xs.erase e) :: rest) := by
  have distinct := rings.head.distinct
  have outside := rings.apart e (List.mem_cons_of_mem h member)
  rw [List.nodup_cons] at distinct
  rw [ringNodes_cons, List.mem_cons, List.mem_append, not_or, not_or]
  exact ⟨ne_of_mem_of_not_mem member distinct.1, distinct.2.not_mem_erase, outside⟩

theorem Reaches.write {m' m'' : Heap} {touched : List Ptr} {lists : List (Ptr × List Ptr)}
    (reaches : Reaches m m' touched lists) (inside : e ∈ touched) (free : e ∉ ringNodes lists)
    (only : ∀ p ≠ e, m'.Untouched m'' p) : Reaches m m'' touched lists where
  rings := reaches.rings.frame fun p member => only p (ne_of_mem_of_not_mem member free)
  frame p outside :=
    (reaches.frame p outside).trans (only p (ne_of_mem_of_not_mem inside outside).symm)

theorem listDel_reaches (rings : Rings m ((h, xs) :: rest)) (member : e ∈ xs) :
    Reaches m (listDel m e) (h :: xs) ((h, xs.erase e) :: rest) := by
  refine (__listDel_reaches rings member).write (List.mem_cons_of_mem h member)
    (taken_free rings member) fun p other => ?_
  exact ⟨Function.update_of_ne other .., Function.update_of_ne other ..⟩

theorem listDelInit_reaches (rings : Rings m ((h, xs) :: rest)) (member : e ∈ xs) :
    Reaches m (listDelInit m e) (h :: xs) ((e, []) :: (h, xs.erase e) :: rest) :=
  (__listDel_reaches rings member).init (List.mem_cons_of_mem h member) (taken_free rings member)

theorem mem_erase_ring (target : t ∈ h :: xs) (other : t ≠ e) : t ∈ h :: xs.erase e := by
  rw [List.mem_cons] at target ⊢
  exact target.imp_right (List.mem_erase_of_ne other).mpr

theorem erase_ring_subset (member : e ∈ xs) : e :: h :: xs.erase e ⊆ h :: xs :=
  List.cons_subset.mpr
    ⟨List.mem_cons_of_mem h member, List.cons_subset_cons h List.erase_subset⟩

theorem listMove_reaches (rings : Rings m ((h, xs) :: rest)) (member : e ∈ xs)
    (target : t ∈ h :: xs) (other : t ≠ e) :
    Reaches m (listMove m e t) (h :: xs) ((h, insertAfter h t [e] (xs.erase e)) :: rest) := by
  have taken := __listDel_reaches rings member
  exact taken.trans (listAdd_reaches taken.rings (taken_free rings member)
    (mem_erase_ring target other)) (erase_ring_subset member)

theorem listMoveTail_reaches (rings : Rings m ((h, xs) :: rest)) (member : e ∈ xs)
    (target : t ∈ h :: xs) (other : t ≠ e) :
    Reaches m (listMoveTail m e t) (h :: xs)
      ((h, insertBefore h t [e] (xs.erase e)) :: rest) := by
  have taken := __listDel_reaches rings member
  exact taken.trans (listAddTail_reaches taken.rings (taken_free rings member)
    (mem_erase_ring target other)) (erase_ring_subset member)

theorem taken_across (rings : Rings m ((h, xs) :: (g, ys) :: rest)) (member : e ∈ xs) :
    Reaches m (__listDel m (m.prev e) (m.next e)) (h :: xs ++ g :: ys)
        ((g, ys) :: (h, xs.erase e) :: rest) ∧
      e ∉ ringNodes ((g, ys) :: (h, xs.erase e) :: rest) ∧
      e :: g :: ys ⊆ h :: xs ++ g :: ys := by
  have swap := List.Perm.swap (g, ys) (h, xs.erase e) rest
  refine ⟨((__listDel_reaches rings member).mono (by simp)).perm swap, ?_, by simp [member]⟩
  rw [← (ringNodes_perm swap).mem_iff]
  exact taken_free rings member

theorem listMoveAcross_reaches (rings : Rings m ((h, xs) :: (g, ys) :: rest)) (member : e ∈ xs)
    (target : t ∈ g :: ys) :
    Reaches m (listMove m e t) (h :: xs ++ g :: ys)
      ((g, insertAfter g t [e] ys) :: (h, xs.erase e) :: rest) := by
  obtain ⟨taken, free, subset⟩ := taken_across rings member
  exact taken.trans (listAdd_reaches taken.rings free target) subset

theorem listMoveTailAcross_reaches (rings : Rings m ((h, xs) :: (g, ys) :: rest)) (member : e ∈ xs)
    (target : t ∈ g :: ys) :
    Reaches m (listMoveTail m e t) (h :: xs ++ g :: ys)
      ((g, insertBefore g t [e] ys) :: (h, xs.erase e) :: rest) := by
  obtain ⟨taken, free, subset⟩ := taken_across rings member
  exact taken.trans (listAddTail_reaches taken.rings free target) subset

theorem listReplace_empty (next : m.next h = h) :
    listReplace m h n = ((m.setNext n h).setPrev h n).link n n := by
  ext p
  · simp only [listReplace, Links.link, Links.setPrev_prev, Links.setPrev_next,
      Links.setNext_next, Links.setNext_prev, Function.update_self, next]
  · simp only [listReplace, Links.link, Links.setPrev_prev, Links.setNext_next,
      Links.setNext_prev, Function.update_self, next]

theorem listReplace_eq (other : h ≠ m.next h) :
    listReplace m h n = (m.link n (m.next h)).link (m.prev h) n := by
  simp only [listReplace, Links.link, Links.setPrev_prev, Links.setNext_next,
    Links.setNext_prev, Function.update_self, Function.update_of_ne other]
  rfl

theorem listReplace_reaches (rings : Rings m ((h, xs) :: rest))
    (fresh : n ∉ ringNodes ((h, xs) :: rest)) :
    Reaches m (listReplace m h n) (n :: h :: xs) ((n, xs) :: rest) := by
  have next : m.next h = xs.headD h := rings.head.next_head
  have prev : m.prev h = xs.getLastD h := rings.head.prev_head
  rw [ringNodes_cons, List.mem_cons, List.mem_append, not_or, not_or] at fresh
  have apart : ∀ p ∈ n :: h :: xs, p ∉ ringNodes rest :=
    List.forall_mem_cons.mpr ⟨fresh.2.2, rings.apart⟩
  have subset : n :: xs ⊆ n :: h :: xs := List.cons_subset_cons n (List.subset_cons_self h xs)
  suffices shape : Ring (listReplace m h n) n xs ∧
      ∀ p ∉ n :: h :: xs, m.Untouched (listReplace m h n) p by
    refine ⟨.cons shape.1 (rings.tail.frame fun p member => shape.2 p fun inside => ?_)
      fun p member => apart p (subset member), shape.2⟩
    exact apart p inside member
  cases xs with
  | nil =>
    rw [listReplace_empty next]
    refine ⟨Ring.singleton _ n, fun p outside => ?_⟩
    rw [List.mem_cons, List.mem_singleton, not_or] at outside
    refine .trans ⟨?_, ?_⟩ (Links.untouched_link _ outside.1 outside.1)
    · exact Function.update_of_ne outside.1 ..
    · exact Function.update_of_ne outside.2 ..
  | cons first behind =>
    have distinct := List.nodup_cons.mp rings.head.distinct
    rw [List.headD_cons] at next
    obtain ⟨last, ends⟩ : ∃ last, (first :: behind).getLast? = some last :=
      ⟨_, List.getLast?_eq_some_getLast (List.cons_ne_nil first behind)⟩
    rw [List.getLastD_eq_getLast?, ends, Option.getD_some] at prev
    have inside : last ∈ first :: behind := List.mem_of_getLast? ends
    have here : first ∈ first :: behind := List.mem_cons_self
    rw [listReplace_eq (next ▸ (ne_of_mem_of_not_mem here distinct.1).symm), next, prev]
    refine ⟨?_, fun p outside => ?_⟩
    · rw [Links.link_comm m (ne_of_mem_of_not_mem inside fresh.2.1).symm
        (ne_of_mem_of_not_mem here fresh.2.1)]
      exact Ring.of_chained rings.head.chained (List.nodup_cons.mpr ⟨fresh.2.1, distinct.2⟩) rfl ends
    · have other : ∀ a ∈ n :: first :: behind, p ≠ a := fun a member =>
        (ne_of_mem_of_not_mem (subset member) outside).symm
      have new := other n List.mem_cons_self
      exact (m.untouched_link new (other first (by simp))).trans
        (Links.untouched_link _ (other last (List.mem_cons_of_mem n inside)) new)

theorem listReplaceInit_reaches (rings : Rings m ((h, xs) :: rest))
    (fresh : n ∉ ringNodes ((h, xs) :: rest)) :
    Reaches m (listReplaceInit m h n) (n :: h :: xs) ((h, []) :: (n, xs) :: rest) := by
  refine (listReplace_reaches rings fresh).init (by simp) ?_
  have own := List.nodup_cons.mp rings.head.distinct
  have outside := rings.apart h List.mem_cons_self
  rw [ringNodes_cons, List.mem_cons, not_or] at fresh
  rw [ringNodes_cons, List.mem_cons, List.mem_append, not_or, not_or]
  exact ⟨Ne.symm fresh.1, own.1, outside⟩

theorem listReplaceInit_member (rings : Rings m ((h, xs) :: rest))
    (fresh : n ∉ ringNodes ((h, xs) :: rest)) (member : e ∈ xs) :
    Reaches m (listReplaceInit m e n) (n :: h :: xs)
      ((h, xs.map fun x => if x = e then n else x) :: (e, []) :: rest) := by
  obtain ⟨front, back, rfl⟩ := List.append_of_mem member
  have alone := (List.nodup_cons.mp rings.head.distinct).2
  rw [List.nodup_middle, List.nodup_cons, List.mem_append, not_or] at alone
  have kept : ∀ zs : List Ptr, e ∉ zs → (zs.map fun x => if x = e then n else x) = zs := by
    intro zs outside
    rw [List.map_congr_left fun x inside => if_neg (ne_of_mem_of_not_mem inside outside)]
    exact List.map_id zs
  have same : (h :: (front ++ e :: back)).Perm (e :: (back ++ h :: front)) := by
    rw [← List.cons_append, ← List.cons_append]
    exact List.perm_append_comm
  have fresh' : n ∉ ringNodes ((e, back ++ h :: front) :: rest) := by
    rwa [ringNodes_cons, ← List.cons_append,
      ← (same.append_right (ringNodes rest)).mem_iff]
  have replaced := listReplaceInit_reaches rings.rotate fresh'
  rw [List.map_append, List.map_cons, if_pos rfl, kept _ alone.1.1, kept _ alone.1.2]
  refine ⟨(replaced.rings.perm (.swap _ _ rest)).rotate, fun p outside => replaced.frame p ?_⟩
  rwa [List.mem_cons, ← same.mem_iff, ← List.mem_cons]

theorem __listSplice_eq (m : Heap) (list prev next : Ptr) :
    __listSplice m list prev next = (m.link prev (m.next list)).link (m.prev list) next := rfl

theorem __listSplice_reaches (rings : Rings m ((n, ys) :: (h, front ++ back) :: rest))
    (some_node : ys ≠ []) :
    Reaches m (__listSplice m n (front.getLastD h) (back.headD h))
      (n :: ys ++ h :: (front ++ back))
      ((h, front ++ (ys ++ back)) :: rest) := by
  obtain ⟨first, begins⟩ : ∃ first, ys.head? = some first :=
    ⟨_, List.head?_eq_some_head some_node⟩
  obtain ⟨last, ends⟩ : ∃ last, ys.getLast? = some last :=
    ⟨_, List.getLast?_eq_some_getLast some_node⟩
  have next : m.next n = first := by
    rw [rings.head.next_head, List.headD_eq_head?_getD, begins, Option.getD_some]
  have prev : m.prev n = last := by
    rw [rings.head.prev_head, List.getLastD_eq_getLast?, ends, Option.getD_some]
  have inside : last ∈ ys := List.mem_of_getLast? ends
  have here : first ∈ ys := List.mem_of_head? begins
  have source := getLastD_mem front back h
  have target := headD_mem front back h
  have apart : ∀ a ∈ ys, a ∉ h :: (front ++ back) := fun a member other =>
    rings.apart a (List.mem_cons_of_mem n member) (List.mem_append_left (ringNodes rest) other)
  rw [__listSplice_eq, next, prev]
  refine ⟨?_, fun p outside => ?_⟩
  · rw [Links.link_comm m (ne_of_mem_of_not_mem source (apart last inside))
      (ne_of_mem_of_not_mem target (apart first here)).symm]
    exact rings.tail.splice rings.head.chained (List.nodup_cons.mp rings.head.distinct).2
      (fun p member => rings.apart p (List.mem_cons_of_mem n member)) begins ends
  · rw [List.mem_append, List.mem_cons, not_or, not_or] at outside
    have own := fun a member => (ne_of_mem_of_not_mem (a := a) member outside.1.2).symm
    have others := fun a member => (ne_of_mem_of_not_mem (a := a) member outside.2).symm
    exact (m.untouched_link (others _ source) (own _ here)).trans
      (Links.untouched_link _ (own _ inside) (others _ target))

theorem listEmpty_iff (ring : Ring m h xs) : listEmpty m h = true ↔ xs = [] := by
  rw [listEmpty, beq_iff_eq, ring.next_head_eq_iff]

/-- `list_splice` and `list_splice_tail` put the list of `n` between two neighbours. -/
theorem splice_if_reaches (rings : Rings m ((n, ys) :: (h, front ++ back) :: rest)) :
    Reaches m (if !listEmpty m n then
        __listSplice m n (front.getLastD h) (back.headD h) else m)
      (n :: ys ++ h :: (front ++ back)) ((h, front ++ (ys ++ back)) :: rest) := by
  have empty := listEmpty_iff rings.head
  by_cases none : ys = []
  · rw [empty.mpr none]
    subst none
    exact ⟨rings.tail, fun p _ => ⟨rfl, rfl⟩⟩
  · rw [Bool.eq_false_iff.mpr fun found => none (empty.mp found)]
    exact __listSplice_reaches rings none

theorem splice_init_if_reaches (rings : Rings m ((n, ys) :: (h, front ++ back) :: rest)) :
    Reaches m (if !listEmpty m n then
        initListHead (__listSplice m n (front.getLastD h) (back.headD h)) n else m)
      (n :: ys ++ h :: (front ++ back)) ((n, []) :: (h, front ++ (ys ++ back)) :: rest) := by
  have empty := listEmpty_iff rings.head
  by_cases none : ys = []
  · rw [empty.mpr none]
    subst none
    exact ⟨rings, fun p _ => ⟨rfl, rfl⟩⟩
  · rw [Bool.eq_false_iff.mpr fun found => none (empty.mp found)]
    refine (__listSplice_reaches rings none).init (by simp) ?_
    have outside := rings.apart n List.mem_cons_self
    have own := (List.nodup_cons.mp rings.head.distinct).1
    rw [(ringNodes_middle h front ys back rest).mem_iff, List.mem_append, not_or]
    exact ⟨own, outside⟩

theorem listSplice_reaches (rings : Rings m ((n, ys) :: (h, xs) :: rest)) (target : t ∈ h :: xs) :
    Reaches m (listSplice m n t) (n :: ys ++ h :: xs) ((h, insertAfter h t ys xs) :: rest) := by
  obtain ⟨front, back, rfl, rfl, same⟩ := insertAfter_split rings.tail.head.distinct target ys
  rw [same, listSplice, rings.tail.head.next_at]
  exact splice_if_reaches rings

theorem listSpliceTail_reaches (rings : Rings m ((n, ys) :: (h, xs) :: rest))
    (target : t ∈ h :: xs) :
    Reaches m (listSpliceTail m n t) (n :: ys ++ h :: xs)
      ((h, insertBefore h t ys xs) :: rest) := by
  obtain ⟨front, back, rfl, rfl, same⟩ := insertBefore_split rings.tail.head.distinct target ys
  rw [same, listSpliceTail, rings.tail.head.prev_at]
  exact splice_if_reaches rings

theorem listSpliceInit_reaches (rings : Rings m ((n, ys) :: (h, xs) :: rest))
    (target : t ∈ h :: xs) :
    Reaches m (listSpliceInit m n t) (n :: ys ++ h :: xs)
      ((n, []) :: (h, insertAfter h t ys xs) :: rest) := by
  obtain ⟨front, back, rfl, rfl, same⟩ := insertAfter_split rings.tail.head.distinct target ys
  rw [same, listSpliceInit, rings.tail.head.next_at]
  exact splice_init_if_reaches rings

theorem listSpliceTailInit_reaches (rings : Rings m ((n, ys) :: (h, xs) :: rest))
    (target : t ∈ h :: xs) :
    Reaches m (listSpliceTailInit m n t) (n :: ys ++ h :: xs)
      ((n, []) :: (h, insertBefore h t ys xs) :: rest) := by
  obtain ⟨front, back, rfl, rfl, same⟩ := insertBefore_split rings.tail.head.distinct target ys
  rw [same, listSpliceTailInit, rings.tail.head.prev_at]
  exact splice_init_if_reaches rings

theorem __listCutPosition_eq (m : Heap) (list head entry : Ptr) :
    __listCutPosition m list head entry =
      ((m.link list (m.next head)).link entry list).link head (m.next entry) := by
  simp only [__listCutPosition, Links.link, Links.setNext_next, Function.update_self]
  rfl

theorem __listCutPosition_reaches (rings : Rings m ((n, []) :: (h, front ++ back) :: rest))
    (some_node : front ≠ []) :
    Reaches m (__listCutPosition m n h (front.getLastD h)) (n :: h :: (front ++ back))
      ((n, front) :: (h, back) :: rest) := by
  obtain ⟨first, begins⟩ : ∃ first, front.head? = some first :=
    ⟨_, List.head?_eq_some_head some_node⟩
  obtain ⟨last, ends⟩ : ∃ last, front.getLast? = some last :=
    ⟨_, List.getLast?_eq_some_getLast some_node⟩
  have ring := rings.tail.head
  have next : m.next h = first := by
    rw [ring.next_head, List.headD_eq_head?_getD, List.head?_append, begins]
    rfl
  have follows : m.next (front.getLastD h) = back.headD h := ring.next_at
  rw [List.getLastD_eq_getLast?, ends, Option.getD_some] at follows ⊢
  have fresh : n ∉ ringNodes ((h, front ++ back) :: rest) := rings.apart n List.mem_cons_self
  have inside : last ∈ front := List.mem_of_getLast? ends
  have here : first ∈ front := List.mem_of_head? begins
  have target := headD_mem front back h
  have elsewhere : ∀ a ∈ h :: (front ++ back), n ≠ a := by
    rintro a member rfl
    exact fresh (List.mem_append_left (ringNodes rest) member)
  have whole : ∀ a ∈ front, a ∈ h :: (front ++ back) := fun a member =>
    List.mem_cons_of_mem h (List.mem_append_left back member)
  have apart : ∀ a ∈ front, a ∉ h :: back := by
    have distinct := ring.distinct
    rw [← List.singleton_append, List.nodup_append, List.nodup_append] at distinct
    intro a member other
    rcases List.mem_cons.mp other with rfl | behind
    · exact distinct.2.2 a (by simp) a (List.mem_append_left back member) rfl
    · exact distinct.2.1.2.2 a member a behind rfl
  have behind := headD_mem_cons back h
  have kept : h ∈ h :: back := List.mem_cons_self
  have cut : __listCutPosition m n h last =
      ((m.link h (back.headD h)).link last n).link n first := by
    rw [__listCutPosition_eq, next, follows, Links.link_comm m (elsewhere last (whole _ inside))
      (elsewhere first (whole _ here)).symm,
      Links.link_comm (m.link last n) (elsewhere h List.mem_cons_self)
        (ne_of_mem_of_not_mem behind (apart first here)).symm,
      Links.link_comm m (ne_of_mem_of_not_mem kept (apart last inside)).symm
        (elsewhere _ target)]
  rw [cut]
  refine ⟨?_, fun p outside => ?_⟩
  · have detached := @Rings.detach _ m h [] front back rest _ n first last
    exact detached rings.tail fresh begins ends
  · rw [List.mem_cons, not_or] at outside
    have other := fun a member => (ne_of_mem_of_not_mem (a := a) member outside.2).symm
    exact ((m.untouched_link (other h List.mem_cons_self) (other _ target)).trans
      (Links.untouched_link _ (other last (whole _ inside)) outside.1)).trans
      (Links.untouched_link _ outside.1 (other first (whole _ here)))

/-- The test that keeps a single node of another list from being cut off lets an entry on
the list pass. -/
theorem singular_guard (ring : Ring m h (front ++ back)) (some_node : front ≠ []) :
    (listIsSingular m h &&
      (m.next h != front.getLastD h && h != front.getLastD h)) = false := by
  cases front with
  | nil => exact absurd rfl some_node
  | cons x front =>
    have next : m.next h = x := ring.next_head
    have prev : m.prev h = (front ++ back).getLastD x := by
      rw [ring.prev_head, List.cons_append, List.getLastD_cons]
    by_cases single : front ++ back = []
    · rw [(List.append_eq_nil_iff.mp single).1, next]
      simp
    · have distinct := (List.nodup_cons.mp (List.nodup_cons.mp ring.distinct).2).1
      have other : m.next h ≠ m.prev h := by
        rw [next, prev, List.getLastD_eq_getLast?, List.getLast?_eq_some_getLast single,
          Option.getD_some]
        exact (ne_of_mem_of_not_mem (List.getLast_mem single) distinct).symm
      rw [listIsSingular, beq_eq_false_iff_ne.mpr other, Bool.and_false, Bool.false_and]

/-- Cutting behind `front`: the entry is its last node, or the head. -/
theorem listCutPosition_reaches (rings : Rings m ((n, []) :: (h, front ++ back) :: rest)) :
    Reaches m (listCutPosition m n h (front.getLastD h)) (n :: h :: (front ++ back))
      ((n, front) :: (h, back) :: rest) := by
  have ring := rings.tail.head
  have empty := listEmpty_iff ring
  by_cases none : front = []
  · subst none
    rw [List.nil_append] at ring empty
    rw [listCutPosition, List.getLastD_nil, bne_self_eq_false, Bool.and_false, Bool.and_false,
      if_neg Bool.false_ne_true, if_pos rfl]
    split
    · exact ⟨rings, fun p _ => ⟨rfl, rfl⟩⟩
    · have same : Reaches m m (n :: h :: back) ((h, back) :: rest) :=
        ⟨rings.tail, fun p _ => ⟨rfl, rfl⟩⟩
      exact same.init List.mem_cons_self (rings.apart n List.mem_cons_self)
  · have full : ¬ listEmpty m h = true := fun found =>
      none (List.append_eq_nil_iff.mp (empty.mp found)).1
    have other : front.getLastD h ≠ h := ring.getLastD_ne_head none
    rw [listCutPosition, if_neg full, singular_guard ring none, if_neg Bool.false_ne_true,
      if_neg other]
    exact __listCutPosition_reaches rings none

/-- A function with its arguments. -/
inductive Call
  | initListHead (list : Ptr)
  | listAdd (new head : Ptr)
  | listAddTail (new head : Ptr)
  | listDel (entry : Ptr)
  | listDelInit (entry : Ptr)
  | listReplace (old new : Ptr)
  | listReplaceInit (old new : Ptr)
  | listMove (list head : Ptr)
  | listMoveTail (list head : Ptr)
  | listSplice (list head : Ptr)
  | listSpliceTail (list head : Ptr)
  | listSpliceInit (list head : Ptr)
  | listSpliceTailInit (list head : Ptr)
  | listCutPosition (list head entry : Ptr)

def Call.run (m : Heap) : Call → Heap
  | initListHead list => SList.initListHead m list
  | listAdd new head => SList.listAdd m new head
  | listAddTail new head => SList.listAddTail m new head
  | listDel entry => SList.listDel m entry
  | listDelInit entry => SList.listDelInit m entry
  | listReplace old new => SList.listReplace m old new
  | listReplaceInit old new => SList.listReplaceInit m old new
  | listMove list head => SList.listMove m list head
  | listMoveTail list head => SList.listMoveTail m list head
  | listSplice list head => SList.listSplice m list head
  | listSpliceTail list head => SList.listSpliceTail m list head
  | listSpliceInit list head => SList.listSpliceInit m list head
  | listSpliceTailInit list head => SList.listSpliceTailInit m list head
  | listCutPosition list head entry => SList.listCutPosition m list head entry

/-- What a call does to sequences: the lists `before` become the lists `after`, and the
nodes `fresh` are on no list before it. A place in a list is any of its nodes, or its head. -/
inductive Call.Effect : Call → List Ptr → List (Ptr × List Ptr) → List (Ptr × List Ptr) → Prop
  | initListHead (list : Ptr) : Effect (.initListHead list) [list] [] [(list, [])]
  | listAdd (n t h : Ptr) (xs : List Ptr) (place : t ∈ h :: xs) :
      Effect (.listAdd n t) [n] [(h, xs)] [(h, insertAfter h t [n] xs)]
  | listAddTail (n t h : Ptr) (xs : List Ptr) (place : t ∈ h :: xs) :
      Effect (.listAddTail n t) [n] [(h, xs)] [(h, insertBefore h t [n] xs)]
  | listDel (e h : Ptr) (xs : List Ptr) (member : e ∈ xs) :
      Effect (.listDel e) [] [(h, xs)] [(h, xs.erase e)]
  | listDelInit (e h : Ptr) (xs : List Ptr) (member : e ∈ xs) :
      Effect (.listDelInit e) [] [(h, xs)] [(e, []), (h, xs.erase e)]
  | listReplace (h n : Ptr) (xs : List Ptr) : Effect (.listReplace h n) [n] [(h, xs)] [(n, xs)]
  | listReplaceInitHead (h n : Ptr) (xs : List Ptr) :
      Effect (.listReplaceInit h n) [n] [(h, xs)] [(h, []), (n, xs)]
  | listReplaceInit (e n h : Ptr) (xs : List Ptr) (member : e ∈ xs) :
      Effect (.listReplaceInit e n) [n] [(h, xs)]
        [(h, xs.map fun x => if x = e then n else x), (e, [])]
  | listMove (e t h : Ptr) (xs : List Ptr) (member : e ∈ xs) (place : t ∈ h :: xs)
      (other : t ≠ e) :
      Effect (.listMove e t) [] [(h, xs)] [(h, insertAfter h t [e] (xs.erase e))]
  | listMoveAcross (e t h g : Ptr) (xs ys : List Ptr) (member : e ∈ xs) (place : t ∈ g :: ys) :
      Effect (.listMove e t) [] [(h, xs), (g, ys)]
        [(g, insertAfter g t [e] ys), (h, xs.erase e)]
  | listMoveTail (e t h : Ptr) (xs : List Ptr) (member : e ∈ xs) (place : t ∈ h :: xs)
      (other : t ≠ e) :
      Effect (.listMoveTail e t) [] [(h, xs)] [(h, insertBefore h t [e] (xs.erase e))]
  | listMoveTailAcross (e t h g : Ptr) (xs ys : List Ptr) (member : e ∈ xs)
      (place : t ∈ g :: ys) :
      Effect (.listMoveTail e t) [] [(h, xs), (g, ys)]
        [(g, insertBefore g t [e] ys), (h, xs.erase e)]
  | listSplice (n t h : Ptr) (xs ys : List Ptr) (place : t ∈ h :: xs) :
      Effect (.listSplice n t) [] [(n, ys), (h, xs)] [(h, insertAfter h t ys xs)]
  | listSpliceTail (n t h : Ptr) (xs ys : List Ptr) (place : t ∈ h :: xs) :
      Effect (.listSpliceTail n t) [] [(n, ys), (h, xs)] [(h, insertBefore h t ys xs)]
  | listSpliceInit (n t h : Ptr) (xs ys : List Ptr) (place : t ∈ h :: xs) :
      Effect (.listSpliceInit n t) [] [(n, ys), (h, xs)] [(n, []), (h, insertAfter h t ys xs)]
  | listSpliceTailInit (n t h : Ptr) (xs ys : List Ptr) (place : t ∈ h :: xs) :
      Effect (.listSpliceTailInit n t) [] [(n, ys), (h, xs)]
        [(n, []), (h, insertBefore h t ys xs)]
  | listCutPosition (n h entry : Ptr) (xs : List Ptr) (k : Nat)
      (kth : (h :: xs)[k]? = some entry) :
      Effect (.listCutPosition n h entry) [] [(n, []), (h, xs)]
        [(n, xs.take k), (h, xs.drop k)]

theorem getLastD_take {k : Nat} {entry : Ptr} (kth : (h :: xs)[k]? = some entry) :
    (xs.take k).getLastD h = entry := by
  cases k with
  | zero => exact Option.some.inj kth
  | succ k =>
    rw [List.getElem?_cons_succ] at kth
    rw [List.take_add_one, kth, Option.toList_some, List.getLastD_concat]

theorem Call.Effect.reaches {call : Call} {fresh : List Ptr} {before after : List (Ptr × List Ptr)}
    (effect : call.Effect fresh before after) (rings : Rings m (before ++ rest))
    (new : ∀ p ∈ fresh, p ∉ ringNodes (before ++ rest)) :
    Reaches m (call.run m) (fresh ++ ringNodes before) (after ++ rest) := by
  cases effect with
  | initListHead list =>
    have same : Reaches m m [list] rest := ⟨rings, fun p _ => ⟨rfl, rfl⟩⟩
    exact same.init (by simp) (new list (by simp))
  | listAdd n t h xs place =>
    exact (listAdd_reaches rings (new n (by simp)) place).mono (by simp)
  | listAddTail n t h xs place =>
    exact (listAddTail_reaches rings (new n (by simp)) place).mono (by simp)
  | listDel e h xs member => exact (listDel_reaches rings member).mono (by simp)
  | listDelInit e h xs member => exact (listDelInit_reaches rings member).mono (by simp)
  | listReplace h n xs => exact (listReplace_reaches rings (new n (by simp))).mono (by simp)
  | listReplaceInitHead h n xs =>
    exact (listReplaceInit_reaches rings (new n (by simp))).mono (by simp)
  | listReplaceInit e n h xs member =>
    exact (listReplaceInit_member rings (new n (by simp)) member).mono (by simp)
  | listMove e t h xs member place other =>
    exact (listMove_reaches rings member place other).mono (by simp)
  | listMoveAcross e t h g xs ys member place =>
    exact (listMoveAcross_reaches rings member place).mono (by simp)
  | listMoveTail e t h xs member place other =>
    exact (listMoveTail_reaches rings member place other).mono (by simp)
  | listMoveTailAcross e t h g xs ys member place =>
    exact (listMoveTailAcross_reaches rings member place).mono (by simp)
  | listSplice n t h xs ys place => exact (listSplice_reaches rings place).mono (by simp)
  | listSpliceTail n t h xs ys place =>
    exact (listSpliceTail_reaches rings place).mono (by simp)
  | listSpliceInit n t h xs ys place =>
    exact (listSpliceInit_reaches rings place).mono (by simp)
  | listSpliceTailInit n t h xs ys place =>
    exact (listSpliceTailInit_reaches rings place).mono (by simp)
  | listCutPosition n h entry xs k kth =>
    rw [← List.take_append_drop k xs] at rings
    have cut := listCutPosition_reaches rings
    rw [getLastD_take kth, List.take_append_drop] at cut
    exact cut.mono (by simp)

/-- The heap has the lists `after` where it had `before`, with both fields inverse to each
other, and no other node is touched. -/
def Call.Does (m : Heap) (call : Call) (fresh : List Ptr)
    (before after rest : List (Ptr × List Ptr)) : Prop :=
  Rings (call.run m) (after ++ rest) ∧
    (∀ p ∈ ringNodes (after ++ rest),
      (call.run m).next ((call.run m).prev p) = p ∧
        (call.run m).prev ((call.run m).next p) = p) ∧
    ∀ p ∉ fresh ++ ringNodes before, m.Untouched (call.run m) p

theorem cut_splice {k : Nat} (rings : Rings m ((n, []) :: (h, xs) :: rest))
    (kth : (h :: xs)[k]? = some e) :
    Rings (listSpliceInit (listCutPosition m n h e) n h) ((n, []) :: (h, xs) :: rest) ∧
      Rings (listSplice (listCutPosition m n h e) n h) ((h, xs) :: rest) := by
  have cut := (Call.Effect.listCutPosition n h e xs k kth).reaches rings (by simp)
  have joined : insertAfter h h (xs.take k) (xs.drop k) = xs := by
    rw [insertAfter, if_pos rfl, List.take_append_drop]
  have again := listSpliceInit_reaches cut.rings List.mem_cons_self
  have once := listSplice_reaches cut.rings List.mem_cons_self
  rw [joined] at again once
  exact ⟨again.rings, once.rings⟩

/-- The body of a loop that deletes the elements `doomed`, releases what it has deleted, and
notes where it has been. -/
def deleteBody (doomed : Ptr → Bool) (free : Heap → Ptr → Heap) (m : Heap) (visited : List Ptr)
    (pos : Ptr) : Heap × List Ptr :=
  (if doomed pos then free (listDel m pos) pos else m, visited ++ [pos])

/-- Releasing a node leaves all others alone. -/
def FreesOnly (free : Heap → Ptr → Heap) : Prop :=
  ∀ (m : Heap) (p q : Ptr), q ≠ p → m.Untouched (free m p) q

section Iteration

variable (doomed : Ptr → Bool) {free : Heap → Ptr → Heap} {kept todo : List Ptr}

theorem deleteBody_reaches (frees : FreesOnly free) (visited : List Ptr)
    (rings : Rings m ((h, kept ++ e :: todo) :: rest)) :
    Reaches m (deleteBody doomed free m visited e).1 (h :: (kept ++ e :: todo))
      ((h, kept ++ [e].filter (fun x => !doomed x) ++ todo) :: rest) := by
  have member : e ∈ kept ++ e :: todo := by simp
  cases found : doomed e with
  | false =>
    have same : (deleteBody doomed free m visited e).1 = m := by simp [deleteBody, found]
    have stays : Reaches m m (h :: (kept ++ e :: todo)) ((h, kept ++ e :: todo) :: rest) :=
      ⟨rings, fun p _ => ⟨rfl, rfl⟩⟩
    rw [same]
    simpa [found] using stays
  | true =>
    have same : (deleteBody doomed free m visited e).1 = free (listDel m e) e := by
      simp [deleteBody, found]
    have erased : (kept ++ e :: todo).erase e = kept ++ todo := by
      have alone := (List.nodup_cons.mp rings.head.distinct).2
      rw [List.nodup_middle, List.nodup_cons, List.mem_append, not_or] at alone
      rw [List.erase_append_right _ alone.1.1, List.erase_cons_head]
    have deleted := (listDel_reaches rings member).write (List.mem_cons_of_mem h member)
      (taken_free rings member) (frees _ e)
    rw [same]
    simpa [found, erased] using deleted

/-- The loop from the first of `todo` on, which may be the head. -/
theorem forEachSafe_visits (frees : FreesOnly free)
    (rings : Rings m ((h, kept ++ todo) :: rest)) :
    ∃ m', Reaches m m' (h :: (kept ++ todo))
        ((h, kept ++ todo.filter fun x => !doomed x) :: rest) ∧
      ∀ visited fuel, todo.length < fuel →
        forEachSafe (deleteBody doomed free) h fuel m visited (todo.headD h)
          (m.next (todo.headD h)) = some (m', visited ++ todo) := by
  induction todo generalizing m kept with
  | nil =>
    refine ⟨m, ⟨rings, fun p _ => ⟨rfl, rfl⟩⟩, fun visited fuel enough => ?_⟩
    obtain ⟨fuel, rfl⟩ : ∃ fuel', fuel = fuel' + 1 := ⟨fuel - 1, by omega⟩
    rw [List.append_nil]
    exact if_neg fun other => other rfl
  | cons e todo ih =>
    have other : e ≠ h := rings.head.ne_head (by simp)
    have next : m.next e = todo.headD h := rings.head.next_member
    have turn := deleteBody_reaches doomed frees [] rings
    obtain ⟨m', reaches, run⟩ := ih turn.rings
    refine ⟨m', ?_, fun visited fuel enough => ?_⟩
    · have left : kept ++ [e].filter (fun x => !doomed x) ++ todo.filter (fun x => !doomed x) =
          kept ++ (e :: todo).filter fun x => !doomed x := by
        rw [List.append_assoc, ← List.filter_append, List.singleton_append]
      rw [left] at reaches
      refine turn.trans reaches (List.cons_subset_cons h ?_)
      intro x member
      have inside := @List.mem_of_mem_filter _ (fun x => !doomed x) x [e]
      simp only [List.mem_append, List.mem_cons, List.not_mem_nil, or_false] at member inside ⊢
      tauto
    · obtain ⟨fuel, rfl⟩ : ∃ fuel', fuel = fuel' + 1 := ⟨fuel - 1, by omega⟩
      rw [List.length_cons] at enough
      have rerun := run (visited ++ [e]) fuel (by omega)
      rw [List.append_assoc, List.singleton_append] at rerun
      rw [List.headD_cons, next, forEachSafe, if_pos other]
      exact rerun

theorem listForEachSafe_visits (frees : FreesOnly free) (rings : Rings m ((h, xs) :: rest)) :
    ∃ m', Reaches m m' (h :: xs) ((h, xs.filter fun x => !doomed x) :: rest) ∧
      Returns (fun fuel => listForEachSafe (deleteBody doomed free) fuel m [] h) (m', xs) := by
  have whole : Rings m ((h, [] ++ xs) :: rest) := rings
  obtain ⟨m', reaches, run⟩ := forEachSafe_visits doomed frees whole
  refine ⟨m', reaches, xs.length + 1, fun fuel enough => ?_⟩
  show listForEachSafe (deleteBody doomed free) fuel m [] h = some (m', xs)
  rw [listForEachSafe, rings.head.next_head]
  exact run [] fuel (by omega)

end Iteration

/-- The functions act on the lists of a heap as on sequences, what was cut off can be put
back, and a safe loop that deletes goes once over all that was on the list. -/
theorem lists_as_sequences (m : Heap) (rest : List (Ptr × List Ptr)) :
    (∀ call fresh before after, Call.Effect call fresh before after →
      Rings m (before ++ rest) → (∀ p ∈ fresh, p ∉ ringNodes (before ++ rest)) →
      call.Does m fresh before after rest) ∧
    (∀ (n h entry : Ptr) (xs : List Ptr) (k : Nat), Rings m ((n, []) :: (h, xs) :: rest) →
      (h :: xs)[k]? = some entry →
      Rings (listSpliceInit (listCutPosition m n h entry) n h)
          ((n, []) :: (h, xs) :: rest) ∧
        Rings (listSplice (listCutPosition m n h entry) n h) ((h, xs) :: rest)) ∧
    (∀ (doomed : Ptr → Bool) (free : Heap → Ptr → Heap) (h : Ptr) (xs : List Ptr),
      FreesOnly free → Rings m ((h, xs) :: rest) →
      ∃ m', Returns (fun fuel => listForEachSafe (deleteBody doomed free) fuel m [] h) (m', xs) ∧
        Rings m' ((h, xs.filter fun x => !doomed x) :: rest) ∧
        ∀ p ∉ h :: xs, m.Untouched m' p) := by
  refine ⟨fun call fresh before after effect rings new => ?_,
    fun n h entry xs k rings kth => cut_splice rings kth, ?_⟩
  · have reaches := effect.reaches rings new
    exact ⟨reaches.rings, fun _ member => reaches.rings.inverse member, reaches.frame⟩
  · intro doomed free h xs frees rings
    obtain ⟨m', reaches, returns⟩ := listForEachSafe_visits doomed frees rings
    exact ⟨m', returns, reaches.rings, reaches.frame⟩

/-- A list of two nodes, and every other node an empty list. -/
def pairHeap : Heap where
  next p := if p = 1 then 2 else if p = 2 then 3 else if p = 3 then 1 else p
  prev p := if p = 1 then 3 else if p = 2 then 1 else if p = 3 then 2 else p

theorem lists_as_sequences_pair :
    (Call.listMove 3 1).Does pairHeap [] [(1, [2, 3])] [(1, insertAfter 1 1 [3] ([2, 3].erase 3))]
        [(4, [])] ∧
      (Rings (listSpliceInit (listCutPosition pairHeap 4 1 2) 4 1) [(4, []), (1, [2, 3])] ∧
        Rings (listSplice (listCutPosition pairHeap 4 1 2) 4 1) [(1, [2, 3])]) ∧
      ∃ m', Returns (fun fuel => listForEachSafe (deleteBody (fun p => p == 2) fun m _ => m)
          fuel pairHeap [] 1) (m', [2, 3]) ∧
        Rings m' [(1, [2, 3].filter fun x => !(x == 2))] ∧
        ∀ p ∉ [1, 2, 3], pairHeap.Untouched m' p :=
  ⟨(lists_as_sequences pairHeap [(4, [])]).1 _ _ _ _
      (.listMove 3 1 1 [2, 3] (by decide) (by decide) (by decide)) (by decide) (by decide),
    (lists_as_sequences pairHeap []).2.1 4 1 2 [2, 3] 1 (by decide) rfl,
    (lists_as_sequences pairHeap []).2.2 (fun p => p == 2) (fun m _ => m) 1 [2, 3]
      (fun _ _ _ _ => ⟨rfl, rfl⟩) (by decide)⟩

end CLibs.SList
