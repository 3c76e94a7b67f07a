import CLibs.General.Fuel
import CLibs.Queue.NgxQueue

/-!
# Queues as sequences

What each macro does to the queues of a heap, whatever else the heap holds.
-/

set_option autoImplicit false

namespace CLibs.Queue

open General

variable {m : Heap} {h x n q : Ptr} {xs ys zs : List Ptr} {rest : List (Ptr × List Ptr)}

theorem ngxQueueInsertHead_eq (m : Heap) (h x : Ptr) :
    ngxQueueInsertHead m h x = (m.link x (m.next h)).link h x := by
  simp only [ngxQueueInsertHead, Links.link, Links.setNext_next, Function.update_self]
  rfl

theorem ngxQueueInsertTail_eq (apart : x ≠ h) (apart' : x ≠ m.prev h) :
    ngxQueueInsertTail m h x = (m.link x h).link (m.prev h) x := by
  rw [Links.link_comm m apart' apart.symm]
  simp only [ngxQueueInsertTail, Links.link, Links.setPrev_prev, Function.update_self]
  rfl

theorem ngxQueueEmpty_iff (ring : Ring m h xs) : ngxQueueEmpty m h = true ↔ xs = [] := by
  rw [ngxQueueEmpty, beq_iff_eq, eq_comm, ring.prev_head_eq_iff]

/-- Behind any node of a queue, as `ngx_queue_sort` uses it. -/
theorem insert_after_rings (rings : Rings m ((h, xs ++ zs) :: rest))
    (fresh : x ∉ ringNodes ((h, xs ++ zs) :: rest)) :
    Rings (ngxQueueInsertAfter m (xs.getLastD h) x) ((h, xs ++ x :: zs) :: rest) := by
  rw [ngxQueueInsertAfter, ngxQueueInsertHead_eq, rings.head.next_at]
  refine rings.splice (.singleton x) (List.nodup_singleton x) (fun p member => ?_) rfl rfl
  exact List.mem_singleton.mp member ▸ fresh

theorem insertHead_rings (rings : Rings m ((h, xs) :: rest))
    (fresh : x ∉ ringNodes ((h, xs) :: rest)) :
    Rings (ngxQueueInsertHead m h x) ((h, x :: xs) :: rest) :=
  @insert_after_rings m h x [] xs rest rings fresh

theorem insertTail_rings (rings : Rings m ((h, xs) :: rest))
    (fresh : x ∉ ringNodes ((h, xs) :: rest)) :
    Rings (ngxQueueInsertTail m h x) ((h, xs ++ [x]) :: rest) := by
  have last := rings.head.prev_head
  have apart : ∀ p ∈ h :: xs, x ≠ p := by
    rintro p member rfl
    exact fresh (List.mem_append_left (ringNodes rest) member)
  rw [ngxQueueInsertTail_eq (apart h List.mem_cons_self)
    (apart _ (last ▸ List.getLastD_mem_cons)), last]
  rw [← List.append_nil xs] at rings fresh
  refine rings.splice (.singleton x) (List.nodup_singleton x) (fun p member => ?_) rfl rfl
  exact List.mem_singleton.mp member ▸ fresh

theorem insert_after_untouched {p : Ptr} (ring : Ring m h (xs ++ zs)) (new : p ≠ x)
    (outside : p ∉ h :: (xs ++ zs)) :
    m.Untouched (ngxQueueInsertAfter m (xs.getLastD h) x) p := by
  have source : p ≠ xs.getLastD h := by
    rintro rfl
    have member := @List.getLastD_mem_cons _ xs h
    simp only [List.mem_cons, List.mem_append] at member outside
    tauto
  have target : p ≠ zs.headD h := by
    rintro rfl
    have member := headD_mem_cons zs h
    simp only [List.mem_cons, List.mem_append] at member outside
    tauto
  rw [ngxQueueInsertAfter, ngxQueueInsertHead_eq, ring.next_at]
  exact (m.untouched_link new target).trans (Links.untouched_link _ source new)

theorem insertTail_untouched {p : Ptr} (ring : Ring m h xs) (fresh : x ∉ h :: xs) (new : p ≠ x)
    (outside : p ∉ h :: xs) : m.Untouched (ngxQueueInsertTail m h x) p := by
  have prev : m.prev h ∈ h :: xs := ring.prev_head ▸ List.getLastD_mem_cons
  rw [ngxQueueInsertTail_eq (ne_of_mem_of_not_mem List.mem_cons_self fresh).symm
    (ne_of_mem_of_not_mem prev fresh).symm]
  exact (m.untouched_link new fun same => outside (same ▸ List.mem_cons_self)).trans
    (Links.untouched_link _ (fun same => outside (same ▸ prev)) new)

theorem ngxQueueRemove_eq (apart : m.next x ≠ x) :
    ngxQueueRemove false m x = m.link (m.prev x) (m.next x) := by
  simp only [ngxQueueRemove, Links.link, Links.setPrev_prev, Links.setPrev_next,
    Function.update_of_ne apart.symm]
  rfl

private theorem next_ne (ring : Ring m h (xs ++ x :: zs)) : m.next x ≠ x := by
  have distinct := ring.distinct
  rw [← List.cons_append, List.nodup_middle, List.nodup_cons] at distinct
  intro same
  have member := headD_mem_cons zs h
  rw [← ring.next_member, same] at member
  refine distinct.1 ?_
  simp only [List.mem_cons, List.mem_append] at member ⊢
  tauto

/-- The two texts of the macro differ in what they leave in the node taken out. -/
theorem ngxQueueRemove_untouched (NGX_DEBUG : Bool) (m : Heap) {p : Ptr} (other : p ≠ x) :
    (ngxQueueRemove false m x).Untouched (ngxQueueRemove NGX_DEBUG m x) p := by
  cases NGX_DEBUG with
  | false => exact ⟨rfl, rfl⟩
  | true => exact ⟨Function.update_of_ne other .., Function.update_of_ne other ..⟩

theorem remove_rings (NGX_DEBUG : Bool) (rings : Rings m ((h, xs ++ x :: zs) :: rest)) :
    Rings (ngxQueueRemove NGX_DEBUG m x) ((h, xs ++ zs) :: rest) := by
  have next := rings.head.next_member
  have prev := rings.head.prev_member
  have alone : x ∉ h :: (xs ++ zs) := by
    have distinct := rings.head.distinct
    rw [← List.cons_append, List.nodup_middle] at distinct
    exact (List.nodup_cons.mp distinct).1
  have outside : x ∉ ringNodes rest := rings.apart x (by simp)
  have taken : Rings (ngxQueueRemove false m x) ((h, xs ++ zs) :: rest) := by
    rw [ngxQueueRemove_eq (next_ne rings.head), next, prev]
    exact (@Rings.excise _ m h xs [x] zs rest _ rings).1
  refine taken.frame fun p member => ngxQueueRemove_untouched NGX_DEBUG m ?_
  rintro rfl
  exact (List.mem_append.mp member).elim alone outside

theorem remove_untouched (NGX_DEBUG : Bool) {p : Ptr} (ring : Ring m h xs) (member : x ∈ xs)
    (outside : p ∉ h :: xs) : m.Untouched (ngxQueueRemove NGX_DEBUG m x) p := by
  obtain ⟨before, behind, rfl⟩ := List.append_of_mem member
  have next : m.next x ∈ h :: (before ++ x :: behind) := by
    have inside := headD_mem_cons behind h
    rw [ring.next_member]
    simp only [List.mem_cons, List.mem_append] at inside ⊢
    tauto
  have prev : m.prev x ∈ h :: (before ++ x :: behind) := by
    have inside := @List.getLastD_mem_cons _ before h
    rw [ring.prev_member]
    simp only [List.mem_cons, List.mem_append] at inside ⊢
    tauto
  have follows : m.next x ≠ x := next_ne ring
  refine .trans ?_ (ngxQueueRemove_untouched NGX_DEBUG m ?_)
  · rw [ngxQueueRemove_eq follows]
    exact m.untouched_link (fun same => outside (same ▸ prev)) fun same => outside (same ▸ next)
  · rintro rfl
    exact outside (List.mem_cons_of_mem h member)

theorem ngxQueueSplit_eq (apart : n ≠ h) (apart' : n ≠ q) (other : m.prev q ≠ m.prev h)
    (other' : m.prev q ≠ n) :
    ngxQueueSplit m h q n =
      ((m.link (m.prev q) h).link (m.prev h) n).link n q := by
  ext p
  · simp only [ngxQueueSplit, Links.link, Links.setPrev_prev, Links.setPrev_next,
      Links.setNext_next, Links.setNext_prev, Function.update_self, Function.update_of_ne apart'.symm]
    rw [Function.update_comm other'.symm, Function.update_comm other.symm]
  · simp only [ngxQueueSplit, Links.link, Links.setPrev_prev, Links.setNext_prev,
      Function.update_self, Function.update_of_ne apart'.symm]
    rw [Function.update_comm apart]

theorem split_rings {last : Ptr} (rings : Rings m ((h, xs ++ ys) :: rest))
    (fresh : n ∉ ringNodes ((h, xs ++ ys) :: rest)) (begins : ys.head? = some q)
    (ends : ys.getLast? = some last) :
    Rings (ngxQueueSplit m h q n) ((n, ys) :: (h, xs) :: rest) ∧
      ∀ p, p ≠ n → p ∉ h :: (xs ++ ys) → m.Untouched (ngxQueueSplit m h q n) p := by
  have prev : m.prev q = xs.getLastD h := by
    obtain ⟨behind, rfl⟩ := List.head?_eq_some_iff.mp begins
    exact rings.head.prev_member
  have tail : m.prev h = last := by
    rw [rings.head.prev_head]
    obtain ⟨before, rfl⟩ := List.getLast?_eq_some_iff.mp ends
    rw [← List.append_assoc, List.getLastD_concat]
  have first : q ∈ ys := List.mem_of_head? begins
  have inside : last ∈ ys := List.mem_of_getLast? ends
  have before : xs.getLastD h ∈ h :: xs := List.getLastD_mem_cons
  have distinct := rings.head.distinct
  rw [← List.cons_append, List.nodup_append] at distinct
  have elsewhere : ∀ p ∈ h :: (xs ++ ys), n ≠ p := by
    rintro p member rfl
    exact fresh (List.mem_append_left (ringNodes rest) member)
  have same := ngxQueueSplit_eq (elsewhere h List.mem_cons_self)
    (elsewhere q (by simp [first])) (by
      rw [prev, tail]
      exact distinct.2.2 _ before last inside) (by
      rw [prev]
      exact (elsewhere _ (List.mem_append_left ys before)).symm)
  rw [prev, tail] at same
  refine ⟨?_, fun p new old => ?_⟩
  · rw [same]
    have cut := @Rings.detach _ m h xs ys [] rest _ n q last
    rw [List.append_nil, List.append_nil] at cut
    exact cut rings fresh begins ends
  · have outside : ∀ a ∈ h :: (xs ++ ys), p ≠ a := fun a member same => old (same ▸ member)
    have source := outside _ (List.mem_append_left ys before)
    rw [same]
    exact ((m.untouched_link source (outside h List.mem_cons_self)).trans
      (Links.untouched_link _ (outside last (by simp [inside])) new)).trans
      (Links.untouched_link _ new (outside q (by simp [first])))

theorem ngxQueueAdd_eq (apart : m.prev h ≠ n) (apart' : m.next n ≠ n) :
    ngxQueueAdd m h n = (m.link (m.prev h) (m.next n)).link (m.prev n) h := by
  simp only [ngxQueueAdd, Links.link, Links.setPrev_prev, Links.setNext_next,
    Links.setNext_prev, Function.update_self, Function.update_of_ne apart.symm,
    Function.update_of_ne apart'.symm]
  rfl

theorem ngxQueueAdd_empty (ring : Ring m h xs) (empty : Ring m n []) (apart : n ∉ h :: xs) :
    ngxQueueAdd m h n = m.setPrev n (m.prev h) := by
  have next : m.next n = n := empty.next_head
  have closed : m.next (m.prev h) = h := (ring.inverse List.mem_cons_self).1
  have last : m.prev h ∈ h :: xs := ring.prev_head ▸ List.getLastD_mem_cons
  have other : n ≠ h := fun same => apart (same ▸ List.mem_cons_self)
  have other' : n ≠ m.prev h := fun same => apart (same ▸ last)
  ext p
  · simp only [ngxQueueAdd, Links.setPrev_prev, Links.setPrev_next, Links.setNext_next,
      Links.setNext_prev, Function.update_self, Function.update_of_ne other', next,
      Function.update_idem]
    nth_rewrite 2 [← closed]
    rw [Function.update_eq_self]
  · simp only [ngxQueueAdd, Links.setPrev_prev, Links.setNext_next, Links.setNext_prev,
      Function.update_self, Function.update_of_ne other', next]
    nth_rewrite 2 [← Function.update_of_ne other.symm (m.prev h) m.prev]
    rw [Function.update_eq_self]

theorem add_rings (rings : Rings m ((h, xs) :: (n, ys) :: rest)) :
    Rings (ngxQueueAdd m h n) ((h, xs ++ ys) :: rest) ∧
      ∀ p ∉ ringNodes [(h, xs), (n, ys)], m.Untouched (ngxQueueAdd m h n) p := by
  have swapped := rings.perm (.swap (n, ys) (h, xs) rest)
  have apart := swapped.apart
  have one := swapped.head
  have other : ∀ p ∈ n :: ys, p ∉ h :: xs := fun p member inside =>
    apart p member (List.mem_append_left (ringNodes rest) inside)
  have notHead := other n List.mem_cons_self
  cases ys with
  | nil =>
    rw [ngxQueueAdd_empty rings.head one notHead, List.append_nil]
    have untouched : ∀ p ≠ n, m.Untouched (m.setPrev n (m.prev h)) p := fun p new =>
      ⟨rfl, Function.update_of_ne new ..⟩
    refine ⟨swapped.tail.frame fun p member => untouched p ?_, fun p outside => untouched p ?_⟩
    · rintro rfl
      exact apart p List.mem_cons_self member
    · rintro rfl
      exact outside (by simp)
  | cons first behind =>
    obtain ⟨last, ends⟩ : ∃ last, (first :: behind).getLast? = some last :=
      ⟨_, List.getLast?_eq_some_getLast (List.cons_ne_nil first behind)⟩
    have next : m.next n = first := one.next_head
    have prev : m.prev n = last := by
      rw [one.prev_head, List.getLastD_eq_getLast?, ends, Option.getD_some]
    have tail : m.prev h ∈ h :: xs := rings.head.prev_head ▸ List.getLastD_mem_cons
    have inside : last ∈ n :: first :: behind :=
      List.mem_cons_of_mem n (List.mem_of_getLast? ends)
    have here : first ∈ n :: first :: behind := by simp
    have follows : first ≠ n := one.ne_head List.mem_cons_self
    have same : ngxQueueAdd m h n = (m.link (m.prev h) first).link last h := by
      rw [ngxQueueAdd_eq (ne_of_mem_of_not_mem tail notHead) (next ▸ follows), next, prev]
    rw [same]
    refine ⟨?_, fun p outside => ?_⟩
    · rw [Links.link_comm m (ne_of_mem_of_not_mem tail (other last inside))
        (ne_of_mem_of_not_mem List.mem_cons_self (other first here)).symm, rings.head.prev_head]
      have whole := swapped.tail
      rw [← List.append_nil xs] at whole
      have joined := whole.splice one.chained (List.nodup_cons.mp one.distinct).2
        (fun p member => ?_) rfl ends
      · rw [List.append_nil] at joined
        exact joined
      · rw [List.append_nil]
        exact apart p (List.mem_cons_of_mem n member)
    · have touched : ∀ a, a ∈ h :: xs ∨ a ∈ n :: first :: behind → p ≠ a := by
        rintro a member rfl
        refine outside ?_
        simp only [ringNodes_cons, ringNodes_nil, List.mem_cons, List.mem_append] at member ⊢
        tauto
      exact (m.untouched_link (touched _ (.inl tail)) (touched _ (.inr here))).trans
        (Links.untouched_link _ (touched _ (.inr inside)) (touched _ (.inl List.mem_cons_self)))

/-- After `i` turns of the walk `middle` is at `i` and `next` at `2 * i`. -/
theorem middleLoop_eq (ring : Ring m h xs) {fuel i : Nat} {middle next : Ptr}
    (before : 2 * i + 1 < xs.length) (enough : xs.length ≤ 2 * i + 1 + 2 * fuel)
    (here : xs[i]? = some middle) (there : xs[2 * i]? = some next) :
    middleLoop m h fuel middle next = xs[xs.length / 2]? := by
  have nodup := (List.nodup_cons.mp ring.distinct).2
  have at_last : ∀ {j : Nat}, ∀ p, xs[j]? = some p →
      (p = ngxQueueLast m h ↔ j = xs.length - 1) := by
    intro j p found
    obtain ⟨last, ends⟩ : ∃ last, xs[xs.length - 1]? = some last :=
      ⟨_, List.getElem?_eq_getElem (by omega)⟩
    rw [ngxQueueLast, ring.prev_head_getElem? ends]
    obtain ⟨bound, rfl⟩ := List.getElem?_eq_some_iff.mp found
    obtain ⟨bound', rfl⟩ := List.getElem?_eq_some_iff.mp ends
    exact nodup.getElem_inj_iff
  induction fuel generalizing i middle next with
  | zero => omega
  | succ fuel ih =>
    obtain ⟨middle', half⟩ : ∃ p, xs[i + 1]? = some p :=
      ⟨_, List.getElem?_eq_getElem (by omega)⟩
    obtain ⟨next', once⟩ : ∃ p, xs[2 * i + 1]? = some p :=
      ⟨_, List.getElem?_eq_getElem (by omega)⟩
    rw [middleLoop, ngxQueueNext, ngxQueueNext, ring.next_getElem? here half,
      ring.next_getElem? there once]
    by_cases odd : 2 * i + 1 = xs.length - 1
    · rw [if_pos ((at_last _ once).mpr odd), ← half]
      congr 1
      omega
    rw [if_neg fun same => odd ((at_last _ once).mp same)]
    obtain ⟨next'', twice⟩ : ∃ p, xs[2 * (i + 1)]? = some p :=
      ⟨_, List.getElem?_eq_getElem (by omega)⟩
    rw [ngxQueueNext, ring.next_getElem? once twice]
    by_cases even : 2 * (i + 1) = xs.length - 1
    · rw [if_pos ((at_last _ twice).mpr even), ← half]
      congr 1
      omega
    rw [if_neg fun same => even ((at_last _ twice).mp same)]
    exact ih (by omega) (by omega) half twice

theorem ngxQueueMiddle_returns (ring : Ring m h xs) {middle : Ptr}
    (half : xs[xs.length / 2]? = some middle) :
    Returns (fun fuel => ngxQueueMiddle fuel m h) middle := by
  refine ⟨xs.length, fun fuel enough => ?_⟩
  obtain ⟨bound, -⟩ := List.getElem?_eq_some_iff.mp half
  obtain ⟨first, begins⟩ : ∃ p, xs[0]? = some p := ⟨_, List.getElem?_eq_getElem (by omega)⟩
  obtain ⟨last, ends⟩ : ∃ last, xs[xs.length - 1]? = some last :=
    ⟨_, List.getElem?_eq_getElem (by omega)⟩
  have head : ngxQueueHead m h = first := by
    rw [ngxQueueHead, ring.next_head, List.headD_eq_head?_getD, List.head?_eq_getElem?, begins,
      Option.getD_some]
  show ngxQueueMiddle fuel m h = some middle
  rw [ngxQueueMiddle, head, ngxQueueLast, ring.prev_head_getElem? ends]
  have only : first = last ↔ 0 = xs.length - 1 := by
    obtain ⟨_, rfl⟩ := List.getElem?_eq_some_iff.mp begins
    obtain ⟨_, rfl⟩ := List.getElem?_eq_some_iff.mp ends
    exact (List.nodup_cons.mp ring.distinct).2.getElem_inj_iff
  split
  next same =>
    have short : xs.length / 2 = 0 := by
      have := only.mp same
      omega
    rw [← begins, ← half, short]
  next other =>
    have long : 0 ≠ xs.length - 1 := fun same => other (only.mpr same)
    rw [middleLoop_eq ring (by omega) (by omega) begins begins, half]

/-- A macro with its arguments. -/
inductive Call
  | init (h : Ptr)
  | insertHead (h x : Ptr)
  | insertTail (h x : Ptr)
  | remove (x : Ptr)
  | split (h q n : Ptr)
  | add (h n : Ptr)

def Call.run (NGX_DEBUG : Bool) (m : Heap) : Call → Heap
  | init h => ngxQueueInit m h
  | insertHead h x => ngxQueueInsertHead m h x
  | insertTail h x => ngxQueueInsertTail m h x
  | remove x => ngxQueueRemove NGX_DEBUG m x
  | split h q n => ngxQueueSplit m h q n
  | add h n => ngxQueueAdd m h n

/-- What a call does to sequences: the queues `before` become the queues `after`, and the
nodes `fresh` are on no queue before it. -/
inductive Call.Effect : Call → List Ptr → List (Ptr × List Ptr) → List (Ptr × List Ptr) → Prop
  | init (h : Ptr) : Effect (.init h) [h] [] [(h, [])]
  | insertHead (h x : Ptr) (xs : List Ptr) :
      Effect (.insertHead h x) [x] [(h, xs)] [(h, x :: xs)]
  | insertTail (h x : Ptr) (xs : List Ptr) :
      Effect (.insertTail h x) [x] [(h, xs)] [(h, xs ++ [x])]
  | remove (h x : Ptr) (xs : List Ptr) (member : x ∈ xs) :
      Effect (.remove x) [] [(h, xs)] [(h, xs.erase x)]
  | split (h q n : Ptr) (xs : List Ptr) (k : Nat) (kth : xs[k]? = some q) :
      Effect (.split h q n) [n] [(h, xs)] [(h, xs.take k), (n, xs.drop k)]
  | add (h n : Ptr) (xs ys : List Ptr) :
      Effect (.add h n) [] [(h, xs), (n, ys)] [(h, xs ++ ys)]

/-- The heap has the queues `after` where it had `before`, with both fields inverse to each
other, and no other node is touched. -/
def Call.Does (NGX_DEBUG : Bool) (m : Heap) (call : Call) (fresh : List Ptr)
    (before after rest : List (Ptr × List Ptr)) : Prop :=
  Rings (call.run NGX_DEBUG m) (after ++ rest) ∧
    (∀ p ∈ ringNodes (after ++ rest),
      (call.run NGX_DEBUG m).next ((call.run NGX_DEBUG m).prev p) = p ∧
        (call.run NGX_DEBUG m).prev ((call.run NGX_DEBUG m).next p) = p) ∧
    ∀ p ∉ fresh ++ ringNodes before, m.Untouched (call.run NGX_DEBUG m) p

theorem Call.Effect.does (NGX_DEBUG : Bool) {call : Call} {fresh : List Ptr}
    {before after : List (Ptr × List Ptr)} (effect : call.Effect fresh before after)
    (rings : Rings m (before ++ rest)) (new : ∀ p ∈ fresh, p ∉ ringNodes (before ++ rest)) :
    call.Does NGX_DEBUG m fresh before after rest := by
  suffices shape : Rings (call.run NGX_DEBUG m) (after ++ rest) ∧
      ∀ p ∉ fresh ++ ringNodes before, m.Untouched (call.run NGX_DEBUG m) p from
    ⟨shape.1, fun _ member => shape.1.inverse member, shape.2⟩
  cases effect with
  | init h =>
    have free := new h (List.mem_singleton_self h)
    have same : ngxQueueInit m h = m.link h h := rfl
    rw [Call.run, same]
    refine ⟨.cons (Ring.singleton m h) (rings.link_frame free free) ?_, fun p outside => ?_⟩
    · exact fun p inside => List.mem_singleton.mp inside ▸ free
    · have other : p ≠ h := by simpa using outside
      exact m.untouched_link other other
  | insertHead h x xs =>
    refine ⟨insertHead_rings rings (new x (List.mem_singleton_self x)), fun p outside => ?_⟩
    have apart : p ≠ x ∧ p ∉ h :: xs := by simpa [not_or] using outside
    exact @insert_after_untouched m h x [] xs p rings.head apart.1 apart.2
  | insertTail h x xs =>
    have free := new x (List.mem_singleton_self x)
    refine ⟨insertTail_rings rings free, fun p outside => ?_⟩
    have apart : p ≠ x ∧ p ∉ h :: xs := by simpa [not_or] using outside
    refine insertTail_untouched rings.head (fun inside => free ?_) apart.1 apart.2
    exact List.mem_append_left (ringNodes rest) inside
  | remove h x xs member =>
    refine ⟨?_, fun p outside => ?_⟩
    · obtain ⟨front, behind, rfl⟩ := List.append_of_mem member
      have first : x ∉ front := by
        have distinct := (List.nodup_cons.mp rings.head.distinct).2
        rw [List.nodup_middle, List.nodup_cons, List.mem_append, not_or] at distinct
        exact distinct.1.1
      rw [List.erase_append_right _ first, List.erase_cons_head]
      exact remove_rings NGX_DEBUG rings
    · refine remove_untouched NGX_DEBUG rings.head member ?_
      simpa [not_or] using outside
  | split h q n xs k kth =>
    have begins : (xs.drop k).head? = some q := by rw [List.head?_drop, kth]
    obtain ⟨last, ends⟩ : ∃ last, (xs.drop k).getLast? = some last := by
      obtain ⟨behind, same⟩ := List.head?_eq_some_iff.mp begins
      rw [same]
      exact ⟨_, List.getLast?_eq_some_getLast (List.cons_ne_nil q behind)⟩
    have whole : Rings m ((h, xs.take k ++ xs.drop k) :: rest) := by
      rw [List.take_append_drop]
      exact rings
    have free : n ∉ ringNodes ((h, xs.take k ++ xs.drop k) :: rest) := by
      rw [List.take_append_drop]
      exact new n (List.mem_singleton_self n)
    obtain ⟨parts, untouched⟩ := split_rings whole free begins ends
    refine ⟨parts.perm (.swap _ _ rest), fun p outside => ?_⟩
    rw [List.take_append_drop] at untouched
    have apart : p ≠ n ∧ p ∉ h :: xs := by simpa [not_or] using outside
    exact untouched p apart.1 apart.2
  | add h n xs ys =>
    exact add_rings rings

theorem split_add_rings {k : Nat} (rings : Rings m ((h, xs) :: rest))
    (fresh : n ∉ ringNodes ((h, xs) :: rest)) (kth : xs[k]? = some q) :
    Rings (ngxQueueAdd (ngxQueueSplit m h q n) h n) ((h, xs) :: rest) := by
  have parts := (Call.Effect.split h q n xs k kth).does false rings fun p member =>
    List.mem_singleton.mp member ▸ fresh
  have whole := (Call.Effect.add h n (xs.take k) (xs.drop k)).does false parts.1 (by simp)
  have joined := whole.1
  rw [List.take_append_drop] at joined
  exact joined

/-- The macros act on the queues of a heap as on sequences, a queue that is split can be put
together again, and the middle of a queue is where half of its length says. -/
theorem macros_as_sequences (NGX_DEBUG : Bool) (m : Heap) (rest : List (Ptr × List Ptr)) :
    (∀ call fresh before after, Call.Effect call fresh before after →
      Rings m (before ++ rest) → (∀ p ∈ fresh, p ∉ ringNodes (before ++ rest)) →
      call.Does NGX_DEBUG m fresh before after rest) ∧
    (∀ (h q n : Ptr) (xs : List Ptr) (k : Nat), Rings m ((h, xs) :: rest) →
      n ∉ ringNodes ((h, xs) :: rest) → xs[k]? = some q →
      Rings (ngxQueueAdd (ngxQueueSplit m h q n) h n) ((h, xs) :: rest)) ∧
    (∀ (h : Ptr) (xs : List Ptr), Rings m ((h, xs) :: rest) → 1 ≤ xs.length →
      ∃ middle, xs[xs.length / 2]? = some middle ∧
        Returns (fun fuel => ngxQueueMiddle fuel m h) middle) := by
  refine ⟨fun call fresh before after effect rings new => effect.does NGX_DEBUG rings new,
    fun h q n xs k rings fresh kth => split_add_rings rings fresh kth, ?_⟩
  intro h xs rings some_element
  have half : xs[xs.length / 2]? = some (xs.get ⟨xs.length / 2, by omega⟩) :=
    List.getElem?_eq_getElem (by omega)
  exact ⟨_, half, ngxQueueMiddle_returns rings.head half⟩

/-- A queue of two elements, and every other node alone. -/
def pairHeap : Heap where
  next p := if p = 1 then 2 else if p = 2 then 3 else if p = 3 then 1 else p
  prev p := if p = 1 then 3 else if p = 2 then 1 else if p = 3 then 2 else p

theorem macros_as_sequences_pair :
    (Call.insertTail 1 4).Does false pairHeap [4] [(1, [2, 3])] [(1, [2, 3] ++ [4])] [] ∧
      Rings (ngxQueueAdd (ngxQueueSplit pairHeap 1 2 4) 1 4) [(1, [2, 3])] ∧
      ∃ middle, [2, 3][1]? = some middle ∧
        Returns (fun fuel => ngxQueueMiddle fuel pairHeap 1) middle :=
  ⟨(macros_as_sequences false pairHeap []).1 _ _ _ _ (.insertTail 1 4 [2, 3]) (by decide)
      (by decide),
    (macros_as_sequences false pairHeap []).2.1 1 2 4 [2, 3] 0 (by decide) (by decide) rfl,
    (macros_as_sequences false pairHeap []).2.2 1 [2, 3] (by decide) (by decide)⟩

end CLibs.Queue
