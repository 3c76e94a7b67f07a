import CLibs.General.StableSort
import CLibs.Queue.Sequences

/-!
# Sorting a queue

Each turn of `ngx_queue_sort` takes one node out of the queue it walks and puts it back
among the nodes before it. What it has walked is always sorted.
-/

set_option autoImplicit false

namespace CLibs.Queue

open General

variable {m : Heap} {h q : Ptr} {xs zs : List Ptr} {rest : List (Ptr × List Ptr)}
variable {cmp : Ptr → Ptr → Int}

/-- The inner loop stops behind `front`: all of `back` is greater than `q`. -/
theorem scanBack_eq (ring : Ring m h (xs ++ zs)) (some_node : xs ≠ []) :
    ∃ front back, xs = front ++ back ∧ (∀ b ∈ back, ¬ cmp b q ≤ 0) ∧
      (∀ last ∈ front.getLast?, cmp last q ≤ 0) ∧
      ∀ fuel, xs.length ≤ fuel →
        scanBack cmp m h q fuel (xs.getLastD h) = some (front.getLastD h) := by
  induction xs using List.reverseRecOn generalizing zs with
  | nil => exact absurd rfl some_node
  | append_singleton before prev ih =>
    have turn : ∀ fuel, (before ++ [prev]).length ≤ fuel → ∃ fuel', fuel = fuel' + 1 ∧
        before.length ≤ fuel' := by
      intro fuel enough
      rw [List.length_append, List.length_singleton] at enough
      exact ⟨fuel - 1, by omega, by omega⟩
    rw [List.getLastD_concat]
    by_cases stop : cmp prev q ≤ 0
    · refine ⟨before ++ [prev], [], by simp, by simp, ?_, fun fuel enough => ?_⟩
      · intro last found
        rw [List.getLast?_concat, Option.mem_def, Option.some.injEq] at found
        rw [← found]
        exact stop
      · obtain ⟨fuel, rfl, -⟩ := turn fuel enough
        rw [scanBack, if_pos stop, List.getLastD_concat]
    rw [List.append_assoc, List.singleton_append] at ring
    have back : m.prev prev = before.getLastD h := ring.prev_member
    by_cases first : before = []
    · subst first
      refine ⟨[], [prev], rfl, by simpa using stop, by simp, fun fuel enough => ?_⟩
      obtain ⟨fuel, rfl, -⟩ := turn fuel enough
      rw [scanBack, if_neg stop, ngxQueuePrev, back]
      exact if_neg fun other => other rfl
    · obtain ⟨front, behind, rfl, greater, last, scan⟩ := ih ring first
      refine ⟨front, behind ++ [prev], by simp, ?_, last, fun fuel enough => ?_⟩
      · intro b member
        rcases List.mem_append.mp member with inside | same
        · exact greater b inside
        · exact List.mem_singleton.mp same ▸ stop
      · obtain ⟨fuel, rfl, less⟩ := turn fuel enough
        have inside : (front ++ behind).getLastD h ≠ ngxQueueSentinel h :=
          ring.getLastD_ne_head first
        rw [scanBack, if_neg stop, ngxQueuePrev, back]
        exact (if_pos inside).trans (scan fuel less)

theorem turn_rings (NGX_DEBUG : Bool) {done todo : List Ptr}
    (rings : Rings m ((h, done ++ q :: todo) :: rest)) (some_node : done ≠ []) :
    ∃ front back, done = front ++ back ∧ (∀ b ∈ back, ¬ cmp b q ≤ 0) ∧
      (∀ last ∈ front.getLast?, cmp last q ≤ 0) ∧
      (∀ fuel, done.length ≤ fuel →
        scanBack cmp (ngxQueueRemove NGX_DEBUG m q) h q fuel (done.getLastD h) =
          some (front.getLastD h)) ∧
      Rings (ngxQueueInsertAfter (ngxQueueRemove NGX_DEBUG m q) (front.getLastD h) q)
        ((h, front ++ q :: back ++ todo) :: rest) ∧
      ∀ p ∉ h :: (done ++ q :: todo), m.Untouched
        (ngxQueueInsertAfter (ngxQueueRemove NGX_DEBUG m q) (front.getLastD h) q) p := by
  have member : q ∈ done ++ q :: todo := by simp
  have removed := remove_rings NGX_DEBUG rings
  have free : q ∉ ringNodes ((h, done ++ todo) :: rest) := by
    have distinct := rings.distinct
    rw [ringNodes_cons, List.append_assoc, List.cons_append, ← List.cons_append,
      List.nodup_middle, List.nodup_cons] at distinct
    rw [ringNodes_cons, List.append_assoc]
    exact distinct.1
  obtain ⟨front, back, rfl, greater, last, scan⟩ := scanBack_eq removed.head some_node
  rw [List.append_assoc] at removed free
  refine ⟨front, back, rfl, greater, last, scan, ?_, fun p outside => ?_⟩
  · rw [List.append_assoc, List.cons_append]
    exact insert_after_rings removed free
  · refine (remove_untouched NGX_DEBUG rings.head member outside).trans ?_
    refine insert_after_untouched removed.head ?_ fun inside => outside ?_
    · rintro rfl
      exact outside (List.mem_cons_of_mem h member)
    · simp only [List.mem_cons, List.mem_append] at inside ⊢
      tauto

/-- `m'` is `m` with the queue sorted: `ys` is on it now. -/
structure Sorts (cmp : Ptr → Ptr → Int) (m m' : Heap) (h : Ptr) (xs ys : List Ptr)
    (rest : List (Ptr × List Ptr)) : Prop where
  rings : Rings m' ((h, ys) :: rest)
  order : StableSortOf (fun a b => cmp a b ≤ 0) xs ys
  untouched : ∀ p ∉ h :: xs, m.Untouched m' p

/-- The outer loop: `done` is what it has `walked`, sorted, and `q` is the first of `todo`. -/
theorem sortLoop_sorts (NGX_DEBUG : Bool) {walked done todo : List Ptr}
    (rings : Rings m ((h, done ++ todo) :: rest)) (some_node : done ≠ [])
    (sorted : StableSortOf (fun a b => cmp a b ≤ 0) walked done)
    (order : TotalPreorderOn (fun a b => cmp a b ≤ 0) (walked ++ todo)) :
    ∃ m' ys, Sorts cmp m m' h (walked ++ todo) ys rest ∧
      ∀ fuel, done.length + 2 * todo.length < fuel →
        sortLoop NGX_DEBUG cmp h fuel m (todo.headD h) = some m' := by
  induction todo generalizing m walked done with
  | nil =>
    rw [List.append_nil] at rings ⊢
    refine ⟨m, done, ⟨rings, sorted, fun p _ => ⟨rfl, rfl⟩⟩, fun fuel enough => ?_⟩
    obtain ⟨fuel, rfl⟩ : ∃ fuel', fuel = fuel' + 1 := ⟨fuel - 1, by omega⟩
    exact if_pos rfl
  | cons q todo ih =>
    have prev : m.prev q = done.getLastD h := rings.head.prev_member
    have next : m.next q = todo.headD h := rings.head.next_member
    have other : q ≠ ngxQueueSentinel h := rings.head.ne_head (by simp)
    obtain ⟨front, back, rfl, greater, last, scan, turned, untouched⟩ :=
      turn_rings NGX_DEBUG rings some_node
    have placed := sorted.place (order.mono (by simp)) greater last
    rw [List.append_cons] at order ⊢
    obtain ⟨m', ys, sorts, run⟩ := ih turned (by simp) placed order
    refine ⟨m', ys, ⟨sorts.rings, sorts.order, fun p outside => ?_⟩, fun fuel enough => ?_⟩
    · refine (untouched p fun inside => outside ?_).trans (sorts.untouched p outside)
      simp only [List.mem_cons, List.mem_append] at inside ⊢
      have same : p ∈ front ++ back ↔ p ∈ walked := sorted.perm.mem_iff
      rw [List.mem_append] at same
      tauto
    · simp only [List.length_append, List.length_cons] at enough run
      obtain ⟨fuel, rfl⟩ : ∃ fuel', fuel = fuel' + 1 := ⟨fuel - 1, by omega⟩
      rw [List.headD_cons, sortLoop, if_neg other, ngxQueuePrev, ngxQueueNext, prev, next]
      dsimp only
      rw [scan (fuel + 1) (by rw [List.length_append]; omega)]
      exact run fuel (by omega)

theorem ngxQueueSort_sorts (NGX_DEBUG : Bool) (rings : Rings m ((h, xs) :: rest))
    (order : TotalPreorderOn (fun a b => cmp a b ≤ 0) xs) :
    ∃ m' ys, Sorts cmp m m' h xs ys rest ∧
      Returns (fun fuel => ngxQueueSort NGX_DEBUG fuel m h cmp) m' := by
  have head := rings.head.next_head
  have last := rings.head.prev_head
  have short : m.next h = m.prev h → xs.Pairwise (fun a b => cmp a b ≤ 0) →
      ∃ m' ys, Sorts cmp m m' h xs ys rest ∧
        Returns (fun fuel => ngxQueueSort NGX_DEBUG fuel m h cmp) m' := by
    intro same sorted
    refine ⟨m, xs, ⟨rings, .refl sorted, fun p _ => ⟨rfl, rfl⟩⟩, 0, fun fuel _ => ?_⟩
    exact if_pos same
  match xs with
  | [] => exact short (head.trans last.symm) .nil
  | [x] => exact short (head.trans last.symm) (List.pairwise_singleton _ x)
  | x :: y :: zs =>
    have distinct := (List.nodup_cons.mp rings.head.distinct).2
    have other : m.next h ≠ m.prev h := by
      rw [head, last, List.headD_cons, List.getLastD_cons, List.getLastD_cons]
      exact (ne_of_mem_of_not_mem List.getLastD_mem_cons (List.nodup_cons.mp distinct).1).symm
    have second : m.next x = y := by
      have whole : Ring m h ([] ++ x :: y :: zs) := rings.head
      exact whole.next_member
    have start : StableSortOf (fun a b => cmp a b ≤ 0) [x] [x] :=
      .refl (List.pairwise_singleton _ x)
    have whole : Rings m ((h, [x] ++ y :: zs) :: rest) := rings
    obtain ⟨m', ys, sorts, run⟩ := sortLoop_sorts NGX_DEBUG whole (by simp) start order
    refine ⟨m', ys, sorts, [x].length + 2 * (y :: zs).length + 1, fun fuel enough => ?_⟩
    show ngxQueueSort NGX_DEBUG fuel m h cmp = some m'
    have first : m.next h = x := head
    rw [first] at other
    rw [ngxQueueSort, ngxQueueHead, first, ngxQueueLast, if_neg other, ngxQueueNext,
      second]
    exact run fuel (by omega)

/-- The callback of `test.c`, which only tells whether `q1` is greater. -/
def sortCb (order : Ptr → Int) (q1 q2 : Ptr) : Int := if order q1 > order q2 then 1 else 0

theorem sortCb_preorder (order : Ptr → Int) (xs : List Ptr) :
    TotalPreorderOn (fun a b => sortCb order a b ≤ 0) xs := by
  have same : ∀ a b, sortCb order a b ≤ 0 ↔ order a ≤ order b := by
    intro a b
    rw [sortCb]
    split <;> omega
  simp only [same]
  exact ⟨fun a _ b _ => Int.le_total _ _, fun a _ b _ c _ => Int.le_trans⟩

/-- The queue holds the same nodes afterwards, sorted, those that compare equal in their old
order. -/
theorem ngxQueueSort_stable (NGX_DEBUG : Bool) (m : Heap) (h : Ptr) (xs : List Ptr)
    (rest : List (Ptr × List Ptr)) (cmp : Ptr → Ptr → Int)
    (rings : Rings m ((h, xs) :: rest))
    (order : TotalPreorderOn (fun a b => cmp a b ≤ 0) xs) :
    ∃ m' ys, Returns (fun fuel => ngxQueueSort NGX_DEBUG fuel m h cmp) m' ∧
      Rings m' ((h, ys) :: rest) ∧
      (∀ p ∈ h :: ys, m'.next (m'.prev p) = p ∧ m'.prev (m'.next p) = p) ∧
      StableSortOf (fun a b => cmp a b ≤ 0) xs ys ∧
      ∀ p ∉ h :: xs, m.Untouched m' p := by
  obtain ⟨m', ys, sorts, returns⟩ := ngxQueueSort_sorts NGX_DEBUG rings order
  exact ⟨m', ys, returns, sorts.rings, fun p member => sorts.rings.head.inverse member, sorts.order,
    sorts.untouched⟩

theorem ngxQueueSort_stable_pair :
    ∃ m' ys, Returns (fun fuel => ngxQueueSort false fuel pairHeap 1 (sortCb fun p => -p)) m' ∧
      Rings m' [(1, ys)] ∧
      (∀ p ∈ 1 :: ys, m'.next (m'.prev p) = p ∧ m'.prev (m'.next p) = p) ∧
      StableSortOf (fun a b => sortCb (fun p => -p) a b ≤ 0) [2, 3] ys ∧
      ∀ p ∉ [1, 2, 3], pairHeap.Untouched m' p :=
  ngxQueueSort_stable false pairHeap 1 [2, 3] [] _ (by decide) (sortCb_preorder _ _)

example : (ngxQueueSort false 6 pairHeap 1 (sortCb fun p => -p)).map
    (fun m => (m.next 1, m.next 3, m.next 2)) = some (3, 2, 1) := by decide

end CLibs.Queue
