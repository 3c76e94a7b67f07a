import CLibs.General.Ring

/-!
# The queue

`ngx_queue.h` and `ngx_queue.c`. A macro is its assignments one after the other, each on
the memory that the ones before it left. A loop fails when it runs out of `fuel`.
-/

set_option autoImplicit false

namespace CLibs.Queue

open General

abbrev Ptr := Nat

def null : Ptr := 0

/-- The `prev` and the `next` of every `ngx_queue_t`. -/
abbrev Heap := Links Ptr

def ngxQueueInit (m : Heap) (q : Ptr) : Heap :=
  let m := m.setPrev q q
  m.setNext q q

def ngxQueueEmpty (m : Heap) (h : Ptr) : Bool := h == m.prev h

def ngxQueueInsertHead (m : Heap) (h x : Ptr) : Heap :=
  let m := m.setNext x (m.next h)
  let m := m.setPrev (m.next x) x
  let m := m.setPrev x h
  m.setNext h x

def ngxQueueInsertAfter : Heap → Ptr → Ptr → Heap := ngxQueueInsertHead

def ngxQueueInsertTail (m : Heap) (h x : Ptr) : Heap :=
  let m := m.setPrev x (m.prev h)
  let m := m.setNext (m.prev x) x
  let m := m.setNext x h
  m.setPrev h x

def ngxQueueHead (m : Heap) (h : Ptr) : Ptr := m.next h

def ngxQueueLast (m : Heap) (h : Ptr) : Ptr := m.prev h

def ngxQueueSentinel (h : Ptr) : Ptr := h

def ngxQueueNext (m : Heap) (q : Ptr) : Ptr := m.next q

def ngxQueuePrev (m : Heap) (q : Ptr) : Ptr := m.prev q

/-- The macro has two texts, one for builds with `NGX_DEBUG`. -/
def ngxQueueRemove (NGX_DEBUG : Bool) (m : Heap) (x : Ptr) : Heap :=
  let m := m.setPrev (m.next x) (m.prev x)
  let m := m.setNext (m.prev x) (m.next x)
  if NGX_DEBUG then
    let m := m.setPrev x null
    m.setNext x null
  else m

/-- `q` becomes the first of the queue `n`. -/
def ngxQueueSplit (m : Heap) (h q n : Ptr) : Heap :=
  let m := m.setPrev n (m.prev h)
  let m := m.setNext (m.prev n) n
  let m := m.setNext n q
  let m := m.setPrev h (m.prev q)
  let m := m.setNext (m.prev h) h
  m.setPrev q n

def ngxQueueAdd (m : Heap) (h n : Ptr) : Heap :=
  let m := m.setNext (m.prev h) (m.next n)
  let m := m.setPrev (m.next n) (m.prev h)
  let m := m.setPrev h (m.prev n)
  m.setNext (m.prev h) h

/-- The walk of `ngx_queue_middle`: `middle` goes one step where `next` goes two. -/
def middleLoop (m : Heap) (queue : Ptr) : Nat → Ptr → Ptr → Option Ptr
  | 0, _, _ => none
  | fuel + 1, middle, next =>
    let middle := ngxQueueNext m middle
    let next := ngxQueueNext m next
    if next = ngxQueueLast m queue then some middle
    else
      let next := ngxQueueNext m next
      if next = ngxQueueLast m queue then some middle
      else middleLoop m queue fuel middle next

def ngxQueueMiddle (fuel : Nat) (m : Heap) (queue : Ptr) : Option Ptr :=
  let middle := ngxQueueHead m queue
  if middle = ngxQueueLast m queue then some middle
  else middleLoop m queue fuel middle (ngxQueueHead m queue)

/-- The inner loop of `ngx_queue_sort`: back from `prev` to what `q` goes behind. -/
def scanBack (cmp : Ptr → Ptr → Int) (m : Heap) (queue q : Ptr) : Nat → Ptr → Option Ptr
  | 0, _ => none
  | fuel + 1, prev =>
    if cmp prev q ≤ 0 then some prev
    else
      let prev := ngxQueuePrev m prev
      if prev ≠ ngxQueueSentinel queue then scanBack cmp m queue q fuel prev else some prev

def sortLoop (NGX_DEBUG : Bool) (cmp : Ptr → Ptr → Int) (queue : Ptr) :
    Nat → Heap → Ptr → Option Heap
  | 0, _, _ => none
  | fuel + 1, m, q =>
    if q = ngxQueueSentinel queue then some m
    else do
      let prev := ngxQueuePrev m q
      let next := ngxQueueNext m q
      let m := ngxQueueRemove NGX_DEBUG m q
      let prev ← scanBack cmp m queue q (fuel + 1) prev
      sortLoop NGX_DEBUG cmp queue fuel (ngxQueueInsertAfter m prev q) next

def ngxQueueSort (NGX_DEBUG : Bool) (fuel : Nat) (m : Heap) (queue : Ptr)
    (cmp : Ptr → Ptr → Int) : Option Heap :=
  let q := ngxQueueHead m queue
  if q = ngxQueueLast m queue then some m
  else sortLoop NGX_DEBUG cmp queue fuel m (ngxQueueNext m q)

end CLibs.Queue
