import CLibs.General.Ring

/-!
# The kernel list

`list.h`: each function is its assignments one after the other, each on the memory that
the ones before it left. A loop fails when it runs out of `fuel`.
-/

set_option autoImplicit false
set_option linter.style.nameCheck false

namespace CLibs.SList

open General

abbrev Ptr := Nat

/-- The `next` and the `prev` of every `list_head`. -/
abbrev Heap := Links Ptr

def listPoison1 : Ptr := 0x00100100

def listPoison2 : Ptr := 0x00200200

def initListHead (m : Heap) (list : Ptr) : Heap :=
  let m := m.setNext list list
  m.setPrev list list

def __listAdd (m : Heap) (new prev next : Ptr) : Heap :=
  let m := m.setPrev next new
  let m := m.setNext new next
  let m := m.setPrev new prev
  m.setNext prev new

def listAdd (m : Heap) (new head : Ptr) : Heap := __listAdd m new head (m.next head)

def listAddTail (m : Heap) (new head : Ptr) : Heap := __listAdd m new (m.prev head) head

def __listDel (m : Heap) (prev next : Ptr) : Heap :=
  let m := m.setPrev next prev
  m.setNext prev next

def listDel (m : Heap) (entry : Ptr) : Heap :=
  let m := __listDel m (m.prev entry) (m.next entry)
  let m := m.setNext entry listPoison1
  m.setPrev entry listPoison2

def listReplace (m : Heap) (old new : Ptr) : Heap :=
  let m := m.setNext new (m.next old)
  let m := m.setPrev (m.next new) new
  let m := m.setPrev new (m.prev old)
  m.setNext (m.prev new) new

def listReplaceInit (m : Heap) (old new : Ptr) : Heap :=
  let m := listReplace m old new
  initListHead m old

def listDelInit (m : Heap) (entry : Ptr) : Heap :=
  let m := __listDel m (m.prev entry) (m.next entry)
  initListHead m entry

def listMove (m : Heap) (list head : Ptr) : Heap :=
  let m := __listDel m (m.prev list) (m.next list)
  listAdd m list head

def listMoveTail (m : Heap) (list head : Ptr) : Heap :=
  let m := __listDel m (m.prev list) (m.next list)
  listAddTail m list head

def listEmpty (m : Heap) (head : Ptr) : Bool := m.next head == head

def listIsSingular (m : Heap) (head : Ptr) : Bool :=
  !listEmpty m head && m.next head == m.prev head

def __listCutPosition (m : Heap) (list head entry : Ptr) : Heap :=
  let new_first := m.next entry
  let m := m.setNext list (m.next head)
  let m := m.setPrev (m.next list) list
  let m := m.setPrev list entry
  let m := m.setNext entry list
  let m := m.setNext head new_first
  m.setPrev new_first head

def listCutPosition (m : Heap) (list head entry : Ptr) : Heap :=
  if listEmpty m head then m
  else if listIsSingular m head && (m.next head != entry && head != entry) then m
  else if entry = head then initListHead m list
  else __listCutPosition m list head entry

def __listSplice (m : Heap) (list prev next : Ptr) : Heap :=
  let first := m.next list
  let last := m.prev list
  let m := m.setPrev first prev
  let m := m.setNext prev first
  let m := m.setNext last next
  m.setPrev next last

def listSplice (m : Heap) (list head : Ptr) : Heap :=
  if !listEmpty m list then __listSplice m list head (m.next head) else m

def listSpliceTail (m : Heap) (list head : Ptr) : Heap :=
  if !listEmpty m list then __listSplice m list (m.prev head) head else m

def listSpliceInit (m : Heap) (list head : Ptr) : Heap :=
  if !listEmpty m list then
    let m := __listSplice m list head (m.next head)
    initListHead m list
  else m

def listSpliceTailInit (m : Heap) (list head : Ptr) : Heap :=
  if !listEmpty m list then
    let m := __listSplice m list (m.prev head) head
    initListHead m list
  else m

section Iteration

variable {State : Type} (body : Heap → State → Ptr → Heap × State)

/-- `list_for_each_safe` from `pos` and `n` on, with the `body` of the loop. -/
def forEachSafe (head : Ptr) : Nat → Heap → State → Ptr → Ptr → Option (Heap × State)
  | 0, _, _, _, _ => none
  | fuel + 1, m, state, pos, n =>
    if pos ≠ head then
      let (m, state) := body m state pos
      let pos := n
      let n := m.next pos
      forEachSafe head fuel m state pos n
    else some (m, state)

def listForEachSafe (fuel : Nat) (m : Heap) (state : State) (head : Ptr) :
    Option (Heap × State) :=
  let pos := m.next head
  let n := m.next pos
  forEachSafe body head fuel m state pos n

end Iteration

end CLibs.SList
