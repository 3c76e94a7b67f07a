import Mathlib.Data.List.Chain
import Mathlib.Data.List.Nodup
import Mathlib.Data.List.Perm.Basic
import Mathlib.Logic.Function.Basic
import Mathlib.Tactic.Tauto

/-!
# Circular doubly linked lists

A memory of nodes, one function for each of their two fields. A list is its head and the
nodes from there around. Every rewiring here is made of `link`: one node takes the
other as its next, and is taken as its previous one.
-/

set_option autoImplicit false

namespace CLibs.General

/-- The two fields of every node. -/
@[ext]
structure Links (α : Type) where
  next : α → α
  prev : α → α

namespace Links

variable {α : Type} [DecidableEq α]

def setNext (m : Links α) (p value : α) : Links α :=
  { m with next := Function.update m.next p value }

def setPrev (m : Links α) (p value : α) : Links α :=
  { m with prev := Function.update m.prev p value }

def link (m : Links α) (a b : α) : Links α := (m.setNext a b).setPrev b a

@[simp] theorem setNext_next (m : Links α) (p value : α) :
    (m.setNext p value).next = Function.update m.next p value := rfl

@[simp] theorem setNext_prev (m : Links α) (p value : α) :
    (m.setNext p value).prev = m.prev := rfl

@[simp] theorem setPrev_next (m : Links α) (p value : α) :
    (m.setPrev p value).next = m.next := rfl

@[simp] theorem setPrev_prev (m : Links α) (p value : α) :
    (m.setPrev p value).prev = Function.update m.prev p value := rfl

theorem link_comm (m : Links α) {a b c d : α} (sources : a ≠ c) (targets : b ≠ d) :
    (m.link a b).link c d = (m.link c d).link a b := by
  ext p
  · simp only [link, setPrev_next, setNext_next]
    rw [Function.update_comm sources]
  · simp only [link, setPrev_prev, setNext_prev]
    rw [Function.update_comm targets]

end Links

variable {α : Type}

/-- Neither field of `p` is another one. -/
def Links.Untouched (m m' : Links α) (p : α) : Prop :=
  m'.next p = m.next p ∧ m'.prev p = m.prev p

theorem Links.untouched_link [DecidableEq α] (m : Links α) {a b p : α} (source : p ≠ a)
    (target : p ≠ b) : m.Untouched (m.link a b) p :=
  ⟨Function.update_of_ne source .., Function.update_of_ne target ..⟩

theorem Links.Untouched.trans {m m' m'' : Links α} {p : α} (first : m.Untouched m' p)
    (second : m'.Untouched m'' p) : m.Untouched m'' p :=
  ⟨second.1.trans first.1, second.2.trans first.2⟩

def Links.Linked (m : Links α) (a b : α) : Prop := m.next a = b ∧ m.prev b = a

instance [DecidableEq α] (m : Links α) : DecidableRel m.Linked :=
  fun a b => inferInstanceAs (Decidable (m.next a = b ∧ m.prev b = a))

/-- Each node of the sequence is linked to the one after it. -/
def Links.Chained (m : Links α) (nodes : List α) : Prop := nodes.IsChain m.Linked

instance [DecidableEq α] (m : Links α) (nodes : List α) : Decidable (m.Chained nodes) :=
  inferInstanceAs (Decidable (nodes.IsChain m.Linked))

namespace Links.Chained

theorem frame {m m' : Links α} {nodes : List α} (chained : m.Chained nodes)
    (next : ∀ p ∈ nodes.dropLast, m'.next p = m.next p)
    (prev : ∀ p ∈ nodes.tail, m'.prev p = m.prev p) : m'.Chained nodes := by
  induction nodes with
  | nil => exact .nil
  | cons a rest ih =>
    cases rest with
    | nil => exact .singleton a
    | cons b rest =>
      obtain ⟨linked, chained⟩ := List.isChain_cons_cons.mp chained
      refine List.isChain_cons_cons.mpr ⟨⟨?_, ?_⟩, ?_⟩
      · rw [next a (by simp), linked.1]
      · rw [prev b (by simp), linked.2]
      · refine ih chained (fun p member => ?_) fun p member => ?_
        · exact next p (by simp [member])
        · exact prev p (List.mem_cons_of_mem _ member)

/-- Two chains become one by linking the last node of the one to the first of the other. -/
theorem link [DecidableEq α] {m : Links α} {before after : List α} {a b : α}
    (left : m.Chained (before ++ [a])) (right : m.Chained (b :: after))
    (sources : (before ++ a :: (b :: after).dropLast).Nodup)
    (targets : ((before ++ [a]).tail ++ b :: after).Nodup) :
    (m.link a b).Chained (before ++ a :: b :: after) := by
  have apart : a ∉ before ∧ a ∉ (b :: after).dropLast := by
    rw [List.nodup_middle, List.nodup_cons, List.mem_append] at sources
    exact ⟨fun member => sources.1 (.inl member), fun member => sources.1 (.inr member)⟩
  have apart' : b ∉ (before ++ [a]).tail ∧ b ∉ after := by
    rw [List.nodup_middle, List.nodup_cons, List.mem_append] at targets
    exact ⟨fun member => targets.1 (.inl member), fun member => targets.1 (.inr member)⟩
  refine List.isChain_append_cons_cons.mpr ⟨?_, ⟨?_, ?_⟩, ?_⟩
  · refine left.frame (fun p member => ?_) fun p member => ?_
    · rw [List.dropLast_concat] at member
      exact Function.update_of_ne (ne_of_mem_of_not_mem member apart.1) ..
    · exact Function.update_of_ne (ne_of_mem_of_not_mem member apart'.1) ..
  · exact Function.update_self ..
  · exact Function.update_self ..
  · refine right.frame (fun p member => ?_) fun p member => ?_
    · exact Function.update_of_ne (ne_of_mem_of_not_mem member apart.2) ..
    · exact Function.update_of_ne (ne_of_mem_of_not_mem member apart'.2) ..

end Links.Chained

theorem headD_mem_cons (xs : List α) (h : α) : xs.headD h ∈ h :: xs := by
  cases xs <;> simp

/-- `xs` is on the circular list of `h`. -/
structure Ring (m : Links α) (h : α) (xs : List α) : Prop where
  distinct : (h :: xs).Nodup
  closed : m.Chained (h :: (xs ++ [h]))

instance [DecidableEq α] (m : Links α) (h : α) (xs : List α) : Decidable (Ring m h xs) :=
  decidable_of_iff ((h :: xs).Nodup ∧ m.Chained (h :: (xs ++ [h])))
    ⟨fun both => ⟨both.1, both.2⟩, fun ring => ⟨ring.distinct, ring.closed⟩⟩

namespace Ring

variable {m m' : Links α} {h t : α} {xs ys : List α}

theorem frame (ring : Ring m h xs) (untouched : ∀ p ∈ h :: xs, m.Untouched m' p) :
    Ring m' h xs := by
  refine ⟨ring.distinct, ring.closed.frame (fun p member => ?_) fun p member => ?_⟩
  · rw [← List.cons_append, List.dropLast_concat] at member
    exact (untouched p member).1
  · rw [List.tail_cons, List.mem_append, List.mem_singleton] at member
    refine (untouched p ?_).2
    exact member.elim (fun inside => List.mem_cons_of_mem _ inside) fun same => by simp [same]

theorem rotate (ring : Ring m h (xs ++ t :: ys)) : Ring m t (ys ++ h :: xs) := by
  have closed := ring.closed
  rw [List.append_assoc, List.cons_append, ← List.cons_append, Links.Chained,
    List.isChain_split] at closed
  refine ⟨?_, ?_⟩
  · have same : (t :: (ys ++ h :: xs)).Perm (h :: (xs ++ t :: ys)) :=
      (@List.perm_append_comm _ (t :: ys) (h :: xs)).trans (by simp)
    exact same.nodup_iff.mpr ring.distinct
  · rw [List.append_assoc, List.cons_append, ← List.cons_append]
    exact List.isChain_split.mpr ⟨closed.2, closed.1⟩

theorem next_head (ring : Ring m h xs) : m.next h = xs.headD h := by
  have closed := ring.closed
  cases xs with
  | nil => exact (List.isChain_cons_cons.mp closed).1.1
  | cons x xs => exact (List.isChain_cons_cons.mp closed).1.1

theorem prev_head (ring : Ring m h xs) : m.prev h = xs.getLastD h := by
  have closed := ring.closed
  cases xs using List.reverseRecOn with
  | nil => exact (List.isChain_cons_cons.mp closed).1.2
  | append_singleton xs x =>
    rw [List.append_assoc, ← List.cons_append, Links.Chained, List.singleton_append,
      List.isChain_append_cons_cons] at closed
    rw [List.getLastD_concat]
    exact closed.2.1.2

theorem ne_head (ring : Ring m h xs) {x : α} (member : x ∈ xs) : x ≠ h :=
  ne_of_mem_of_not_mem member (List.nodup_cons.mp ring.distinct).1

theorem getLastD_ne_head (ring : Ring m h (xs ++ ys)) (some : xs ≠ []) : xs.getLastD h ≠ h := by
  rw [List.getLastD_eq_getLast?, List.getLast?_eq_some_getLast some, Option.getD_some]
  exact ring.ne_head (List.mem_append_left ys (List.getLast_mem some))

theorem next_head_eq_iff (ring : Ring m h xs) : m.next h = h ↔ xs = [] := by
  rw [ring.next_head]
  cases xs with
  | nil => exact iff_of_true rfl rfl
  | cons x xs => exact iff_of_false (ring.ne_head List.mem_cons_self) (List.cons_ne_nil x xs)

theorem prev_head_eq_iff (ring : Ring m h xs) : m.prev h = h ↔ xs = [] := by
  rw [ring.prev_head]
  cases xs using List.reverseRecOn with
  | nil => exact iff_of_true rfl rfl
  | append_singleton xs x =>
    rw [List.getLastD_concat]
    have other := ring.ne_head (List.mem_append_right xs (List.mem_singleton_self x))
    exact iff_of_false other (List.append_ne_nil_of_right_ne_nil xs (List.cons_ne_nil x []))

theorem next_member (ring : Ring m h (xs ++ t :: ys)) : m.next t = ys.headD h := by
  rw [ring.rotate.next_head]
  cases ys with
  | nil => rfl
  | cons y ys => rfl

theorem prev_member (ring : Ring m h (xs ++ t :: ys)) : m.prev t = xs.getLastD h := by
  rw [ring.rotate.prev_head]
  cases xs using List.reverseRecOn with
  | nil => exact List.getLastD_concat ..
  | append_singleton xs x =>
    rw [← List.cons_append, ← List.append_assoc, List.getLastD_concat, List.getLastD_concat]

theorem next_at (ring : Ring m h (xs ++ ys)) : m.next (xs.getLastD h) = ys.headD h := by
  cases xs using List.reverseRecOn with
  | nil => exact ring.next_head
  | append_singleton xs x =>
    rw [List.getLastD_concat]
    rw [List.append_assoc, List.singleton_append] at ring
    exact ring.next_member

theorem prev_at (ring : Ring m h (xs ++ ys)) : m.prev (ys.headD h) = xs.getLastD h := by
  cases ys with
  | nil =>
    rw [List.append_nil] at ring
    exact ring.prev_head
  | cons y ys => exact ring.prev_member

theorem next_getElem? {i : Nat} {p q : α} (ring : Ring m h xs) (here : xs[i]? = some p)
    (there : xs[i + 1]? = some q) : m.next p = q := by
  obtain ⟨bound, rfl⟩ := List.getElem?_eq_some_iff.mp here
  have split : xs = xs.take i ++ xs[i] :: xs.drop (i + 1) := by
    rw [← List.drop_eq_getElem_cons, List.take_append_drop]
  rw [split] at ring
  rw [ring.next_member, List.headD_eq_head?_getD, List.head?_drop, there, Option.getD_some]

theorem prev_head_getElem? {p : α} (ring : Ring m h xs) (last : xs[xs.length - 1]? = some p) :
    m.prev h = p := by
  rw [ring.prev_head, List.getLastD_eq_getLast?, List.getLast?_eq_getElem?, last, Option.getD_some]

theorem chained (ring : Ring m h xs) : m.Chained xs :=
  (List.isChain_append.mp ring.closed.tail).1

/-- The two fields are inverse to each other on the list. -/
theorem inverse {p : α} (ring : Ring m h xs) (member : p ∈ h :: xs) :
    m.next (m.prev p) = p ∧ m.prev (m.next p) = p := by
  have all : ∀ {t zs}, Ring m t zs → m.next (m.prev t) = t ∧ m.prev (m.next t) = t := by
    intro t zs turned
    refine ⟨?_, ?_⟩
    · rw [turned.prev_head]
      cases zs using List.reverseRecOn with
      | nil => exact turned.next_head
      | append_singleton zs z =>
        rw [List.getLastD_concat]
        exact turned.next_member
    · rw [turned.next_head]
      cases zs with
      | nil => exact turned.prev_head
      | cons z zs =>
        rw [← List.nil_append (z :: zs)] at turned
        exact turned.prev_member
  rcases List.mem_cons.mp member with rfl | inside
  · exact all ring
  · obtain ⟨before, after, rfl⟩ := List.append_of_mem inside
    exact all ring.rotate

variable [DecidableEq α]

theorem close {first : α} (chained : m.Chained (ys ++ [h])) (distinct : (h :: ys).Nodup)
    (begins : (ys ++ [h]).head? = some first) : Ring (m.link h first) h ys := by
  obtain ⟨after, follows⟩ := List.head?_eq_some_iff.mp begins
  rw [follows] at chained
  have alone : m.Chained ([] ++ [h]) := .singleton h
  have joined := Links.Chained.link alone chained
  rw [List.nil_append, ← follows, List.dropLast_concat] at joined
  refine ⟨distinct, joined distinct ?_⟩
  rw [List.nil_append, List.tail_cons, List.nil_append]
  exact (List.perm_append_singleton h ys).nodup_iff.mpr distinct

theorem singleton (m : Links α) (p : α) : Ring (m.link p p) p [] :=
  close (.singleton p) (List.nodup_singleton p) rfl

/-- A list of its own for the nodes `ys`, which are linked among themselves. -/
theorem of_chained {first last : α} (chained : m.Chained ys) (distinct : (h :: ys).Nodup)
    (begins : ys.head? = some first) (ends : ys.getLast? = some last) :
    Ring ((m.link last h).link h first) h ys := by
  have targets : (ys ++ [h]).Nodup := (List.perm_append_singleton h ys).nodup_iff.mpr distinct
  obtain ⟨inside, rfl⟩ := List.getLast?_eq_some_iff.mp ends
  refine close ?_ distinct (by rw [List.head?_append, begins]; rfl)
  rw [List.append_assoc]
  refine Links.Chained.link chained (.singleton h) ?_ ?_
  · exact (List.nodup_cons.mp distinct).2
  · exact targets.sublist ((List.tail_sublist _).append_right _)

private theorem excise_first (ring : Ring m h (ys ++ xs)) :
    Ring (m.link h (xs.headD h)) h xs ∧ (m.link h (xs.headD h)).Chained ys := by
  obtain ⟨b, after, follows, first⟩ : ∃ b after, xs ++ [h] = b :: after ∧ xs.headD h = b := by
    cases xs with
    | nil => exact ⟨h, [], rfl, rfl⟩
    | cons x xs => exact ⟨x, xs ++ [h], rfl, rfl⟩
  rw [first]
  have closed := ring.closed
  rw [List.append_assoc, follows, Links.Chained, List.isChain_cons] at closed
  obtain ⟨inner, outer, -⟩ := List.isChain_append.mp closed.2
  have distinct := ring.distinct
  rw [List.nodup_cons, List.nodup_append, List.mem_append] at distinct
  obtain ⟨fresh, -, alone, apart⟩ := distinct
  have nodup : (h :: xs).Nodup :=
    List.nodup_cons.mpr ⟨fun member => fresh (.inr member), alone⟩
  refine ⟨close ?_ nodup (by rw [follows]; rfl), ?_⟩
  · rw [follows]
    exact outer
  · have other : ∀ p ∈ ys, p ≠ h ∧ p ≠ b := by
      intro p member
      have here : b ∈ xs ++ [h] := by rw [follows]; exact List.mem_cons_self
      have notHead : p ≠ h := fun same => fresh (.inl (same ▸ member))
      refine ⟨notHead, fun same => ?_⟩
      rcases List.mem_append.mp here with inside | last
      · exact apart p member b inside same
      · exact notHead (same.trans (List.mem_singleton.mp last))
    refine Links.Chained.frame inner (fun p member => ?_) fun p member => ?_
    · exact Function.update_of_ne (other p (List.dropLast_subset _ member)).1 ..
    · exact Function.update_of_ne (other p (List.mem_of_mem_tail member)).2 ..

/-- Taking the nodes `ys` out: what is before them is linked to what is behind. -/
theorem excise {zs : List α} (ring : Ring m h (xs ++ (ys ++ zs))) :
    Ring (m.link (xs.getLastD h) (zs.headD h)) h (xs ++ zs) ∧
      (m.link (xs.getLastD h) (zs.headD h)).Chained ys := by
  cases xs using List.reverseRecOn with
  | nil =>
    rw [List.nil_append] at ring ⊢
    exact ring.excise_first
  | append_singleton xs t =>
    rw [List.append_assoc, List.singleton_append] at ring ⊢
    have turned := ring.rotate
    rw [List.append_assoc] at turned
    have taken := turned.excise_first
    have follows : (zs ++ h :: xs).headD t = zs.headD h := by cases zs <;> rfl
    rw [follows] at taken
    rw [List.getLastD_concat]
    exact ⟨taken.1.rotate, taken.2⟩

private theorem splice_first {first last : α} (ring : Ring m h xs) (chained : m.Chained ys)
    (distinct : (h :: (ys ++ xs)).Nodup) (begins : ys.head? = some first)
    (ends : ys.getLast? = some last) :
    Ring ((m.link last (xs.headD h)).link h first) h (ys ++ xs) := by
  have targets : (ys ++ (xs ++ [h])).Nodup := by
    rw [← List.append_assoc]
    exact (List.perm_append_singleton h _).nodup_iff.mpr distinct
  refine close ?_ distinct (by rw [List.append_assoc, List.head?_append, begins]; rfl)
  obtain ⟨b, after, follows, next⟩ : ∃ b after, xs ++ [h] = b :: after ∧ xs.headD h = b := by
    cases xs with
    | nil => exact ⟨h, [], rfl, rfl⟩
    | cons x xs => exact ⟨x, xs ++ [h], rfl, rfl⟩
  obtain ⟨inside, rfl⟩ := List.getLast?_eq_some_iff.mp ends
  have closed := ring.closed.tail
  rw [List.tail_cons, follows] at closed
  rw [next, List.append_assoc, follows, List.append_assoc]
  refine Links.Chained.link chained closed ?_ ?_
  · rw [← follows, List.dropLast_concat]
    simpa using (List.nodup_cons.mp distinct).2
  · rw [← follows]
    exact targets.sublist ((List.tail_sublist _).append_right _)

/-- Putting in the nodes `ys`, which are linked among themselves. -/
theorem splice {zs : List α} {first last : α} (ring : Ring m h (xs ++ zs))
    (chained : m.Chained ys) (distinct : (h :: (xs ++ (ys ++ zs))).Nodup)
    (begins : ys.head? = some first) (ends : ys.getLast? = some last) :
    Ring ((m.link last (zs.headD h)).link (xs.getLastD h) first) h (xs ++ (ys ++ zs)) := by
  cases xs using List.reverseRecOn with
  | nil =>
    rw [List.nil_append] at ring distinct ⊢
    exact ring.splice_first chained distinct begins ends
  | append_singleton xs t =>
    rw [List.append_assoc, List.singleton_append] at ring distinct ⊢
    have turned : (t :: (ys ++ (zs ++ h :: xs))).Nodup := by
      have same : (h :: (xs ++ t :: (ys ++ zs))).Perm (t :: (ys ++ (zs ++ h :: xs))) := by
        rw [← List.append_assoc, ← List.cons_append, ← List.cons_append]
        exact List.perm_append_comm
      exact same.nodup_iff.mp distinct
    have put := ring.rotate.splice_first chained turned begins ends
    have follows : (zs ++ h :: xs).headD t = zs.headD h := by cases zs <;> rfl
    rw [follows, ← List.append_assoc] at put
    rw [List.getLastD_concat]
    exact put.rotate

end Ring

def ringNodes (lists : List (α × List α)) : List α := lists.flatMap fun list => list.1 :: list.2

@[simp] theorem ringNodes_nil : ringNodes ([] : List (α × List α)) = [] := rfl

@[simp] theorem ringNodes_cons (h : α) (xs : List α) (rest : List (α × List α)) :
    ringNodes ((h, xs) :: rest) = h :: (xs ++ ringNodes rest) := rfl

theorem ringNodes_perm {before after : List (α × List α)} (same : before.Perm after) :
    (ringNodes before).Perm (ringNodes after) := same.flatMap_right _

theorem ringNodes_middle (h : α) (xs ys zs : List α) (rest : List (α × List α)) :
    (ringNodes ((h, xs ++ (ys ++ zs)) :: rest)).Perm
      (ys ++ ringNodes ((h, xs ++ zs) :: rest)) := by
  simpa [List.append_assoc] using
    List.perm_append_comm_assoc (h :: xs) ys (zs ++ ringNodes rest)

/-- Circular lists without a node in common. -/
structure Rings (m : Links α) (lists : List (α × List α)) : Prop where
  ring : ∀ list ∈ lists, Ring m list.1 list.2
  distinct : (ringNodes lists).Nodup

instance [DecidableEq α] (m : Links α) (lists : List (α × List α)) : Decidable (Rings m lists) :=
  decidable_of_iff ((∀ list ∈ lists, Ring m list.1 list.2) ∧ (ringNodes lists).Nodup)
    ⟨fun both => ⟨both.1, both.2⟩, fun rings => ⟨rings.ring, rings.distinct⟩⟩

namespace Rings

variable {m m' : Links α} {h : α} {xs ys zs : List α}
variable {before after rest lists : List (α × List α)}

theorem perm (rings : Rings m before) (same : before.Perm after) : Rings m after where
  ring list member := rings.ring list (same.mem_iff.mpr member)
  distinct := (ringNodes_perm same).nodup_iff.mp rings.distinct

theorem nil (m : Links α) : Rings m [] := ⟨by simp, .nil⟩

theorem cons (ring : Ring m h xs) (rest : Rings m lists)
    (apart : ∀ p ∈ h :: xs, p ∉ ringNodes lists) : Rings m ((h, xs) :: lists) where
  ring := List.forall_mem_cons.mpr ⟨ring, rest.ring⟩
  distinct := by
    rw [ringNodes_cons, ← List.cons_append]
    refine List.nodup_append.mpr ⟨ring.distinct, rest.distinct, fun p inside q outside same => ?_⟩
    exact apart p inside (same ▸ outside)

theorem head (rings : Rings m ((h, xs) :: rest)) : Ring m h xs := rings.ring _ List.mem_cons_self

theorem tail (rings : Rings m ((h, xs) :: rest)) : Rings m rest where
  ring list member := rings.ring list (List.mem_cons_of_mem _ member)
  distinct := (List.nodup_append.mp rings.distinct).2.1

theorem inverse {p : α} (rings : Rings m lists) (member : p ∈ ringNodes lists) :
    m.next (m.prev p) = p ∧ m.prev (m.next p) = p := by
  obtain ⟨list, here, inside⟩ := List.mem_flatMap.mp member
  exact (rings.ring list here).inverse inside

theorem frame (rings : Rings m lists) (untouched : ∀ p ∈ ringNodes lists, m.Untouched m' p) :
    Rings m' lists where
  ring list member := (rings.ring list member).frame fun p inside =>
    untouched p (List.mem_flatMap.mpr ⟨list, member, inside⟩)
  distinct := rings.distinct

theorem rotate {t : α} (rings : Rings m ((h, xs ++ t :: ys) :: rest)) :
    Rings m ((t, ys ++ h :: xs) :: rest) where
  ring := List.forall_mem_cons.mpr ⟨(rings.ring _ List.mem_cons_self).rotate, rings.tail.ring⟩
  distinct := by
    have same : (h :: (xs ++ t :: ys)).Perm (t :: (ys ++ h :: xs)) := by
      rw [← List.cons_append, ← List.cons_append]
      exact List.perm_append_comm
    exact (same.append_right (ringNodes rest)).nodup_iff.mp rings.distinct

theorem apart (rings : Rings m ((h, xs) :: rest)) : ∀ p ∈ h :: xs, p ∉ ringNodes rest :=
  fun p inside outside => (List.nodup_append.mp rings.distinct).2.2 p inside p outside rfl

variable [DecidableEq α]

theorem link_frame {a b : α} (rings : Rings m lists) (source : a ∉ ringNodes lists)
    (target : b ∉ ringNodes lists) : Rings (m.link a b) lists :=
  rings.frame fun _ member => m.untouched_link (ne_of_mem_of_not_mem member source)
    (ne_of_mem_of_not_mem member target)

theorem excise (rings : Rings m ((h, xs ++ (ys ++ zs)) :: rest)) :
    Rings (m.link (xs.getLastD h) (zs.headD h)) ((h, xs ++ zs) :: rest) ∧
      (m.link (xs.getLastD h) (zs.headD h)).Chained ys := by
  obtain ⟨ring, chained⟩ := rings.head.excise
  have kept : ∀ p ∈ h :: (xs ++ zs), p ∉ ringNodes rest := by
    intro p member
    refine rings.apart p ?_
    simp only [List.mem_cons, List.mem_append] at member ⊢
    tauto
  refine ⟨.cons ring (rings.tail.link_frame (kept _ ?_) (kept _ ?_)) kept, chained⟩
  · have inside := @List.getLastD_mem_cons _ xs h
    simp only [List.mem_cons, List.mem_append] at inside ⊢
    tauto
  · have inside := headD_mem_cons zs h
    simp only [List.mem_cons, List.mem_append] at inside ⊢
    tauto

theorem splice {first last : α} (rings : Rings m ((h, xs ++ zs) :: rest))
    (chained : m.Chained ys) (distinct : ys.Nodup)
    (fresh : ∀ p ∈ ys, p ∉ ringNodes ((h, xs ++ zs) :: rest)) (begins : ys.head? = some first)
    (ends : ys.getLast? = some last) :
    Rings ((m.link last (zs.headD h)).link (xs.getLastD h) first)
      ((h, xs ++ (ys ++ zs)) :: rest) := by
  have nodup : (ringNodes ((h, xs ++ (ys ++ zs)) :: rest)).Nodup := by
    refine (ringNodes_middle h xs ys zs rest).nodup_iff.mpr (List.nodup_append.mpr ?_)
    exact ⟨distinct, rings.distinct, fun p new q old same => fresh p new (same ▸ old)⟩
  rw [ringNodes_cons, ← List.cons_append, List.nodup_append] at nodup
  obtain ⟨own, -, apart⟩ := nodup
  have outside : ∀ p ∈ h :: (xs ++ (ys ++ zs)), p ∉ ringNodes rest := fun p inside other =>
    apart p inside p other rfl
  refine .cons (rings.head.splice chained own begins ends) ?_ outside
  refine (rings.tail.link_frame (outside _ ?_) (outside _ ?_)).link_frame (outside _ ?_)
    (outside _ ?_)
  · have member := List.mem_of_getLast? ends
    simp [member]
  · have member := headD_mem_cons zs h
    simp only [List.mem_cons, List.mem_append] at member ⊢
    tauto
  · have member := @List.getLastD_mem_cons _ xs h
    simp only [List.mem_cons, List.mem_append] at member ⊢
    tauto
  · have member := List.mem_of_head? begins
    simp [member]

theorem detach {n first last : α} (rings : Rings m ((h, xs ++ (ys ++ zs)) :: rest))
    (fresh : n ∉ ringNodes ((h, xs ++ (ys ++ zs)) :: rest)) (begins : ys.head? = some first)
    (ends : ys.getLast? = some last) :
    Rings (((m.link (xs.getLastD h) (zs.headD h)).link last n).link n first)
      ((n, ys) :: (h, xs ++ zs) :: rest) := by
  obtain ⟨taken, chained⟩ := rings.excise
  have same := ringNodes_middle h xs ys zs rest
  obtain ⟨own, -, apart⟩ := List.nodup_append.mp (same.nodup_iff.mp rings.distinct)
  rw [same.mem_iff, List.mem_append, not_or] at fresh
  have outside : ∀ p ∈ n :: ys, p ∉ ringNodes ((h, xs ++ zs) :: rest) :=
    List.forall_mem_cons.mpr ⟨fresh.2, fun p inside other => apart p inside p other rfl⟩
  have inside : last ∈ n :: ys ∧ first ∈ n :: ys :=
    ⟨List.mem_cons_of_mem n (List.mem_of_getLast? ends),
      List.mem_cons_of_mem n (List.mem_of_head? begins)⟩
  have head : n ∈ n :: ys := List.mem_cons_self
  have ring := Ring.of_chained chained (List.nodup_cons.mpr ⟨fresh.1, own⟩) begins ends
  refine .cons ring ?_ outside
  exact (taken.link_frame (outside _ inside.1) (outside _ head)).link_frame (outside _ head)
    (outside _ inside.2)

end Rings

end CLibs.General
