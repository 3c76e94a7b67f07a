import CLibs.Rbtree.NgxRbtree
import Mathlib.Tactic

/-!
# Trees in memory

What it means that a tree is in memory around a focus, and what the pointer surgery
of `ngx_rbtree.c` does to it.
-/

set_option autoImplicit false

namespace CLibs.Rbtree

open General

variable {Data : Type}

namespace Node

variable (node : Node Data) (side : Side) (p : Ptr) (color : Color)

@[simp] theorem child_setChild : (node.setChild side p).child side = p := by
  cases side <;> rfl

@[simp] theorem child_setChild_other :
    (node.setChild side p).child side.other = node.child side.other := by
  cases side <;> rfl

@[simp] theorem child_setOther : (node.setChild side.other p).child side = node.child side := by
  cases side <;> rfl

@[simp] theorem child_setParent : (node.setParent p).child side = node.child side := by
  cases side <;> rfl

@[simp] theorem parent_setChild : (node.setChild side p).parent = node.parent := by
  cases side <;> rfl

@[simp] theorem parent_setParent : (node.setParent p).parent = p := rfl

@[simp] theorem color_setChild : (node.setChild side p).color = node.color := by
  cases side <;> rfl

@[simp] theorem color_setParent : (node.setParent p).color = node.color := rfl

@[simp] theorem color_setColor : (node.setColor color).color = color := rfl

@[simp] theorem item_setChild : (node.setChild side p).item = node.item := by
  cases side <;> rfl

@[simp] theorem item_setParent : (node.setParent p).item = node.item := rfl

@[simp] theorem item_setColor : (node.setColor color).item = node.item := rfl

end Node

/-! ## Representation -/

def ptr (sentinel : Ptr) : RBTree Ptr → Ptr
  | .nil => sentinel
  | .node _ _ p _ => p

@[simp] theorem ptr_join (sentinel : Ptr) (side : Side) (color : Color) (near : RBTree Ptr)
    (p : Ptr) (far : RBTree Ptr) : ptr sentinel (.join side color near p far) = p := by
  cases side <;> rfl

@[simp] theorem ptr_nil (sentinel : Ptr) : ptr sentinel .nil = sentinel := rfl

theorem join_ne_nil {side : Side} {color : Color} {near far : RBTree Ptr} {p : Ptr} :
    RBTree.join side color near p far ≠ .nil := by
  cases side <;> simp [RBTree.join]

theorem ptr_mem {sentinel : Ptr} {t : RBTree Ptr} (some : t ≠ .nil) :
    ptr sentinel t ∈ t.labels := by
  cases t with
  | nil => exact absurd rfl some
  | node color left p right => simp [ptr, RBTree.labels]

def parentOf : Context Ptr → Option Ptr
  | [] => none
  | frame :: _ => some frame.label

/-- The root of the tree around a subtree at `p`. -/
def rootOf : Context Ptr → Ptr → Ptr
  | [], p => p
  | frame :: rest, _ => rootOf rest frame.label

/-- The subtree is in memory; what its parent is may be left open. -/
def Rep (mem : Ptr → Node Data) (sentinel : Ptr) : Option Ptr → RBTree Ptr → Prop
  | _, .nil => True
  | parent, .node color left p right =>
      (mem p).left = ptr sentinel left ∧ (mem p).right = ptr sentinel right ∧
      (mem p).color = color ∧ (∀ above, parent = some above → (mem p).parent = above) ∧
      Rep mem sentinel (some p) left ∧ Rep mem sentinel (some p) right

/-- The context is in memory, around a subtree at `p`. -/
def RepAround (mem : Ptr → Node Data) (sentinel : Ptr) : Context Ptr → Ptr → Prop
  | [], _ => True
  | ⟨side, color, label, sibling⟩ :: rest, p =>
      (mem label).child side = p ∧ (mem label).child side.other = ptr sentinel sibling ∧
      (mem label).color = color ∧ (∀ above, parentOf rest = some above → (mem label).parent = above) ∧
      Rep mem sentinel (some label) sibling ∧ RepAround mem sentinel rest label

theorem rep_join {mem : Ptr → Node Data} {sentinel : Ptr} {parent : Option Ptr} {side : Side}
    {color : Color} {near far : RBTree Ptr} {p : Ptr} :
    Rep mem sentinel parent (.join side color near p far) ↔
      (mem p).child side = ptr sentinel near ∧ (mem p).child side.other = ptr sentinel far ∧
      (mem p).color = color ∧ (∀ above, parent = some above → (mem p).parent = above) ∧
      Rep mem sentinel (some p) near ∧ Rep mem sentinel (some p) far := by
  cases side with
  | left => exact Iff.rfl
  | right =>
      simp only [RBTree.join, Rep, Node.child, Side.other]
      tauto

section Congruence

variable {mem new : Ptr → Node Data} {sentinel : Ptr}

theorem Rep.congr {t : RBTree Ptr} {parent : Option Ptr}
    (rep : Rep mem sentinel parent t) (same : ∀ p ∈ t.labels, new p = mem p) :
    Rep new sentinel parent t := by
  induction t generalizing parent with
  | nil => trivial
  | node color left p right leftIH rightIH =>
      obtain ⟨onLeft, onRight, painted, above, leftRep, rightRep⟩ := rep
      have here : new p = mem p := same p (by simp [RBTree.labels])
      refine ⟨?_, ?_, ?_, ?_, leftIH leftRep ?_, rightIH rightRep ?_⟩
      · rw [here, onLeft]
      · rw [here, onRight]
      · rw [here, painted]
      · rw [here]
        exact above
      · exact fun q mem => same q (by simp [RBTree.labels, mem])
      · exact fun q mem => same q (by simp [RBTree.labels, mem])

theorem Rep.weaken {t : RBTree Ptr} {parent : Option Ptr} (rep : Rep mem sentinel parent t) :
    Rep mem sentinel none t := by
  cases t with
  | nil => trivial
  | node color left p right =>
      obtain ⟨onLeft, onRight, painted, -, leftRep, rightRep⟩ := rep
      exact ⟨onLeft, onRight, painted, (fun _ wrong => nomatch wrong), leftRep, rightRep⟩

/-- The root of a subtree gets a new parent. -/
def foster (t : RBTree Ptr) (parent : Ptr) (mem : Ptr → Node Data) : Ptr → Node Data :=
  match t with
  | .nil => mem
  | .node _ _ p _ => Function.update mem p ((mem p).setParent parent)

theorem foster_other {t : RBTree Ptr} {p : Ptr} (absent : p ∉ t.labels) (parent : Ptr) :
    foster t parent mem p = mem p := by
  cases t with
  | nil => rfl
  | node color left q right =>
      have different : p ≠ q := by
        rintro rfl
        simp [RBTree.labels] at absent
      exact Function.update_of_ne different ..

theorem foster_congr {p : Ptr} (same : new p = mem p) (t : RBTree Ptr) (parent : Ptr) :
    foster t parent new p = foster t parent mem p := by
  cases t with
  | nil => exact same
  | node color left q right =>
      by_cases here : p = q
      · subst here
        simp only [foster, Function.update_self, same]
      · simp only [foster, Function.update_of_ne here, same]

theorem Rep.foster {t : RBTree Ptr} {parent : Option Ptr} (rep : Rep mem sentinel parent t)
    (nodup : t.labels.Nodup) (above : Ptr) :
    Rep (foster t above mem) sentinel (some above) t := by
  cases t with
  | nil => trivial
  | node color left p right =>
      obtain ⟨onLeft, onRight, painted, -, leftRep, rightRep⟩ := rep
      have here : Rbtree.foster (.node color left p right) above mem p =
          (mem p).setParent above := Function.update_self ..
      have apart := (RBTree.perm_labels_join .left color left p right).nodup_iff.mp nodup
      simp only [List.nodup_cons, List.mem_append, not_or] at apart
      refine ⟨?_, ?_, ?_, ?_, leftRep.congr ?_, rightRep.congr ?_⟩
      · rw [here, ← onLeft]
        rfl
      · rw [here, ← onRight]
        rfl
      · rw [here, ← painted]
        rfl
      · rintro _ ⟨⟩
        rw [here]
        rfl
      · intro q member
        refine Function.update_of_ne ?_ ..
        rintro rfl
        exact apart.1.1 member
      · intro q member
        refine Function.update_of_ne ?_ ..
        rintro rfl
        exact apart.1.2 member

theorem RepAround.congr {ctx : Context Ptr} {p : Ptr} (rep : RepAround mem sentinel ctx p)
    (same : ∀ q ∈ ctx.labels, new q = mem q) : RepAround new sentinel ctx p := by
  induction ctx generalizing p with
  | nil => trivial
  | cons frame rest ih =>
      obtain ⟨side, color, label, sibling⟩ := frame
      obtain ⟨onSide, onOther, painted, above, siblingRep, restRep⟩ := rep
      have here : new label = mem label := same label (Context.mem_labels_cons.mpr (.inl rfl))
      refine ⟨?_, ?_, ?_, ?_, siblingRep.congr ?_, ih restRep ?_⟩
      · rw [here, onSide]
      · rw [here, onOther]
      · rw [here, painted]
      · rw [here]
        exact above
      · exact fun q member => same q (Context.mem_labels_cons.mpr (.inr (.inl member)))
      · exact fun q member => same q (Context.mem_labels_cons.mpr (.inr (.inr member)))

/-- Another subtree is put below the parent. -/
def hook (ctx : Context Ptr) (child : Ptr) (mem : Ptr → Node Data) : Ptr → Node Data :=
  match ctx with
  | [] => mem
  | ⟨side, _, label, _⟩ :: _ => Function.update mem label ((mem label).setChild side child)

theorem hook_other {ctx : Context Ptr} {p : Ptr} (absent : p ∉ ctx.labels) (child : Ptr) :
    hook ctx child mem p = mem p := by
  cases ctx with
  | nil => rfl
  | cons frame rest =>
      have different : p ≠ frame.label := by
        rintro rfl
        exact absent (Context.mem_labels_cons.mpr (.inl rfl))
      exact Function.update_of_ne different ..

theorem hook_congr {p : Ptr} (same : new p = mem p) (ctx : Context Ptr) (child : Ptr) :
    hook ctx child new p = hook ctx child mem p := by
  cases ctx with
  | nil => exact same
  | cons frame rest =>
      by_cases here : p = frame.label
      · subst here
        simp only [hook, Function.update_self, same]
      · simp only [hook, Function.update_of_ne here, same]

theorem RepAround.hook {ctx : Context Ptr} {p : Ptr} (rep : RepAround mem sentinel ctx p)
    (nodup : ctx.labels.Nodup) (child : Ptr) : RepAround (hook ctx child mem) sentinel ctx child := by
  cases ctx with
  | nil => trivial
  | cons frame rest =>
      obtain ⟨side, color, label, sibling⟩ := frame
      obtain ⟨onSide, onOther, painted, above, siblingRep, restRep⟩ := rep
      have apart := Context.apart_of_nodup nodup
      have here : Rbtree.hook (⟨side, color, label, sibling⟩ :: rest) child mem label =
          (mem label).setChild side child := Function.update_self ..
      refine ⟨?_, ?_, ?_, ?_, siblingRep.congr ?_, restRep.congr ?_⟩
      · rw [here, Node.child_setChild]
      · rw [here, Node.child_setChild_other, onOther]
      · rw [here, Node.color_setChild, painted]
      · rw [here, Node.parent_setChild]
        exact above
      · intro q member
        refine Function.update_of_ne ?_ ..
        rintro rfl
        exact apart.1 member
      · intro q member
        refine Function.update_of_ne ?_ ..
        rintro rfl
        exact apart.2.1 member

end Congruence

/-! ## A tree with a focus -/

namespace NgxRbtree

/-- The tree of `s` is in memory, with the subtree `t` in the context `ctx`. The
parent pointer of the root may be anything. -/
structure Layout (sentinel : Ptr) (s : NgxRbtree Data) (ctx : Context Ptr) (t : RBTree Ptr) :
    Prop where
  sameSentinel : s.sentinel = sentinel
  root : s.root = rootOf ctx (ptr sentinel t)
  around : RepAround s.mem sentinel ctx (ptr sentinel t)
  focus : Rep s.mem sentinel (parentOf ctx) t
  nodup : (ctx.plug t).labels.Nodup
  notNull : null ∉ (ctx.plug t).labels
  notSentinel : sentinel ∉ (ctx.plug t).labels
  sentinelValid : sentinel ≠ null
  sentinelBlack : (s.mem sentinel).color = .black

/-- The nodes keep their keys, and the sentinel is as it was. -/
structure Alike (sentinel : Ptr) (s next : NgxRbtree Data) : Prop where
  atSentinel : next.mem sentinel = s.mem sentinel
  items : ∀ p, (next.mem p).item = (s.mem p).item

theorem Alike.trans {sentinel : Ptr} {s middle next : NgxRbtree Data}
    (first : Alike sentinel s middle) (second : Alike sentinel middle next) :
    Alike sentinel s next where
  atSentinel := second.atSentinel.trans first.atSentinel
  items p := (second.items p).trans (first.items p)

theorem load_eq {s : NgxRbtree Data} {p : Ptr} (valid : p ≠ null) : s.load p = some (s.mem p) :=
  if_neg valid

theorem store_eq {s : NgxRbtree Data} {p : Ptr} (valid : p ≠ null)
    (update : Node Data → Node Data) :
    s.store p update = some { s with mem := Function.update s.mem p (update (s.mem p)) } :=
  if_neg valid

theorem item_update {mem : Ptr → Node Data} {p : Ptr} {update : Node Data → Node Data}
    (kept : ∀ node, (update node).item = node.item) (q : Ptr) :
    (Function.update mem p (update (mem p)) q).item = (mem q).item := by
  by_cases same : q = p
  · rw [same, Function.update_self, kept]
  · rw [Function.update_of_ne same]

theorem item_foster (t : RBTree Ptr) (parent : Ptr) (mem : Ptr → Node Data) (q : Ptr) :
    (foster t parent mem q).item = (mem q).item := by
  cases t with
  | nil => rfl
  | node color left p right => exact item_update (fun node => Node.item_setParent node parent) q

theorem item_hook (ctx : Context Ptr) (child : Ptr) (mem : Ptr → Node Data) (q : Ptr) :
    (hook ctx child mem q).item = (mem q).item := by
  cases ctx with
  | nil => rfl
  | cons frame rest => exact item_update (fun node => Node.item_setChild node frame.side child) q

section Layout

variable {sentinel : Ptr} {s : NgxRbtree Data} {ctx : Context Ptr}

theorem layout_cons {side : Side} {color : Color} {label : Ptr} {sibling t : RBTree Ptr} :
    Layout sentinel s (⟨side, color, label, sibling⟩ :: ctx) t ↔
      Layout sentinel s ctx (.join side color t label sibling) := by
  constructor
  · intro layout
    obtain ⟨onSide, onOther, painted, above, siblingRep, around⟩ := layout.around
    refine ⟨layout.sameSentinel, ?_, ?_, ?_, layout.nodup, layout.notNull, layout.notSentinel,
      layout.sentinelValid, layout.sentinelBlack⟩
    · rw [layout.root, ptr_join]
      rfl
    · rw [ptr_join]
      exact around
    · exact rep_join.mpr ⟨onSide, onOther, painted, above, layout.focus, siblingRep⟩
  · intro layout
    obtain ⟨onSide, onOther, painted, above, rep, siblingRep⟩ := rep_join.mp layout.focus
    have around := layout.around
    rw [ptr_join] at around
    refine ⟨layout.sameSentinel, ?_, ?_, rep, layout.nodup, layout.notNull, layout.notSentinel,
      layout.sentinelValid, layout.sentinelBlack⟩
    · rw [layout.root, ptr_join]
      rfl
    · exact ⟨onSide, onOther, painted, above, siblingRep, around⟩

/-- Where the nodes around a focus are not. -/
structure Apart (sentinel : Ptr) (ctx : Context Ptr) (near : RBTree Ptr) (p : Ptr)
    (far : RBTree Ptr) : Prop where
  valid : p ≠ null
  real : p ≠ sentinel
  notNear : p ∉ near.labels
  notFar : p ∉ far.labels
  notAround : p ∉ ctx.labels
  nearFar : near.labels.Disjoint far.labels
  nearAround : near.labels.Disjoint ctx.labels
  farAround : far.labels.Disjoint ctx.labels
  nearNodup : near.labels.Nodup
  farNodup : far.labels.Nodup
  aroundNodup : ctx.labels.Nodup

theorem Layout.apart {side : Side} {color : Color} {near far : RBTree Ptr} {p : Ptr}
    (layout : Layout sentinel s ctx (.join side color near p far)) :
    Apart sentinel ctx near p far := by
  have member : p ∈ (ctx.plug (.join side color near p far)).labels :=
    Context.mem_labels_plug.mpr (.inl (RBTree.mem_labels_join.mpr (.inr (.inl rfl))))
  have nodup := layout.nodup
  rw [(Context.perm_labels_plug ..).nodup_iff, List.nodup_append',
    (RBTree.perm_labels_join ..).nodup_iff, List.nodup_cons, List.nodup_append'] at nodup
  obtain ⟨⟨notInside, nearNodup, farNodup, nearFar⟩, aroundNodup, disjoint⟩ := nodup
  rw [List.mem_append, not_or] at notInside
  refine ⟨?_, ?_, notInside.1, notInside.2, ?_, nearFar, ?_, ?_, nearNodup, farNodup,
    aroundNodup⟩
  · rintro rfl
    exact layout.notNull member
  · rintro rfl
    exact layout.notSentinel member
  · exact disjoint (RBTree.mem_labels_join.mpr (.inr (.inl rfl)))
  · exact fun q inNear => disjoint (RBTree.mem_labels_join.mpr (.inl inNear))
  · exact fun q inFar => disjoint (RBTree.mem_labels_join.mpr (.inr (.inr inFar)))

theorem Layout.sibling {side : Side} {color : Color} {p : Ptr} {sibling t : RBTree Ptr}
    (layout : Layout sentinel s (⟨side, color, p, sibling⟩ :: ctx) t) :
    Layout sentinel s (⟨side.other, color, p, t⟩ :: ctx) sibling := by
  rw [layout_cons, RBTree.join_other]
  exact layout_cons.mp layout

theorem layout_append {inner : Context Ptr} {t : RBTree Ptr} :
    Layout sentinel s (inner ++ ctx) t ↔ Layout sentinel s ctx (inner.plug t) := by
  induction inner generalizing t with
  | nil => exact Iff.rfl
  | cons frame rest ih => exact layout_cons.trans ih

theorem layout_whole {t : RBTree Ptr} :
    Layout sentinel s ctx t ↔ Layout sentinel s [] (ctx.plug t) := by
  rw [← layout_append, List.append_nil]

/-- What is in the parent of a focus. -/
structure Above (s : NgxRbtree Data) (ctx : Context Ptr) (side : Side) (color : Color)
    (p near far : Ptr) : Prop where
  valid : p ≠ null
  near : (s.mem p).child side = near
  far : (s.mem p).child side.other = far
  color : (s.mem p).color = color
  parent : ∀ above, parentOf ctx = some above → (s.mem p).parent = above

theorem Layout.above {side : Side} {color : Color} {p : Ptr} {sibling t : RBTree Ptr}
    (layout : Layout sentinel s (⟨side, color, p, sibling⟩ :: ctx) t) :
    Above s ctx side color p (ptr sentinel t) (ptr sentinel sibling) := by
  obtain ⟨near, far, painted, parent, -, -⟩ := layout.around
  exact ⟨(layout_cons.mp layout).apart.valid, near, far, painted, parent⟩

theorem Layout.parent {t : RBTree Ptr} (layout : Layout sentinel s ctx t) (some : t ≠ .nil)
    {p : Ptr} (parent : parentOf ctx = .some p) : (s.mem (ptr sentinel t)).parent = p := by
  cases t with
  | nil => exact absurd rfl some
  | node color left q right => exact layout.focus.2.2.2.1 p parent

theorem Layout.parent_join {side : Side} {color : Color} {near far : RBTree Ptr} {p above : Ptr}
    (layout : Layout sentinel s ctx (.join side color near p far))
    (parent : parentOf ctx = some above) : (s.mem p).parent = above :=
  (rep_join.mp layout.focus).2.2.2.1 above parent

theorem Layout.color_ptr {t : RBTree Ptr} (layout : Layout sentinel s ctx t) :
    (s.mem (ptr sentinel t)).color = t.color := by
  cases t with
  | nil => exact layout.sentinelBlack
  | node color left p right => exact layout.focus.2.2.1

theorem Layout.ptr_valid {t : RBTree Ptr} (layout : Layout sentinel s ctx t) :
    ptr sentinel t ≠ null := by
  cases t with
  | nil => exact layout.sentinelValid
  | node color left p right =>
      have focused : Layout sentinel s ctx (.join .left color left p right) := layout
      exact focused.apart.valid

theorem Layout.ptr_ne_sibling {side : Side} {color : Color} {p : Ptr} {sibling t : RBTree Ptr}
    (layout : Layout sentinel s (⟨side, color, p, sibling⟩ :: ctx) t) (some : t ≠ .nil) :
    ptr sentinel t ≠ ptr sentinel sibling := by
  have apart := (layout_cons.mp layout).apart
  have inside : ptr sentinel t ∈ t.labels := ptr_mem some
  intro same
  by_cases empty : sibling = .nil
  · rw [same, empty] at inside
    exact layout.notSentinel (Context.mem_labels_plug.mpr (.inl inside))
  · have there : ptr sentinel sibling ∈ sibling.labels := ptr_mem empty
    rw [← same] at there
    exact apart.nearFar inside there

/-- Another state with a tree of the same nodes. -/
theorem Layout.of_labels {t t' : RBTree Ptr} {next : NgxRbtree Data}
    (layout : Layout sentinel s ctx t) (labels : (ctx.plug t').labels = (ctx.plug t).labels)
    (sameSentinel : next.sentinel = s.sentinel) (root : next.root = rootOf ctx (ptr sentinel t'))
    (around : RepAround next.mem sentinel ctx (ptr sentinel t'))
    (focus : Rep next.mem sentinel (parentOf ctx) t')
    (kept : next.mem sentinel = s.mem sentinel) : Layout sentinel next ctx t' where
  sameSentinel := sameSentinel.trans layout.sameSentinel
  root := root
  around := around
  focus := focus
  nodup := labels ▸ layout.nodup
  notNull := labels ▸ layout.notNull
  notSentinel := labels ▸ layout.notSentinel
  sentinelValid := layout.sentinelValid
  sentinelBlack := (congrArg Node.color kept).trans layout.sentinelBlack

theorem Layout.painted {t : RBTree Ptr} (layout : Layout sentinel s ctx t) (some : t ≠ .nil)
    (color : Color) :
    ∃ next, s.store (ptr sentinel t) (Node.setColor color) = .some next ∧
      Layout sentinel next ctx (t.paint color) ∧ Alike sentinel s next := by
  cases t with
  | nil => exact absurd rfl some
  | node old left p right =>
      have focused : Layout sentinel s ctx (.join .left old left p right) := layout
      have apart := focused.apart
      obtain ⟨onLeft, onRight, -, above, leftRep, rightRep⟩ := layout.focus
      have kept : ∀ q, q ≠ p →
          Function.update s.mem p ((s.mem p).setColor color) q = s.mem q :=
        fun q different => Function.update_of_ne different ..
      refine ⟨_, store_eq apart.valid _, layout.of_labels ?_ rfl layout.root ?_
        ⟨?_, ?_, ?_, ?_, leftRep.congr ?_, rightRep.congr ?_⟩ (kept sentinel apart.real.symm),
        kept sentinel apart.real.symm, item_update (fun node => Node.item_setColor node color)⟩
      · exact Context.labels_plug_congr (RBTree.labels_paint color _)
      · exact layout.around.congr
          fun q member => kept q (ne_of_mem_of_not_mem member apart.notAround)
      · simpa [Node.setColor] using onLeft
      · simpa [ptr, Node.setColor] using onRight
      · simp [Node.setColor]
      · simpa [ptr, Node.setColor] using above
      · exact fun q member => kept q (ne_of_mem_of_not_mem member apart.notNear)
      · exact fun q member => kept q (ne_of_mem_of_not_mem member apart.notFar)

theorem Layout.painted_parent {side : Side} {old : Color} {p : Ptr} {sibling t : RBTree Ptr}
    (layout : Layout sentinel s (⟨side, old, p, sibling⟩ :: ctx) t) (color : Color) :
    ∃ next, s.store p (Node.setColor color) = some next ∧
      Layout sentinel next (⟨side, color, p, sibling⟩ :: ctx) t ∧ Alike sentinel s next := by
  have focused := layout_cons.mp layout
  obtain ⟨next, stored, painted, alike⟩ := focused.painted join_ne_nil color
  rw [ptr_join] at stored
  rw [RBTree.paint_join] at painted
  exact ⟨next, stored, layout_cons.mpr painted, alike⟩

theorem Layout.painted_sibling {side : Side} {color : Color} {p : Ptr} {sibling t : RBTree Ptr}
    (layout : Layout sentinel s (⟨side, color, p, sibling⟩ :: ctx) t) (some : sibling ≠ .nil)
    (new : Color) :
    ∃ next, s.store (ptr sentinel sibling) (Node.setColor new) = .some next ∧
      Layout sentinel next (⟨side, color, p, sibling.paint new⟩ :: ctx) t ∧
      Alike sentinel s next := by
  obtain ⟨next, stored, painted, alike⟩ := layout.sibling.painted some new
  have back := painted.sibling
  rw [Side.other_other] at back
  exact ⟨next, stored, back, alike⟩

/-! ## Surgery -/

/-- Whether or not the subtree is empty, its new parent is known. -/
theorem adopt_eq {t : RBTree Ptr} (same : s.sentinel = sentinel) (valid : ptr sentinel t ≠ null)
    (real : sentinel ∉ t.labels) (parent : Ptr) :
    s.adopt (ptr sentinel t) parent = some { s with mem := foster t parent s.mem } := by
  cases t with
  | nil =>
      have empty : ptr sentinel .nil = s.sentinel := same.symm
      rw [adopt, if_pos empty]
      rfl
  | node color left p right =>
      have different : ptr sentinel (.node color left p right) ≠ s.sentinel := by
        rw [same]
        intro here
        have inside : ptr sentinel (.node color left p right) ∈ _ := ptr_mem (by simp)
        exact real (here ▸ inside)
      rw [adopt, if_neg different]
      exact store_eq valid _

/-- What `replace` looks at before it writes. -/
structure Hangs (s : NgxRbtree Data) (ctx : Context Ptr) (p : Ptr) : Prop where
  root : s.root = rootOf ctx p
  top : ∀ side color label sibling rest, ctx = ⟨side, color, label, sibling⟩ :: rest →
    label ≠ null ∧ (s.mem p).parent = label ∧ (s.mem label).child side = p ∧
    (s.mem label).child side.other ≠ p ∧ rootOf ctx p ≠ p

theorem Hangs.congr {p : Ptr} (hangs : Hangs s ctx p) {mem : Ptr → Node Data}
    (parent : (mem p).parent = (s.mem p).parent) (same : ∀ q ∈ ctx.labels, mem q = s.mem q) :
    Hangs { s with mem := mem } ctx p where
  root := hangs.root
  top := by
    rintro side color label sibling rest rfl
    have here : mem label = s.mem label := same label (Context.mem_labels_cons.mpr (.inl rfl))
    simp only [here, parent]
    exact hangs.top side color label sibling rest rfl

theorem relink_eq {side hole : Side} {parent node temp : Ptr} (valid : parent ≠ null)
    (here : (s.mem parent).child hole = node) (notThere : (s.mem parent).child hole.other ≠ node) :
    s.relink side parent node temp =
      some { s with mem := Function.update s.mem parent ((s.mem parent).setChild hole temp) } := by
  rw [relink, load_eq valid]
  rcases Side.eq_or_other hole side with rfl | rfl
  · simp only [Option.bind_eq_bind, Option.bind_some, here, if_true]
    exact store_eq valid _
  · rw [Side.other_other] at notThere
    simp only [Option.bind_eq_bind, Option.bind_some, notThere.symm, if_false]
    exact store_eq valid _

theorem replace_eq {p : Ptr} (valid : p ≠ null) (hangs : Hangs s ctx p) (side : Side)
    (temp : Ptr) : s.replace side p temp =
      some { s with root := rootOf ctx temp, mem := hook ctx temp s.mem } := by
  cases ctx with
  | nil =>
      have isRoot : p = s.root := hangs.root.symm
      rw [replace, if_pos isRoot]
      rfl
  | cons frame rest =>
      obtain ⟨hole, color, label, sibling⟩ := frame
      obtain ⟨labelValid, parent, here, notThere, notRoot⟩ := hangs.top _ _ _ _ _ rfl
      rw [replace, if_neg (hangs.root ▸ notRoot.symm), load_eq valid]
      simp only [Option.bind_eq_bind, Option.bind_some, parent]
      rw [relink_eq labelValid here notThere]
      have root : s.root = rootOf (⟨hole, color, label, sibling⟩ :: rest) temp := hangs.root
      rw [← root]
      rfl

theorem rootOf_mem (side : Side) (color : Color) (label : Ptr) (sibling : RBTree Ptr) (p : Ptr) :
    rootOf (⟨side, color, label, sibling⟩ :: ctx) p ∈
      Context.labels (⟨side, color, label, sibling⟩ :: ctx) := by
  induction ctx generalizing side color label sibling p with
  | nil => exact Context.mem_labels_cons.mpr (.inl rfl)
  | cons frame rest ih =>
      obtain ⟨side', color', label', sibling'⟩ := frame
      exact Context.mem_labels_cons.mpr (.inr (.inr (ih side' color' label' sibling' label)))

theorem Layout.hangs {side : Side} {color : Color} {near far : RBTree Ptr} {p : Ptr}
    (layout : Layout sentinel s ctx (.join side color near p far)) : Hangs s ctx p := by
  have apart := layout.apart
  have around := layout.around
  have above := (rep_join.mp layout.focus).2.2.2.1
  have root := layout.root
  rw [ptr_join] at around root
  refine ⟨root, ?_⟩
  rintro hole frameColor label sibling rest rfl
  obtain ⟨onSide, onOther, -, -, -, -⟩ := around
  have labelMember : label ∈ Context.labels (⟨hole, frameColor, label, sibling⟩ :: rest) :=
    Context.mem_labels_cons.mpr (.inl rfl)
  refine ⟨?_, above label rfl, onSide, ?_, ?_⟩
  · rintro rfl
    exact layout.notNull (Context.mem_labels_plug.mpr (.inr labelMember))
  · have different := layout.ptr_ne_sibling join_ne_nil
    rw [ptr_join] at different
    rw [onOther]
    exact different.symm
  · intro same
    have inside : rootOf (⟨hole, frameColor, label, sibling⟩ :: rest) p ∈
        Context.labels (⟨hole, frameColor, label, sibling⟩ :: rest) :=
      rootOf_mem hole frameColor label sibling p
    rw [same] at inside
    exact apart.notAround inside

theorem labels_rotated (side : Side) (first second third fourth : Color) (a b d : RBTree Ptr)
    (x y : Ptr) : (RBTree.join side first (.join side second a x b) y d).labels =
      (RBTree.join side third a x (.join side fourth b y d)).labels := by
  cases side <;> simp [RBTree.join, RBTree.labels]

/-- Where the nodes around a rotation are not. -/
structure Pivot (sentinel : Ptr) (ctx : Context Ptr) (a b d : RBTree Ptr) (x y : Ptr) : Prop where
  xValid : x ≠ null
  yValid : y ≠ null
  xReal : x ≠ sentinel
  yReal : y ≠ sentinel
  different : y ≠ x
  xNotA : x ∉ a.labels
  xNotB : x ∉ b.labels
  xNotD : x ∉ d.labels
  xNotAround : x ∉ ctx.labels
  yNotA : y ∉ a.labels
  yNotB : y ∉ b.labels
  yNotD : y ∉ d.labels
  yNotAround : y ∉ ctx.labels
  aNotB : a.labels.Disjoint b.labels
  bNotD : b.labels.Disjoint d.labels
  aNotAround : a.labels.Disjoint ctx.labels
  bNotAround : b.labels.Disjoint ctx.labels
  dNotAround : d.labels.Disjoint ctx.labels
  bNodup : b.labels.Nodup
  aroundNodup : ctx.labels.Nodup
  bValid : ptr sentinel b ≠ null
  bReal : sentinel ∉ b.labels
  aroundReal : sentinel ∉ ctx.labels

theorem Layout.pivot {side : Side} {first second : Color} {a b d : RBTree Ptr} {x y : Ptr}
    (layout : Layout sentinel s ctx (.join side first a x (.join side second b y d))) :
    Pivot sentinel ctx a b d x y := by
  have outer := layout.apart
  have lower : Layout sentinel s (⟨side.other, first, x, a⟩ :: ctx) (.join side second b y d) := by
    rw [layout_cons, RBTree.join_other]
    exact layout
  have inner := lower.apart
  have bFocus : Layout sentinel s (⟨side, second, y, d⟩ :: ⟨side.other, first, x, a⟩ :: ctx) b :=
    layout_cons.mpr lower
  have inLower : ∀ {q : Ptr}, q ∈ ctx.labels →
      q ∈ Context.labels (⟨side.other, first, x, a⟩ :: ctx) :=
    fun inside => Context.mem_labels_cons.mpr (.inr (.inr inside))
  exact {
    xValid := outer.valid
    yValid := inner.valid
    xReal := outer.real
    yReal := inner.real
    different := fun same => inner.notAround (Context.mem_labels_cons.mpr (.inl same))
    xNotA := outer.notNear
    xNotB := fun inside => outer.notFar (RBTree.mem_labels_join.mpr (.inl inside))
    xNotD := fun inside => outer.notFar (RBTree.mem_labels_join.mpr (.inr (.inr inside)))
    xNotAround := outer.notAround
    yNotA := fun inside => inner.notAround (Context.mem_labels_cons.mpr (.inr (.inl inside)))
    yNotB := inner.notNear
    yNotD := inner.notFar
    yNotAround := fun inside => inner.notAround (inLower inside)
    aNotB := fun _ inA inB => outer.nearFar inA (RBTree.mem_labels_join.mpr (.inl inB))
    bNotD := inner.nearFar
    aNotAround := outer.nearAround
    bNotAround := fun _ inB around => inner.nearAround inB (inLower around)
    dNotAround := fun _ inD around => inner.farAround inD (inLower around)
    bNodup := inner.nearNodup
    aroundNodup := outer.aroundNodup
    bValid := bFocus.ptr_valid
    bReal := fun inside => bFocus.notSentinel (Context.mem_labels_plug.mpr (.inl inside))
    aroundReal := fun inside => layout.notSentinel (Context.mem_labels_plug.mpr (.inr inside)) }

theorem rotate_eq {side : Side} {a b d : RBTree Ptr} {x y : Ptr}
    (pivot : Pivot sentinel ctx a b d x y) (same : s.sentinel = sentinel)
    (xFar : (s.mem x).child side.other = y) (yNear : (s.mem y).child side = ptr sentinel b)
    (hangs : Hangs s ctx x) :
    ∃ mem, s.rotate side x = some { s with root := rootOf ctx y, mem := mem } ∧
      mem x = ((s.mem x).setChild side.other (ptr sentinel b)).setParent y ∧
      mem y = ((s.mem y).setParent (s.mem x).parent).setChild side x ∧
      ∀ q, q ≠ x → q ≠ y → mem q = hook ctx y (foster b x s.mem) q := by
  obtain ⟨first, firstDef⟩ : ∃ mem, mem =
    Function.update s.mem x ((s.mem x).setChild side.other (ptr sentinel b)) := ⟨_, rfl⟩
  obtain ⟨second, secondDef⟩ : ∃ mem, mem = foster b x first := ⟨_, rfl⟩
  obtain ⟨third, thirdDef⟩ : ∃ mem, mem =
    Function.update second y ((second y).setParent (s.mem x).parent) := ⟨_, rfl⟩
  obtain ⟨fourth, fourthDef⟩ : ∃ mem, mem = hook ctx y third := ⟨_, rfl⟩
  have firstY : first y = s.mem y := by
    rw [firstDef, Function.update_of_ne pivot.different]
  have secondX : second x = (s.mem x).setChild side.other (ptr sentinel b) := by
    rw [secondDef, foster_other pivot.xNotB, firstDef, Function.update_self]
  have secondY : second y = s.mem y := by
    rw [secondDef, foster_other pivot.yNotB, firstY]
  have thirdX : third x = (s.mem x).setChild side.other (ptr sentinel b) := by
    rw [thirdDef, Function.update_of_ne pivot.different.symm, secondX]
  have fourthX : fourth x = (s.mem x).setChild side.other (ptr sentinel b) := by
    rw [fourthDef, hook_other pivot.xNotAround, thirdX]
  have fourthY : fourth y = (s.mem y).setParent (s.mem x).parent := by
    rw [fourthDef, hook_other pivot.yNotAround, thirdDef, Function.update_self, secondY]
  have adopted : adopt { s with mem := first } (ptr sentinel b) x =
      some { s with mem := second } := by
    rw [secondDef]
    exact adopt_eq (s := { s with mem := first }) same pivot.bValid pivot.bReal x
  have thirdAround : ∀ q ∈ ctx.labels, third q = s.mem q := by
    intro q member
    rw [thirdDef, Function.update_of_ne (ne_of_mem_of_not_mem member pivot.yNotAround), secondDef,
      foster_other (fun inside => pivot.bNotAround inside member), firstDef,
      Function.update_of_ne (ne_of_mem_of_not_mem member pivot.xNotAround)]
  have replaced : replace side { s with mem := third } x y =
      some { s with root := rootOf ctx y, mem := fourth } := by
    rw [fourthDef]
    refine replace_eq (s := { s with mem := third }) pivot.xValid (hangs.congr ?_ thirdAround) side y
    rw [thirdX, Node.parent_setChild]
  obtain ⟨fifth, fifthDef⟩ : ∃ mem, mem =
    Function.update fourth y ((fourth y).setChild side x) := ⟨_, rfl⟩
  have fifthX : fifth x = (s.mem x).setChild side.other (ptr sentinel b) := by
    rw [fifthDef, Function.update_of_ne pivot.different.symm, fourthX]
  refine ⟨Function.update fifth x ((fifth x).setParent y), ?_, ?_, ?_, ?_⟩
  · rw [rotate, load_eq pivot.xValid]
    simp only [Option.bind_eq_bind, Option.bind_some, xFar, load_eq pivot.yValid, yNear,
      store_eq pivot.xValid, ← firstDef, firstY, adopted, load_eq pivot.xValid, secondX, Node.parent_setChild,
      store_eq pivot.yValid, ← thirdDef, replaced, ← fifthDef]
  · rw [Function.update_self, fifthX]
  · rw [Function.update_of_ne pivot.different, fifthDef, Function.update_self, fourthY]
  · intro q notX notY
    rw [Function.update_of_ne notX, fifthDef, Function.update_of_ne notY, fourthDef]
    refine hook_congr ?_ ctx y
    rw [thirdDef, Function.update_of_ne notY, secondDef]
    refine foster_congr ?_ b x
    rw [firstDef, Function.update_of_ne notX]

theorem Layout.rotated {side : Side} {first second : Color} {a b d : RBTree Ptr} {x y : Ptr}
    (layout : Layout sentinel s ctx (.join side first a x (.join side second b y d))) :
    ∃ next, s.rotate side x = some next ∧
      Layout sentinel next ctx (.join side second (.join side first a x b) y d) ∧
      Alike sentinel s next := by
  have pivot := layout.pivot
  obtain ⟨xNear, xFar, xColor, xParent, aRep, yRep⟩ := rep_join.mp layout.focus
  obtain ⟨yNear, yFar, yColor, -, bRep, dRep⟩ := rep_join.mp yRep
  rw [ptr_join] at xFar
  obtain ⟨mem, run, atX, atY, elsewhere⟩ :=
    rotate_eq pivot layout.sameSentinel xFar yNear layout.hangs
  have kept : ∀ q, q ∉ ctx.labels → q ∉ b.labels → q ≠ x → q ≠ y → mem q = s.mem q := by
    intro q notAround notB notX notY
    rw [elsewhere q notX notY, hook_other notAround, foster_other notB]
  have sentinelKept : mem sentinel = s.mem sentinel :=
    kept sentinel pivot.aroundReal pivot.bReal pivot.xReal.symm pivot.yReal.symm
  refine ⟨_, run, layout.of_labels ?_ rfl ?_ ?_ (rep_join.mpr ⟨?_, ?_, ?_, ?_,
    rep_join.mpr ⟨?_, ?_, ?_, ?_, ?_, ?_⟩, ?_⟩) sentinelKept, sentinelKept, ?_⟩
  · exact Context.labels_plug_congr (labels_rotated ..)
  · rw [ptr_join]
  · have around := layout.around
    rw [ptr_join] at around ⊢
    refine (around.hook pivot.aroundNodup y).congr ?_
    intro q member
    refine (elsewhere q (ne_of_mem_of_not_mem member pivot.xNotAround)
      (ne_of_mem_of_not_mem member pivot.yNotAround)).trans ?_
    exact hook_congr (foster_other (fun inside => pivot.bNotAround inside member) x) ctx y
  · simp [atY]
  · simp [atY, yFar]
  · simp [atY, yColor]
  · intro above found
    simp [atY, xParent above found]
  · simp [atX, xNear]
  · simp [atX]
  · simp [atX, xColor]
  · rintro _ ⟨⟩
    simp [atX]
  · refine aRep.congr ?_
    intro q member
    exact kept q (fun inside => pivot.aNotAround member inside)
      (fun inside => pivot.aNotB member inside) (ne_of_mem_of_not_mem member pivot.xNotA)
      (ne_of_mem_of_not_mem member pivot.yNotA)
  · refine (bRep.foster pivot.bNodup x).congr ?_
    intro q member
    refine (elsewhere q (ne_of_mem_of_not_mem member pivot.xNotB)
      (ne_of_mem_of_not_mem member pivot.yNotB)).trans ?_
    exact hook_other (fun inside => pivot.bNotAround member inside) y
  · refine dRep.congr ?_
    intro q member
    exact kept q (fun inside => pivot.dNotAround member inside)
      (fun inside => pivot.bNotD inside member) (ne_of_mem_of_not_mem member pivot.xNotD)
      (ne_of_mem_of_not_mem member pivot.yNotD)
  · intro q
    show (mem q).item = _
    by_cases isX : q = x
    · rw [isX, atX, Node.item_setParent, Node.item_setChild]
    · by_cases isY : q = y
      · rw [isY, atY, Node.item_setChild, Node.item_setParent]
      · rw [elsewhere q isX isY, item_hook, item_foster]

end Layout

end NgxRbtree

end CLibs.Rbtree
