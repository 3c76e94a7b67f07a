import CLibs.Rbtree.DeleteFixup

/-!
# Deletion

`ngx_rbtree_delete`: a node with at most one child leaves its place to the child; in
the place of any other node comes its successor, which has left its own place so.
-/

set_option autoImplicit false

namespace CLibs.Rbtree

open General

variable {Data : Type}

namespace NgxRbtree

variable {sentinel : Ptr} {s : NgxRbtree Data} {ctx : Context Ptr}

theorem Layout.ptr_real {t : RBTree Ptr} (layout : Layout sentinel s ctx t) (some : t ≠ .nil) :
    ptr sentinel t ≠ s.sentinel := by
  rw [layout.sameSentinel]
  exact ne_of_mem_of_not_mem (ptr_mem some)
    fun inside => layout.notSentinel (Context.mem_labels_plug.mpr (.inl inside))

theorem ngxRbtreeMin_layout {t : RBTree Ptr} (fuel : Nat) (layout : Layout sentinel s ctx t)
    (some : t ≠ .nil) (enough : t.labels.length ≤ fuel) :
    ∃ inner color y right, ngxRbtreeMin fuel s (ptr sentinel t) = .some y ∧
      t = Context.plug inner (.node color .nil y right) ∧ Context.before inner = [] := by
  induction t generalizing ctx fuel with
  | nil => exact absurd rfl some
  | node color left p right leftIH _ =>
      have focused : Layout sentinel s (⟨.left, color, p, right⟩ :: ctx) left := layout_cons.mpr layout
      simp only [RBTree.labels, List.length_append, List.length_cons] at enough
      obtain ⟨fuel, rfl⟩ : ∃ less, fuel = less + 1 := ⟨fuel - 1, by omega⟩
      have step : ngxRbtreeMin (fuel + 1) s p =
          if ptr sentinel left = s.sentinel then .some p
          else ngxRbtreeMin fuel s (ptr sentinel left) := by
        rw [ngxRbtreeMin, load_eq focused.above.valid]
        simp only [Option.bind_eq_bind, Option.bind_some,
          show (s.mem p).left = ptr sentinel left from focused.above.near, Option.pure_def]
      by_cases empty : left = .nil
      · subst empty
        refine ⟨[], color, p, right, ?_, rfl, rfl⟩
        exact step.trans (if_pos layout.sameSentinel.symm)
      · obtain ⟨inner, color', y, right', found, rfl, leftmost⟩ :=
          leftIH fuel focused empty (by omega)
        refine ⟨inner ++ [⟨.left, color, p, right⟩], color', y, right', ?_, ?_, ?_⟩
        · exact step.trans ((if_neg (focused.ptr_real empty)).trans found)
        · rw [Context.plug_append]
          rfl
        · rw [Context.before_append, leftmost]
          rfl

/-! ## A node leaves its place -/

/-- The root of a subtree gets a new parent, and so does the sentinel. -/
def reparent (sentinel : Ptr) (t : RBTree Ptr) (parent : Ptr) (mem : Ptr → Node Data) :
    Ptr → Node Data :=
  Function.update mem (ptr sentinel t) ((mem (ptr sentinel t)).setParent parent)

theorem reparent_eq_foster {q : Ptr} (real : q ≠ sentinel) (t : RBTree Ptr) (parent : Ptr)
    (mem : Ptr → Node Data) : reparent sentinel t parent mem q = foster t parent mem q := by
  cases t with
  | nil => exact Function.update_of_ne real ..
  | node color left p right => rfl

theorem reparent_sentinel_color {t : RBTree Ptr} (real : sentinel ∉ t.labels) (parent : Ptr)
    (mem : Ptr → Node Data) :
    (reparent sentinel t parent mem sentinel).color = (mem sentinel).color := by
  by_cases empty : t = .nil
  · subst empty
    rw [reparent, ptr_nil, Function.update_self]
    rfl
  · exact congrArg Node.color (Function.update_of_ne (ne_of_mem_of_not_mem (ptr_mem empty) real).symm ..)

theorem parent_reparent (t : RBTree Ptr) (parent : Ptr) (mem : Ptr → Node Data) :
    (reparent sentinel t parent mem (ptr sentinel t)).parent = parent := by
  rw [reparent, Function.update_self, Node.parent_setParent]

theorem reparent_self (t : RBTree Ptr) (mem : Ptr → Node Data) :
    reparent sentinel t (mem (ptr sentinel t)).parent mem = mem :=
  Function.update_eq_self ..

theorem reparent_reparent (t : RBTree Ptr) (first second : Ptr) (mem : Ptr → Node Data) :
    reparent sentinel t second (reparent sentinel t first mem) =
      reparent sentinel t second mem := by
  simp only [reparent, Function.update_self, Function.update_idem, Node.setParent]

theorem item_reparent (t : RBTree Ptr) (parent : Ptr) (mem : Ptr → Node Data) (q : Ptr) :
    (reparent sentinel t parent mem q).item = (mem q).item :=
  item_update (fun node => Node.item_setParent node parent) q

/-- A node without a child on one side leaves its place to its other child. -/
theorem Layout.unlinked {side hole : Side} {color frameColor : Color} {y p : Ptr}
    {t sibling : RBTree Ptr}
    (layout : Layout sentinel s (⟨hole, frameColor, p, sibling⟩ :: ctx)
      (.join side color .nil y t)) :
    s.relink .left p y (ptr sentinel t) =
      some { s with
        mem := hook (⟨hole, frameColor, p, sibling⟩ :: ctx) (ptr sentinel t) s.mem } ∧
    Layout sentinel { s with
      mem := reparent sentinel t p
        (hook (⟨hole, frameColor, p, sibling⟩ :: ctx) (ptr sentinel t) s.mem) }
      (⟨hole, frameColor, p, sibling⟩ :: ctx) t := by
  have apart := layout.apart
  obtain ⟨pValid, -, here, notThere, -⟩ := layout.hangs.top _ _ _ _ _ rfl
  have member : ∀ q, q ∈ (Context.plug (⟨hole, frameColor, p, sibling⟩ :: ctx) t).labels →
      q ∈ (Context.plug (⟨hole, frameColor, p, sibling⟩ :: ctx) (.join side color .nil y t)).labels := by
    intro q inside
    rcases Context.mem_labels_plug.mp inside with inT | around
    · exact Context.mem_labels_plug.mpr (.inl (RBTree.mem_labels_join.mpr (.inr (.inr inT))))
    · exact Context.mem_labels_plug.mpr (.inr around)
  have notSentinel := fun inside => layout.notSentinel (member sentinel inside)
  have kept : ∀ q ∈ Context.labels (⟨hole, frameColor, p, sibling⟩ :: ctx),
      reparent sentinel t p (hook (⟨hole, frameColor, p, sibling⟩ :: ctx) (ptr sentinel t) s.mem) q =
        hook (⟨hole, frameColor, p, sibling⟩ :: ctx) (ptr sentinel t) s.mem q := by
    intro q around
    have real : q ≠ sentinel := ne_of_mem_of_not_mem (Context.mem_labels_plug.mpr (.inr around))
      notSentinel
    rw [reparent_eq_foster real, foster_other (fun inside => apart.farAround inside around)]
  refine ⟨relink_eq pValid here notThere, layout.sameSentinel, layout.root, ?_, ?_, ?_, ?_,
    notSentinel, layout.sentinelValid, ?_⟩
  · exact (layout.around.hook apart.aroundNodup (ptr sentinel t)).congr kept
  · have rep : Rep (hook (⟨hole, frameColor, p, sibling⟩ :: ctx) (ptr sentinel t) s.mem) sentinel
        (some y) t :=
      (rep_join.mp layout.focus).2.2.2.2.2.congr fun q inside =>
        hook_other (fun around => apart.farAround inside around) _
    refine (rep.foster apart.farNodup p).congr ?_
    intro q inside
    exact reparent_eq_foster (ne_of_mem_of_not_mem (Context.mem_labels_plug.mpr (.inl inside))
      notSentinel) t p _
  · rw [(Context.perm_labels_plug ..).nodup_iff, List.nodup_append']
    exact ⟨apart.farNodup, apart.aroundNodup, apart.farAround⟩
  · exact fun inside => layout.notNull (member null inside)
  · show (reparent sentinel t p (hook _ _ s.mem) sentinel).color = _
    rw [reparent_sentinel_color (fun inside => notSentinel (Context.mem_labels_plug.mpr (.inl inside))),
      hook_other (fun around => notSentinel (Context.mem_labels_plug.mpr (.inr around)))]
    exact layout.sentinelBlack

/-- What is written into a node outside the tree does not matter. -/
theorem Layout.forget {t : RBTree Ptr} {n : Ptr} (layout : Layout sentinel s ctx t)
    (absent : n ∉ (ctx.plug t).labels) (real : n ≠ sentinel) (node : Node Data) :
    Layout sentinel { s with mem := Function.update s.mem n node } ctx t := by
  have kept : ∀ q ∈ (ctx.plug t).labels, Function.update s.mem n node q = s.mem q :=
    fun q member => Function.update_of_ne (ne_of_mem_of_not_mem member absent) ..
  refine ⟨layout.sameSentinel, layout.root, layout.around.congr ?_, layout.focus.congr ?_,
    layout.nodup, layout.notNull, layout.notSentinel, layout.sentinelValid, ?_⟩
  · exact fun q member => kept q (Context.mem_labels_plug.mpr (.inr member))
  · exact fun q member => kept q (Context.mem_labels_plug.mpr (.inl member))
  · exact (congrArg Node.color (Function.update_of_ne real.symm ..)).trans layout.sentinelBlack

/-! ## Its successor takes the place of a node -/

/-- A node in its place; the nodes below it need not know it as their parent. -/
structure Placed (sentinel : Ptr) (s : NgxRbtree Data) (ctx : Context Ptr) (color : Color)
    (left : RBTree Ptr) (z : Ptr) (right : RBTree Ptr) : Prop where
  sameSentinel : s.sentinel = sentinel
  hangs : Hangs s ctx z
  around : RepAround s.mem sentinel ctx z
  onLeft : (s.mem z).left = ptr sentinel left
  onRight : (s.mem z).right = ptr sentinel right
  painted : (s.mem z).color = color
  parent : ∀ above, parentOf ctx = some above → (s.mem z).parent = above
  leftRep : Rep s.mem sentinel none left
  rightRep : Rep s.mem sentinel none right
  apart : Apart sentinel ctx left z right
  leftValid : ptr sentinel left ≠ null
  rightValid : ptr sentinel right ≠ null
  notNull : null ∉ (ctx.plug (.node color left z right)).labels
  notSentinel : sentinel ∉ (ctx.plug (.node color left z right)).labels
  sentinelValid : sentinel ≠ null
  sentinelBlack : (s.mem sentinel).color = .black

theorem Layout.placed {color : Color} {left right : RBTree Ptr} {z : Ptr}
    (layout : Layout sentinel s ctx (.node color left z right)) (parent : Ptr) :
    Placed sentinel { s with mem := reparent sentinel right parent s.mem } ctx color left z right := by
  have joined : Layout sentinel s ctx (.join .left color left z right) := layout
  have apart := joined.apart
  obtain ⟨onLeft, onRight, painted, above, leftRep, rightRep⟩ := layout.focus
  have leftFocus := layout_cons.mpr joined
  have inside : ∀ q, q ∈ left.labels ∨ q = z ∨ q ∈ ctx.labels →
      reparent sentinel right parent s.mem q = s.mem q := by
    intro q place
    have member : q ∈ (ctx.plug (.join .left color left z right)).labels := by
      rcases place with inLeft | here | around
      · exact Context.mem_labels_plug.mpr (.inl (RBTree.mem_labels_join.mpr (.inl inLeft)))
      · exact Context.mem_labels_plug.mpr (.inl (RBTree.mem_labels_join.mpr (.inr (.inl here))))
      · exact Context.mem_labels_plug.mpr (.inr around)
    rw [reparent_eq_foster (ne_of_mem_of_not_mem member layout.notSentinel)]
    refine foster_other ?_ parent
    rcases place with inLeft | rfl | around
    · exact fun inRight => apart.nearFar inLeft inRight
    · exact apart.notFar
    · exact fun inRight => apart.farAround inRight around
  have atZ : reparent sentinel right parent s.mem z = s.mem z := inside z (.inr (.inl rfl))
  have real : ∀ q ∈ right.labels, q ≠ sentinel := fun q inRight =>
    ne_of_mem_of_not_mem (Context.mem_labels_plug.mpr (.inl (RBTree.mem_labels_join.mpr
      (.inr (.inr inRight))))) joined.notSentinel
  refine ⟨layout.sameSentinel, ?_, ?_, ?_, ?_, ?_, ?_, ?_, ?_, apart, leftFocus.ptr_valid,
    leftFocus.sibling.ptr_valid, layout.notNull, layout.notSentinel, layout.sentinelValid, ?_⟩
  · exact joined.hangs.congr (congrArg Node.parent atZ) fun q around => inside q (.inr (.inr around))
  · exact layout.around.congr fun q around => inside q (.inr (.inr around))
  · exact (congrArg Node.left atZ).trans onLeft
  · exact (congrArg Node.right atZ).trans onRight
  · exact (congrArg Node.color atZ).trans painted
  · exact fun q found => (congrArg Node.parent atZ).trans (above q found)
  · exact leftRep.weaken.congr fun q inLeft => inside q (.inl inLeft)
  · refine (rightRep.foster apart.farNodup parent).weaken.congr ?_
    exact fun q inRight => reparent_eq_foster (real q inRight) right parent s.mem
  · refine (reparent_sentinel_color ?_ parent s.mem).trans layout.sentinelBlack
    exact fun inRight => real sentinel inRight rfl

theorem Layout.placed_self {color : Color} {left right : RBTree Ptr} {z : Ptr}
    (layout : Layout sentinel s ctx (.node color left z right)) :
    Placed sentinel s ctx color left z right := by
  have placed := layout.placed (s.mem (ptr sentinel right)).parent
  rw [reparent_self] at placed
  exact placed

/-- The memory after `node` was written to `y` and `y` came below its new parent and
above its new children. -/
def transplant (ctx : Context Ptr) (left right : RBTree Ptr) (y : Ptr) (node : Node Data)
    (mem : Ptr → Node Data) : Ptr → Node Data :=
  foster right y (foster left y (hook ctx y (Function.update mem y node)))

section Transplant

variable {left right : RBTree Ptr} {y z q : Ptr}

theorem transplant_self (notLeft : y ∉ left.labels) (notRight : y ∉ right.labels)
    (notAround : y ∉ ctx.labels) (node : Node Data) (mem : Ptr → Node Data) :
    transplant ctx left right y node mem y = node := by
  rw [transplant, foster_other notRight, foster_other notLeft, hook_other notAround,
    Function.update_self]

theorem transplant_around (apart : Apart sentinel ctx left z right) (notAround : y ∉ ctx.labels)
    (member : q ∈ ctx.labels) (node : Node Data) (mem : Ptr → Node Data) :
    transplant ctx left right y node mem q = hook ctx y mem q := by
  rw [transplant, foster_other (fun inRight => apart.farAround inRight member),
    foster_other (fun inLeft => apart.nearAround inLeft member)]
  exact hook_congr (Function.update_of_ne (ne_of_mem_of_not_mem member notAround) ..) ctx y

theorem transplant_left (apart : Apart sentinel ctx left z right) (notLeft : y ∉ left.labels)
    (member : q ∈ left.labels) (node : Node Data) (mem : Ptr → Node Data) :
    transplant ctx left right y node mem q = foster left y mem q := by
  rw [transplant, foster_other (fun inRight => apart.nearFar member inRight)]
  refine foster_congr ?_ left y
  rw [hook_other (fun around => apart.nearAround member around),
    Function.update_of_ne (ne_of_mem_of_not_mem member notLeft)]

theorem transplant_right (apart : Apart sentinel ctx left z right) (notRight : y ∉ right.labels)
    (member : q ∈ right.labels) (node : Node Data) (mem : Ptr → Node Data) :
    transplant ctx left right y node mem q = foster right y mem q := by
  refine foster_congr ?_ right y
  rw [foster_other (fun inLeft => apart.nearFar inLeft member),
    hook_other (fun around => apart.farAround member around),
    Function.update_of_ne (ne_of_mem_of_not_mem member notRight)]

theorem transplant_other (notLeft : q ∉ left.labels) (notRight : q ∉ right.labels)
    (notAround : q ∉ ctx.labels) (different : q ≠ y) (node : Node Data) (mem : Ptr → Node Data) :
    transplant ctx left right y node mem q = mem q := by
  rw [transplant, foster_other notRight, foster_other notLeft, hook_other notAround,
    Function.update_of_ne different]

theorem item_transplant {node : Node Data} {mem : Ptr → Node Data} (item : node.item = (mem y).item)
    (q : Ptr) : (transplant ctx left right y node mem q).item = (mem q).item := by
  rw [transplant, item_foster, item_foster, item_hook]
  by_cases same : q = y
  · rw [same, Function.update_self, item]
  · rw [Function.update_of_ne same]

end Transplant

theorem moveInto_eq {color : Color} {left right : RBTree Ptr} {y z : Ptr}
    (placed : Placed sentinel s ctx color left z right) (yValid : y ≠ null) (different : y ≠ z)
    (yLeft : y ∉ left.labels) (yAround : y ∉ ctx.labels) :
    ∃ node : Node Data, s.moveInto z y = some { s with
        root := rootOf ctx y
        mem := transplant ctx left right y node s.mem } ∧
      node.left = ptr sentinel left ∧ node.right = ptr sentinel right ∧ node.color = color ∧
      node.parent = (s.mem z).parent ∧ node.item = (s.mem y).item := by
  let node : Node Data :=
    (((s.mem y).setChild .left (ptr sentinel left)).setChild .right (ptr sentinel right)).setParent
      (s.mem z).parent
  refine ⟨node.setColor color, ?_, rfl, rfl, rfl, rfl, rfl⟩
  have valid := placed.apart.valid
  have real : ∀ q, q ∈ left.labels ∨ q ∈ right.labels → q ≠ sentinel := by
    intro q inside
    refine ne_of_mem_of_not_mem (Context.mem_labels_plug.mpr (.inl ?_)) placed.notSentinel
    exact List.mem_append.mpr (inside.imp id fun inRight => List.mem_cons_of_mem _ inRight)
  obtain ⟨written, writtenDef⟩ : ∃ mem, mem = Function.update s.mem y (node.setColor color) :=
    ⟨_, rfl⟩
  have replaced : replace .left { s with mem := written } z y =
      some { s with root := rootOf ctx y, mem := hook ctx y written } := by
    refine replace_eq (s := { s with mem := written }) valid (placed.hangs.congr ?_ ?_) .left y
    · rw [writtenDef, Function.update_of_ne different.symm]
    · intro q around
      rw [writtenDef, Function.update_of_ne (ne_of_mem_of_not_mem around yAround)]
  have hooked : hook ctx y written y = node.setColor color := by
    rw [hook_other yAround, writtenDef, Function.update_self]
  have fostered : foster left y (hook ctx y written) y = node.setColor color := by
    rw [foster_other yLeft, hooked]
  have first := adopt_eq (s := { s with root := rootOf ctx y, mem := hook ctx y written })
    placed.sameSentinel placed.leftValid (fun inLeft => real sentinel (.inl inLeft) rfl) y
  have second := adopt_eq
    (s := { s with root := rootOf ctx y, mem := foster left y (hook ctx y written) })
    placed.sameSentinel placed.rightValid (fun inRight => real sentinel (.inr inRight) rfl) y
  rw [moveInto, load_eq valid, transplant, ← writtenDef]
  simp only [Option.bind_eq_bind, Option.bind_some, store_eq yValid, load_eq valid,
    Function.update_of_ne different.symm, Function.update_self, Function.update_idem,
    placed.onLeft, placed.onRight, placed.painted]
  rw [show Function.update s.mem y (Node.setColor color (Node.setParent (s.mem z).parent
    (Node.setChild .right (ptr sentinel right) (Node.setChild .left (ptr sentinel left) (s.mem y)))))
    = written from writtenDef.symm, replaced]
  simp only [Option.bind_some, load_eq yValid, hooked,
    show (node.setColor color).left = ptr sentinel left from rfl, first, fostered,
    show (node.setColor color).right = ptr sentinel right from rfl, second]

theorem moveInto_layout {color : Color} {left right : RBTree Ptr} {y z : Ptr}
    (placed : Placed sentinel s ctx color left z right) (yValid : y ≠ null) (yReal : y ≠ sentinel)
    (absent : y ∉ (ctx.plug (.node color left z right)).labels) :
    ∃ next, s.moveInto z y = some next ∧ Layout sentinel next ctx (.node color left y right) ∧
      Alike sentinel s next := by
  have apart := placed.apart
  have notSentinel := placed.notSentinel
  have notNull := placed.notNull
  simp only [Context.mem_labels_plug, RBTree.labels, List.mem_append, List.mem_cons, not_or]
    at absent notSentinel notNull
  obtain ⟨⟨yLeft, different, yRight⟩, yAround⟩ := absent
  obtain ⟨node, run, onLeft, onRight, painted, parent, item⟩ :=
    moveInto_eq placed yValid different yLeft yAround
  have here : transplant ctx left right y node s.mem y = node :=
    transplant_self yLeft yRight yAround node s.mem
  have sentinelKept : transplant ctx left right y node s.mem sentinel = s.mem sentinel :=
    transplant_other notSentinel.1.1 notSentinel.1.2.2 notSentinel.2 yReal.symm node s.mem
  refine ⟨_, run, ⟨placed.sameSentinel, rfl, ?_, ⟨?_, ?_, ?_, ?_, ?_, ?_⟩, ?_, ?_, ?_,
    placed.sentinelValid, ?_⟩, sentinelKept, item_transplant item⟩
  · exact (placed.around.hook apart.aroundNodup y).congr
      fun q member => transplant_around apart yAround member node s.mem
  · exact (congrArg Node.left here).trans onLeft
  · exact (congrArg Node.right here).trans onRight
  · exact (congrArg Node.color here).trans painted
  · intro above found
    exact (congrArg Node.parent here).trans (parent.trans (placed.parent above found))
  · exact (placed.leftRep.foster apart.nearNodup y).congr
      fun q member => transplant_left apart yLeft member node s.mem
  · exact (placed.rightRep.foster apart.farNodup y).congr
      fun q member => transplant_right apart yRight member node s.mem
  · rw [(Context.perm_labels_plug ..).nodup_iff, List.nodup_append']
    refine ⟨?_, apart.aroundNodup, ?_⟩
    · refine (RBTree.perm_labels_join .left color left y right).nodup_iff.mpr ?_
      rw [List.nodup_cons, List.nodup_append', List.mem_append, not_or]
      exact ⟨⟨yLeft, yRight⟩, apart.nearNodup, apart.farNodup, apart.nearFar⟩
    · intro q inside member
      rcases List.mem_append.mp inside with inLeft | inside
      · exact apart.nearAround inLeft member
      · rcases List.mem_cons.mp inside with rfl | inRight
        · exact yAround member
        · exact apart.farAround inRight member
  · simp only [Context.mem_labels_plug, RBTree.labels, List.mem_append, List.mem_cons, not_or]
    exact ⟨⟨notNull.1.1, yValid.symm, notNull.1.2.2⟩, notNull.2⟩
  · simp only [Context.mem_labels_plug, RBTree.labels, List.mem_append, List.mem_cons, not_or]
    exact ⟨⟨notSentinel.1.1, yReal.symm, notSentinel.1.2.2⟩, notSentinel.2⟩
  · exact (congrArg Node.color sentinelKept).trans placed.sentinelBlack

theorem Placed.moved {inner : Context Ptr} {color : Color} {left t : RBTree Ptr} {y z : Ptr}
    (placed : Placed sentinel s ctx color left z (inner.plug t)) (yValid : y ≠ null)
    (yReal : y ≠ sentinel)
    (absent : y ∉ (ctx.plug (.node color left z (inner.plug t))).labels)
    (linked : ∀ p, parentOf (inner ++ ⟨.right, color, y, left⟩ :: ctx) = some p →
      Linked sentinel s p t) :
    ∃ next last, s.moveInto z y = some next ∧ next.store z clear = some last ∧
      Layout sentinel last (inner ++ ⟨.right, color, y, left⟩ :: ctx) t ∧
      (∀ p, parentOf (inner ++ ⟨.right, color, y, left⟩ :: ctx) = some p →
        Linked sentinel last p t) ∧
      ∀ q, q ≠ z → (last.mem q).item = (s.mem q).item := by
  have apart := placed.apart
  obtain ⟨next, moved, layout, alike⟩ := moveInto_layout placed yValid yReal absent
  have gone : z ∉ (ctx.plug (.node color left y (inner.plug t))).labels := by
    rw [Context.mem_labels_plug, RBTree.labels, List.mem_append, List.mem_cons]
    simp only [not_or]
    refine ⟨⟨apart.notNear, ?_, apart.notFar⟩, apart.notAround⟩
    rintro rfl
    exact absent (Context.mem_labels_plug.mpr (.inl (by simp [RBTree.labels])))
  have forgotten := layout.forget gone apart.real (clear (next.mem z))
  have focused : Layout sentinel
      { next with mem := Function.update next.mem z (clear (next.mem z)) }
      (inner ++ ⟨.right, color, y, left⟩ :: ctx) t := layout_append.mpr (layout_cons.mpr forgotten)
  refine ⟨next, _, moved, store_eq apart.valid _, focused, ?_, ?_⟩
  · intro p parent
    by_cases empty : t = .nil
    · subst empty
      have atSentinel : (s.mem sentinel).parent = p := linked p parent
      rw [← alike.atSentinel] at atSentinel
      exact (congrArg Node.parent (Function.update_of_ne apart.real.symm ..)).trans atSentinel
    · exact focused.parent empty parent
  · intro q notZ
    exact (congrArg Node.item (Function.update_of_ne notZ ..)).trans (alike.items q)

/-! ## The two cases -/

/-- A node without a child on one side is taken out itself. -/
theorem chooseSubst_single {side : Side} {color : Color} {n : Ptr} {t : RBTree Ptr} (fuel : Nat)
    (layout : Layout sentinel s ctx (.join side color .nil n t)) :
    s.chooseSubst fuel n = some (n, ptr sentinel t) := by
  have valid := layout.apart.valid
  obtain ⟨near, far, -, -, -, -⟩ := rep_join.mp layout.focus
  have same := layout.sameSentinel
  rw [chooseSubst, load_eq valid]
  simp only [Option.bind_eq_bind, Option.bind_some]
  cases side with
  | left =>
      have onLeft : (s.mem n).left = s.sentinel := by
        rw [same]
        exact near
      have onRight : (s.mem n).right = ptr sentinel t := far
      rw [if_pos onLeft, onRight]
      rfl
  | right =>
      have onRight : (s.mem n).right = s.sentinel := by
        rw [same]
        exact near
      have onLeft : (s.mem n).left = ptr sentinel t := far
      by_cases empty : ptr sentinel t = s.sentinel
      · rw [onLeft, if_pos empty, onRight, empty]
        rfl
      · rw [onLeft, if_neg empty, if_pos onRight]
        rfl

theorem chooseSubst_double {color yColor : Color} {y z : Ptr} {left t : RBTree Ptr}
    {inner : Context Ptr} {fuel : Nat}
    (layout : Layout sentinel s ctx
      (.node color left z (inner.plug (.node yColor .nil y t)))) (some : left ≠ .nil)
    (found : ngxRbtreeMin fuel s (ptr sentinel (inner.plug (.node yColor .nil y t))) = .some y) :
    s.chooseSubst fuel z = .some (y, ptr sentinel t) := by
  have leftFocus : Layout sentinel s
      (⟨.left, color, z, inner.plug (.node yColor .nil y t)⟩ :: ctx) left := layout_cons.mpr layout
  have rightSome : inner.plug (.node yColor .nil y t) ≠ .nil := plug_ne_nil (by simp)
  have yFocus : Layout sentinel s (inner ++ ⟨.right, color, z, left⟩ :: ctx)
      (.node yColor .nil y t) := layout_append.mpr leftFocus.sibling
  have notLeft : (s.mem z).left ≠ s.sentinel := by
    rw [show (s.mem z).left = ptr sentinel left from leftFocus.above.near]
    exact leftFocus.ptr_real some
  have onRight : (s.mem z).right = ptr sentinel (inner.plug (.node yColor .nil y t)) :=
    leftFocus.above.far
  have notRight : (s.mem z).right ≠ s.sentinel := by
    rw [onRight]
    exact leftFocus.sibling.ptr_real rightSome
  have yLeft : (s.mem y).left = s.sentinel := by
    rw [layout.sameSentinel]
    exact yFocus.focus.1
  have yRight : (s.mem y).right = ptr sentinel t := yFocus.focus.2.1
  rw [chooseSubst, load_eq leftFocus.above.valid]
  simp only [Option.bind_eq_bind, Option.bind_some, notLeft, notRight, if_false]
  rw [onRight, found]
  simp only [Option.bind_some, load_eq (show y ≠ null from yFocus.ptr_valid), yLeft, if_true,
    yRight, Option.pure_def]

theorem unlink_single {side hole : Side} {color frameColor : Color} {n p : Ptr}
    {t sibling : RBTree Ptr}
    (layout : Layout sentinel s (⟨hole, frameColor, p, sibling⟩ :: ctx)
      (.join side color .nil n t)) :
    ∃ next, s.unlink n n (ptr sentinel t) = some next ∧
      Layout sentinel next (⟨hole, frameColor, p, sibling⟩ :: ctx) t ∧
      Linked sentinel next p t ∧ ∀ q, q ≠ n → (next.mem q).item = (s.mem q).item := by
  have apart := layout.apart
  obtain ⟨relinked, unlinked⟩ := layout.unlinked
  have parent : (s.mem n).parent = p := layout.parent_join rfl
  have gone : n ∉ (Context.plug (⟨hole, frameColor, p, sibling⟩ :: ctx) t).labels := by
    rw [Context.mem_labels_plug, not_or]
    exact ⟨apart.notFar, apart.notAround⟩
  have different : ptr sentinel t ≠ n := by
    by_cases empty : t = .nil
    · rw [empty]
      exact apart.real.symm
    · exact ne_of_mem_of_not_mem (ptr_mem empty) apart.notFar
  have forgotten := unlinked.forget gone apart.real (clear
    (reparent sentinel t p (hook (⟨hole, frameColor, p, sibling⟩ :: ctx) (ptr sentinel t) s.mem) n))
  refine ⟨_, ?_, forgotten, ?_, ?_⟩
  · rw [unlink, load_eq apart.valid]
    simp only [Option.bind_eq_bind, Option.bind_some, parent, relinked, load_eq apart.valid,
      hook_other apart.notAround, if_true, store_eq unlinked.ptr_valid, store_eq apart.valid,
      reparent]
  · exact (congrArg Node.parent (Function.update_of_ne different ..)).trans
      (parent_reparent t p _)
  · intro q notN
    exact (congrArg Node.item (Function.update_of_ne notN ..)).trans
      ((item_reparent t p _ q).trans (item_hook _ _ _ q))

theorem unlink_other {y z p temp : Ptr} {middle : NgxRbtree Data} (yValid : y ≠ null)
    (different : y ≠ z) (parent : (s.mem y).parent = p)
    (relinked : s.relink .left p y temp = some middle) (kept : (middle.mem y).parent = p) :
    s.unlink z y temp = (middle.store temp (Node.setParent (if p = z then y else p))).bind fun s =>
      (s.moveInto z y).bind fun s => s.store z clear := by
  rw [unlink, load_eq yValid]
  simp only [Option.bind_eq_bind, Option.bind_some, parent, relinked, load_eq yValid, kept,
    different, if_false]
  split
  · rfl
  · rfl

theorem unlink_child {color yColor : Color} {y z : Ptr} {left t : RBTree Ptr}
    (layout : Layout sentinel s (⟨.right, color, z, left⟩ :: ctx) (.join .left yColor .nil y t))
    (different : y ≠ z) (absent : y ∉ (ctx.plug (.node color left z t)).labels) :
    ∃ next, s.unlink z y (ptr sentinel t) = some next ∧
      Layout sentinel next (⟨.right, color, y, left⟩ :: ctx) t ∧ Linked sentinel next y t ∧
      ∀ q, q ≠ z → (next.mem q).item = (s.mem q).item := by
  have apart := layout.apart
  obtain ⟨relinked, unlinked⟩ := layout.unlinked
  have whole : Layout sentinel _ ctx (.node color left z t) := layout_cons.mp unlinked
  have placed := whole.placed y
  simp only [reparent_reparent] at placed
  have known : Placed sentinel _ ctx color left z (Context.plug [] t) := placed
  obtain ⟨next, last, moved, cleared, lastLayout, linked, items⟩ :=
    known.moved apart.valid apart.real absent
      (by
        rintro p ⟨⟩
        exact parent_reparent t y _)
  have parent : (s.mem y).parent = z := layout.parent_join rfl
  have kept : (hook (⟨.right, color, z, left⟩ :: ctx) (ptr sentinel t) s.mem y).parent = z :=
    (congrArg Node.parent (hook_other apart.notAround _)).trans parent
  refine ⟨last, ?_, lastLayout, linked y rfl, ?_⟩
  · rw [unlink_other apart.valid different parent relinked kept, if_pos rfl,
      store_eq unlinked.ptr_valid]
    exact (congrArg (Option.bind · _) moved).trans cleared
  · intro q notZ
    rw [items q notZ, item_reparent, item_hook]

theorem unlink_deeper {hole : Side} {color frameColor yColor : Color} {p y z : Ptr}
    {left sibling t : RBTree Ptr} {inner : Context Ptr}
    (layout : Layout sentinel s
      (⟨hole, frameColor, p, sibling⟩ :: (inner ++ ⟨.right, color, z, left⟩ :: ctx))
      (.join .left yColor .nil y t))
    (different : y ≠ z)
    (absent : y ∉ (ctx.plug (.node color left z
      (Context.plug (⟨hole, frameColor, p, sibling⟩ :: inner) t))).labels) :
    ∃ next, s.unlink z y (ptr sentinel t) = some next ∧
      Layout sentinel next
        (⟨hole, frameColor, p, sibling⟩ :: (inner ++ ⟨.right, color, y, left⟩ :: ctx)) t ∧
      Linked sentinel next p t ∧ ∀ q, q ≠ z → (next.mem q).item = (s.mem q).item := by
  have apart := layout.apart
  obtain ⟨relinked, unlinked⟩ := layout.unlinked
  have notZ : p ≠ z := by
    rintro rfl
    exact (layout_cons.mp layout).apart.notAround (Context.mem_labels_append inner ctx)
  have focused : Layout sentinel _
      ((⟨hole, frameColor, p, sibling⟩ :: inner) ++ ⟨.right, color, z, left⟩ :: ctx) t := unlinked
  have whole : Layout sentinel _ ctx (.node color left z
      (Context.plug (⟨hole, frameColor, p, sibling⟩ :: inner) t)) :=
    layout_cons.mp (layout_append.mp focused)
  obtain ⟨next, last, moved, cleared, lastLayout, linked, items⟩ :=
    whole.placed_self.moved apart.valid apart.real absent
      (by
        rintro q ⟨⟩
        exact parent_reparent t p _)
  have parent : (s.mem y).parent = p := layout.parent_join rfl
  have kept : (hook (⟨hole, frameColor, p, sibling⟩ :: (inner ++ ⟨.right, color, z, left⟩ :: ctx))
      (ptr sentinel t) s.mem y).parent = p :=
    (congrArg Node.parent (hook_other apart.notAround _)).trans parent
  refine ⟨last, ?_, lastLayout, linked p rfl, ?_⟩
  · rw [unlink_other apart.valid different parent relinked kept, if_neg notZ,
      store_eq unlinked.ptr_valid]
    exact (congrArg (Option.bind · _) moved).trans cleared
  · intro q notZ
    rw [items q notZ, item_reparent, item_hook]

theorem unlink_double {inner : Context Ptr} {color yColor : Color} {y z : Ptr}
    {left t : RBTree Ptr}
    (layout : Layout sentinel s (inner ++ ⟨.right, color, z, left⟩ :: ctx)
      (.node yColor .nil y t)) :
    ∃ next, s.unlink z y (ptr sentinel t) = some next ∧
      Layout sentinel next (inner ++ ⟨.right, color, y, left⟩ :: ctx) t ∧
      (∀ p, parentOf (inner ++ ⟨.right, color, y, left⟩ :: ctx) = some p →
        Linked sentinel next p t) ∧
      ∀ q, q ≠ z → (next.mem q).item = (s.mem q).item := by
  have joined : Layout sentinel s (inner ++ ⟨.right, color, z, left⟩ :: ctx)
      (.join .left yColor .nil y t) := layout
  have apart := joined.apart
  have different : y ≠ z := by
    rintro rfl
    exact apart.notAround (Context.mem_labels_append inner ctx)
  have absent : y ∉ (ctx.plug (.node color left z (inner.plug t))).labels := by
    have gone : y ∉ (Context.plug (inner ++ ⟨.right, color, z, left⟩ :: ctx) t).labels := by
      rw [Context.mem_labels_plug, not_or]
      exact ⟨apart.notFar, apart.notAround⟩
    rw [Context.plug_append] at gone
    exact gone
  cases inner with
  | nil =>
      obtain ⟨next, run, nextLayout, linked, items⟩ := unlink_child joined different absent
      refine ⟨next, run, nextLayout, ?_, items⟩
      rintro p ⟨⟩
      exact linked
  | cons frame inner =>
      obtain ⟨next, run, nextLayout, linked, items⟩ := unlink_deeper joined different absent
      refine ⟨next, run, nextLayout, ?_, items⟩
      rintro p ⟨⟩
      exact linked

/-! ## Deletion as a whole -/

/-- After a black node was taken out of its place the balance is restored. -/
theorem repair_layout {side : Side} {color : Color} {n : Ptr} {t : RBTree Ptr} {height : Nat}
    (fuel : Nat) (layout : Layout sentinel s ctx t)
    (linked : ∀ p, parentOf ctx = some p → Linked sentinel s p t) (below : ctx ≠ [])
    (balanced : (RBTree.join side color .nil n t).Balanced height) (fits : ctx.Fits height)
    (enough : ctx.length < fuel) :
    ∃ last, s.repair fuel color (ptr sentinel t) = some last ∧
      Repaired sentinel (ctx.plug t).labels s last := by
  cases color with
  | red =>
      obtain ⟨-, balanced, -, black⟩ := RBTree.balanced_red.mp balanced
      exact ⟨s, rfl, layout.repaired black balanced fits (.refl sentinel s)⟩
  | black =>
      obtain ⟨height, rfl, -, balanced⟩ := RBTree.balanced_black.mp balanced
      cases painted : t.color with
      | red =>
          obtain ⟨fuel, rfl⟩ : ∃ less, fuel = less + 1 := ⟨fuel - 1, by omega⟩
          obtain ⟨stops, last, stored, repaired⟩ := deleteFixup_red layout painted
            (balanced.paint_black_of_red painted) fits fuel
          refine ⟨last, ?_, repaired⟩
          rw [repair, if_neg (by simp), stops]
          exact stored
      | black =>
          obtain ⟨next, temp, last, loop, stored, repaired⟩ := deleteFixup_layout fuel layout linked
            (fun root => absurd root below) painted balanced fits enough
          refine ⟨last, ?_, repaired⟩
          rw [repair, if_neg (by simp), loop]
          exact stored

/-- What is left when a node is deleted: the other nodes, in a balanced tree. -/
def Deleted (sentinel n : Ptr) (labels : List Ptr) (s next : NgxRbtree Data) : Prop :=
  ∃ smaller high front back, Layout sentinel next [] smaller ∧ smaller.Balanced high ∧
    smaller.color = .black ∧ labels = front ++ n :: back ∧ smaller.labels = front ++ back ∧
    ∀ q, q ≠ n → (next.mem q).item = (s.mem q).item

theorem Repaired.deleted {middle next : NgxRbtree Data} {n : Ptr} {labels rest front back : List Ptr}
    (repaired : Repaired sentinel rest middle next)
    (items : ∀ q, q ≠ n → (middle.mem q).item = (s.mem q).item)
    (before : labels = front ++ n :: back) (after : rest = front ++ back) :
    Deleted sentinel n labels s next := by
  obtain ⟨whole, high, layout, same, balanced, black, alike⟩ := repaired
  refine ⟨whole, high, front, back, layout, balanced, black, before, same.trans after, ?_⟩
  exact fun q notN => (alike.items q).trans (items q notN)

theorem labels_single (ctx : Context Ptr) (side : Side) (color : Color) (n : Ptr) (t : RBTree Ptr) :
    ∃ front back, (ctx.plug (.join side color .nil n t)).labels = front ++ n :: back ∧
      (ctx.plug t).labels = front ++ back := by
  cases side with
  | left =>
      refine ⟨ctx.before, t.labels ++ ctx.after, ?_, ?_⟩
      · simp [Context.labels_plug, RBTree.join, RBTree.labels]
      · simp [Context.labels_plug]
  | right =>
      refine ⟨ctx.before ++ t.labels, ctx.after, ?_, ?_⟩
      · simp [Context.labels_plug, RBTree.join, RBTree.labels]
      · simp [Context.labels_plug]

/-- The root has at most one child, which is the root from now on. -/
theorem delete_root {side : Side} {color : Color} {n : Ptr} {t : RBTree Ptr} {height : Nat}
    (fuel : Nat) (layout : Layout sentinel s [] (.join side color .nil n t))
    (balanced : t.Balanced height) :
    ∃ next, ngxRbtreeDelete fuel s n = some next ∧
      Deleted sentinel n (RBTree.join side color .nil n t).labels s next := by
  have apart := layout.apart
  have root : n = s.root := by
    rw [layout.root, ptr_join]
    rfl
  have raised : Layout sentinel { s with root := ptr sentinel t } [] t := by
    refine ⟨layout.sameSentinel, rfl, trivial, ?_, apart.farNodup, ?_, ?_, layout.sentinelValid,
      layout.sentinelBlack⟩
    · exact (rep_join.mp layout.focus).2.2.2.2.2.weaken
    · exact fun inside => layout.notNull (RBTree.mem_labels_join.mpr (.inr (.inr inside)))
    · exact fun inside => layout.notSentinel (RBTree.mem_labels_join.mpr (.inr (.inr inside)))
  have painted : ∃ next, store { s with root := ptr sentinel t } (ptr sentinel t)
      (Node.setColor .black) = some next ∧ Layout sentinel next [] (t.paint .black) ∧
      Alike sentinel s next := by
    by_cases empty : t = .nil
    · subst empty
      have kept : Function.update s.mem sentinel ((s.mem sentinel).setColor .black) = s.mem := by
        refine Function.update_eq_self_iff.mpr ?_
        rw [← layout.sentinelBlack]
        rfl
      refine ⟨{ s with root := sentinel }, ?_, raised, rfl, fun _ => rfl⟩
      rw [ptr_nil, store_eq layout.sentinelValid, kept]
    · obtain ⟨next, stored, nextLayout, alike⟩ := raised.painted empty .black
      exact ⟨next, stored, nextLayout, alike.atSentinel, alike.items⟩
  obtain ⟨middle, stored, middleLayout, alike⟩ := painted
  obtain ⟨high, middleBalanced⟩ := balanced.paint_black
  have gone : n ∉ (Context.plug [] (t.paint .black)).labels := by
    rw [Context.labels_plug_congr (RBTree.labels_paint ..)]
    exact apart.notFar
  obtain ⟨front, back, before, after⟩ := labels_single [] side color n t
  refine ⟨_, ?_, t.paint .black, high, front, back,
    middleLayout.forget gone apart.real (clear (middle.mem n)), middleBalanced,
    RBTree.color_paint_black t, before, (RBTree.labels_paint ..).trans after, ?_⟩
  · rw [ngxRbtreeDelete, chooseSubst_single fuel layout]
    simp only [Option.bind_eq_bind, Option.bind_some]
    rw [if_pos root, stored]
    exact store_eq apart.valid _
  · intro q notN
    exact (congrArg Node.item (Function.update_of_ne notN ..)).trans (alike.items q)

theorem delete_single {side : Side} {color : Color} {n : Ptr} {t : RBTree Ptr} {height : Nat}
    (fuel : Nat) (layout : Layout sentinel s ctx (.join side color .nil n t))
    (balanced : (RBTree.join side color .nil n t).Balanced height) (fits : ctx.Fits height)
    (enough : ctx.length < fuel) :
    ∃ next, ngxRbtreeDelete fuel s n = some next ∧
      Deleted sentinel n (ctx.plug (.join side color .nil n t)).labels s next := by
  cases ctx with
  | nil =>
      cases color with
      | red => exact delete_root fuel layout (RBTree.balanced_red.mp balanced).2.1
      | black =>
          obtain ⟨_, -, -, below⟩ := RBTree.balanced_black.mp balanced
          exact delete_root fuel layout below
  | cons frame rest =>
      obtain ⟨hole, frameColor, p, sibling⟩ := frame
      obtain ⟨middle, unlinked, middleLayout, linked, items⟩ := unlink_single layout
      obtain ⟨last, repairs, repaired⟩ := repair_layout fuel middleLayout
        (by
          rintro q ⟨⟩
          exact linked) (by simp) balanced fits enough
      obtain ⟨front, back, before, after⟩ := labels_single _ side color n t
      refine ⟨last, ?_, repaired.deleted items before after⟩
      have notRoot := layout.not_root
      have painted := layout.color_ptr
      rw [ptr_join] at notRoot painted
      rw [RBTree.color_join] at painted
      rw [ngxRbtreeDelete, chooseSubst_single fuel layout]
      simp only [Option.bind_eq_bind, Option.bind_some, notRoot, if_false,
        load_eq layout.apart.valid, painted, unlinked, repairs]

theorem delete_double {inner : Context Ptr} {color yColor : Color} {y z : Ptr}
    {left t : RBTree Ptr} {height : Nat} {fuel : Nat}
    (layout : Layout sentinel s (inner ++ ⟨.right, color, z, left⟩ :: ctx)
      (.node yColor .nil y t))
    (chosen : s.chooseSubst fuel z = some (y, ptr sentinel t)) (leftmost : inner.before = [])
    (balanced : (RBTree.node yColor .nil y t).Balanced height)
    (fits : Context.Fits (inner ++ ⟨.right, color, z, left⟩ :: ctx) height)
    (enough : (inner ++ ⟨.right, color, z, left⟩ :: ctx).length < fuel) :
    ∃ next, ngxRbtreeDelete fuel s z = some next ∧
      Deleted sentinel z (Context.plug (inner ++ ⟨.right, color, z, left⟩ :: ctx)
        (.node yColor .nil y t)).labels s next := by
  obtain ⟨middle, unlinked, middleLayout, linked, items⟩ := unlink_double layout
  have joined : (RBTree.join .left yColor .nil y t).Balanced height := balanced
  obtain ⟨last, repairs, repaired⟩ := repair_layout fuel middleLayout linked (by simp) joined
    (fits.relabel y) (by simpa using enough)
  have notRoot : y ≠ s.root := by
    cases inner with
    | nil => exact layout.not_root
    | cons frame inner => exact layout.not_root
  have before : (Context.plug (inner ++ ⟨.right, color, z, left⟩ :: ctx)
      (.node yColor .nil y t)).labels =
      (ctx.before ++ left.labels) ++ z :: (y :: (inner.plug t).labels ++ ctx.after) := by
    simp [Context.labels_plug, Context.plug_append, Context.plug, RBTree.join, RBTree.labels,
      leftmost]
  have after : (Context.plug (inner ++ ⟨.right, color, y, left⟩ :: ctx) t).labels =
      (ctx.before ++ left.labels) ++ (y :: (inner.plug t).labels ++ ctx.after) := by
    simp [Context.labels_plug, Context.plug_append, Context.plug, RBTree.join, RBTree.labels]
  refine ⟨last, ?_, repaired.deleted items before after⟩
  rw [ngxRbtreeDelete, chosen]
  simp only [Option.bind_eq_bind, Option.bind_some, notRoot, if_false,
    load_eq (show y ≠ null from layout.ptr_valid), unlinked, repairs,
    show (s.mem y).color = yColor from layout.color_ptr]

theorem delete_layout {whole : RBTree Ptr} {height : Nat} {n : Ptr} (fuel : Nat)
    (layout : Layout sentinel s [] whole) (balanced : whole.Balanced height)
    (black : whole.color = .black) (member : n ∈ whole.labels)
    (enough : whole.labels.length < fuel) :
    ∃ next, ngxRbtreeDelete fuel s n = some next ∧ Deleted sentinel n whole.labels s next := by
  obtain ⟨ctx, color, left, right, rfl⟩ := Context.exists_plug member
  have focused := layout_whole.mpr layout
  by_cases noLeft : left = .nil
  · subst noLeft
    obtain ⟨under, below, fits, -⟩ := Context.fits_of_balanced balanced black
    have joined : Layout sentinel s ctx (.join .left color .nil n right) := focused
    exact delete_single fuel joined below fits
      (Nat.lt_of_le_of_lt (Context.length_le_labels ctx _) enough)
  by_cases noRight : right = .nil
  · subst noRight
    obtain ⟨under, below, fits, -⟩ := Context.fits_of_balanced balanced black
    have joined : Layout sentinel s ctx (.join .right color .nil n left) := focused
    exact delete_single fuel joined below fits
      (Nat.lt_of_le_of_lt (Context.length_le_labels ctx _) enough)
  have leftFocus : Layout sentinel s (⟨.left, color, n, right⟩ :: ctx) left := layout_cons.mpr focused
  have rightShort : right.labels.length ≤ fuel := by
    rw [(Context.perm_labels_plug ..).length_eq] at enough
    simp only [RBTree.labels, List.length_append, List.length_cons] at enough
    omega
  obtain ⟨inner, yColor, y, t, found, rfl, leftmost⟩ :=
    ngxRbtreeMin_layout fuel leftFocus.sibling noRight rightShort
  have chosen := chooseSubst_double focused noLeft found
  have same : ctx.plug (.node color left n (inner.plug (.node yColor .nil y t))) =
      Context.plug (inner ++ ⟨.right, color, n, left⟩ :: ctx) (.node yColor .nil y t) := by
    rw [Context.plug_append]
    rfl
  rw [same] at layout balanced black enough ⊢
  obtain ⟨under, below, fits, -⟩ := Context.fits_of_balanced balanced black
  exact delete_double (layout_whole.mpr layout) chosen leftmost below fits
    (Nat.lt_of_le_of_lt (Context.length_le_labels _ _) enough)

end NgxRbtree

end CLibs.Rbtree
