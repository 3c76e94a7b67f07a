import CLibs.Rbtree.Layout

/-!
# Insertion

`ngx_rbtree_insert` puts a new leaf where the callback says and restores the balance.
-/

set_option autoImplicit false

namespace CLibs.Rbtree

open General

variable {Data : Type}

namespace NgxRbtree

variable {sentinel : Ptr} {s : NgxRbtree Data} {ctx : Context Ptr}

theorem ne_nil_of_red {t : RBTree Ptr} (red : t.color = .red) : t ≠ .nil := by
  rintro rfl
  cases red

theorem Alike.refl (sentinel : Ptr) (s : NgxRbtree Data) : Alike sentinel s s :=
  ⟨rfl, fun _ => rfl⟩

/-- The uncle is red: the two generations above swap their colours. -/
theorem insertCase_recolor {hole side : Side} {t sibling uncle : RBTree Ptr} {p g : Ptr}
    {parentColor grandColor : Color}
    (layout : Layout sentinel s
      (⟨hole, parentColor, p, sibling⟩ :: ⟨side, grandColor, g, uncle⟩ :: ctx) t)
    (some : t ≠ .nil) (uncleRed : uncle.color = .red) :
    ∃ next, s.insertCase side (ptr sentinel t) = .some (next, g) ∧
      Layout sentinel next ctx
        (.join side .red (.join hole .black t p sibling) g (uncle.paint .black)) ∧
      Alike sentinel s next := by
  have above := layout.above
  have grand := (layout_cons.mp layout).above
  have uncleFocus := (layout_cons.mp layout).sibling
  have nodeParent := layout.parent some rfl
  have parentParent := above.parent g rfl
  have uncleValid := uncleFocus.ptr_valid
  have uncleColor := uncleFocus.color_ptr
  obtain ⟨first, storedFirst, firstLayout, firstAlike⟩ := layout.painted_parent .black
  obtain ⟨second, storedSecond, secondLayout, secondAlike⟩ :=
    (layout_cons.mp firstLayout).painted_sibling (ne_nil_of_red uncleRed) .black
  obtain ⟨third, storedThird, thirdLayout, thirdAlike⟩ := secondLayout.painted_parent .red
  refine ⟨third, ?_, layout_cons.mp thirdLayout, firstAlike.trans (secondAlike.trans thirdAlike)⟩
  rw [insertCase, load_eq layout.ptr_valid]
  simp only [Option.bind_eq_bind, Option.bind_some, nodeParent, load_eq above.valid, parentParent,
    load_eq grand.valid, grand.far, load_eq uncleValid, uncleColor, uncleRed, if_true,
    storedFirst, storedSecond, storedThird, Option.pure_def]

theorem raiseParent_layout {side : Side} {t inner uncle : RBTree Ptr} {p g : Ptr}
    {parentColor grandColor : Color}
    (layout : Layout sentinel s
      (⟨side, parentColor, p, inner⟩ :: ⟨side, grandColor, g, uncle⟩ :: ctx) t)
    (some : t ≠ .nil) :
    ∃ next, s.raiseParent side (ptr sentinel t) = .some (next, ptr sentinel t) ∧
      Layout sentinel next ctx (.join side .black t p (.join side .red inner g uncle)) ∧
      Alike sentinel s next := by
  have nodeParent := layout.parent some rfl
  obtain ⟨first, storedFirst, firstLayout, firstAlike⟩ := layout.painted_parent .black
  have parentParent := firstLayout.above.parent g rfl
  obtain ⟨second, storedSecond, secondLayout, secondAlike⟩ :=
    (layout_cons.mp firstLayout).painted_parent .red
  have turned : Layout sentinel second ctx
      (.join side.other .red uncle g (.join side.other .black inner p t)) := by
    rw [RBTree.join_other, RBTree.join_other]
    exact layout_cons.mp secondLayout
  obtain ⟨third, rotated, thirdLayout, thirdAlike⟩ := turned.rotated
  rw [RBTree.join_other, RBTree.join_other] at thirdLayout
  refine ⟨third, ?_, thirdLayout, firstAlike.trans (secondAlike.trans thirdAlike)⟩
  rw [raiseParent, load_eq layout.ptr_valid]
  simp only [Option.bind_eq_bind, Option.bind_some, nodeParent, storedFirst,
    load_eq firstLayout.above.valid, parentParent, storedSecond, rotated, Option.pure_def]

/-- A node on the outer side stays where it is. -/
theorem straighten_outer {side : Side} {t inner : RBTree Ptr} {p : Ptr} {color : Color}
    (layout : Layout sentinel s (⟨side, color, p, inner⟩ :: ctx) t) (some : t ≠ .nil) :
    s.straighten side (ptr sentinel t) = .some (s, ptr sentinel t) := by
  have above := layout.above
  have nodeParent := layout.parent some rfl
  have notInner : ptr sentinel t ≠ ptr sentinel inner := layout.ptr_ne_sibling some
  rw [straighten, load_eq layout.ptr_valid]
  simp only [Option.bind_eq_bind, Option.bind_some, nodeParent, load_eq above.valid, above.far,
    notInner, if_false, Option.pure_def]

/-- A node on the inner side goes up, and its parent is the node on the outer side. -/
theorem straighten_inner {side : Side} {first second : Color} {a b outer : RBTree Ptr} {n p : Ptr}
    (layout : Layout sentinel s (⟨side.other, first, p, outer⟩ :: ctx)
      (.join side second a n b)) :
    ∃ next, s.straighten side n = some (next, p) ∧
      Layout sentinel next (⟨side, second, n, b⟩ :: ctx) (.join side first outer p a) ∧
      Alike sentinel s next := by
  have above := layout.above
  have nodeParent := layout.parent_join rfl
  have near := above.near
  rw [ptr_join] at near
  have turned : Layout sentinel s ctx (.join side first outer p (.join side second a n b)) := by
    rw [← RBTree.join_other]
    exact layout_cons.mp layout
  obtain ⟨next, rotated, nextLayout, alike⟩ := turned.rotated
  refine ⟨next, ?_, layout_cons.mpr nextLayout, alike⟩
  rw [straighten, load_eq layout.apart.valid]
  simp only [Option.bind_eq_bind, Option.bind_some, nodeParent, load_eq above.valid, near,
    if_true, rotated, Option.pure_def]

/-! ## The loop -/

theorem Layout.not_root {side : Side} {color : Color} {p : Ptr} {sibling t : RBTree Ptr}
    (layout : Layout sentinel s (⟨side, color, p, sibling⟩ :: ctx) t) :
    ptr sentinel t ≠ s.root := by
  rw [layout.root]
  intro same
  have there : rootOf (⟨side, color, p, sibling⟩ :: ctx) (ptr sentinel t) ∈
      Context.labels (⟨side, color, p, sibling⟩ :: ctx) := rootOf_mem side color p sibling _
  rw [← same] at there
  by_cases empty : t = .nil
  · rw [empty] at there
    exact layout.notSentinel (Context.mem_labels_plug.mpr (.inr there))
  · have nodup := layout.nodup
    rw [(Context.perm_labels_plug ..).nodup_iff, List.nodup_append'] at nodup
    exact nodup.2.2 (ptr_mem empty) there

theorem insertFixup_root {t : RBTree Ptr} (layout : Layout sentinel s [] t) (fuel : Nat) :
    insertFixup (fuel + 1) s (ptr sentinel t) = some s := by
  have root : ptr sentinel t = s.root := layout.root.symm
  rw [insertFixup, if_pos root]
  rfl

theorem insertFixup_black {side : Side} {p : Ptr} {sibling t : RBTree Ptr}
    (layout : Layout sentinel s (⟨side, .black, p, sibling⟩ :: ctx) t) (some : t ≠ .nil)
    (fuel : Nat) : insertFixup (fuel + 1) s (ptr sentinel t) = .some s := by
  rw [insertFixup, if_neg (layout.not_root), load_eq layout.ptr_valid]
  simp only [Option.bind_eq_bind, Option.bind_some, layout.parent some rfl,
    load_eq layout.above.valid, layout.above.color, if_true, Option.pure_def]

theorem insertFixup_red {hole side : Side} {p g : Ptr} {sibling uncle t : RBTree Ptr}
    {color : Color}
    (layout : Layout sentinel s
      (⟨hole, .red, p, sibling⟩ :: ⟨side, color, g, uncle⟩ :: ctx) t)
    (some : t ≠ .nil) (fuel : Nat) :
    insertFixup (fuel + 1) s (ptr sentinel t) =
      (s.insertCase side (ptr sentinel t)).bind fun result => insertFixup fuel result.1 result.2 := by
  have parentFocus := layout_cons.mp layout
  have grand := parentFocus.above
  rw [insertFixup, if_neg (layout.not_root), load_eq layout.ptr_valid]
  simp only [Option.bind_eq_bind, Option.bind_some, layout.parent some rfl,
    load_eq layout.above.valid, layout.above.color, reduceCtorEq, if_false,
    layout.above.parent g rfl, load_eq grand.valid]
  cases side with
  | left =>
      have onLeft : p = (s.mem g).left := by
        have near := grand.near
        rw [ptr_join] at near
        exact near.symm
      rw [if_pos onLeft]
  | right =>
      have notLeft : p ≠ (s.mem g).left := by
        have different := parentFocus.ptr_ne_sibling join_ne_nil
        rw [ptr_join] at different
        rw [show (s.mem g).left = ptr sentinel uncle from grand.far]
        exact different
      rw [if_neg notLeft]

/-- What the loops leave: a tree of the same nodes that is balanced once its root is
black. -/
def Settled (sentinel : Ptr) (labels : List Ptr) (s next : NgxRbtree Data) : Prop :=
  ∃ whole high, Layout sentinel next [] whole ∧ whole ≠ .nil ∧ whole.labels = labels ∧
    (whole.paint .black).Balanced high ∧ Alike sentinel s next

theorem plug_ne_nil {t : RBTree Ptr} (some : t ≠ .nil) : ctx.plug t ≠ .nil := by
  intro empty
  have inside : ptr null t ∈ (ctx.plug t).labels :=
    Context.mem_labels_plug.mpr (.inl (ptr_mem some))
  rw [empty] at inside
  cases inside

theorem Layout.settled {next : NgxRbtree Data} {t : RBTree Ptr} {labels : List Ptr} {height : Nat}
    (layout : Layout sentinel next ctx t) (some : t ≠ .nil) (same : (ctx.plug t).labels = labels)
    (balanced : t.Balanced height) (fits : ctx.Fits height)
    (colors : t.color = .black ∨ ctx.color = .black) (alike : Alike sentinel s next) :
    Settled sentinel labels s next := by
  obtain ⟨high, wholeBalanced⟩ := fits.plug balanced colors
  obtain ⟨higher, painted⟩ := wholeBalanced.paint_black
  exact ⟨_, higher, layout_whole.mp layout, plug_ne_nil some, same, painted, alike⟩

theorem Settled.after {labels : List Ptr} {middle next : NgxRbtree Data}
    (settled : Settled sentinel labels middle next) (alike : Alike sentinel s middle) :
    Settled sentinel labels s next := by
  obtain ⟨whole, high, layout, some, same, balanced, last⟩ := settled
  exact ⟨whole, high, layout, some, same, balanced, alike.trans last⟩

/-- The node has a black uncle: at most two rotations end the loop. -/
theorem insertCase_rotate {hole side : Side} {t sibling uncle : RBTree Ptr} {p g : Ptr}
    {height : Nat}
    (layout : Layout sentinel s (⟨hole, .red, p, sibling⟩ :: ⟨side, .black, g, uncle⟩ :: ctx) t)
    (red : t.color = .red) (balanced : t.Balanced height) (siblingBalanced : sibling.Balanced height)
    (siblingBlack : sibling.color = .black) (uncleBalanced : uncle.Balanced height)
    (uncleBlack : uncle.color = .black) (fits : ctx.Fits (height + 1)) :
    ∃ next node, s.insertCase side (ptr sentinel t) = some (next, node) ∧
      (∀ fuel, insertFixup (fuel + 1) next node = some next) ∧
      Settled sentinel
        (ctx.plug (.join side .black (.join hole .red t p sibling) g uncle)).labels s next := by
  have some := ne_nil_of_red red
  have above := layout.above
  have grand := (layout_cons.mp layout).above
  have uncleFocus := (layout_cons.mp layout).sibling
  have uncleColor := uncleFocus.color_ptr
  have body : s.insertCase side (ptr sentinel t) =
      (s.straighten side (ptr sentinel t)).bind fun result => result.1.raiseParent side result.2 := by
    rw [insertCase, load_eq layout.ptr_valid]
    simp only [Option.bind_eq_bind, Option.bind_some, layout.parent some rfl, load_eq above.valid,
      above.parent g rfl, load_eq grand.valid, grand.far, load_eq uncleFocus.ptr_valid, uncleColor,
      uncleBlack, reduceCtorEq, if_false]
  rw [body]
  rcases Side.eq_or_other hole side with rfl | rfl
  · obtain ⟨next, raised, nextLayout, alike⟩ := raiseParent_layout layout some
    refine ⟨next, _, by rw [straighten_outer layout some, Option.bind_some, raised], ?_, ?_⟩
    · exact insertFixup_black (layout_cons.mpr nextLayout) some
    · refine nextLayout.settled join_ne_nil ?_ ?_ fits (.inl (RBTree.color_join ..)) alike
      · exact Context.labels_plug_congr (labels_rotated ..).symm
      · refine RBTree.balanced_black.mpr ⟨height, rfl, balanced, ?_⟩
        exact RBTree.balanced_red.mpr ⟨siblingBalanced, uncleBalanced, siblingBlack, uncleBlack⟩
  · obtain empty | ⟨color, a, n, b, rfl⟩ := RBTree.nil_or_join side t
    · exact absurd empty some
    · rw [RBTree.color_join] at red
      subst red
      obtain ⟨aBalanced, bBalanced, aBlack, bBlack⟩ := RBTree.balanced_red.mp balanced
      obtain ⟨middle, straightened, middleLayout, middleAlike⟩ := straighten_inner layout
      obtain ⟨next, raised, nextLayout, alike⟩ := raiseParent_layout middleLayout join_ne_nil
      rw [ptr_join] at raised
      refine ⟨next, p, ?_, ?_, ?_⟩
      · rw [ptr_join, straightened, Option.bind_some, raised]
      · have done := insertFixup_black (layout_cons.mpr nextLayout) join_ne_nil
        rw [ptr_join] at done
        exact done
      · refine nextLayout.settled join_ne_nil ?_ ?_ fits (.inl (RBTree.color_join ..))
          (middleAlike.trans alike)
        · refine Context.labels_plug_congr ?_
          rw [RBTree.join_other]
          cases side <;> simp [RBTree.join, RBTree.labels]
        · refine RBTree.balanced_black.mpr ⟨height, rfl, RBTree.balanced_red.mpr ?_,
            RBTree.balanced_red.mpr ?_⟩
          · exact ⟨siblingBalanced, aBalanced, siblingBlack, aBlack⟩
          · exact ⟨bBalanced, uncleBalanced, bBlack, uncleBlack⟩

theorem insertFixup_layout {t : RBTree Ptr} {height : Nat} (fuel : Nat)
    (layout : Layout sentinel s ctx t) (red : t.color = .red) (balanced : t.Balanced height)
    (fits : ctx.Fits height) (enough : ctx.length < fuel) :
    ∃ next, insertFixup fuel s (ptr sentinel t) = some next ∧
      Settled sentinel (ctx.plug t).labels s next := by
  induction fuel generalizing s ctx t height with
  | zero => exact absurd enough (Nat.not_lt_zero _)
  | succ fuel ih =>
      have some := ne_nil_of_red red
      cases fits with
      | nil =>
          exact ⟨s, insertFixup_root layout fuel,
            layout.settled some rfl balanced .nil (.inr rfl) (.refl sentinel s)⟩
      | black siblingBalanced outer =>
          exact ⟨s, insertFixup_black layout some fuel,
            layout.settled some rfl balanced (.black siblingBalanced outer) (.inr rfl)
              (.refl sentinel s)⟩
      | @red hole p sibling _ _ siblingBalanced siblingBlack nonempty parentBlack outer =>
          cases outer with
          | nil => exact absurd rfl nonempty
          | red => cases parentBlack
          | @black side g uncle ctx height uncleBalanced outer =>
              rw [insertFixup_red layout some fuel]
              cases uncleColor : uncle.color with
              | red =>
                  obtain ⟨next, case, nextLayout, alike⟩ :=
                    insertCase_recolor layout some uncleColor
                  have raised : (RBTree.join side .red (.join hole .black t p sibling) g
                      (uncle.paint .black)).Balanced (height + 1) := by
                    refine RBTree.balanced_red.mpr ⟨?_, ?_, RBTree.color_join .., ?_⟩
                    · exact RBTree.balanced_black.mpr ⟨height, rfl, balanced, siblingBalanced⟩
                    · exact uncleBalanced.paint_black_of_red uncleColor
                    · exact RBTree.color_paint_black uncle
                  obtain ⟨last, rest, settled⟩ := ih nextLayout (RBTree.color_join ..) raised outer
                    (by simp only [List.length_cons] at enough; omega)
                  rw [ptr_join] at rest
                  have labels : (ctx.plug (.join side .red (.join hole .black t p sibling) g
                      (uncle.paint .black))).labels =
                      (ctx.plug (.join side .black (.join hole .red t p sibling) g uncle)).labels :=
                    Context.labels_plug_congr (RBTree.labels_join_congr
                      (RBTree.labels_join_congr rfl rfl) (RBTree.labels_paint ..))
                  rw [labels] at settled
                  exact ⟨last, by rw [case, Option.bind_some, rest], settled.after alike⟩
              | black =>
                  obtain ⟨next, node, case, done, settled⟩ := insertCase_rotate layout red balanced
                    siblingBalanced siblingBlack uncleBalanced uncleColor outer
                  obtain ⟨more, rfl⟩ : ∃ more, fuel = more + 1 := by
                    simp only [List.length_cons] at enough
                    exact ⟨fuel - 1, by omega⟩
                  exact ⟨next, by rw [case, Option.bind_some, done], settled⟩

/-! ## The new leaf -/

section Leaf

variable {Rank : Type} [LinearOrder Rank] {rank : Ptr → Rank}
  {less : UInt32 × Data → UInt32 × Data → Bool} {n : Ptr}

/-- An empty place of a tree, with nothing above the new node before it and nothing
but larger nodes behind it. -/
def Place (sentinel : Ptr) (s : NgxRbtree Data) (rank : Ptr → Rank) (n : Ptr)
    (whole : RBTree Ptr) (p : Ptr) (side : Side) : Prop :=
  ∃ color sibling rest,
    Layout sentinel s (⟨side, color, p, sibling⟩ :: rest) .nil ∧
    Context.plug (⟨side, color, p, sibling⟩ :: rest) .nil = whole ∧
    (∀ q ∈ Context.before (⟨side, color, p, sibling⟩ :: rest), rank q ≤ rank n) ∧
    ∀ q ∈ Context.after (⟨side, color, p, sibling⟩ :: rest), rank n < rank q

theorem descend_eq {side : Side} {color : Color} {near far : RBTree Ptr} {q : Ptr}
    (layout : Layout sentinel s ctx (.join side color near q far)) (nValid : n ≠ null)
    (chosen : (if less (s.mem n).item (s.mem q).item then Side.left else .right) = side)
    (fuel : Nat) :
    descend less (fuel + 1) s q n =
      if ptr sentinel near = s.sentinel then some (q, side)
      else descend less fuel s (ptr sentinel near) n := by
  have above := (layout_cons.mpr layout).above
  rw [descend, load_eq nValid, load_eq above.valid]
  simp only [Option.bind_eq_bind, Option.bind_some, chosen, above.near, Option.pure_def]

theorem descend_layout {t : RBTree Ptr} (fuel : Nat) (layout : Layout sentinel s ctx t)
    (some : t ≠ .nil) (nValid : n ≠ null)
    (compares : ∀ q ∈ t.labels, less (s.mem n).item (s.mem q).item = true ↔ rank n < rank q)
    (sorted : t.labels.Pairwise fun p q => rank p ≤ rank q)
    (lower : ∀ q ∈ ctx.before, rank q ≤ rank n) (upper : ∀ q ∈ ctx.after, rank n < rank q)
    (enough : t.labels.length ≤ fuel) :
    ∃ p side, descend less fuel s (ptr sentinel t) n = .some (p, side) ∧
      Place sentinel s rank n (ctx.plug t) p side := by
  induction fuel generalizing ctx t with
  | zero =>
      have inside : ptr sentinel t ∈ t.labels := ptr_mem some
      rw [List.eq_nil_of_length_eq_zero (Nat.le_zero.mp enough)] at inside
      cases inside
  | succ fuel ih =>
      cases t with
      | nil => exact absurd rfl some
      | node color left q right =>
          have compare := compares q (by simp [RBTree.labels])
          simp only [RBTree.labels, List.pairwise_append, List.pairwise_cons, List.mem_cons] at sorted
          obtain ⟨leftSorted, ⟨belowRight, rightSorted⟩, aboveLeft⟩ := sorted
          have go : ∀ (side : Side) (near far : RBTree Ptr),
              RBTree.join side color near q far = .node color left q right →
              (if less (s.mem n).item (s.mem q).item then Side.left else .right) = side →
              near.labels.Pairwise (fun p q => rank p ≤ rank q) →
              (∀ x ∈ Context.before (⟨side, color, q, far⟩ :: ctx), rank x ≤ rank n) →
              (∀ x ∈ Context.after (⟨side, color, q, far⟩ :: ctx), rank n < rank x) →
              ∃ p side, descend less (fuel + 1) s q n = .some (p, side) ∧
                Place sentinel s rank n (ctx.plug (.node color left q right)) p side := by
            intro side near far same chosen nearSorted nearLower nearUpper
            rw [← same] at layout compares enough ⊢
            have focused := layout_cons.mpr layout
            have step := descend_eq layout nValid chosen fuel
            by_cases empty : near = .nil
            · subst empty
              refine ⟨q, side, ?_, color, far, ctx, focused, rfl, nearLower, nearUpper⟩
              rw [step, ptr_nil, if_pos layout.sameSentinel.symm]
            · have real : ptr sentinel near ≠ s.sentinel := by
                rw [layout.sameSentinel]
                exact ne_of_mem_of_not_mem (ptr_mem empty)
                  fun inside => focused.notSentinel (Context.mem_labels_plug.mpr (.inl inside))
              have shorter : near.labels.length ≤ fuel := by
                rw [(RBTree.perm_labels_join ..).length_eq, List.length_cons,
                  List.length_append] at enough
                omega
              rw [step, if_neg real]
              exact ih focused empty
                (fun x member => compares x (RBTree.mem_labels_join.mpr (.inl member))) nearSorted
                nearLower nearUpper shorter
          by_cases isLess : less (s.mem n).item (s.mem q).item = true
          · refine go .left left right rfl (if_pos isLess) leftSorted lower ?_
            intro x member
            simp only [Context.after, List.cons_append, List.mem_cons, List.mem_append] at member
            rcases member with rfl | inRight | outside
            · exact compare.mp isLess
            · exact (compare.mp isLess).trans_le (belowRight x inRight)
            · exact upper x outside
          · have notLess := fun larger => isLess (compare.mpr larger)
            refine go .right right left rfl (if_neg isLess) rightSorted ?_ upper
            intro x member
            simp only [Context.before, List.mem_append, List.mem_singleton] at member
            rcases member with outside | inLeft | rfl
            · exact lower x outside
            · exact (aboveLeft x inLeft q (.inl rfl)).trans (not_lt.mp notLess)
            · exact not_lt.mp notLess

theorem Layout.leaf {side : Side} {color : Color} {p : Ptr} {sibling : RBTree Ptr}
    (layout : Layout sentinel s (⟨side, color, p, sibling⟩ :: ctx) .nil) (nValid : n ≠ null)
    (nReal : n ≠ sentinel)
    (absent : n ∉ (Context.plug (⟨side, color, p, sibling⟩ :: ctx) .nil).labels)
    (mem : Ptr → Node Data) (new : (mem n).left = sentinel ∧ (mem n).right = sentinel ∧
      (mem n).color = .red ∧ (mem n).parent = p ∧ (mem n).item = (s.mem n).item)
    (elsewhere : ∀ q, q ≠ n →
      mem q = hook (⟨side, color, p, sibling⟩ :: ctx) n s.mem q) :
    Layout sentinel { s with mem := mem } (⟨side, color, p, sibling⟩ :: ctx)
      (.node .red .nil n .nil) ∧ Alike sentinel s { s with mem := mem } := by
  obtain ⟨onLeft, onRight, painted, parent, item⟩ := new
  have notAround : n ∉ Context.labels (⟨side, color, p, sibling⟩ :: ctx) := fun inside =>
    absent (Context.mem_labels_plug.mpr (.inr inside))
  have aroundNodup : (Context.labels (⟨side, color, p, sibling⟩ :: ctx)).Nodup := by
    have nodup := layout.nodup
    rw [(Context.perm_labels_plug ..).nodup_iff, List.nodup_append'] at nodup
    exact nodup.2.1
  have sentinelKept : mem sentinel = s.mem sentinel := by
    rw [elsewhere sentinel nReal.symm, hook_other]
    exact fun inside => layout.notSentinel (Context.mem_labels_plug.mpr (.inr inside))
  have members : ∀ q, q ∈ (Context.plug (⟨side, color, p, sibling⟩ :: ctx)
      (.node .red .nil n .nil)).labels ↔
      q = n ∨ q ∈ (Context.plug (⟨side, color, p, sibling⟩ :: ctx) .nil).labels := by
    intro q
    simp [Context.mem_labels_plug, RBTree.labels]
  refine ⟨⟨layout.sameSentinel, layout.root, ?_, ⟨onLeft, onRight, painted, ?_, trivial, trivial⟩,
    ?_, ?_, ?_, layout.sentinelValid, ?_⟩, sentinelKept, ?_⟩
  · refine (layout.around.hook aroundNodup n).congr ?_
    exact fun q member => elsewhere q (ne_of_mem_of_not_mem member notAround)
  · rintro _ ⟨⟩
    exact parent
  · rw [(Context.perm_labels_plug ..).nodup_iff]
    simp only [RBTree.labels, List.nil_append, List.singleton_append, List.nodup_cons]
    exact ⟨notAround, aroundNodup⟩
  · rw [members, not_or]
    exact ⟨nValid.symm, layout.notNull⟩
  · rw [members, not_or]
    exact ⟨nReal.symm, layout.notSentinel⟩
  · exact (congrArg Node.color sentinelKept).trans layout.sentinelBlack
  · intro q
    show (mem q).item = _
    by_cases same : q = n
    · rw [same, item]
    · rw [elsewhere q same, item_hook]

theorem insertLeaf_layout {whole : RBTree Ptr} (fuel : Nat) (layout : Layout sentinel s [] whole)
    (some : whole ≠ .nil) (nValid : n ≠ null) (nReal : n ≠ sentinel) (absent : n ∉ whole.labels)
    (compares : ∀ q ∈ whole.labels, less (s.mem n).item (s.mem q).item = true ↔ rank n < rank q)
    (sorted : whole.labels.Pairwise fun p q => rank p ≤ rank q)
    (enough : whole.labels.length ≤ fuel) :
    ∃ next ctx, insertLeaf less fuel s s.root n = .some next ∧
      Layout sentinel next ctx (.node .red .nil n .nil) ∧ Alike sentinel s next ∧
      Context.plug ctx .nil = whole ∧ (∀ q ∈ ctx.before, rank q ≤ rank n) ∧
      ∀ q ∈ ctx.after, rank n < rank q := by
  obtain ⟨p, side, found, color, sibling, rest, place, rfl, lower, upper⟩ :=
    descend_layout fuel layout some nValid compares sorted (by simp [Context.before])
      (by simp [Context.after]) enough
  have pValid := place.above.valid
  have different : n ≠ p := by
    rintro rfl
    exact absent (Context.mem_labels_plug.mpr (.inr (Context.mem_labels_cons.mpr (.inl rfl))))
  have root : s.root = ptr sentinel (Context.plug (⟨side, color, p, sibling⟩ :: rest) .nil) :=
    layout.root
  let leaf : Node Data :=
    (((s.mem n).setParent p).setChild .left sentinel).setChild .right sentinel
  obtain ⟨nextLayout, alike⟩ := place.leaf nValid nReal absent
    (Function.update (Function.update s.mem p ((s.mem p).setChild side n)) n (leaf.setColor .red))
    (by simp [leaf, Node.setColor, Node.setChild, Node.setParent, Node.item])
    (fun q notN => Function.update_of_ne notN ..)
  refine ⟨_, _, ?_, nextLayout, alike, rfl, lower, upper⟩
  rw [← root] at found
  rw [insertLeaf, found]
  simp only [Option.bind_eq_bind, Option.bind_some, store_eq pValid, store_eq nValid,
    Function.update_self, Function.update_idem, Function.update_of_ne different,
    layout.sameSentinel, leaf]

theorem insert_first (insert : Nat → NgxRbtree Data → Ptr → Ptr → Option (NgxRbtree Data))
    (fuel : Nat) (layout : Layout sentinel s [] .nil) (nValid : n ≠ null) (nReal : n ≠ sentinel) :
    ∃ next, ngxRbtreeInsert insert fuel s n = some next ∧
      Layout sentinel next [] (.node .black .nil n .nil) ∧ Alike sentinel s next := by
  have rootEmpty : s.root = s.sentinel := layout.root.trans layout.sameSentinel.symm
  let leaf : Node Data :=
    (((s.mem n).setParent null).setChild .left sentinel).setChild .right sentinel
  have kept : ∀ q, q ≠ n → Function.update s.mem n (leaf.setColor .black) q = s.mem q :=
    fun q different => Function.update_of_ne different ..
  refine ⟨{ s with root := n, mem := Function.update s.mem n (leaf.setColor .black) }, ?_,
    ⟨layout.sameSentinel, rfl, trivial,
      ⟨?_, ?_, ?_, (fun _ wrong => nomatch wrong), trivial, trivial⟩, ?_, ?_, ?_,
      layout.sentinelValid, ?_⟩, kept sentinel nReal.symm, ?_⟩
  · rw [ngxRbtreeInsert, if_pos rootEmpty]
    simp only [Option.bind_eq_bind, Option.bind_some, store_eq nValid, Function.update_self,
      Function.update_idem, layout.sameSentinel, leaf, Option.pure_def]
  · simp [leaf, Node.setColor, Node.setChild]
  · simp [leaf, Node.setColor, Node.setChild]
  · simp [Node.setColor]
  · simp [Context.plug, RBTree.labels]
  · simpa [Context.plug, RBTree.labels] using nValid.symm
  · simpa [Context.plug, RBTree.labels] using nReal.symm
  · exact (congrArg Node.color (kept sentinel nReal.symm)).trans layout.sentinelBlack
  · intro q
    by_cases same : q = n
    · subst same
      simp [leaf]
    · exact congrArg Node.item (kept q same)

variable (rank less) in
/-- The new node gets between the nodes that are not above it and those that are, and
the tree is balanced again. -/
theorem insert_layout {whole : RBTree Ptr} {height : Nat} (fuel : Nat)
    (layout : Layout sentinel s [] whole) (balanced : whole.Balanced height)
    (black : whole.color = .black) (nValid : n ≠ null) (nReal : n ≠ sentinel)
    (absent : n ∉ whole.labels)
    (compares : ∀ q ∈ whole.labels, less (s.mem n).item (s.mem q).item = true ↔ rank n < rank q)
    (sorted : whole.labels.Pairwise fun p q => rank p ≤ rank q)
    (enough : whole.labels.length < fuel) :
    ∃ next larger high front back,
      ngxRbtreeInsert (insertLeaf less) fuel s n = some next ∧
      Layout sentinel next [] larger ∧ larger.Balanced high ∧ larger.color = .black ∧
      whole.labels = front ++ back ∧ larger.labels = front ++ n :: back ∧
      (∀ q ∈ front, rank q ≤ rank n) ∧ (∀ q ∈ back, rank n < rank q) ∧ Alike sentinel s next := by
  by_cases empty : whole = .nil
  · subst empty
    obtain ⟨next, run, nextLayout, alike⟩ :=
      insert_first (insertLeaf less) fuel layout nValid nReal
    exact ⟨next, _, 1, [], [], run, nextLayout, .black .nil .nil, rfl, rfl, rfl, by simp, by simp,
      alike⟩
  · have rootSome : s.root ≠ s.sentinel := by
      rw [layout.root, layout.sameSentinel]
      exact ne_of_mem_of_not_mem (ptr_mem empty) layout.notSentinel
    obtain ⟨first, ctx, inserted, leafLayout, firstAlike, rfl, lower, upper⟩ :=
      insertLeaf_layout fuel layout empty nValid nReal absent compares sorted enough.le
    obtain ⟨below, nilBalanced, fits, -⟩ := Context.fits_of_balanced balanced black
    have leafBalanced : (RBTree.node .red .nil n .nil).Balanced below :=
      .red nilBalanced nilBalanced rfl rfl
    obtain ⟨second, fixed, whole, high, wholeLayout, wholeSome, labels, painted, secondAlike⟩ :=
      insertFixup_layout fuel leafLayout rfl leafBalanced fits
        (Nat.lt_of_le_of_lt (Context.length_le_labels ctx .nil) enough)
    obtain ⟨third, stored, thirdLayout, thirdAlike⟩ := wholeLayout.painted wholeSome .black
    have root : ptr sentinel whole = second.root := wholeLayout.root.symm
    refine ⟨third, whole.paint .black, high, ctx.before, ctx.after, ?_, thirdLayout, painted,
      RBTree.color_paint_black whole, ?_, ?_, lower, upper,
      firstAlike.trans (secondAlike.trans thirdAlike)⟩
    · rw [root] at stored
      rw [ngxRbtreeInsert, if_neg rootSome]
      change insertFixup fuel first n = some second at fixed
      simp only [Option.bind_eq_bind, inserted, Option.bind_some, fixed, stored]
    · rw [Context.labels_plug]
      rfl
    · rw [RBTree.labels_paint, labels, Context.labels_plug]
      rfl

end Leaf

end NgxRbtree

end CLibs.Rbtree
