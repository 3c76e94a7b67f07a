import CLibs.Rbtree.Insert

/-!
# Deletion

`ngx_rbtree_delete` takes a node out and restores the balance.
-/

set_option autoImplicit false

namespace CLibs.Rbtree

open General

variable {Data : Type}

namespace NgxRbtree

variable {sentinel : Ptr} {s : NgxRbtree Data} {ctx : Context Ptr}

/-- The parent pointer of the focus is right, also where the focus is the sentinel. -/
def Linked (sentinel : Ptr) (s : NgxRbtree Data) (p : Ptr) (t : RBTree Ptr) : Prop :=
  (s.mem (ptr sentinel t)).parent = p

theorem Linked.kept {next : NgxRbtree Data} {p : Ptr} {t : RBTree Ptr}
    (linked : Linked sentinel s p t) (alike : Alike sentinel s next)
    (layout : Layout sentinel next ctx t) (parent : parentOf ctx = some p) :
    Linked sentinel next p t := by
  by_cases empty : t = .nil
  · subst empty
    rw [Linked, ptr_nil, alike.atSentinel]
    exact linked
  · exact layout.parent empty parent

theorem ne_nil_of_balanced {t : RBTree Ptr} {height : Nat} (balanced : t.Balanced (height + 1)) :
    t ≠ .nil := by
  rintro rfl
  cases RBTree.balanced_nil.mp balanced

/-! ## The body of the loop -/

theorem redSibling_layout {side : Side} {color : Color} {t sibling : RBTree Ptr} {p : Ptr}
    {height : Nat} (layout : Layout sentinel s (⟨side, color, p, sibling⟩ :: ctx) t)
    (linked : Linked sentinel s p t)
    (fits : Context.Fits (⟨side, color, p, sibling⟩ :: ctx) (height + 1)) :
    ∃ next color' sibling' ctx',
      s.redSibling side (ptr sentinel t) (ptr sentinel sibling) =
        some (next, ptr sentinel sibling') ∧
      Layout sentinel next (⟨side, color', p, sibling'⟩ :: ctx') t ∧ Linked sentinel next p t ∧
      sibling'.color = .black ∧
      Context.Fits (⟨side, color', p, sibling'⟩ :: ctx') (height + 1) ∧
      (color' = .red ∨ color' = .black ∧ ctx' = ctx) ∧
      (Context.plug (⟨side, color', p, sibling'⟩ :: ctx') t).labels =
        (Context.plug (⟨side, color, p, sibling⟩ :: ctx) t).labels ∧
      Alike sentinel s next := by
  have siblingFocus := layout.sibling
  cases painted : sibling.color with
  | black =>
      refine ⟨s, color, sibling, ctx, ?_, layout, linked, painted, fits, ?_, rfl, .refl sentinel s⟩
      · rw [redSibling, load_eq siblingFocus.ptr_valid]
        simp only [Option.bind_eq_bind, Option.bind_some, siblingFocus.color_ptr, painted,
          reduceCtorEq, if_false, Option.pure_def]
      · cases color with
        | red => exact .inl rfl
        | black => exact .inr ⟨rfl, rfl⟩
  | red =>
      obtain empty | ⟨siblingColor, w1, w, w2, rfl⟩ := RBTree.nil_or_join side sibling
      · rw [empty] at painted
        cases painted
      rw [RBTree.color_join] at painted
      subst painted
      cases fits with
      | red siblingBalanced siblingBlack =>
          rw [RBTree.color_join] at siblingBlack
          cases siblingBlack
      | black siblingBalanced outer =>
          obtain ⟨innerBalanced, outerBalanced, innerBlack, outerBlack⟩ :=
            RBTree.balanced_red.mp siblingBalanced
          obtain ⟨first, storedFirst, firstLayout, firstAlike⟩ :=
            layout.painted_sibling join_ne_nil .black
          rw [RBTree.paint_join] at firstLayout
          rw [ptr_join] at storedFirst
          have firstLinked := linked.kept firstAlike firstLayout rfl
          obtain ⟨second, storedSecond, secondLayout, secondAlike⟩ := firstLayout.painted_parent .red
          obtain ⟨third, rotated, thirdLayout, thirdAlike⟩ := (layout_cons.mp secondLayout).rotated
          have lowered := layout_cons.mpr (layout_cons.mpr thirdLayout)
          have alike := firstAlike.trans (secondAlike.trans thirdAlike)
          have thirdLinked := linked.kept alike lowered rfl
          refine ⟨third, .red, w1, _, ?_, lowered, thirdLinked, innerBlack, ?_, .inl rfl, ?_, alike⟩
          · have wColor := siblingFocus.color_ptr
            have wValid := siblingFocus.ptr_valid
            rw [ptr_join] at wColor wValid
            rw [redSibling, ptr_join, load_eq wValid]
            simp only [Option.bind_eq_bind, Option.bind_some, wColor, RBTree.color_join, if_true,
              storedFirst, load_eq layout.ptr_valid, show (first.mem (ptr sentinel t)).parent = p
                from firstLinked, storedSecond, rotated,
              show (third.mem (ptr sentinel t)).parent = p from thirdLinked,
              load_eq lowered.above.valid, lowered.above.far, Option.pure_def]
          · exact .red innerBalanced innerBlack (by simp) rfl (.black outerBalanced outer)
          · exact Context.labels_plug_congr (labels_rotated ..)

theorem bothBlack_eq {side : Side} {color : Color} {near far : RBTree Ptr} {w : Ptr}
    (layout : Layout sentinel s ctx (.join side color near w far)) :
    s.bothBlack w = some (decide (near.color = .black ∧ far.color = .black)) := by
  have nearFocus := layout_cons.mpr layout
  have farFocus := nearFocus.sibling
  have valid := layout.apart.valid
  have children : ∀ left right : RBTree Ptr, (s.mem w).left = ptr sentinel left →
      (s.mem w).right = ptr sentinel right → ptr sentinel left ≠ null → ptr sentinel right ≠ null →
      (s.mem (ptr sentinel left)).color = left.color →
      (s.mem (ptr sentinel right)).color = right.color →
      s.bothBlack w = some (decide (left.color = .black ∧ right.color = .black)) := by
    intro left right onLeft onRight leftValid rightValid leftColor rightColor
    rw [bothBlack, load_eq valid]
    simp only [Option.bind_eq_bind, Option.bind_some, onLeft, load_eq leftValid, leftColor, onRight,
      load_eq rightValid, rightColor, Option.pure_def]
    split
    · rename_i isBlack
      simp [isBlack]
    · rename_i notBlack
      simp [notBlack]
  cases side with
  | left =>
      exact children near far nearFocus.above.near nearFocus.above.far nearFocus.ptr_valid
        farFocus.ptr_valid nearFocus.color_ptr farFocus.color_ptr
  | right =>
      rw [children far near nearFocus.above.far nearFocus.above.near farFocus.ptr_valid
        nearFocus.ptr_valid farFocus.color_ptr nearFocus.color_ptr]
      simp only [and_comm]

theorem innerNephew_layout {side : Side} {color : Color} {t near far : RBTree Ptr} {p w : Ptr}
    {height : Nat}
    (layout : Layout sentinel s (⟨side, color, p, .join side .black near w far⟩ :: ctx) t)
    (linked : Linked sentinel s p t) (nearBalanced : near.Balanced height)
    (farBalanced : far.Balanced height)
    (someRed : ¬ (near.color = .black ∧ far.color = .black)) :
    ∃ next near' w' far', s.innerNephew side (ptr sentinel t) w = some (next, w') ∧
      Layout sentinel next (⟨side, color, p, .join side .black near' w' far'⟩ :: ctx) t ∧
      Linked sentinel next p t ∧ near'.Balanced height ∧ far'.Balanced height ∧
      far'.color = .red ∧
      (RBTree.join side .black near' w' far').labels = (RBTree.join side .black near w far).labels ∧
      Alike sentinel s next := by
  have wFocus := layout.sibling
  have nearFocus := layout_cons.mpr wFocus
  have farFocus := nearFocus.sibling
  cases farColor : far.color with
  | red =>
      refine ⟨s, near, w, far, ?_, layout, linked, nearBalanced, farBalanced, farColor, rfl,
        .refl sentinel s⟩
      rw [innerNephew, load_eq nearFocus.above.valid]
      simp only [Option.bind_eq_bind, Option.bind_some, nearFocus.above.far,
        load_eq farFocus.ptr_valid, farFocus.color_ptr, farColor, reduceCtorEq, if_false,
        Option.pure_def]
  | black =>
      have nearRed : near.color = .red := by
        cases nearColor : near.color with
        | red => rfl
        | black => exact absurd ⟨nearColor, farColor⟩ someRed
      obtain empty | ⟨nearPaint, x1, v, x2, rfl⟩ := RBTree.nil_or_join side near
      · rw [empty] at nearRed
        cases nearRed
      rw [RBTree.color_join] at nearRed
      subst nearRed
      obtain ⟨x1Balanced, x2Balanced, x1Black, x2Black⟩ := RBTree.balanced_red.mp nearBalanced
      obtain ⟨first, storedFirst, firstLayout, firstAlike⟩ := nearFocus.painted join_ne_nil .black
      rw [RBTree.paint_join] at firstLayout
      obtain ⟨second, storedSecond, secondLayout, secondAlike⟩ := firstLayout.painted_parent .red
      have turned : Layout sentinel second (⟨side.other, color, p, t⟩ :: ctx)
          (.join side.other .red far w (.join side.other .black x2 v x1)) := by
        rw [RBTree.join_other side .red, RBTree.join_other side .black]
        exact layout_cons.mp secondLayout
      obtain ⟨third, rotated, thirdLayout, thirdAlike⟩ := turned.rotated
      rw [RBTree.join_other side .black, RBTree.join_other side .red] at thirdLayout
      have back := thirdLayout.sibling
      rw [Side.other_other] at back
      have alike := firstAlike.trans (secondAlike.trans thirdAlike)
      have thirdLinked := linked.kept alike back rfl
      refine ⟨third, x1, v, .join side .red x2 w far, ?_, back, thirdLinked, x1Balanced, ?_,
        RBTree.color_join .., ?_, alike⟩
      · have far := back.above.far
        rw [ptr_join] at far
        rw [ptr_join] at storedFirst
        rw [innerNephew, load_eq nearFocus.above.valid]
        simp only [Option.bind_eq_bind, Option.bind_some, nearFocus.above.far,
          load_eq farFocus.ptr_valid, farFocus.color_ptr, farColor, if_true, nearFocus.above.near,
          ptr_join, storedFirst, storedSecond, rotated, load_eq layout.ptr_valid,
          show (third.mem (ptr sentinel t)).parent = p from thirdLinked,
          load_eq back.above.valid, far, Option.pure_def]
      · exact RBTree.balanced_red.mpr ⟨x2Balanced, farBalanced, x2Black, farColor⟩
      · exact (labels_rotated ..).symm

/-- The last step: the parent comes down black, and the sibling takes its colour. -/
theorem lastRotation_layout {side : Side} {color : Color} {t near far : RBTree Ptr} {p w : Ptr}
    (layout : Layout sentinel s (⟨side, color, p, .join side .black near w far⟩ :: ctx) t)
    (linked : Linked sentinel s p t) (farRed : far.color = .red) :
    ∃ next, s.lastRotation side (ptr sentinel t) w = some (next, next.root) ∧
      Layout sentinel next ctx
        (.join side color (.join side .black t p near) w (far.paint .black)) ∧
      Alike sentinel s next := by
  obtain ⟨first, storedFirst, firstLayout, firstAlike⟩ :=
    layout.painted_sibling join_ne_nil color
  rw [RBTree.paint_join] at firstLayout
  rw [ptr_join] at storedFirst
  obtain ⟨second, storedSecond, secondLayout, secondAlike⟩ := firstLayout.painted_parent .black
  have wFocus := layout_cons.mpr secondLayout.sibling
  obtain ⟨third, storedThird, thirdLayout, thirdAlike⟩ :=
    wFocus.painted_sibling (ne_nil_of_red farRed) .black
  have back := (layout_cons.mp thirdLayout).sibling
  rw [Side.other_other] at back
  obtain ⟨fourth, rotated, fourthLayout, fourthAlike⟩ := (layout_cons.mp back).rotated
  refine ⟨fourth, ?_, fourthLayout,
    firstAlike.trans (secondAlike.trans (thirdAlike.trans fourthAlike))⟩
  rw [lastRotation, load_eq layout.ptr_valid]
  simp only [Option.bind_eq_bind, Option.bind_some,
    show (s.mem (ptr sentinel t)).parent = p from linked, load_eq layout.above.valid,
    layout.above.color, storedFirst, storedSecond, load_eq wFocus.above.valid, wFocus.above.far,
    storedThird, rotated, Option.pure_def]

/-- What the body of the loop leaves to do: a red node that has to be black, or a
black one a level up with the same shortage as before, or nothing. -/
inductive Progress (sentinel : Ptr) (s next : NgxRbtree Data) (labels : List Ptr)
    (ctx : Context Ptr) (height : Nat) : Ptr → Prop where
  | red {ctx' : Context Ptr} {t : RBTree Ptr} : Layout sentinel next ctx' t → t.color = .red →
      (t.paint .black).Balanced (height + 1) → ctx'.Fits (height + 1) →
      (ctx'.plug t).labels = labels → Alike sentinel s next →
      Progress sentinel s next labels ctx height (ptr sentinel t)
  | up {t : RBTree Ptr} : Layout sentinel next ctx t → t.color = .black → t ≠ .nil →
      t.Balanced (height + 1) → ctx.Fits (height + 2) → (ctx.plug t).labels = labels →
      Alike sentinel s next → Progress sentinel s next labels ctx height (ptr sentinel t)
  | done : Settled sentinel labels s next →
      Progress sentinel s next labels ctx height next.root

theorem Progress.after {middle next : NgxRbtree Data} {labels : List Ptr} {height : Nat} {node : Ptr}
    (progress : Progress sentinel middle next labels ctx height node)
    (alike : Alike sentinel s middle) : Progress sentinel s next labels ctx height node := by
  cases progress with
  | red layout red balanced fits same last =>
      exact .red layout red balanced fits same (alike.trans last)
  | up layout black some balanced fits same last =>
      exact .up layout black some balanced fits same (alike.trans last)
  | done settled => exact .done (settled.after alike)

/-- Both nephews are black: the sibling becomes red, and the shortage goes up. -/
theorem recolor_progress {side : Side} {color : Color} {t near far : RBTree Ptr} {p w : Ptr}
    {height : Nat} {outer : Context Ptr}
    (layout : Layout sentinel s (⟨side, color, p, .join side .black near w far⟩ :: ctx) t)
    (linked : Linked sentinel s p t) (balanced : t.Balanced height)
    (nearBalanced : near.Balanced height) (farBalanced : far.Balanced height)
    (both : near.color = .black ∧ far.color = .black)
    (fits : Context.Fits (⟨side, color, p, .join side .black near w far⟩ :: ctx) (height + 1))
    (colors : color = .red ∨ color = .black ∧ ctx = outer) :
    ∃ next, s.store w (Node.setColor .red) = some next ∧ Linked sentinel next p t ∧
      Progress sentinel s next
        (Context.plug (⟨side, color, p, .join side .black near w far⟩ :: ctx) t).labels outer
        height p := by
  obtain ⟨next, stored, nextLayout, alike⟩ := layout.painted_sibling join_ne_nil .red
  rw [RBTree.paint_join] at nextLayout
  rw [ptr_join] at stored
  have raised := layout_cons.mp nextLayout
  have lowered : (RBTree.join side .red near w far).Balanced height :=
    RBTree.balanced_red.mpr ⟨nearBalanced, farBalanced, both.1, both.2⟩
  have painted : (RBTree.join side .black t p (.join side .red near w far)).Balanced
      (height + 1) := RBTree.balanced_black.mpr ⟨height, rfl, balanced, lowered⟩
  have labels : (Context.plug ctx (.join side color t p (.join side .red near w far))).labels =
      (Context.plug (⟨side, color, p, .join side .black near w far⟩ :: ctx) t).labels :=
    Context.labels_plug_congr (RBTree.labels_join_congr rfl (RBTree.labels_join_congr rfl rfl))
  refine ⟨next, stored, linked.kept alike nextLayout rfl, ?_⟩
  have progress : Progress sentinel s next
      (Context.plug (⟨side, color, p, .join side .black near w far⟩ :: ctx) t).labels outer height
      (ptr sentinel (.join side color t p (.join side .red near w far))) := by
    rcases colors with rfl | ⟨rfl, rfl⟩
    · cases fits with
      | red _ _ _ _ outer =>
          refine .red raised (RBTree.color_join ..) ?_ outer labels alike
          rw [RBTree.paint_join]
          exact painted
    · cases fits with
      | black _ outer =>
          exact .up raised (RBTree.color_join ..) join_ne_nil painted outer labels alike
  rw [ptr_join] at progress
  exact progress

/-- A nephew is red: the sibling goes up, and nothing is left to do. -/
theorem rotate_settled {side : Side} {color : Color} {t near far : RBTree Ptr} {p w : Ptr}
    {height : Nat}
    (layout : Layout sentinel s (⟨side, color, p, .join side .black near w far⟩ :: ctx) t)
    (linked : Linked sentinel s p t) (balanced : t.Balanced height)
    (nearBalanced : near.Balanced height) (farBalanced : far.Balanced height)
    (someRed : ¬ (near.color = .black ∧ far.color = .black))
    (fits : Context.Fits (⟨side, color, p, .join side .black near w far⟩ :: ctx) (height + 1)) :
    ∃ next, (s.innerNephew side (ptr sentinel t) w).bind (fun result =>
        result.1.lastRotation side (ptr sentinel t) result.2) = some (next, next.root) ∧
      Settled sentinel
        (Context.plug (⟨side, color, p, .join side .black near w far⟩ :: ctx) t).labels s next := by
  obtain ⟨middle, near', w', far', nephew, middleLayout, middleLinked, nearBalanced',
    farBalanced', farRed, siblingLabels, middleAlike⟩ :=
    innerNephew_layout layout linked nearBalanced farBalanced someRed
  obtain ⟨next, rotated, nextLayout, nextAlike⟩ :=
    lastRotation_layout middleLayout middleLinked farRed
  have alike := middleAlike.trans nextAlike
  have lowered : (RBTree.join side .black t p near').Balanced (height + 1) :=
    RBTree.balanced_black.mpr ⟨height, rfl, balanced, nearBalanced'⟩
  have painted := farBalanced'.paint_black_of_red farRed
  have labels : (Context.plug ctx (.join side color (.join side .black t p near') w'
      (far'.paint .black))).labels =
      (Context.plug (⟨side, color, p, .join side .black near w far⟩ :: ctx) t).labels := by
    refine Context.labels_plug_congr ?_
    rw [labels_rotated side color .black color .black t near' _ p w']
    refine RBTree.labels_join_congr rfl (Eq.trans ?_ siblingLabels)
    exact RBTree.labels_join_congr rfl (RBTree.labels_paint ..)
  refine ⟨next, by rw [nephew, Option.bind_some, rotated], ?_⟩
  cases fits with
  | black _ outer =>
      refine nextLayout.settled join_ne_nil labels ?_ outer (.inl (RBTree.color_join ..)) alike
      exact RBTree.balanced_black.mpr ⟨height + 1, rfl, lowered, painted⟩
  | red _ _ _ parentBlack outer =>
      refine nextLayout.settled join_ne_nil labels ?_ outer (.inr parentBlack) alike
      exact RBTree.balanced_red.mpr ⟨lowered, painted, RBTree.color_join ..,
        RBTree.color_paint_black far'⟩

theorem deleteCase_layout {side : Side} {color : Color} {t sibling : RBTree Ptr} {p : Ptr}
    {height : Nat} (layout : Layout sentinel s (⟨side, color, p, sibling⟩ :: ctx) t)
    (linked : Linked sentinel s p t) (balanced : t.Balanced height)
    (fits : Context.Fits (⟨side, color, p, sibling⟩ :: ctx) (height + 1)) :
    ∃ next node, s.deleteCase side (ptr sentinel t) = some (next, node) ∧
      Progress sentinel s next (Context.plug (⟨side, color, p, sibling⟩ :: ctx) t).labels ctx
        height node := by
  obtain ⟨first, color', sibling', ctx', red, firstLayout, firstLinked, siblingBlack, firstFits,
    colors, labels, firstAlike⟩ := redSibling_layout layout linked fits
  have start : s.deleteCase side (ptr sentinel t) =
      (first.bothBlack (ptr sentinel sibling')).bind fun both =>
        if both then (first.store (ptr sentinel sibling') (Node.setColor .red)).bind fun next =>
          (next.load (ptr sentinel t)).bind fun temp => some (next, temp.parent)
        else (first.innerNephew side (ptr sentinel t) (ptr sentinel sibling')).bind fun result =>
          result.1.lastRotation side (ptr sentinel t) result.2 := by
    rw [deleteCase, load_eq layout.ptr_valid]
    simp only [Option.bind_eq_bind, Option.bind_some,
      show (s.mem (ptr sentinel t)).parent = p from linked, load_eq layout.above.valid,
      layout.above.far, red, Option.pure_def]
  have siblingBalanced := firstFits.sibling
  obtain empty | ⟨paint, near, w, far, rfl⟩ := RBTree.nil_or_join side sibling'
  · exact absurd empty (ne_nil_of_balanced siblingBalanced)
  rw [RBTree.color_join] at siblingBlack
  subst siblingBlack
  obtain ⟨below, same, nearBalanced, farBalanced⟩ := RBTree.balanced_black.mp siblingBalanced
  cases Nat.succ.inj same
  rw [start, ptr_join, bothBlack_eq firstLayout.sibling, Option.bind_some, ← labels]
  by_cases both : near.color = .black ∧ far.color = .black
  · obtain ⟨second, stored, secondLinked, progress⟩ := recolor_progress firstLayout firstLinked
      balanced nearBalanced farBalanced both firstFits colors
    refine ⟨second, p, ?_, progress.after firstAlike⟩
    rw [if_pos (by simpa using both), stored, Option.bind_some, load_eq layout.ptr_valid,
      Option.bind_some, secondLinked]
  · obtain ⟨second, rotated, settled⟩ := rotate_settled firstLayout firstLinked balanced
      nearBalanced farBalanced both firstFits
    refine ⟨second, second.root, ?_, .done (settled.after firstAlike)⟩
    rw [if_neg (by simpa using both), rotated]

/-! ## The loop -/

/-- What a deletion leaves: a balanced tree of these nodes. -/
def Repaired (sentinel : Ptr) (labels : List Ptr) (s next : NgxRbtree Data) : Prop :=
  ∃ whole high, Layout sentinel next [] whole ∧ whole.labels = labels ∧ whole.Balanced high ∧
    whole.color = .black ∧ Alike sentinel s next

theorem Layout.repaired {next : NgxRbtree Data} {t : RBTree Ptr} {height : Nat}
    (layout : Layout sentinel next ctx t) (black : t.color = .black) (balanced : t.Balanced height)
    (fits : ctx.Fits height) (alike : Alike sentinel s next) :
    Repaired sentinel (ctx.plug t).labels s next := by
  obtain ⟨high, wholeBalanced⟩ := fits.plug balanced (.inl black)
  refine ⟨_, high, layout_whole.mp layout, rfl, wholeBalanced, ?_, alike⟩
  cases ctx with
  | nil => exact black
  | cons frame rest => exact fits.color_plug t (by simp)

theorem Repaired.after {labels : List Ptr} {middle next : NgxRbtree Data}
    (repaired : Repaired sentinel labels middle next) (alike : Alike sentinel s middle) :
    Repaired sentinel labels s next := by
  obtain ⟨whole, high, layout, same, balanced, black, last⟩ := repaired
  exact ⟨whole, high, layout, same, balanced, black, alike.trans last⟩

/-- The loop stops at a tree that is balanced once its root is black. -/
theorem Settled.repaired {labels : List Ptr} {next : NgxRbtree Data}
    (settled : Settled sentinel labels s next) (fuel : Nat) :
    deleteFixup (fuel + 1) next next.root = some (next, next.root) ∧
    ∃ last, next.store next.root (Node.setColor .black) = some last ∧
      Repaired sentinel labels s last := by
  obtain ⟨whole, high, layout, some, same, balanced, alike⟩ := settled
  obtain ⟨last, stored, lastLayout, lastAlike⟩ := layout.painted some .black
  have root : next.root = ptr sentinel whole := layout.root
  refine ⟨by rw [deleteFixup, if_pos rfl]; rfl, last, by rw [root, stored], ?_⟩
  exact ⟨_, high, lastLayout, (RBTree.labels_paint ..).trans same, balanced,
    RBTree.color_paint_black whole, alike.trans lastAlike⟩

theorem deleteFixup_red {t : RBTree Ptr} {height : Nat} (layout : Layout sentinel s ctx t)
    (red : t.color = .red) (balanced : (t.paint .black).Balanced height) (fits : ctx.Fits height)
    (fuel : Nat) :
    deleteFixup (fuel + 1) s (ptr sentinel t) = some (s, ptr sentinel t) ∧
    ∃ last, s.store (ptr sentinel t) (Node.setColor .black) = some last ∧
      Repaired sentinel (ctx.plug t).labels s last := by
  obtain ⟨last, stored, lastLayout, alike⟩ := layout.painted (ne_nil_of_red red) .black
  refine ⟨?_, last, stored, ?_⟩
  · rw [deleteFixup, load_eq layout.ptr_valid]
    simp only [Option.bind_eq_bind, Option.bind_some, layout.color_ptr, red, if_true,
      Option.pure_def, ite_self]
  · have repaired := lastLayout.repaired (RBTree.color_paint_black t) balanced fits alike
    rw [Context.labels_plug_congr (RBTree.labels_paint .black t)] at repaired
    exact repaired

theorem deleteFixup_black {side : Side} {color : Color} {t sibling : RBTree Ptr} {p : Ptr}
    (layout : Layout sentinel s (⟨side, color, p, sibling⟩ :: ctx) t)
    (linked : Linked sentinel s p t) (black : t.color = .black) (some : sibling ≠ .nil)
    (fuel : Nat) :
    deleteFixup (fuel + 1) s (ptr sentinel t) =
      (s.deleteCase side (ptr sentinel t)).bind fun result =>
        deleteFixup fuel result.1 result.2 := by
  rw [deleteFixup, if_neg layout.not_root, load_eq layout.ptr_valid]
  simp only [Option.bind_eq_bind, Option.bind_some, layout.color_ptr, black, reduceCtorEq,
    if_false, show (s.mem (ptr sentinel t)).parent = p from linked, load_eq layout.above.valid]
  cases side with
  | left =>
      have onLeft : ptr sentinel t = (s.mem p).left := layout.above.near.symm
      rw [if_pos onLeft]
  | right =>
      have notLeft : ptr sentinel t ≠ (s.mem p).left := by
        rw [show (s.mem p).left = ptr sentinel sibling from layout.above.far]
        exact (layout.sibling.ptr_ne_sibling some).symm
      rw [if_neg notLeft]

/-- The loop makes up for a black node that is missing on the paths through the focus. -/
theorem deleteFixup_layout {t : RBTree Ptr} {height : Nat} (fuel : Nat)
    (layout : Layout sentinel s ctx t)
    (linked : ∀ p, parentOf ctx = some p → Linked sentinel s p t)
    (some : ctx = [] → t ≠ .nil) (black : t.color = .black) (balanced : t.Balanced height)
    (fits : ctx.Fits (height + 1)) (enough : ctx.length < fuel) :
    ∃ next temp last, deleteFixup fuel s (ptr sentinel t) = .some (next, temp) ∧
      next.store temp (Node.setColor .black) = .some last ∧
      Repaired sentinel (ctx.plug t).labels s last := by
  induction fuel generalizing s ctx t height with
  | zero => exact absurd enough (Nat.not_lt_zero _)
  | succ fuel ih =>
      cases ctx with
      | nil =>
          have settled : Settled sentinel t.labels s s := by
            refine layout.settled (some rfl) rfl balanced .nil (.inl black) (.refl sentinel s)
          obtain ⟨stops, last, stored, repaired⟩ := settled.repaired fuel
          have root : s.root = ptr sentinel t := layout.root
          rw [root] at stops stored
          exact ⟨s, _, last, stops, stored, repaired⟩
      | cons frame rest =>
          obtain ⟨side, color, p, sibling⟩ := frame
          obtain ⟨middle, node, case, progress⟩ :=
            deleteCase_layout layout (linked p rfl) balanced fits
          rw [deleteFixup_black layout (linked p rfl) black (ne_nil_of_balanced fits.sibling),
            case, Option.bind_some]
          simp only [List.length_cons] at enough
          obtain ⟨more, rfl⟩ : ∃ more, fuel = more + 1 := ⟨fuel - 1, by omega⟩
          cases progress with
          | red nextLayout red painted outer labels alike =>
              obtain ⟨stops, last, stored, repaired⟩ := deleteFixup_red nextLayout red painted outer more
              rw [labels] at repaired
              exact ⟨middle, _, last, stops, stored, repaired.after alike⟩
          | up nextLayout nextBlack nextSome raised outer labels alike =>
              obtain ⟨next, temp, last, loop, stored, repaired⟩ := ih nextLayout
                (fun q parent => nextLayout.parent nextSome parent) (fun _ => nextSome) nextBlack
                raised outer (by omega)
              rw [labels] at repaired
              exact ⟨next, temp, last, loop, stored, repaired.after alike⟩
          | done settled =>
              obtain ⟨stops, last, stored, repaired⟩ := settled.repaired more
              exact ⟨middle, _, last, stops, stored, repaired⟩

end NgxRbtree

end CLibs.Rbtree
