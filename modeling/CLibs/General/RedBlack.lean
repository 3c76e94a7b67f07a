import Mathlib.Data.List.Basic
import Mathlib.Data.List.Nodup
import Mathlib.Tactic.Common

/-!
# Red-black trees with a focus

Binary trees with coloured, labelled nodes, and contexts: what is left of a tree
when a subtree is taken out. Definitions that come in two mirror images take the
side as an argument.
-/

set_option autoImplicit false

namespace CLibs.General

inductive Side where
  | left
  | right
deriving DecidableEq

inductive Color where
  | black
  | red
deriving DecidableEq

namespace Side

def other : Side → Side
  | .left => .right
  | .right => .left

@[simp] theorem other_other (side : Side) : side.other.other = side := by
  cases side <;> rfl

theorem eq_or_other (first second : Side) : first = second ∨ first = second.other := by
  cases first <;> cases second <;> decide

end Side

inductive RBTree (α : Type) where
  | nil
  | node (color : Color) (left : RBTree α) (label : α) (right : RBTree α)

namespace RBTree

variable {α : Type}

/-- A node with a subtree on one side and another on the other side. -/
def join (side : Side) (color : Color) (near : RBTree α) (label : α) (far : RBTree α) : RBTree α :=
  match side with
  | .left => .node color near label far
  | .right => .node color far label near

theorem join_other (side : Side) (color : Color) (near : RBTree α) (label : α) (far : RBTree α) :
    join side.other color near label far = join side color far label near := by
  cases side <;> rfl

theorem nil_or_join (side : Side) (t : RBTree α) :
    t = .nil ∨ ∃ color near label far, t = join side color near label far := by
  cases t with
  | nil => exact .inl rfl
  | node color left label right =>
      cases side with
      | left => exact .inr ⟨color, left, label, right, rfl⟩
      | right => exact .inr ⟨color, right, label, left, rfl⟩

def labels : RBTree α → List α
  | .nil => []
  | .node _ left label right => left.labels ++ label :: right.labels

/-- An empty tree counts as black. -/
def color : RBTree α → Color
  | .nil => .black
  | .node color _ _ _ => color

def paint (color : Color) : RBTree α → RBTree α
  | .nil => .nil
  | .node _ left label right => .node color left label right

@[simp] theorem labels_nil : (nil : RBTree α).labels = [] := rfl

@[simp] theorem color_join (side : Side) (color : Color) (near : RBTree α) (label : α)
    (far : RBTree α) : (join side color near label far).color = color := by
  cases side <;> rfl

@[simp] theorem paint_join (new : Color) (side : Side) (color : Color) (near : RBTree α) (label : α)
    (far : RBTree α) : (join side color near label far).paint new = join side new near label far := by
  cases side <;> rfl

@[simp] theorem labels_paint (color : Color) (t : RBTree α) : (t.paint color).labels = t.labels := by
  cases t <;> rfl

theorem color_paint_black (t : RBTree α) : (t.paint .black).color = .black := by
  cases t <;> rfl

theorem labels_join_congr {side : Side} {first second : Color} {near near' far far' : RBTree α}
    {label : α} (nears : near.labels = near'.labels) (fars : far.labels = far'.labels) :
    (join side first near label far).labels = (join side second near' label far').labels := by
  cases side <;> simp [join, labels, nears, fars]

theorem mem_labels_join {side : Side} {color : Color} {near far : RBTree α} {label x : α} :
    x ∈ (join side color near label far).labels ↔ x ∈ near.labels ∨ x = label ∨ x ∈ far.labels := by
  cases side with
  | left => simp [join, labels]
  | right =>
      simp only [join, labels, List.mem_append, List.mem_cons]
      constructor
      · rintro (inFar | rfl | inNear)
        · exact .inr (.inr inFar)
        · exact .inr (.inl rfl)
        · exact .inl inNear
      · rintro (inNear | rfl | inFar)
        · exact .inr (.inr inNear)
        · exact .inr (.inl rfl)
        · exact .inl inFar

theorem perm_labels_join (side : Side) (color : Color) (near : RBTree α) (label : α)
    (far : RBTree α) :
    (join side color near label far).labels.Perm (label :: (near.labels ++ far.labels)) := by
  cases side with
  | left => exact List.perm_middle
  | right => exact List.perm_middle.trans (List.perm_append_comm.cons _)

/-- No red node has a red child, and `height` black nodes are on every path down to
an empty tree. -/
inductive Balanced : RBTree α → Nat → Prop where
  | nil : Balanced .nil 0
  | black {left right : RBTree α} {label : α} {height : Nat} :
      Balanced left height → Balanced right height →
      Balanced (.node .black left label right) (height + 1)
  | red {left right : RBTree α} {label : α} {height : Nat} :
      Balanced left height → Balanced right height →
      left.color = .black → right.color = .black →
      Balanced (.node .red left label right) height

theorem balanced_black {side : Side} {near far : RBTree α} {label : α} {height : Nat} :
    (join side .black near label far).Balanced height ↔
      ∃ below, height = below + 1 ∧ near.Balanced below ∧ far.Balanced below := by
  cases side with
  | left =>
      constructor
      · rintro (_ | ⟨nearBalanced, farBalanced⟩)
        exact ⟨_, rfl, nearBalanced, farBalanced⟩
      · rintro ⟨below, rfl, nearBalanced, farBalanced⟩
        exact .black nearBalanced farBalanced
  | right =>
      constructor
      · rintro (_ | ⟨farBalanced, nearBalanced⟩)
        exact ⟨_, rfl, nearBalanced, farBalanced⟩
      · rintro ⟨below, rfl, nearBalanced, farBalanced⟩
        exact .black farBalanced nearBalanced

theorem balanced_red {side : Side} {near far : RBTree α} {label : α} {height : Nat} :
    (join side .red near label far).Balanced height ↔
      near.Balanced height ∧ far.Balanced height ∧ near.color = .black ∧ far.color = .black := by
  cases side with
  | left =>
      constructor
      · rintro (_ | _ | ⟨nearBalanced, farBalanced, nearBlack, farBlack⟩)
        exact ⟨nearBalanced, farBalanced, nearBlack, farBlack⟩
      · rintro ⟨nearBalanced, farBalanced, nearBlack, farBlack⟩
        exact .red nearBalanced farBalanced nearBlack farBlack
  | right =>
      constructor
      · rintro (_ | _ | ⟨farBalanced, nearBalanced, farBlack, nearBlack⟩)
        exact ⟨nearBalanced, farBalanced, nearBlack, farBlack⟩
      · rintro ⟨nearBalanced, farBalanced, nearBlack, farBlack⟩
        exact .red farBalanced nearBalanced farBlack nearBlack

theorem balanced_nil {height : Nat} : (nil : RBTree α).Balanced height ↔ height = 0 := by
  constructor
  · rintro (_ | _)
    rfl
  · rintro rfl
    exact .nil

/-- The root of a balanced tree can be painted black. -/
theorem Balanced.paint_black {t : RBTree α} {height : Nat} (balanced : t.Balanced height) :
    ∃ high, (t.paint .black).Balanced high := by
  cases balanced with
  | nil => exact ⟨0, .nil⟩
  | black leftBalanced rightBalanced => exact ⟨_, .black leftBalanced rightBalanced⟩
  | red leftBalanced rightBalanced => exact ⟨_, .black leftBalanced rightBalanced⟩

theorem Balanced.paint_black_of_red {t : RBTree α} {height : Nat} (balanced : t.Balanced height)
    (red : t.color = .red) : (t.paint .black).Balanced (height + 1) := by
  cases balanced with
  | nil => cases red
  | black => cases red
  | red leftBalanced rightBalanced => exact .black leftBalanced rightBalanced

end RBTree

/-! ## Contexts -/

/-- A node without the subtree on one of its sides. -/
structure Frame (α : Type) where
  side : Side
  color : Color
  label : α
  sibling : RBTree α

/-- The frames around a subtree, from its parent up to the root. -/
abbrev Context (α : Type) := List (Frame α)

namespace Context

variable {α : Type}

def plug : Context α → RBTree α → RBTree α
  | [], t => t
  | ⟨side, color, label, sibling⟩ :: rest, t => plug rest (.join side color t label sibling)

/-- The labels to the left of the subtree. -/
def before : Context α → List α
  | [] => []
  | ⟨.left, _, _, _⟩ :: rest => before rest
  | ⟨.right, _, label, sibling⟩ :: rest => before rest ++ (sibling.labels ++ [label])

def after : Context α → List α
  | [] => []
  | ⟨.left, _, label, sibling⟩ :: rest => (label :: sibling.labels) ++ after rest
  | ⟨.right, _, _, _⟩ :: rest => after rest

/-- The colour of the parent; the root is as good as below a black node. -/
def color : Context α → Color
  | [] => .black
  | frame :: _ => frame.color

theorem labels_plug (ctx : Context α) (t : RBTree α) :
    (plug ctx t).labels = before ctx ++ (t.labels ++ after ctx) := by
  induction ctx generalizing t with
  | nil => simp [plug, before, after]
  | cons frame rest ih =>
      obtain ⟨side, color, label, sibling⟩ := frame
      cases side with
      | left => simp [plug, before, after, ih, RBTree.join, RBTree.labels]
      | right => simp [plug, before, after, ih, RBTree.join, RBTree.labels]

theorem labels_plug_congr {ctx : Context α} {first second : RBTree α}
    (same : first.labels = second.labels) :
    (plug ctx first).labels = (plug ctx second).labels := by
  rw [labels_plug, labels_plug, same]

theorem plug_append (inner outer : Context α) (t : RBTree α) :
    plug (inner ++ outer) t = plug outer (plug inner t) := by
  induction inner generalizing t with
  | nil => rfl
  | cons frame rest ih => exact ih _

theorem before_append (inner outer : Context α) :
    before (inner ++ outer) = before outer ++ before inner := by
  induction inner with
  | nil => simp [before]
  | cons frame rest ih =>
      obtain ⟨side, color, label, sibling⟩ := frame
      cases side with
      | left => exact ih
      | right => simp [before, ih]

theorem exists_plug {t : RBTree α} {x : α} (member : x ∈ t.labels) :
    ∃ ctx color left right, t = plug ctx (.node color left x right) := by
  induction t with
  | nil => cases member
  | node color left label right leftIH rightIH =>
      rcases List.mem_append.mp member with inLeft | here
      · obtain ⟨ctx, color', left', right', same⟩ := leftIH inLeft
        refine ⟨ctx ++ [⟨.left, color, label, right⟩], color', left', right', ?_⟩
        rw [plug_append, ← same]
        rfl
      · rcases List.mem_cons.mp here with rfl | inRight
        · exact ⟨[], color, left, right, rfl⟩
        · obtain ⟨ctx, color', left', right', same⟩ := rightIH inRight
          refine ⟨ctx ++ [⟨.right, color, label, left⟩], color', left', right', ?_⟩
          rw [plug_append, ← same]
          rfl

/-- The labels around the subtree. -/
def labels (ctx : Context α) : List α := before ctx ++ after ctx

theorem mem_labels_cons {side : Side} {color : Color} {label x : α} {sibling : RBTree α}
    {rest : Context α} : x ∈ labels (⟨side, color, label, sibling⟩ :: rest) ↔
      x = label ∨ x ∈ sibling.labels ∨ x ∈ labels rest := by
  cases side with
  | left =>
      simp only [labels, before, after, List.mem_append, List.mem_cons]
      tauto
  | right =>
      simp only [labels, before, after, List.mem_append, List.mem_singleton]
      tauto

theorem mem_labels_append {side : Side} {color : Color} {label : α} {sibling : RBTree α}
    (inner outer : Context α) : label ∈ labels (inner ++ ⟨side, color, label, sibling⟩ :: outer) := by
  induction inner with
  | nil => exact mem_labels_cons.mpr (.inl rfl)
  | cons frame rest ih => exact mem_labels_cons.mpr (.inr (.inr ih))

theorem perm_labels_cons (side : Side) (color : Color) (label : α) (sibling : RBTree α)
    (rest : Context α) : (labels (⟨side, color, label, sibling⟩ :: rest)).Perm
      (label :: (sibling.labels ++ labels rest)) := by
  cases side with
  | left =>
      simp only [labels, before, after, List.cons_append]
      refine List.perm_middle.trans (List.Perm.cons _ ?_)
      rw [← List.append_assoc, ← List.append_assoc]
      exact List.perm_append_comm.append_right _
  | right =>
      simp only [labels, before, after, List.append_assoc, List.singleton_append]
      rw [← List.append_assoc]
      refine List.perm_middle.trans (List.Perm.cons _ ?_)
      rw [← List.append_assoc]
      exact List.perm_append_comm.append_right _

theorem apart_of_nodup {side : Side} {color : Color} {label : α} {sibling : RBTree α}
    {rest : Context α} (nodup : (labels (⟨side, color, label, sibling⟩ :: rest)).Nodup) :
    label ∉ sibling.labels ∧ label ∉ labels rest ∧ sibling.labels.Disjoint (labels rest) := by
  rw [(perm_labels_cons ..).nodup_iff, List.nodup_cons, List.mem_append, not_or] at nodup
  exact ⟨nodup.1.1, nodup.1.2, (List.nodup_append'.mp nodup.2).2.2⟩

theorem mem_labels_plug {ctx : Context α} {t : RBTree α} {x : α} :
    x ∈ (plug ctx t).labels ↔ x ∈ t.labels ∨ x ∈ labels ctx := by
  simp only [labels_plug, labels, List.mem_append]
  tauto

theorem perm_labels_plug (ctx : Context α) (t : RBTree α) :
    (plug ctx t).labels.Perm (t.labels ++ labels ctx) := by
  rw [labels_plug, labels, ← List.append_assoc, ← List.append_assoc]
  exact List.perm_append_comm.append_right _

theorem length_le_labels (ctx : Context α) (t : RBTree α) :
    ctx.length ≤ (plug ctx t).labels.length := by
  rw [(perm_labels_plug ctx t).length_eq, List.length_append]
  induction ctx with
  | nil => exact Nat.zero_le _
  | cons frame rest ih =>
      obtain ⟨side, color, label, sibling⟩ := frame
      rw [(perm_labels_cons side color label sibling rest).length_eq, List.length_cons,
        List.length_cons, List.length_append]
      omega

/-- A balanced subtree of this height, red only below a black node, makes the whole
a balanced tree with a black root. -/
inductive Fits : Context α → Nat → Prop where
  | nil {height : Nat} : Fits [] height
  | black {side : Side} {label : α} {sibling : RBTree α} {rest : Context α} {height : Nat} :
      sibling.Balanced height → Fits rest (height + 1) →
      Fits (⟨side, .black, label, sibling⟩ :: rest) height
  | red {side : Side} {label : α} {sibling : RBTree α} {rest : Context α} {height : Nat} :
      sibling.Balanced height → sibling.color = .black → rest ≠ [] → color rest = .black →
      Fits rest height → Fits (⟨side, .red, label, sibling⟩ :: rest) height

theorem Fits.sibling {side : Side} {frameColor : Color} {label : α} {sibling : RBTree α}
    {rest : Context α} {height : Nat}
    (fits : Fits (⟨side, frameColor, label, sibling⟩ :: rest) height) :
    sibling.Balanced height := by
  cases fits with
  | black balanced => exact balanced
  | red balanced => exact balanced

theorem Fits.plug {ctx : Context α} {t : RBTree α} {height : Nat} (fits : Fits ctx height)
    (balanced : t.Balanced height) (colors : t.color = .black ∨ color ctx = .black) :
    ∃ high, (plug ctx t).Balanced high := by
  induction fits generalizing t with
  | nil => exact ⟨_, balanced⟩
  | black siblingBalanced _ ih =>
      refine ih ?_ (.inl (RBTree.color_join ..))
      exact RBTree.balanced_black.mpr ⟨_, rfl, balanced, siblingBalanced⟩
  | red siblingBalanced siblingBlack _ parentBlack _ ih =>
      have black : t.color = .black := by
        rcases colors with black | wrong
        · exact black
        · cases wrong
      refine ih ?_ (.inr parentBlack)
      exact RBTree.balanced_red.mpr ⟨balanced, siblingBalanced, black, siblingBlack⟩

/-- Balance has nothing to do with the labels. -/
theorem Fits.relabel {side : Side} {frameColor : Color} {label : α} {sibling : RBTree α}
    {inner outer : Context α} {height : Nat}
    (fits : Fits (inner ++ ⟨side, frameColor, label, sibling⟩ :: outer) height) (new : α) :
    Fits (inner ++ ⟨side, frameColor, new, sibling⟩ :: outer) height := by
  induction inner generalizing height with
  | nil =>
      cases fits with
      | black balanced rest => exact .black balanced rest
      | red balanced siblingBlack nonempty parentBlack rest =>
          exact .red balanced siblingBlack nonempty parentBlack rest
  | cons frame inner ih =>
      cases fits with
      | black balanced rest => exact .black balanced (ih rest)
      | red balanced siblingBlack _ parentBlack rest =>
          refine .red balanced siblingBlack (by simp) ?_ (ih rest)
          cases inner with
          | nil => exact parentBlack
          | cons _ _ => exact parentBlack

theorem Fits.color_plug {ctx : Context α} {height : Nat} (fits : Fits ctx height) (t : RBTree α)
    (inner : ctx ≠ []) : (Context.plug ctx t).color = .black := by
  induction fits generalizing t with
  | nil => exact absurd rfl inner
  | @black side label sibling rest height _ _ ih =>
      cases rest with
      | nil => exact RBTree.color_join ..
      | cons frame rest => exact ih _ (by simp)
  | red _ _ nonempty _ _ ih => exact ih _ nonempty

theorem fits_of_balanced {ctx : Context α} {t : RBTree α} {high : Nat}
    (balanced : (plug ctx t).Balanced high) (black : (plug ctx t).color = .black) :
    ∃ height, t.Balanced height ∧ Fits ctx height ∧
      (t.color = .red → ctx ≠ [] ∧ color ctx = .black) := by
  induction ctx generalizing t with
  | nil =>
      refine ⟨high, balanced, .nil, ?_⟩
      intro red
      rw [show t.color = .black from black] at red
      cases red
  | cons frame rest ih =>
      obtain ⟨side, frameColor, label, sibling⟩ := frame
      obtain ⟨height, joined, fits, below⟩ := ih balanced black
      cases frameColor with
      | black =>
          obtain ⟨under, rfl, balanced, siblingBalanced⟩ := RBTree.balanced_black.mp joined
          exact ⟨under, balanced, .black siblingBalanced fits, fun _ => ⟨by simp, rfl⟩⟩
      | red =>
          obtain ⟨balanced, siblingBalanced, black, siblingBlack⟩ :=
            RBTree.balanced_red.mp joined
          obtain ⟨nonempty, parentBlack⟩ := below (RBTree.color_join ..)
          refine ⟨height, balanced, .red siblingBalanced siblingBlack nonempty parentBlack fits, ?_⟩
          intro red
          rw [black] at red
          cases red

end Context

end CLibs.General
