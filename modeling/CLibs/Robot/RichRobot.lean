import CLibs.Robot.Fleet

/-!
# Picking a rich robot

`pickOneRichRobot` erases the robots it skips from the queue it walks over and appends
them again at the end, so that the robot it picks comes to stand first: the constructor
of `Client` takes the first robot off the queue.
-/

set_option autoImplicit false

namespace CLibs.Robot

open General

namespace Fleet

theorem queue_setQueue (s : Fleet) (vid : Int) (uids : List Int) (other : Int) :
    (s.setQueue vid uids).queue other = if other = vid then uids else s.queue other := by
  unfold setQueue queue
  rw [Table.get_insert]
  split <;> rfl

section Rich

variable (atoi : String → Int) (hget : Int → Option String)

/-- The money of the robot can be read and is enough for the robot's server. -/
def Rich (s : Fleet) (uid : Int) : Prop :=
  ∃ money, hget uid = some money ∧ (s.gameSvrs.get (s.vidOf uid) {}).enterMoney ≤ atoi money

instance (s : Fleet) (uid : Int) : Decidable (s.Rich atoi hget uid) :=
  match reply : hget uid with
  | none => isFalse (by
      rintro ⟨money, found, -⟩
      rw [reply] at found
      cases found)
  | some money => decidable_of_iff
      ((s.gameSvrs.get (s.vidOf uid) {}).enterMoney ≤ atoi money) (by simp [Rich, reply])

/-- Both fleets say the same about each robot. -/
def Agrees (s t : Fleet) : Prop :=
  (∀ uid, t.vidOf uid = s.vidOf uid) ∧ ∀ vid, t.gameSvrs.get vid {} = s.gameSvrs.get vid {}

variable {atoi hget}

theorem Agrees.rich_iff {s t : Fleet} (agrees : s.Agrees t) (uid : Int) :
    t.Rich atoi hget uid ↔ s.Rich atoi hget uid := by
  simp only [Rich, agrees.1, agrees.2]

/-- Reading the entry of a robot and of its server adds missing entries only. -/
def touched (s : Fleet) (uid : Int) : Fleet :=
  { s with
    robots := s.robots.touch uid {}
    gameSvrs := s.gameSvrs.touch (s.vidOf uid) {} }

theorem Agrees.touched {s t : Fleet} (agrees : s.Agrees t) (uid : Int) : s.Agrees (t.touched uid) := by
  refine ⟨?_, ?_⟩
  · intro other
    rw [← agrees.1]
    exact congrArg UserInfo.vid (Table.get_touch _ _ _ _)
  · intro other
    rw [← agrees.2]
    exact Table.get_touch _ _ _ _

variable (atoi hget)

theorem pickLoop_cons (t : Fleet) (uid : Int) (rest : List Int) :
    ∃ after, (after = t ∨ after = t.touched uid) ∧
      t.pickLoop atoi hget (uid :: rest) =
        if t.Rich atoi hget uid then (after, [], uid :: rest)
        else
          let left := after.pickLoop atoi hget rest
          (left.1, uid :: left.2.1, left.2.2) := by
  rw [pickLoop]
  cases reply : hget uid with
  | none =>
      have poor : ¬ t.Rich atoi hget uid := by
        rintro ⟨money, found, -⟩
        rw [reply] at found
        cases found
      exact ⟨t, .inl rfl, by rw [if_neg poor]⟩
  | some money =>
      have vid : vidOf { t with robots := t.robots.touch uid {} } uid = t.vidOf uid :=
        congrArg UserInfo.vid (Table.get_touch _ _ _ _)
      have agrees : t.Agrees (t.touched uid) := Agrees.touched ⟨fun _ => rfl, fun _ => rfl⟩ uid
      have rich : t.Rich atoi hget uid ↔
          ((t.touched uid).gameSvrs.get ((t.touched uid).vidOf uid) {}).enterMoney ≤ atoi money := by
        simp [Rich, reply, agrees.1, agrees.2]
      refine ⟨t.touched uid, .inr rfl, ?_⟩
      simp only [vid, rich]
      rfl

theorem pickLoop_skips {s t : Fleet} (agrees : s.Agrees t) (uids : List Int) :
    let picked := t.pickLoop atoi hget uids
    picked.1.queues = t.queues ∧ uids = picked.2.1 ++ picked.2.2 ∧
      (∀ uid ∈ picked.2.1, ¬ s.Rich atoi hget uid) ∧
      ∀ uid ∈ picked.2.2.head?, s.Rich atoi hget uid := by
  induction uids generalizing t with
  | nil => exact ⟨rfl, rfl, by simp [pickLoop], by simp [pickLoop]⟩
  | cons uid rest ih =>
      obtain ⟨after, touches, turn⟩ := pickLoop_cons atoi hget t uid rest
      have agreesAfter : s.Agrees after ∧ after.queues = t.queues := by
        rcases touches with rfl | rfl
        · exact ⟨agrees, rfl⟩
        · exact ⟨agrees.touched uid, rfl⟩
      rw [turn]
      split
      · next rich => exact ⟨agreesAfter.2, rfl, by simp, by simpa using (agrees.rich_iff uid).mp rich⟩
      · next poor =>
        rw [agrees.rich_iff] at poor
        obtain ⟨queues, split, skipped, found⟩ := ih agreesAfter.1
        exact ⟨queues.trans agreesAfter.2, congrArg (uid :: ·) split,
          List.forall_mem_cons.mpr ⟨poor, skipped⟩, found⟩

theorem first_unique {α : Type} {rich : α → Prop} {skipped poor left behind : List α} {uid : α}
    (same : skipped ++ uid :: behind = poor ++ left) (notSkipped : ∀ other ∈ skipped, ¬ rich other)
    (notPoor : ∀ other ∈ poor, ¬ rich other) (first : ∀ other ∈ left.head?, rich other)
    (isRich : rich uid) : skipped = poor ∧ uid :: behind = left := by
  induction skipped generalizing poor with
  | nil =>
      cases poor with
      | nil => exact ⟨rfl, same⟩
      | cons other poor =>
          obtain ⟨rfl, -⟩ := List.cons.inj same
          exact absurd isRich (notPoor uid List.mem_cons_self)
  | cons other skipped ih =>
      cases poor with
      | nil =>
          rw [List.nil_append] at same
          subst same
          exact absurd (first other rfl) (notSkipped other List.mem_cons_self)
      | cons next poor =>
          obtain ⟨rfl, rest⟩ := List.cons.inj same
          obtain ⟨samePoor, sameLeft⟩ := ih rest
            (fun member inSkipped => notSkipped member (List.mem_cons_of_mem _ inSkipped))
            (fun member inPoor => notPoor member (List.mem_cons_of_mem _ inPoor))
          exact ⟨congrArg (other :: ·) samePoor, sameLeft⟩

/-- The robot that is picked is the first rich one, the queue is turned so that it
stands first, and without a rich robot nothing moves. -/
theorem pickOneRichRobot_rotates {s : Fleet} {vid : Int} (positive : 0 < vid)
    (there : (s.queues.get vid {}).vid = vid) :
    let picked := s.pickOneRichRobot atoi hget vid
    (picked.1.queue vid).Perm (s.queue vid) ∧
    (∀ skipped uid behind, s.queue vid = skipped ++ uid :: behind →
      (∀ other ∈ skipped, ¬ s.Rich atoi hget other) → s.Rich atoi hget uid →
      picked.2 = uid ∧ picked.1.queue vid = (uid :: behind) ++ skipped) ∧
    ((∀ uid ∈ s.queue vid, ¬ s.Rich atoi hget uid) →
      picked.2 = -1 ∧ picked.1.queue vid = s.queue vid) := by
  have sameQueue : ∀ other, queue { s with queues := s.queues.touch vid {} } other = s.queue other :=
    fun other => congrArg GameSvrQueue.randomUids (Table.get_touch _ _ _ _)
  have agrees : s.Agrees { s with queues := s.queues.touch vid {} } :=
    ⟨fun _ => rfl, fun _ => rfl⟩
  obtain ⟨-, split, poor, rich⟩ := pickLoop_skips atoi hget agrees (s.queue vid)
  unfold pickOneRichRobot
  rw [if_neg (not_le.mpr positive)]
  dsimp only
  rw [Table.get_touch, if_neg (not_not.mpr there), sameQueue, queue_setQueue, if_pos rfl]
  generalize pickLoop atoi hget { s with queues := s.queues.touch vid {} } (s.queue vid) = picked
    at split poor rich ⊢
  rw [split]
  refine ⟨List.perm_append_comm, ?_, ?_⟩
  · intro skipped uid behind cut notSkipped isRich
    obtain ⟨rfl, left⟩ := first_unique cut.symm notSkipped poor rich isRich
    rw [← left]
    exact ⟨rfl, rfl⟩
  · intro none
    cases left : picked.2.2 with
    | nil => exact ⟨rfl, by simp⟩
    | cons uid behind =>
        rw [left] at rich none
        exact absurd (rich uid rfl) (none uid (by simp))

end Rich

/-- Two robots wait for server 1; only the data of the second one can be read. -/
def twoWaiting : Fleet where
  gameSvrs := AList.singleton 1 { vid := 1, enterMoney := 5 }
  robots := (AList.singleton 7 { uid := 7, vid := 1 }).insert 8 { uid := 8, vid := 1 }
  queues := AList.singleton 1 { vid := 1, randomUids := [7, 8] }

theorem pickOneRichRobot_rotates_twoWaiting :
    (twoWaiting.pickOneRichRobot (fun text => if text = "9" then 9 else 0)
        (fun uid => if uid = 8 then some "9" else none) 1).2 = 8 ∧
      (twoWaiting.pickOneRichRobot (fun text => if text = "9" then 9 else 0)
        (fun uid => if uid = 8 then some "9" else none) 1).1.queue 1 = [8, 7] :=
  (pickOneRichRobot_rotates (fun text => if text = "9" then 9 else 0)
    (fun uid => if uid = 8 then some "9" else none) (s := twoWaiting) (by decide)
    (by decide)).2.1 [7] 8 [] (by decide) (by decide) (by decide)

end Fleet

end CLibs.Robot
