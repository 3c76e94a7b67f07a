import CLibs.Robot.RichRobot
import Mathlib.Data.List.Induction
import Mathlib.Data.List.Perm.Basic

/-!
# Where the robots are

Every configured robot either runs, as one client, or waits once in the queue of
its server. Starting and stopping keep that; a reload keeps it if every robot it
loads was configured before and runs, or is new, does not run and is loaded once.
-/

set_option autoImplicit false

namespace CLibs.Robot

open General

namespace Fleet

def Running (s : Fleet) (uid : Int) : Prop :=
  s.clients.count uid = 1 ∧ ∀ vid, (s.queue vid).count uid = 0

def Waiting (s : Fleet) (uid : Int) : Prop :=
  s.clients.count uid = 0 ∧ ∀ vid, (s.queue vid).count uid = if vid = s.vidOf uid then 1 else 0

/-- No configured robot is lost or there twice. -/
def Placed (s : Fleet) : Prop := ∀ uid ∈ s.robots, s.Running uid ∨ s.Waiting uid

/-- What a run keeps: only configured robots wait, and the last configuration is
the one in use. -/
structure Inv (s : Fleet) : Prop where
  placed : s.Placed
  queued : ∀ vid, ∀ uid ∈ s.queue vid, uid ∈ s.robots
  last : ∀ uid, uid ∈ s.robotsLast ↔ uid ∈ s.robots

theorem placed_of_counts {s t : Fleet} {uid : Int}
    (clients : t.clients.count uid = s.clients.count uid)
    (queues : ∀ vid, (t.queue vid).count uid = (s.queue vid).count uid)
    (vidOf : t.vidOf uid = s.vidOf uid) (before : s.Running uid ∨ s.Waiting uid) :
    t.Running uid ∨ t.Waiting uid := by
  unfold Running Waiting at before ⊢
  simp only [clients, queues, vidOf]
  exact before

theorem Inv.reorder {s t : Fleet} (inv : s.Inv) (robots : t.robots = s.robots)
    (last : t.robotsLast = s.robotsLast) (clients : t.clients = s.clients)
    (queues : ∀ vid, (t.queue vid).Perm (s.queue vid)) : t.Inv := by
  refine ⟨?_, ?_, ?_⟩
  · intro uid member
    rw [robots] at member
    refine placed_of_counts (by rw [clients]) (fun vid => (queues vid).count_eq uid) ?_
      (inv.placed uid member)
    rw [vidOf, robots]
    rfl
  · intro vid uid member
    rw [robots]
    exact inv.queued vid uid ((queues vid).mem_iff.mp member)
  · intro uid
    rw [robots, last]
    exact inv.last uid

/-! ## Starting a robot -/

/-- Over configured robots the loop adds entries of servers only. -/
theorem pickLoop_known (atoi : String → Int) (hget : Int → Option String) {s : Fleet}
    {uids : List Int} (known : ∀ uid ∈ uids, uid ∈ s.robots) :
    ∃ gameSvrs, (s.pickLoop atoi hget uids).1 = { s with gameSvrs := gameSvrs } := by
  induction uids generalizing s with
  | nil => exact ⟨s.gameSvrs, rfl⟩
  | cons uid rest ih =>
      obtain ⟨after, touches, turn⟩ := pickLoop_cons atoi hget s uid rest
      have grown : ∃ gameSvrs, after = { s with gameSvrs := gameSvrs } := by
        rcases touches with rfl | rfl
        · exact ⟨after.gameSvrs, rfl⟩
        · rw [touched, Table.touch_of_mem (known uid List.mem_cons_self)]
          exact ⟨_, rfl⟩
      obtain ⟨gameSvrs, rfl⟩ := grown
      rw [turn]
      split
      · exact ⟨gameSvrs, rfl⟩
      · obtain ⟨later, same⟩ := ih (s := { s with gameSvrs := gameSvrs })
          fun other member => known other (List.mem_cons_of_mem _ member)
        exact ⟨later, same⟩

/-- `pickOneRichRobot` reorders a queue of configured robots, and puts the robot it
picks first. -/
theorem pickOneRichRobot_reorders (atoi : String → Int) (hget : Int → Option String) {s : Fleet}
    {vid : Int} (known : ∀ uid ∈ s.queue vid, uid ∈ s.robots) :
    ((s.pickOneRichRobot atoi hget vid).1.robots = s.robots ∧
      (s.pickOneRichRobot atoi hget vid).1.robotsLast = s.robotsLast ∧
      (s.pickOneRichRobot atoi hget vid).1.clients = s.clients ∧
      ∀ other, ((s.pickOneRichRobot atoi hget vid).1.queue other).Perm (s.queue other)) ∧
    (0 < (s.pickOneRichRobot atoi hget vid).2 → ∃ rest,
      (s.pickOneRichRobot atoi hget vid).1.queue vid =
        (s.pickOneRichRobot atoi hget vid).2 :: rest) := by
  unfold pickOneRichRobot
  split
  · exact ⟨⟨rfl, rfl, rfl, fun _ => .refl _⟩,
      fun positive => absurd positive (show ¬ (0 : Int) < -1 by decide)⟩
  · have sameQueues : ∀ other,
        queue { s with queues := s.queues.touch vid {} } other = s.queue other :=
      fun other => congrArg GameSvrQueue.randomUids (Table.get_touch _ _ _ _)
    dsimp only
    split
    · exact ⟨⟨rfl, rfl, rfl, fun other => .of_eq (sameQueues other)⟩,
        fun positive => absurd positive (show ¬ (0 : Int) < -1 by decide)⟩
    · have touchedKnown : ∀ uid ∈ queue { s with queues := s.queues.touch vid {} } vid,
          uid ∈ s.robots := by
        rw [sameQueues]
        exact known
      obtain ⟨gameSvrs, same⟩ :=
        pickLoop_known atoi hget (s := { s with queues := s.queues.touch vid {} }) touchedKnown
      obtain ⟨-, split, -⟩ := pickLoop_skips atoi hget (s := s)
        (t := { s with queues := s.queues.touch vid {} }) ⟨fun _ => rfl, fun _ => rfl⟩
        (queue { s with queues := s.queues.touch vid {} } vid)
      generalize pickLoop atoi hget { s with queues := s.queues.touch vid {} }
        (queue { s with queues := s.queues.touch vid {} } vid) = picked at same split ⊢
      rw [same]
      refine ⟨⟨rfl, rfl, rfl, fun other => ?_⟩, ?_⟩
      · rw [queue_setQueue]
        split
        · next isVid =>
          rw [isVid, ← sameQueues, split]
          exact List.perm_append_comm
        · exact .of_eq (sameQueues other)
      · intro positive
        rw [queue_setQueue, if_pos rfl]
        cases left : picked.2.2 with
        | nil =>
            rw [left] at positive
            exact absurd positive (show ¬ (0 : Int) < -1 by decide)
        | cons uid others => exact ⟨_, rfl⟩

theorem Inv.waiting {s : Fleet} (inv : s.Inv) {vid uid : Int} (member : uid ∈ s.queue vid) :
    s.Waiting uid ∧ vid = s.vidOf uid := by
  have held := List.count_pos_iff.mpr member
  rcases inv.placed uid (inv.queued vid uid member) with runs | waits
  · have none := runs.2 vid
    omega
  · refine ⟨waits, ?_⟩
    have here := waits.2 vid
    by_contra other
    rw [if_neg other] at here
    omega

theorem newClient_inv {s : Fleet} (inv : s.Inv) {vid uid : Int} {rest : List Int}
    (first : s.queue vid = uid :: rest) : (s.newClient uid).Inv := by
  have member : uid ∈ s.queue vid := by
    rw [first]
    exact List.mem_cons_self
  have configured := inv.queued vid uid member
  obtain ⟨waits, rfl⟩ := inv.waiting member
  unfold newClient
  dsimp only
  rw [Table.touch_of_mem configured, first, List.tail_cons]
  have queues : ∀ other undefined gameSvrs clients, queue { s.setQueue (s.vidOf uid) rest with
      undefined := undefined, gameSvrs := gameSvrs, clients := clients } other =
        if other = s.vidOf uid then rest else s.queue other :=
    fun other _ _ _ => s.queue_setQueue (s.vidOf uid) rest other
  refine ⟨?_, ?_, inv.last⟩
  · intro other isConfigured
    by_cases same : other = uid
    · subst same
      refine .inl ⟨?_, ?_⟩
      · have none := waits.1
        change (s.clients ++ [other]).count other = 1
        rw [List.count_append, none, List.count_singleton_self]
      · intro vid
        have once := waits.2 vid
        rw [queues]
        split
        · next here =>
          rw [if_pos here, here, first, List.count_cons_self] at once
          omega
        · next elsewhere =>
          rw [if_neg elsewhere] at once
          exact once
    · have counts : ∀ vid, (queue { s.setQueue (s.vidOf uid) rest with
          undefined := s.undefined || (uid :: rest).isEmpty
          gameSvrs := s.gameSvrs.touch (s.vidOf uid) {}
          clients := s.clients ++ [uid] } vid).count other = (s.queue vid).count other := by
        intro vid
        rw [queues]
        split
        · next here => rw [here, first, List.count_cons_of_ne (Ne.symm same)]
        · rfl
      have running : (s.clients ++ [uid]).count other = s.clients.count other := by
        rw [List.count_append, List.count_singleton, beq_false_of_ne (Ne.symm same)]
        rfl
      exact placed_of_counts running counts rfl (inv.placed other isConfigured)
  · intro vid other inQueue
    rw [queues] at inQueue
    split at inQueue
    · refine inv.queued (s.vidOf uid) other ?_
      rw [first]
      exact List.mem_cons_of_mem _ inQueue
    · exact inv.queued vid other inQueue

theorem deleteClient_inv {s : Fleet} (inv : s.Inv) {i : Nat} {uid : Int}
    (runs : s.clients[i]? = some uid) : (s.deleteClient i uid).Inv := by
  have clients : ∀ other, (s.clients.eraseIdx i).count other +
      (if uid = other then 1 else 0) = s.clients.count other := by
    intro other
    obtain ⟨inRange, isUid⟩ := List.getElem?_eq_some_iff.mp runs
    rw [← (List.getElem_cons_eraseIdx_perm inRange).count_eq other, isUid, List.count_cons]
    simp only [beq_iff_eq]
  unfold deleteClient
  dsimp only
  split
  · next isSome =>
    have configured : uid ∈ s.robots := AList.lookup_isSome.mp isSome
    have queues : ∀ vid, (setQueue { s with clients := s.clients.eraseIdx i } (s.vidOf uid)
        (s.queue (s.vidOf uid) ++ [uid])).queue vid =
          if vid = s.vidOf uid then s.queue (s.vidOf uid) ++ [uid] else s.queue vid :=
      fun vid => queue_setQueue _ _ _ vid
    change Inv (setQueue { s with clients := s.clients.eraseIdx i } (s.vidOf uid)
      (s.queue (s.vidOf uid) ++ [uid]))
    refine ⟨?_, ?_, inv.last⟩
    · intro other isConfigured
      have live := clients other
      by_cases same : uid = other
      · subst same
        rw [if_pos rfl] at live
        rcases inv.placed uid configured with ran | waited
        · refine .inr ⟨?_, ?_⟩
          · have once := ran.1
            change (s.clients.eraseIdx i).count uid = 0
            omega
          · intro vid
            rw [queues]
            change List.count uid _ = if vid = s.vidOf uid then 1 else 0
            split
            · rw [List.count_append, ran.2, List.count_singleton_self]
            · exact ran.2 vid
        · have none := waited.1
          omega
      · rw [if_neg same, Nat.add_zero] at live
        refine placed_of_counts live ?_ rfl (inv.placed other isConfigured)
        intro vid
        rw [queues]
        split
        · next here =>
          rw [here, List.count_append, List.count_singleton, beq_false_of_ne same]
          rfl
        · rfl
    · intro vid other inQueue
      rw [queues] at inQueue
      split at inQueue
      · rcases List.mem_append.mp inQueue with old | new
        · exact inv.queued _ other old
        · rw [List.mem_singleton.mp new]
          exact configured
      · exact inv.queued vid other inQueue
  · next unknown =>
    refine ⟨?_, inv.queued, inv.last⟩
    intro other isConfigured
    have different : uid ≠ other := by
      rintro rfl
      exact unknown (AList.lookup_isSome.mpr isConfigured)
    have same := clients other
    rw [if_neg different, Nat.add_zero] at same
    exact placed_of_counts same (fun _ => rfl) rfl (inv.placed other isConfigured)

theorem addUser_inv (atoi : String → Int) (hget : Int → Option String) {s : Fleet} (inv : s.Inv) :
    (s.addUser atoi hget).Inv := by
  unfold addUser
  generalize s.queues.sortedKeys = vids
  induction vids generalizing s with
  | nil => exact inv
  | cons vid rest ih =>
      refine ih ?_
      obtain ⟨⟨robots, last, clients, queues⟩, first⟩ :=
        pickOneRichRobot_reorders atoi hget (inv.queued vid)
      have picked := inv.reorder robots last clients queues
      unfold addUserTo
      dsimp only
      split
      · next positive =>
        obtain ⟨others, front⟩ := first positive
        exact newClient_inv picked front
      · exact picked

/-! ## Reloading the configuration -/

theorem addServers_spec (svrs : List GameSvrInfo) {s t : Fleet} (robots : t.robots = s.robots)
    (last : t.robotsLast = s.robotsLast) (clients : t.clients = s.clients)
    (queues : ∀ vid, t.queue vid = if vid ∈ t.gameSvrs.keys then [] else s.queue vid) :
    (svrs.foldl addServer t).robots = s.robots ∧
      (svrs.foldl addServer t).robotsLast = s.robotsLast ∧
      (svrs.foldl addServer t).clients = s.clients ∧
      ∀ vid, (svrs.foldl addServer t).queue vid =
        if vid ∈ (svrs.foldl addServer t).gameSvrs.keys then [] else s.queue vid := by
  induction svrs generalizing t with
  | nil => exact ⟨robots, last, clients, queues⟩
  | cons svr rest ih =>
      rw [List.foldl_cons]
      unfold addServer
      split
      · exact ih robots last clients queues
      · refine ih robots last clients ?_
        intro vid
        change (Table.get (t.queues.insert svr.vid { vid := svr.vid }) vid {}).randomUids = _
        rw [Table.get_insert, AList.keys_insert]
        split
        · next same => simp [same]
        · next other =>
          change t.queue vid = _
          rw [queues]
          simp [other, List.mem_erase_of_ne other]

theorem addServers_keys (svrs : List GameSvrInfo) (distinct : (svrs.map (·.vid)).Nodup) {t : Fleet}
    (new : ∀ svr ∈ svrs, svr.vid ∉ t.gameSvrs) :
    (svrs.foldl addServer t).gameSvrs.keys.Perm (svrs.map (·.vid) ++ t.gameSvrs.keys) ∧
      (∀ vid ∈ t.gameSvrs, (svrs.foldl addServer t).gameSvrs.get vid {} = t.gameSvrs.get vid {}) ∧
      ∀ svr ∈ svrs, (svrs.foldl addServer t).gameSvrs.get svr.vid {} = svr := by
  induction svrs generalizing t with
  | nil => simp
  | cons svr rest ih =>
      have absent := new svr List.mem_cons_self
      obtain ⟨notInRest, restDistinct⟩ := List.nodup_cons.mp distinct
      have joined : addServer t svr =
          { t with
            gameSvrs := t.gameSvrs.insert svr.vid svr
            queues := t.queues.insert svr.vid { vid := svr.vid } } :=
        if_neg fun isSome => absent (AList.lookup_isSome.mp isSome)
      rw [List.foldl_cons, joined]
      have restNew : ∀ other ∈ rest, other.vid ∉ t.gameSvrs.insert svr.vid svr := by
        intro other member inserted
        rcases (AList.mem_insert _).mp inserted with same | old
        · exact notInRest (List.mem_map.mpr ⟨other, member, same⟩)
        · exact new other (List.mem_cons_of_mem _ member) old
      obtain ⟨keys, kept, values⟩ := ih restDistinct (t := { t with
        gameSvrs := t.gameSvrs.insert svr.vid svr
        queues := t.queues.insert svr.vid { vid := svr.vid } }) restNew
      refine ⟨?_, ?_, ?_⟩
      · refine keys.trans ?_
        rw [AList.keys_insert, List.erase_of_not_mem absent, List.map_cons, List.cons_append]
        exact List.perm_middle
      · intro vid member
        rw [kept vid ((AList.mem_insert _).mpr (.inr member)), Table.get_insert]
        refine if_neg ?_
        rintro rfl
        exact absent member
      · intro other member
        rcases List.mem_cons.mp member with rfl | inRest
        · rw [kept other.vid ((AList.mem_insert _).mpr (.inl rfl)), Table.get_insert, if_pos rfl]
        · exact values other inRest

def confUids (atoi : String → Int) (redis : Redis) (games : List GameConf) : List Int :=
  games.flatMap fun game => (loadServer atoi redis game).indexs.flatMap (·.uids)

theorem loads_perm (atoi : String → Int) (redis : Redis) {games : List GameConf}
    (distinct : (games.map (·.vid)).Nodup) (s : Fleet) :
    ((s.loadServerInfo atoi redis games).1.loads.map (·.2.2)).Perm
      (confUids atoi redis games) := by
  have vids : (games.map (loadServer atoi redis)).map (·.vid) = games.map (·.vid) := by
    rw [List.map_map]
    rfl
  obtain ⟨keys, -, values⟩ := addServers_keys (games.map (loadServer atoi redis))
    (by rw [vids]; exact distinct) (t := { s with gameSvrs := ∅ })
    (fun svr _ => AList.notMem_empty svr.vid)
  rw [vids] at keys
  have sorted : (s.loadServerInfo atoi redis games).1.gameSvrs.sortedKeys.Perm
      (games.map (·.vid)) := by
    refine (List.perm_insertionSort _ _).trans (keys.trans ?_)
    exact .of_eq (List.append_nil _)
  have uids : (s.loadServerInfo atoi redis games).1.loads.map (·.2.2) =
      (s.loadServerInfo atoi redis games).1.gameSvrs.sortedKeys.flatMap fun vid =>
        ((s.loadServerInfo atoi redis games).1.gameSvrs.get vid {}).indexs.flatMap (·.uids) := by
    simp [loads, List.map_flatMap, Function.comp_def]
  rw [uids]
  refine (sorted.flatMap_right _).trans (.of_eq ?_)
  rw [List.flatMap_map, confUids]
  refine List.flatMap_congr fun game member => ?_
  have svr := values (loadServer atoi redis game) (List.mem_map_of_mem member)
  exact congrArg (fun it : GameSvrInfo => it.indexs.flatMap (·.uids)) svr

theorem loadRobot_of_known {redis : Redis} (vid index : Int) {uid : Int} (known : redis.known uid = true)
    (s : Fleet) :
    (∀ other, other ∈ (s.loadRobot redis (vid, index, uid)).robots ↔
        other = uid ∨ other ∈ s.robots) ∧
      (∀ other, (s.loadRobot redis (vid, index, uid)).vidOf other =
        if other = uid then vid else s.vidOf other) ∧
      (s.loadRobot redis (vid, index, uid)).robotsLast = s.robotsLast ∧
      (s.loadRobot redis (vid, index, uid)).clients = s.clients ∧
      ∀ other, (s.loadRobot redis (vid, index, uid)).queue other =
        if other = vid ∧ uid ∉ s.robotsLast then s.queue vid ++ [uid] else s.queue other := by
  have vidOf : ∀ other, (Table.get (s.robots.insert uid
      ({ uid := uid, vid := vid, tid := 0, index := index } : UserInfo)) other {}).vid =
        if other = uid then vid else s.vidOf other := by
    intro other
    rw [Table.get_insert]
    split <;> rfl
  unfold loadRobot
  simp only [known, if_true]
  split
  · next old =>
    have member : uid ∈ s.robotsLast := AList.lookup_isSome.mp old
    refine ⟨fun other => AList.mem_insert _, vidOf, rfl, rfl, fun other => ?_⟩
    rw [if_neg fun both => both.2 member]
    rfl
  · next new =>
    have notMember : uid ∉ s.robotsLast := fun member => new (AList.lookup_isSome.mpr member)
    refine ⟨fun other => AList.mem_insert _, vidOf, rfl, rfl, fun other => ?_⟩
    rw [queue_setQueue]
    simp only [notMember, not_false_eq_true, and_true]
    rfl

/-- What loading the robots does: each is configured, and the new ones join the
queue of their server once for each time they are listed. -/
theorem loadRobots_spec {redis : Redis} {loads : List (Int × Int × Int)}
    (known : ∀ load ∈ loads, redis.known load.2.2 = true) (s : Fleet) (uid : Int) :
    (uid ∈ (loads.foldl (loadRobot redis) s).robots ↔
        uid ∈ loads.map (·.2.2) ∨ uid ∈ s.robots) ∧
      (∀ vid, uid ∈ loads.map (·.2.2) → (∀ load ∈ loads, load.2.2 = uid → load.1 = vid) →
        (loads.foldl (loadRobot redis) s).vidOf uid = vid) ∧
      (loads.foldl (loadRobot redis) s).robotsLast = s.robotsLast ∧
      (loads.foldl (loadRobot redis) s).clients = s.clients ∧
      ∀ vid, ((loads.foldl (loadRobot redis) s).queue vid).count uid =
        (s.queue vid).count uid + if uid ∈ s.robotsLast.keys then 0
          else loads.countP fun load => load.1 = vid ∧ load.2.2 = uid := by
  induction loads using List.reverseRecOn with
  | nil => simp
  | append_singleton loads load ih =>
      obtain ⟨robots, vidOf, last, clients, queues⟩ :=
        ih fun other member => known other (List.mem_append_left _ member)
      rw [List.foldl_append, List.foldl_cons, List.foldl_nil]
      generalize loads.foldl (loadRobot redis) s = t at robots vidOf last clients queues
      obtain ⟨vid, index, loaded⟩ := load
      obtain ⟨nowRobots, nowVidOf, nowLast, nowClients, nowQueues⟩ :=
        loadRobot_of_known vid index (known (vid, index, loaded) (by simp)) t
      refine ⟨?_, ?_, nowLast.trans last, nowClients.trans clients, ?_⟩
      · rw [nowRobots, robots]
        simp only [List.map_append, List.map_cons, List.map_nil, List.mem_append,
          List.mem_singleton]
        tauto
      · intro server member only
        rw [nowVidOf]
        split
        · next same => exact only (vid, index, loaded) (by simp) same.symm
        · next other =>
          refine vidOf server ?_ fun load inLoads => only load (List.mem_append_left _ inLoads)
          simpa [other] using member
      · intro server
        have before := queues server
        rw [nowQueues, last, List.countP_append, List.countP_singleton]
        by_cases same : loaded = uid
        · subst same
          by_cases old : loaded ∈ s.robotsLast
          · rw [if_neg fun both => both.2 old, before]
            simp only [show loaded ∈ s.robotsLast.keys from old, if_true]
          · have notKey : loaded ∉ s.robotsLast.keys := old
            rw [if_neg notKey] at before ⊢
            by_cases here : server = vid
            · subst here
              simp only [old, not_false_eq_true, and_self, if_true, decide_true, List.count_append,
                List.count_singleton_self]
              omega
            · simp only [here, Ne.symm here, false_and, if_false, decide_false,
                Bool.false_eq_true]
              omega
        · have elsewhere : (if server = vid ∧ loaded ∉ s.robotsLast then t.queue vid ++ [loaded]
              else t.queue server).count uid = (t.queue server).count uid := by
            split
            · next both =>
              rw [both.1, List.count_append, List.count_singleton, beq_false_of_ne same]
              rfl
            · rfl
          rw [elsewhere, before]
          simp only [same, and_false, decide_false, Bool.false_eq_true, if_false, Nat.add_zero]

theorem loadRobotInfo_queue (redis : Redis) (shuffle : Shuffle) (s : Fleet) (vid : Int) :
    let t := s.loads.foldl (loadRobot redis) { s with robots := ∅ }
    ((s.loadRobotInfo redis shuffle).queue vid).Perm
      ((t.queue vid).filter fun uid => (t.robots.lookup uid).isSome) := by
  intro t
  have shuffled : (s.loadRobotInfo redis shuffle).queue vid =
      shuffle.shuffle vid (t.dropUnknown.queue vid) := by
    have nothing : shuffle.shuffle vid [] = [] := (shuffle.perm vid []).eq_nil
    change GameSvrQueue.randomUids (Table.get (Table.mapVals _ _) vid {}) = _
    rw [Table.get_mapVals _ _ _ (by rw [nothing])]
    rfl
  have dropped : t.dropUnknown.queue vid =
      (t.queue vid).filter fun uid => (t.robots.lookup uid).isSome := by
    change GameSvrQueue.randomUids (Table.get (Table.mapVals _ _) vid {}) = _
    rw [Table.get_mapVals _ _ _ (by rfl)]
    rfl
  rw [shuffled, dropped]
  exact shuffle.perm vid _

/-- What `load_robot_info` makes of a fleet `s` whose servers are loaded. -/
structure Loaded (s after : Fleet) : Prop where
  robots : ∀ uid, uid ∈ after.robots ↔ uid ∈ s.loads.map (·.2.2)
  vidOf : ∀ uid server, uid ∈ after.robots →
    (∀ load ∈ s.loads, load.2.2 = uid → load.1 = server) → after.vidOf uid = server
  last : after.robotsLast = after.robots
  clients : after.clients = s.clients
  queues : ∀ uid ∈ after.robots, ∀ vid, (after.queue vid).count uid =
    (s.queue vid).count uid + if uid ∈ s.robotsLast.keys then 0
      else s.loads.countP fun load => load.1 = vid ∧ load.2.2 = uid
  queued : ∀ vid, ∀ uid ∈ after.queue vid, uid ∈ after.robots

theorem loadRobotInfo_loaded {redis : Redis} (shuffle : Shuffle) {s : Fleet}
    (known : ∀ load ∈ s.loads, redis.known load.2.2 = true) :
    s.Loaded (s.loadRobotInfo redis shuffle) := by
  have queue := loadRobotInfo_queue redis shuffle s
  have loaded := loadRobots_spec known { s with robots := ∅ }
  have robots : ∀ uid, uid ∈ (s.loadRobotInfo redis shuffle).robots ↔
      uid ∈ s.loads.map (·.2.2) := by
    intro uid
    refine (loaded uid).1.trans (or_iff_left ?_)
    exact AList.notMem_empty uid
  refine ⟨robots, ?_, rfl, (loaded 0).2.2.2.1, ?_, ?_⟩
  · intro uid server member only
    exact (loaded uid).2.1 server ((robots uid).mp member) only
  · intro uid member vid
    refine ((queue vid).count_eq uid).trans ?_
    refine (List.count_filter ?_).trans ((loaded uid).2.2.2.2 vid)
    exact AList.lookup_isSome.mpr member
  · intro vid uid member
    exact AList.lookup_isSome.mp (List.mem_filter.mp ((queue vid).mem_iff.mp member)).2

/-- The configurations considered: different vids, no robot on two servers, and
every read answered, for a robot with some data of it. An empty reply is an answer
too, but leaves the robot out. -/
structure Proper (atoi : String → Int) (redis : Redis) (games : List GameConf) : Prop where
  vids : (games.map (·.vid)).Nodup
  disjoint : games.Pairwise fun one other =>
    ∀ uid ∈ confUids atoi redis [one], uid ∉ confUids atoi redis [other]
  sets : ∀ game ∈ games, ∀ conf ∈ game.indexs, (redis.smembers conf.uidSetKey).isSome = true
  robots : ∀ uid ∈ confUids atoi redis games, redis.known uid = true

/-- A reload that loses and doubles no robot: each robot it lists was configured
before and runs, or is new, does not run and is listed once. -/
def Reloads (atoi : String → Int) (redis : Redis) (games : List GameConf) (s : Fleet) : Prop :=
  ∀ uid ∈ confUids atoi redis games,
    (uid ∈ s.robots → uid ∈ s.clients) ∧
      (uid ∉ s.robots → uid ∉ s.clients ∧ (confUids atoi redis games).count uid = 1)

theorem server_of_once {loads : List (Int × Int × Int)} {uid : Int}
    (once : (loads.map (·.2.2)).count uid = 1) :
    ∃ server, (∀ load ∈ loads, load.2.2 = uid → load.1 = server) ∧
      ∀ vid, (loads.countP fun load => load.1 = vid ∧ load.2.2 = uid) =
        if vid = server then 1 else 0 := by
  have length : (loads.filter fun load => load.2.2 = uid).length = 1 := by
    rw [← List.countP_eq_length_filter, ← once, List.count, List.countP_map]
    refine List.countP_congr fun load _ => ?_
    simp
  obtain ⟨only, isOnly⟩ := List.length_eq_one_iff.mp length
  refine ⟨only.1, ?_, ?_⟩
  · intro load member same
    have inFilter : load ∈ loads.filter fun load => load.2.2 = uid :=
      List.mem_filter.mpr ⟨member, by simpa using same⟩
    rw [isOnly] at inFilter
    rw [List.mem_singleton.mp inFilter]
  · intro vid
    have both := List.countP_filter (p := fun load : Int × Int × Int => decide (load.1 = vid))
      (q := fun load => decide (load.2.2 = uid)) (l := loads)
    rw [isOnly, List.countP_singleton] at both
    simp only [Bool.decide_and]
    rw [← both]
    simp [eq_comm]

instance (atoi : String → Int) (redis : Redis) (games : List GameConf) (s : Fleet) :
    Decidable (s.Reloads atoi redis games) :=
  inferInstanceAs (Decidable (∀ uid ∈ confUids atoi redis games, _ ∧ _))

/-- `load_robot_info` after servers have joined the fleet `s` with empty queues. -/
theorem Loaded.inv {atoi : String → Int} {redis : Redis} {games : List GameConf}
    {s t after : Fleet} (loaded : t.Loaded after) (inv : s.Inv)
    (last : t.robotsLast = s.robotsLast) (clients : t.clients = s.clients)
    (queues : ∀ vid uid, (t.queue vid).count uid ≤ (s.queue vid).count uid)
    (perm : (t.loads.map (·.2.2)).Perm (confUids atoi redis games))
    (reloads : s.Reloads atoi redis games) : after.Inv := by
  have isLast : ∀ uid, uid ∈ t.robotsLast.keys ↔ uid ∈ s.robots := by
    intro uid
    rw [last]
    exact inv.last uid
  refine ⟨?_, loaded.queued, fun uid => by rw [loaded.last]⟩
  intro uid member
  have listed := (loaded.robots uid).mp member
  obtain ⟨old, new⟩ := reloads uid (perm.mem_iff.mp listed)
  have now := loaded.queues uid member
  by_cases configured : uid ∈ s.robots
  · -- a robot that runs is not queued
    have live := List.count_pos_iff.mpr (old configured)
    rcases inv.placed uid configured with runs | waits
    · refine .inl ⟨?_, fun vid => ?_⟩
      · rw [loaded.clients, clients]
        exact runs.1
      · have few := queues vid uid
        have none := runs.2 vid
        rw [now, if_pos ((isLast uid).mpr configured)]
        omega
    · have none := waits.1
      omega
  · -- a new robot joins the queue of its only server
    obtain ⟨idle, once⟩ := new configured
    rw [← perm.count_eq] at once
    obtain ⟨server, only, pushes⟩ := server_of_once once
    refine .inr ⟨?_, fun vid => ?_⟩
    · rw [loaded.clients, clients]
      exact List.count_eq_zero.mpr idle
    · have few := queues vid uid
      have absent : (s.queue vid).count uid = 0 :=
        List.count_eq_zero.mpr (mt (inv.queued vid uid) configured)
      rw [now, if_neg (mt (isLast uid).mp configured), pushes vid,
        loaded.vidOf uid server member only]
      omega

theorem parseCfg_inv {atoi : String → Int} {redis : Redis} {games : List GameConf}
    {shuffle : Shuffle} {s : Fleet} (inv : s.Inv) (proper : Proper atoi redis games)
    (reloads : s.Reloads atoi redis games) :
    (s.parseCfg atoi redis (some games) shuffle).1.Inv := by
  obtain ⟨robots, last, clients, queues⟩ :=
    addServers_spec (games.map (loadServer atoi redis)) (s := s) (t := { s with gameSvrs := ∅ })
      rfl rfl rfl (fun vid => rfl)
  have perm := loads_perm atoi redis proper.vids s
  unfold parseCfg
  dsimp only
  split
  · refine Loaded.inv (loadRobotInfo_loaded shuffle ?_) inv last clients ?_ perm reloads
    · intro load member
      exact proper.robots _ (perm.mem_iff.mp (List.mem_map_of_mem member))
    · intro vid uid
      refine le_of_eq_of_le (congrArg (List.count uid) (queues vid)) ?_
      split
      · exact Nat.zero_le _
      · exact le_rfl
  · -- no server at all: the reload fails
    next failed =>
    refine inv.reorder robots last clients fun vid => .of_eq ((queues vid).trans (if_neg ?_))
    have none : (s.loadServerInfo atoi redis games).1.gameSvrs.keys = [] := by
      simpa [loadServerInfo] using failed
    exact fun member => absurd (none ▸ member) List.not_mem_nil

end Fleet

/-! ## Whole runs -/

/-- The configurations that the reloads of a run read. -/
def FleetOp.Reads (atoi : String → Int) : FleetOp → Prop
  | .parseCfg redis (some games) _ => Fleet.Proper atoi redis games
  | _ => True

/-- The reloads of a run lose and double no robot. -/
def FleetOp.Keeps (atoi : String → Int) (s : Fleet) : FleetOp → Prop
  | .parseCfg redis (some games) _ => s.Reloads atoi redis games
  | _ => True

theorem Fleet.Inv.apply {atoi : String → Int} {s : Fleet} (inv : s.Inv) {op : FleetOp}
    (reads : op.Reads atoi) (keeps : op.Keeps atoi s) : (op.apply atoi s).Inv := by
  cases op with
  | parseCfg redis games shuffle =>
      cases games with
      | none => exact inv
      | some games => exact Fleet.parseCfg_inv inv reads keeps
  | addUser hget => exact Fleet.addUser_inv atoi hget inv
  | close i =>
      simp only [FleetOp.apply]
      split
      · exact inv
      · next uid runs => exact Fleet.deleteClient_inv inv runs

theorem Fleet.Inv.empty : Fleet.Inv {} :=
  ⟨fun _ member => absurd member (AList.notMem_empty _),
    fun _ _ member => absurd member List.not_mem_nil, fun _ => Iff.rfl⟩

/-- In every run whose reloads lose and double no robot, every configured robot is
one client or waits once in the queue of its server. -/
theorem fleet_placed (atoi : String → Int) {ops : List FleetOp} {s : Fleet}
    (run : ((fleetSystem atoi).restrict fun before op =>
      op.Reads atoi ∧ op.Keeps atoi before).Run ops s) : s.Placed := by
  have inv : s.Inv := by
    refine run.invariant Fleet.Inv ?_ ?_
    · rintro _ rfl
      exact Fleet.Inv.empty
    · rintro before op _ inv ⟨⟨reads, keeps⟩, rfl⟩
      exact inv.apply reads keeps
  exact inv.placed

/-! ## One server with one robot -/

def oneGame : List GameConf :=
  [{ vid := 2001, host := "127.0.0.1", port := 20018, enterMoney := 1000,
     indexs := [{ index := 1, uidSetKey := "robot:2001" }] }]

def oneRobot : Redis where
  smembers _ := some ["1"]
  hgetall _ := some [("money", "5000")]

def unshuffled : Shuffle where
  shuffle _ uids := uids
  perm _ uids := .refl uids

def atoiSample (text : String) : Int := if text = "1" then 1 else 5000

theorem oneGame_proper : Fleet.Proper atoiSample oneRobot oneGame :=
  ⟨by decide, List.pairwise_singleton _ _, fun _ _ _ _ => rfl, fun _ _ => rfl⟩

def readOneGame : FleetOp := .parseCfg oneRobot (some oneGame) unshuffled

theorem empty_start (allowed : Fleet → FleetOp → Prop) :
    ((fleetSystem atoiSample).restrict allowed).Run [] {} :=
  .start rfl

/-- The robot waits, runs, and still runs after a reload. -/
theorem fleet_placed_oneGame :
    Fleet.Placed (readOneGame.apply atoiSample
      ((FleetOp.addUser fun _ => some "5000").apply atoiSample
        (readOneGame.apply atoiSample {}))) := by
  have start := empty_start fun before op => op.Reads atoiSample ∧ op.Keeps atoiSample before
  have new : Fleet.Reloads atoiSample oneRobot oneGame {} := by decide
  have loaded := start.restricted readOneGame ⟨oneGame_proper, new⟩ rfl
  have started := loaded.restricted (.addUser fun _ => some "5000") ⟨trivial, trivial⟩ rfl
  have running : Fleet.Reloads atoiSample oneRobot oneGame
      ((FleetOp.addUser fun _ => some "5000").apply atoiSample
        (readOneGame.apply atoiSample {})) := by
    decide
  exact fleet_placed atoiSample (started.restricted readOneGame ⟨oneGame_proper, running⟩ rfl)

/-- A reload while the robot waits loses it. -/
theorem not_fleet_placed :
    ¬ ∀ (atoi : String → Int) (ops : List FleetOp) (s : Fleet),
      ((fleetSystem atoi).restrict fun _ op => op.Reads atoi).Run ops s → s.Placed := by
  intro always
  have start := empty_start fun _ op => op.Reads atoiSample
  have loaded := start.restricted readOneGame oneGame_proper rfl
  have placed := always _ _ _ (loaded.restricted readOneGame oneGame_proper rfl)
  rcases placed 1 (by decide) with runs | waits
  · exact absurd runs.1 (by decide)
  · exact absurd (waits.2 2001) (by decide)

end CLibs.Robot
