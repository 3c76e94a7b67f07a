import CLibs.Robot.Placement

/-!
# Robots that were removed

A reload can take a robot out of the configuration while its client runs. The client
goes on naming its uid to `g_args.robots`, through an `operator[]` that puts missing
keys in.
-/

set_option autoImplicit false
set_option linter.style.nameCheck false

namespace CLibs.Robot

open General

/-- The uids that a configuration loads: listed for one of its servers, and known to Redis. -/
def loadedUids (atoi : String → Int) (redis : Redis) (games : List GameConf) : List Int :=
  ((({} : Fleet).loadServerInfo atoi redis games).1.loads.map (·.2.2)).filter redis.known

/-- The fleet, the uids of the last successful `parse_cfg`, and the vids that any
configuration mentioned. -/
structure Configured where
  fleet : Fleet := {}
  uids : List Int := []
  vids : List Int := []

inductive RobotOp where
  | parseCfg (redis : Redis) (games : Option (List GameConf)) (shuffle : Shuffle)
  /-- The turn of the add-user timer for a queue, which makes a client for the robot that it
  picks. -/
  | newClient (hget : Int → Option String) (vid : Int)
  /-- The connection of the client at position `i` closes. -/
  | close (i : Nat)
  /-- The login timer of the client at position `i`. -/
  | login (i : Nat) (connected : Bool)
  | disConnectLater (i : Nat)

namespace Configured

/-- The configuration in use after `parse_cfg`. -/
def parseCfg (atoi : String → Int) (s : Configured) (redis : Redis) (games : List GameConf)
    (shuffle : Shuffle) : Configured :=
  let parsed := s.fleet.parseCfg atoi redis (some games) shuffle
  { fleet := parsed.1
    uids := if parsed.2 = 0 then loadedUids atoi redis games else s.uids
    vids := s.vids ++ games.map (·.vid) }

end Configured

namespace RobotOp

def apply (atoi : String → Int) (s : Configured) : RobotOp → Configured
  | parseCfg _ none _ => s
  | parseCfg redis (some games) shuffle => s.parseCfg atoi redis games shuffle
  | newClient hget vid => { s with fleet := s.fleet.addUserTo atoi hget vid }
  | close i =>
      match s.fleet.clients[i]? with
      | none => s
      | some uid => { s with fleet := s.fleet.deleteClient i uid }
  | login i connected =>
      match s.fleet.clients[i]? with
      | none => s
      | some uid => { s with fleet := s.fleet.__doLogin uid connected }
  | disConnectLater i =>
      match s.fleet.clients[i]? with
      | none => s
      | some uid => { s with fleet := s.fleet.__disConnectLater uid }

end RobotOp

def robotSystem (atoi : String → Int) : System Configured RobotOp where
  start s := s = {}
  step s op after := after = op.apply atoi s

namespace Fleet

/-! ## What a reload loads -/

theorem addServers_gameSvrs (svrs : List GameSvrInfo) {s t : Fleet}
    (same : s.gameSvrs = t.gameSvrs) :
    (svrs.foldl addServer s).gameSvrs = (svrs.foldl addServer t).gameSvrs := by
  induction svrs generalizing s t with
  | nil => exact same
  | cons svr rest ih =>
      refine ih ?_
      unfold addServer
      rw [same]
      split
      · exact same
      · rfl

/-- The servers of a configuration do not depend on what was configured before. -/
theorem loads_loadServerInfo (atoi : String → Int) (redis : Redis) (games : List GameConf)
    (s : Fleet) :
    (s.loadServerInfo atoi redis games).1.loads =
      (({} : Fleet).loadServerInfo atoi redis games).1.loads := by
  have same : (s.loadServerInfo atoi redis games).1.gameSvrs =
      (({} : Fleet).loadServerInfo atoi redis games).1.gameSvrs :=
    addServers_gameSvrs _ rfl
  unfold loads
  rw [same]

theorem mem_robots_loadRobot (redis : Redis) (s : Fleet) (load : Int × Int × Int) (uid : Int) :
    uid ∈ (s.loadRobot redis load).robots ↔
      (uid = load.2.2 ∧ redis.known load.2.2 = true) ∨ uid ∈ s.robots := by
  unfold loadRobot
  dsimp only
  split
  · next known =>
    have joined : ∀ info : UserInfo, uid ∈ s.robots.insert load.2.2 info ↔
        (uid = load.2.2 ∧ redis.known load.2.2 = true) ∨ uid ∈ s.robots := by
      intro info
      simp [AList.mem_insert, known]
    split
    · exact joined _
    · exact joined _
  · next unknown => simp [unknown]

theorem mem_robots_loadRobots (redis : Redis) (loads : List (Int × Int × Int)) (s : Fleet)
    (uid : Int) :
    uid ∈ (loads.foldl (loadRobot redis) s).robots ↔
      uid ∈ (loads.map (·.2.2)).filter redis.known ∨ uid ∈ s.robots := by
  induction loads generalizing s with
  | nil => simp
  | cons load rest ih =>
      rw [List.foldl_cons, ih, mem_robots_loadRobot, List.map_cons]
      by_cases known : redis.known load.2.2 = true
      · rw [List.filter_cons_of_pos known, List.mem_cons]
        simp only [known, and_true]
        tauto
      · rw [List.filter_cons_of_neg known]
        simp only [known, and_false, Bool.false_eq_true, false_or]

/-! ## What each step keeps -/

theorem addServers_undefined (svrs : List GameSvrInfo) (s : Fleet) :
    (svrs.foldl addServer s).undefined = s.undefined := by
  induction svrs generalizing s with
  | nil => rfl
  | cons svr rest ih =>
      rw [List.foldl_cons, ih]
      unfold addServer
      split <;> rfl

theorem loadRobots_undefined (redis : Redis) (loads : List (Int × Int × Int)) (s : Fleet) :
    (loads.foldl (loadRobot redis) s).undefined = s.undefined := by
  induction loads generalizing s with
  | nil => rfl
  | cons load rest ih =>
      rw [List.foldl_cons, ih]
      unfold loadRobot
      dsimp only
      split
      · split <;> rfl
      · rfl

/-- Only configured robots wait. -/
def Queued (s : Fleet) : Prop := ∀ vid, ∀ uid ∈ s.queue vid, uid ∈ s.robots

theorem Queued.addServers {s : Fleet} (queued : s.Queued) (svrs : List GameSvrInfo) :
    (svrs.foldl addServer { s with gameSvrs := ∅ }).robots = s.robots ∧
      (svrs.foldl addServer { s with gameSvrs := ∅ }).Queued := by
  obtain ⟨robots, -, -, queues⟩ :=
    addServers_spec svrs (s := s) (t := { s with gameSvrs := ∅ }) rfl rfl rfl fun _ => rfl
  refine ⟨robots, ?_⟩
  intro vid uid member
  rw [queues] at member
  rw [robots]
  split at member
  · exact absurd member List.not_mem_nil
  · exact queued vid uid member

theorem loadRobotInfo_queued (redis : Redis) (shuffle : Shuffle) (s : Fleet) :
    (s.loadRobotInfo redis shuffle).Queued := by
  intro vid uid member
  have kept := (loadRobotInfo_queue redis shuffle s vid).mem_iff.mp member
  exact AList.lookup_isSome.mp (List.mem_filter.mp kept).2

theorem Queued.newClient {s : Fleet} (queued : s.Queued) {uid : Int} (known : uid ∈ s.robots) :
    (s.newClient uid).robots = s.robots ∧ (s.newClient uid).Queued ∧
      (s.newClient uid).undefined = (s.undefined || (s.queue (s.vidOf uid)).isEmpty) := by
  unfold Fleet.newClient
  dsimp only
  rw [Table.touch_of_mem known]
  refine ⟨rfl, ?_, rfl⟩
  intro vid other member
  change other ∈ (s.setQueue (s.vidOf uid) (s.queue (s.vidOf uid)).tail).queue vid at member
  rw [queue_setQueue] at member
  split at member
  · exact queued _ other (List.mem_of_mem_tail member)
  · exact queued vid other member

/-- `pickOneRichRobot` takes no robot out of a queue. -/
theorem pickOneRichRobot_undefined (atoi : String → Int) (hget : Int → Option String) (s : Fleet)
    (vid : Int) : (s.pickOneRichRobot atoi hget vid).1.undefined = s.undefined := by
  have loop : ∀ (uids : List Int) (t : Fleet),
      (t.pickLoop atoi hget uids).1.undefined = t.undefined := by
    intro uids
    induction uids with
    | nil => exact fun _ => rfl
    | cons uid rest ih =>
        intro t
        obtain ⟨after, touches, turn⟩ := pickLoop_cons atoi hget t uid rest
        have same : after.undefined = t.undefined := by
          rcases touches with rfl | rfl
          · rfl
          · rfl
        rw [turn]
        split
        · exact same
        · exact (ih after).trans same
  unfold pickOneRichRobot
  split
  · rfl
  · dsimp only
    split
    · rfl
    · exact loop _ _

/-- A turn of the add-user timer. What it erases is in the queue of the server where the
robot that it picks is configured. -/
theorem Queued.addUserTo {s : Fleet} (queued : s.Queued) (atoi : String → Int)
    (hget : Int → Option String) (vid : Int) :
    (s.addUserTo atoi hget vid).robots = s.robots ∧ (s.addUserTo atoi hget vid).Queued ∧
      ((s.addUserTo atoi hget vid).undefined = true ↔ s.undefined = true ∨
        0 < (s.pickOneRichRobot atoi hget vid).2 ∧
          s.queue (s.vidOf (s.pickOneRichRobot atoi hget vid).2) = []) := by
  obtain ⟨⟨robots, -, -, queues⟩, first⟩ := pickOneRichRobot_reorders atoi hget (queued vid)
  have undefined := s.pickOneRichRobot_undefined atoi hget vid
  have pickedQueued : (s.pickOneRichRobot atoi hget vid).1.Queued := by
    intro other uid member
    rw [robots]
    exact queued other uid ((queues other).mem_iff.mp member)
  have vidOf_eq : ∀ uid, (s.pickOneRichRobot atoi hget vid).1.vidOf uid = s.vidOf uid := by
    intro uid
    rw [vidOf, robots, vidOf]
  unfold Fleet.addUserTo
  dsimp only
  split
  · next positive =>
    obtain ⟨rest, front⟩ := first positive
    have known := pickedQueued vid _ (front ▸ List.mem_cons_self)
    obtain ⟨sameRobots, stillQueued, erased⟩ := pickedQueued.newClient known
    refine ⟨sameRobots.trans robots, stillQueued, ?_⟩
    rw [erased, undefined, vidOf_eq, Bool.or_eq_true, List.isEmpty_iff]
    have empty := (queues (s.vidOf (s.pickOneRichRobot atoi hget vid).2)).length_eq
    rw [← List.length_eq_zero_iff, ← List.length_eq_zero_iff, empty]
    simp only [positive, true_and]
  · next none =>
    refine ⟨robots, pickedQueued, ?_⟩
    rw [undefined]
    simp only [none, false_and, or_false]

theorem Queued.deleteClient {s : Fleet} (queued : s.Queued) (i : Nat) (uid : Int) :
    (s.deleteClient i uid).robots = s.robots ∧ (s.deleteClient i uid).Queued := by
  unfold Fleet.deleteClient
  dsimp only
  split
  · next isSome =>
    refine ⟨rfl, ?_⟩
    intro vid other member
    change other ∈ (s.setQueue (s.vidOf uid) (s.queue (s.vidOf uid) ++ [uid])).queue vid at member
    rw [queue_setQueue] at member
    split at member
    · rcases List.mem_append.mp member with old | new
      · exact queued _ other old
      · rw [List.mem_singleton.mp new]
        exact AList.lookup_isSome.mp isSome
    · exact queued vid other member
  · exact ⟨rfl, queued⟩

theorem deleteClient_undefined (s : Fleet) (i : Nat) (uid : Int) :
    (s.deleteClient i uid).undefined = s.undefined := by
  unfold Fleet.deleteClient
  dsimp only
  split <;> rfl

theorem doLogin_undefined (s : Fleet) (uid : Int) (connected : Bool) :
    (s.__doLogin uid connected).undefined = s.undefined := by
  cases connected <;> rfl

theorem deleteClient_of_unknown {s : Fleet} (i : Nat) {uid : Int} (unknown : uid ∉ s.robots) :
    s.deleteClient i uid = { s with clients := s.clients.eraseIdx i } :=
  if_neg fun isSome => unknown (AList.lookup_isSome.mp isSome)

theorem Queued.disConnectLater {s : Fleet} (queued : s.Queued) {uid : Int}
    (known : uid ∈ s.robots) :
    (s.__disConnectLater uid).robots = s.robots ∧ (s.__disConnectLater uid).Queued := by
  unfold __disConnectLater
  rw [Table.touch_of_mem known]
  refine ⟨rfl, ?_⟩
  intro vid other member
  have same : queue { s with queues := s.queues.touch (s.vidOf uid) {} } vid = s.queue vid :=
    congrArg GameSvrQueue.randomUids (Table.get_touch _ _ _ _)
  exact queued vid other (same ▸ member)

theorem Queued.doLogin {s : Fleet} (queued : s.Queued) {uid : Int} (known : uid ∈ s.robots)
    (connected : Bool) :
    (s.__doLogin uid connected).robots = s.robots ∧ (s.__doLogin uid connected).Queued := by
  cases connected with
  | true =>
      rw [__doLogin, if_pos rfl, Table.touch_of_mem known]
      exact ⟨rfl, queued⟩
  | false => exact queued.disConnectLater known

theorem mem_robots_disConnectLater (s : Fleet) (uid : Int) :
    uid ∈ (s.__disConnectLater uid).robots := Table.mem_touch_self _ _ _

theorem mem_robots_doLogin (s : Fleet) (uid : Int) (connected : Bool) :
    uid ∈ (s.__doLogin uid connected).robots := by
  cases connected with
  | true => exact Table.mem_touch_self _ _ _
  | false => exact mem_robots_disConnectLater s uid

end Fleet

/-! ## The configured robots -/

namespace Configured

/-- The keys of `g_args.robots` are the uids of the last successful `parse_cfg`. -/
def InUse (s : Configured) : Prop := ∀ uid, uid ∈ s.fleet.robots ↔ uid ∈ s.uids

structure Inv (s : Configured) : Prop where
  inUse : s.InUse
  queued : s.fleet.Queued
  defined : s.fleet.undefined = false

theorem Inv.parseCfg {s : Configured} (inv : s.Inv) (atoi : String → Int) (redis : Redis)
    (games : List GameConf) (shuffle : Shuffle) :
    (s.parseCfg atoi redis games shuffle).Inv := by
  obtain ⟨robots, queued⟩ := inv.queued.addServers (games.map (loadServer atoi redis))
  have joined : (s.fleet.loadServerInfo atoi redis games).1.undefined = false :=
    (Fleet.addServers_undefined _ _).trans inv.defined
  simp only [Configured.parseCfg, Fleet.parseCfg]
  split
  · refine ⟨?_, Fleet.loadRobotInfo_queued redis shuffle _, ?_⟩
    · intro uid
      have loaded := Fleet.mem_robots_loadRobots redis
        (s.fleet.loadServerInfo atoi redis games).1.loads
        { (s.fleet.loadServerInfo atoi redis games).1 with robots := ∅ } uid
      rw [Fleet.loads_loadServerInfo] at loaded
      refine Iff.trans ?_ (loaded.trans (or_iff_left (AList.notMem_empty uid)))
      rw [← Fleet.loads_loadServerInfo atoi redis games s.fleet]
      rfl
    · exact (Fleet.loadRobots_undefined redis _ _).trans joined
  · -- no server at all: the old configuration stays
    refine ⟨?_, queued, joined⟩
    intro uid
    have stays : uid ∈ (s.fleet.loadServerInfo atoi redis games).1.robots ↔ uid ∈ s.uids := by
      rw [← inv.inUse uid]
      exact Eq.to_iff (congrArg (uid ∈ ·) robots)
    exact stays

end Configured

namespace RobotOp

/-- A login timer and a request to disconnect come from a client whose uid is in
`g_args.robots`. A client is made for a robot whose server has a robot in its queue. -/
def Known (atoi : String → Int) (s : Fleet) : RobotOp → Prop
  | newClient hget vid => 0 < (s.pickOneRichRobot atoi hget vid).2 →
      s.queue (s.vidOf (s.pickOneRichRobot atoi hget vid).2) ≠ []
  | login i _ => ∀ uid, s.clients[i]? = some uid → uid ∈ s.robots
  | disConnectLater i => ∀ uid, s.clients[i]? = some uid → uid ∈ s.robots
  | _ => True

/-- After the step, in which nothing undefined has happened, `g_args.robots` is what was
configured last; and a client that is not configured any more, when it goes, is put in no
queue and makes no queue that no configuration mentioned. -/
def KeepsRemoved (s : Configured) (op : RobotOp) (after : Configured) : Prop :=
  after.fleet.undefined = false ∧ after.InUse ∧
    ∀ i uid, op = .close i → s.fleet.clients[i]? = some uid → uid ∉ s.uids →
      (∀ vid, after.fleet.queue vid = s.fleet.queue vid) ∧
        ∀ vid ∈ after.fleet.queues, vid ∈ s.fleet.queues ∨ vid ∈ s.vids

theorem inv_of_known {s : Configured} (inv : s.Inv) {atoi : String → Int} {op : RobotOp}
    (known : op.Known atoi s.fleet) : (op.apply atoi s).Inv := by
  have keep : ∀ {after : Fleet}, after.robots = s.fleet.robots ∧ after.Queued →
      after.undefined = s.fleet.undefined → Configured.Inv { s with fleet := after } := by
    rintro after ⟨robots, queued⟩ undefined
    refine ⟨?_, queued, undefined.trans inv.defined⟩
    intro uid
    rw [← inv.inUse uid]
    exact Eq.to_iff (congrArg (uid ∈ ·) robots)
  cases op with
  | parseCfg redis games shuffle =>
      cases games with
      | none => exact inv
      | some games => exact inv.parseCfg atoi redis games shuffle
  | newClient hget vid =>
      obtain ⟨robots, queued, undefined⟩ := inv.queued.addUserTo atoi hget vid
      refine keep ⟨robots, queued⟩ ?_
      rw [inv.defined, Bool.eq_false_iff, ne_eq, undefined, inv.defined]
      rintro (⟨⟨⟩⟩ | ⟨positive, empty⟩)
      exact known positive empty
  | close i =>
      simp only [apply]
      split
      · exact inv
      · exact keep (inv.queued.deleteClient i _) (Fleet.deleteClient_undefined _ i _)
  | login i connected =>
      simp only [apply]
      split
      · exact inv
      · next uid runs =>
        exact keep (inv.queued.doLogin (known uid runs) connected)
          (Fleet.doLogin_undefined _ uid connected)
  | disConnectLater i =>
      simp only [apply]
      split
      · exact inv
      · next uid runs => exact keep (inv.queued.disConnectLater (known uid runs)) rfl

theorem known_of_keeps {s after : Configured} (inv : s.Inv) {atoi : String → Int} {op : RobotOp}
    (keeps : op.KeepsRemoved s after) (applied : after = op.apply atoi s) :
    op.Known atoi s.fleet := by
  obtain ⟨defined, inUse, -⟩ := keeps
  cases op with
  | parseCfg redis games shuffle => trivial
  | newClient hget vid =>
      intro positive empty
      obtain ⟨-, -, undefined⟩ := inv.queued.addUserTo atoi hget vid
      have erased := undefined.mpr (.inr ⟨positive, empty⟩)
      rw [applied] at defined
      exact absurd (erased.symm.trans defined) (by decide)
  | close i => trivial
  | login i connected =>
      intro uid runs
      simp only [applied, apply, runs] at inUse
      exact (inv.inUse uid).mpr ((inUse uid).mp (Fleet.mem_robots_doLogin _ uid connected))
  | disConnectLater i =>
      intro uid runs
      simp only [applied, apply, runs] at inUse
      exact (inv.inUse uid).mpr ((inUse uid).mp (Fleet.mem_robots_disConnectLater _ uid))

end RobotOp

/-- Removed robots stay removed throughout a run exactly if every login timer and every
request to disconnect comes from a client that is still configured, and no client is made for
a robot whose server has an empty queue. -/
theorem removed_stay_iff (atoi : String → Int) (ops : List RobotOp) (s : Configured) :
    ((robotSystem atoi).filter fun before op after => op.KeepsRemoved before after).Run ops s ↔
      ((robotSystem atoi).restrict fun before op => op.Known atoi before.fleet).Run ops s := by
  apply System.Run.filter_iff_restrict Configured.Inv
  · rintro _ rfl
    refine ⟨fun uid => iff_of_false (AList.notMem_empty uid) List.not_mem_nil, ?_, rfl⟩
    exact fun _ _ member => absurd member List.not_mem_nil
  · rintro before op _ inv known rfl
    have after := RobotOp.inv_of_known inv known
    refine ⟨after, after.defined, after.inUse, ?_⟩
    rintro i uid rfl runs removed
    have unknown : uid ∉ before.fleet.robots := fun member => removed ((inv.inUse uid).mp member)
    simp only [RobotOp.apply, runs, Fleet.deleteClient_of_unknown i unknown]
    exact ⟨fun _ => rfl, fun _ member => .inl member⟩
  · rintro before op _ inv keeps applied
    exact RobotOp.known_of_keeps inv keeps applied

/-- A configuration with another robot. -/
def otherRobot : Redis where
  smembers _ := some ["2"]
  hgetall _ := some [("money", "5000")]

/-- A reload removes a robot whose client runs; the client asks to be disconnected. -/
theorem not_removed_stay :
    ¬ ∀ (atoi : String → Int) (ops : List RobotOp) (s : Configured),
      (robotSystem atoi).Run ops s → s.InUse := by
  intro always
  have start : (robotSystem atoiSample).Run [] {} := .start rfl
  have loaded : (robotSystem atoiSample).Run
      ([] ++ [.parseCfg oneRobot (some oneGame) unshuffled]) _ := .step start rfl
  have started : (robotSystem atoiSample).Run
      (([] ++ [.parseCfg oneRobot (some oneGame) unshuffled]) ++
        [.newClient (fun _ => some "5000") 2001]) _ :=
    .step loaded rfl
  have reloaded : (robotSystem atoiSample).Run
      ((([] ++ [.parseCfg oneRobot (some oneGame) unshuffled]) ++
        [.newClient (fun _ => some "5000") 2001]) ++
        [.parseCfg otherRobot (some oneGame) unshuffled]) _ :=
    .step started rfl
  have asked : (robotSystem atoiSample).Run
      (((([] ++ [.parseCfg oneRobot (some oneGame) unshuffled]) ++
        [.newClient (fun _ => some "5000") 2001]) ++
        [.parseCfg otherRobot (some oneGame) unshuffled]) ++ [.disConnectLater 0]) _ :=
    .step reloaded rfl
  exact absurd ((always _ _ _ asked 1).mp (by decide)) (by decide)

end CLibs.Robot
