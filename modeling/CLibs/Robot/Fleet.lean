import CLibs.General.Runs
import CLibs.General.Table

/-!
# The robot fleet

The part of `g_args` that says where each robot is, and the code that edits it:
`parse_cfg` of `Config.cpp`, `pickOneRichRobot` and the add-user timer, and the
constructor and the destructor of `Client`. The replies of Redis and the results
of `atoi` and `random_shuffle` are parameters.
-/

set_option autoImplicit false
set_option linter.style.nameCheck false

namespace CLibs.Robot

open General

structure UserInfo where
  uid : Int := 0
  vid : Int := 0
  tid : Int := 0
  index : Int := 0

structure UidIndex where
  index : Int
  uids : List Int

structure GameSvrInfo where
  vid : Int := 0
  host : String := ""
  port : Int := 0
  enterMoney : Int := 0
  indexs : List UidIndex := []

structure GameSvrQueue where
  vid : Int := 0
  randomUids : List Int := []

/-- `g_args`. Each live `Client` object is listed with its uid. `undefined` tells that the
program has erased the first element of an empty queue, after which it may do anything. -/
structure Fleet where
  gameSvrs : Table Int GameSvrInfo := ∅
  robotsLast : Table Int UserInfo := ∅
  robots : Table Int UserInfo := ∅
  queues : Table Int GameSvrQueue := ∅
  clients : List Int := []
  undefined : Bool := false

/-! ## The configuration file -/

structure IndexConf where
  index : Int
  uidSetKey : String

structure GameConf where
  vid : Int
  host : String
  port : Int
  enterMoney : Int
  indexs : List IndexConf

/-- What Redis answers; `none` is a failed read or a reply of the wrong type. -/
structure Redis where
  smembers : String → Option (List String)
  hgetall : Int → Option (List (String × String))

/-- The data of a robot can be read. -/
def Redis.known (redis : Redis) (uid : Int) : Bool :=
  match redis.hgetall uid with
  | none => false
  | some reply => !reply.isEmpty

/-- `random_shuffle` of each queue: some reordering. -/
structure Shuffle where
  shuffle : Int → List Int → List Int
  perm : ∀ vid uids, (shuffle vid uids).Perm uids

section Config

variable (atoi : String → Int) (redis : Redis)

/-- A `std::set` of the uids in a reply, in its order. -/
def uidSet (reply : List String) : List Int := (reply.map atoi).dedup.insertionSort (· ≤ ·)

def loadIndex (conf : IndexConf) : Option UidIndex :=
  (redis.smembers conf.uidSetKey).map fun reply =>
    { index := conf.index, uids := uidSet atoi reply }

def loadServer (conf : GameConf) : GameSvrInfo where
  vid := conf.vid
  host := conf.host
  port := conf.port
  enterMoney := conf.enterMoney
  -- an index whose set cannot be read is skipped
  indexs := conf.indexs.filterMap (loadIndex atoi redis)

namespace Fleet

/-- A server with a new vid joins, with an empty queue. -/
def addServer (s : Fleet) (svr : GameSvrInfo) : Fleet :=
  if (s.gameSvrs.lookup svr.vid).isSome then s
  else
    { s with
      gameSvrs := s.gameSvrs.insert svr.vid svr
      queues := s.queues.insert svr.vid { vid := svr.vid } }

def loadServerInfo (s : Fleet) (games : List GameConf) : Fleet × Bool :=
  let s := (games.map (loadServer atoi redis)).foldl addServer { s with gameSvrs := ∅ }
  (s, !s.gameSvrs.keys.isEmpty)

def queue (s : Fleet) (vid : Int) : List Int := (s.queues.get vid {}).randomUids

def setQueue (s : Fleet) (vid : Int) (uids : List Int) : Fleet :=
  { s with queues := s.queues.insert vid { s.queues.get vid {} with randomUids := uids } }

/-- The vid, the index and the uid of every robot of the servers, in the order in
which `load_robot_info` reads them. -/
def loads (s : Fleet) : List (Int × Int × Int) :=
  s.gameSvrs.sortedKeys.flatMap fun vid =>
    (s.gameSvrs.get vid {}).indexs.flatMap fun idx =>
      idx.uids.map fun uid => (vid, idx.index, uid)

def loadRobot (s : Fleet) (load : Int × Int × Int) : Fleet :=
  let (vid, index, uid) := load
  if redis.known uid then
    let s := { s with
      robots := s.robots.insert uid { uid := uid, vid := vid, tid := 0, index := index } }
    -- a new robot joins the queue
    if (s.robotsLast.lookup uid).isSome then s else s.setQueue vid (s.queue vid ++ [uid])
  else s

/-- Robots that are not configured any more leave their queue. -/
def dropUnknown (s : Fleet) : Fleet :=
  { s with
    queues := s.queues.mapVals fun _ queue =>
      { queue with
        randomUids := queue.randomUids.filter fun uid => (s.robots.lookup uid).isSome } }

def loadRobotInfo (s : Fleet) (shuffle : Shuffle) : Fleet :=
  let s := (s.loads.foldl (loadRobot redis) { s with robots := ∅ }).dropUnknown
  { s with
    robotsLast := s.robots
    queues := s.queues.mapVals fun vid queue =>
      { queue with randomUids := shuffle.shuffle vid queue.randomUids } }

/-- `parse_cfg`; `none` is a file that cannot be read or parsed. -/
def parseCfg (s : Fleet) (games : Option (List GameConf)) (shuffle : Shuffle) : Fleet × Int :=
  match games with
  | none => (s, -1)
  | some games =>
      let loaded := s.loadServerInfo atoi redis games
      if loaded.2 then (loaded.1.loadRobotInfo redis shuffle, 0) else (loaded.1, -1)

end Fleet

end Config

/-! ## Starting and stopping robots -/

namespace Fleet

def vidOf (s : Fleet) (uid : Int) : Int := (s.robots.get uid {}).vid

/-- The loop of `pickOneRichRobot` over the queue: the robots that are not rich
and what is left from the first rich one on. `hget` is the reply to the question
for the money of a robot. -/
def pickLoop (atoi : String → Int) (hget : Int → Option String) (s : Fleet) :
    List Int → Fleet × List Int × List Int
  | [] => (s, [], [])
  | uid :: rest =>
      match hget uid with
      | none =>
          let left := pickLoop atoi hget s rest
          (left.1, uid :: left.2.1, left.2.2)
      | some money =>
          let s := { s with robots := s.robots.touch uid {} }
          let s := { s with gameSvrs := s.gameSvrs.touch (s.vidOf uid) {} }
          if (s.gameSvrs.get (s.vidOf uid) {}).enterMoney ≤ atoi money then (s, [], uid :: rest)
          else
            let left := pickLoop atoi hget s rest
            (left.1, uid :: left.2.1, left.2.2)

def pickOneRichRobot (atoi : String → Int) (hget : Int → Option String) (s : Fleet) (vid : Int) :
    Fleet × Int :=
  if vid ≤ 0 then (s, -1)
  else
    let s := { s with queues := s.queues.touch vid {} }
    if (s.queues.get vid {}).vid ≠ vid then (s, -1)
    else
      let picked := pickLoop atoi hget s (s.queue vid)
      let poorRobots := picked.2.1
      let left := picked.2.2
      (picked.1.setQueue vid (left ++ poorRobots), left.headD (-1))

/-- `Client::Client` with a connection that succeeds. The queue that loses its first robot
is that of the server where `g_args.robots` has the client, not the one it was picked from. -/
def newClient (s : Fleet) (uid : Int) : Fleet :=
  let s := { s with robots := s.robots.touch uid {} }
  let undefined := s.undefined || (s.queue (s.vidOf uid)).isEmpty
  let s := s.setQueue (s.vidOf uid) (s.queue (s.vidOf uid)).tail
  { s with
    undefined := undefined
    gameSvrs := s.gameSvrs.touch (s.vidOf uid) {}
    clients := s.clients ++ [uid] }

/-- `Client::~Client` for the client at position `i`. -/
def deleteClient (s : Fleet) (i : Nat) (uid : Int) : Fleet :=
  let s := { s with clients := s.clients.eraseIdx i }
  if (s.robots.lookup uid).isSome then s.setQueue (s.vidOf uid) (s.queue (s.vidOf uid) ++ [uid])
  else s

/-- `Client::__disConnectLater`, but for the list `dels` of the queue. -/
def __disConnectLater (s : Fleet) (uid : Int) : Fleet :=
  let s := { s with robots := s.robots.touch uid {} }
  { s with queues := s.queues.touch (s.vidOf uid) {} }

/-- `Client::__doLogin`; `connected` tells that `conMap` has the client's descriptor. -/
def __doLogin (s : Fleet) (uid : Int) (connected : Bool) : Fleet :=
  if connected then { s with robots := s.robots.touch uid {} } else s.__disConnectLater uid

/-- `__cbTimerAddUser` for one queue. -/
def addUserTo (atoi : String → Int) (hget : Int → Option String) (s : Fleet) (vid : Int) : Fleet :=
  let picked := s.pickOneRichRobot atoi hget vid
  if 0 < picked.2 then picked.1.newClient picked.2 else picked.1

def addUser (atoi : String → Int) (hget : Int → Option String) (s : Fleet) : Fleet :=
  s.queues.sortedKeys.foldl (addUserTo atoi hget) s

end Fleet

/-- What happens to the fleet. -/
inductive FleetOp where
  | parseCfg (redis : Redis) (games : Option (List GameConf)) (shuffle : Shuffle)
  | addUser (hget : Int → Option String)
  /-- The connection of the client at position `i` closes. -/
  | close (i : Nat)

def FleetOp.apply (atoi : String → Int) (s : Fleet) : FleetOp → Fleet
  | .parseCfg redis games shuffle => (s.parseCfg atoi redis games shuffle).1
  | .addUser hget => s.addUser atoi hget
  | .close i =>
      match s.clients[i]? with
      | none => s
      | some uid => s.deleteClient i uid

/-- The program starts with empty tables. -/
def fleetSystem (atoi : String → Int) : System Fleet FleetOp where
  start s := s = {}
  step s op after := after = op.apply atoi s

end CLibs.Robot
