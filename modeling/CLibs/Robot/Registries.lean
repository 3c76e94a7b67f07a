import CLibs.General.Runs
import CLibs.General.Table
import Mathlib.Tactic

/-!
# The descriptor registries

`g_args.cmap` and `g_args.conMap`, which find clients and connections by descriptor,
and the lists `dels` of descriptors to be closed, with the code that edits them:
`Client`'s constructor and destructor, `__doLogin`, `__disConnectLater`, `sendData`,
`LinkEV` and `__cbTimerDisconnect`. Objects are named by their addresses. The rest of
`g_args` and the log lines, with what these read through the pointers, are left out.
-/

set_option autoImplicit false
set_option linter.style.nameCheck false

namespace CLibs.Robot

open General

/-- A connection: the `int` that `socket` returned, and whether it is connected. -/
structure Conn where
  fd : Int
  connected : Bool := false

/-- `getfd`, which returns `uint32_t`. -/
def Conn.getfd (conn : Conn) : UInt32 := UInt32.ofInt conn.fd

/-- The `int` that a `uint32_t` becomes as the key of a map. -/
def intOf (fd : UInt32) : Int := (fd.toNat : Int).bmod (2 ^ 32)

/-- The `short` that a `uint32_t` becomes in `m_fd`. -/
def shortOf (fd : UInt32) : Int := (fd.toNat : Int).bmod (2 ^ 16)

structure Client where
  fd : Int
  pConn : Nat
  /-- The login timer has not run yet. -/
  loginDue : Bool := true

structure Registries where
  /-- `none` is the null pointer, here and in `conMap`. -/
  cmap : Table Int (Option Nat) := ∅
  conMap : Table Int (Option Nat) := ∅
  /-- The list `dels` of each queue. -/
  dels : Table Int (List Int) := ∅
  clients : Table Nat Client := ∅
  conns : Table Nat Conn := ∅

namespace Registries

def findClientByfd (s : Registries) (fd : Int) : Option Nat := (s.cmap.lookup fd).join

def delsOf (s : Registries) (vid : Int) : List Int := s.dels.get vid []

/-- `Client::Client` for the client `this`, with the connection `pConn` for which
`socket` returned `fd`. Left out is that its log line reads the `m_uid` of the client
that has the key already. -/
def newClient (s : Registries) (this pConn : Nat) (fd : Int) : Registries :=
  let conn : Conn := { fd := fd }
  let m_fd := shortOf conn.getfd
  { s with
    conns := s.conns.insert pConn conn
    clients := s.clients.insert this { fd := m_fd, pConn := pConn }
    cmap := s.cmap.insert m_fd (some this) }

def deleteClient (s : Registries) (this : Nat) : Registries :=
  match s.clients.lookup this with
  | none => s
  | some client =>
      { s with
        cmap := if 0 < client.fd then s.cmap.erase client.fd else s.cmap
        clients := s.clients.erase this }

/-- The macro `sendData`: `operator[]` makes an entry for a missing descriptor. -/
def sendData (s : Registries) (client : Client) : Registries :=
  { s with conMap := s.conMap.touch client.fd none }

/-- `vid` is the one that `g_args.robots` has for the client. -/
def __disConnectLater (s : Registries) (client : Client) (vid : Int) : Registries :=
  if client.fd ∈ s.delsOf vid then { s with dels := s.dels.touch vid [] }
  else { s with dels := s.dels.insert vid (s.delsOf vid ++ [client.fd]) }

def __doLogin (s : Registries) (client : Client) (vid : Int) : Registries :=
  if (s.conMap.lookup client.fd).isNone then
    __disConnectLater { s with conMap := s.conMap.insert client.fd (some client.pConn) } client vid
  else s.sendData client

/-- `LinkEV::onConnected`. -/
def onConnected (s : Registries) (pConn : Nat) (conn : Conn) : Registries :=
  { s with
    conns := s.conns.insert pConn { conn with connected := true }
    conMap := s.conMap.insert (intOf conn.getfd) (some pConn)
    cmap := s.cmap.touch (intOf conn.getfd) none }

/-- The loop of `LinkEV::onClose` over the queues: the first list that has the
descriptor loses it. -/
def dropDel (s : Registries) (fd : UInt32) : Registries :=
  match s.dels.sortedKeys.find? fun vid => (s.delsOf vid).any fun it => UInt32.ofInt it = fd with
  | none => s
  | some vid =>
      { s with dels := s.dels.insert vid ((s.delsOf vid).eraseP fun it => UInt32.ofInt it = fd) }

def onClose (s : Registries) (pConn : Nat) (conn : Conn) : Registries :=
  let s := { s with conMap := s.conMap.erase (intOf conn.getfd) }.dropDel conn.getfd
  let s := { s with cmap := s.cmap.touch (intOf conn.getfd) none }
  let s :=
    match s.findClientByfd (intOf conn.getfd) with
    | none => s
    | some pClient => s.deleteClient pClient
  { s with conns := s.conns.erase pConn }

/-- `__cbTimerDisconnect` for one queue. -/
def disconnectOne (s : Registries) (vid : Int) : Registries :=
  match s.delsOf vid with
  | [] => s
  | it :: rest =>
      let s := { s with conMap := s.conMap.touch it none }
      match s.conMap.get it none with
      | none => { s with dels := s.dels.insert vid rest }
      | some pConn =>
          match s.conns.lookup pConn with
          | none => s
          | some conn => s.onClose pConn conn

def __cbTimerDisconnect (s : Registries) : Registries :=
  s.dels.sortedKeys.foldl disconnectOne s

end Registries

inductive LinkOp where
  | newClient (this pConn : Nat) (fd : Int)
  /-- The connect of a connection completes. -/
  | connected (pConn : Nat)
  /-- The login timer of a client runs. -/
  | login (this : Nat) (vid : Int)
  /-- A client sends any other message. -/
  | send (this : Nat)
  | disconnectTimer
  | close (pConn : Nat)

namespace LinkOp

/-- The addresses of new objects and the descriptor of a new connection are not in use. -/
def apply (s : Registries) : LinkOp → Option Registries
  | newClient this pConn fd =>
      if this ∉ s.clients ∧ pConn ∉ s.conns ∧ 0 ≤ fd ∧ fd < 2 ^ 31 ∧
          ∀ other ∈ s.conns.keys, (s.conns.lookup other).map Conn.fd ≠ some fd then
        some (s.newClient this pConn fd)
      else none
  | connected pConn =>
      match s.conns.lookup pConn with
      | none => none
      | some conn => if conn.connected then none else some (s.onConnected pConn conn)
  | login this vid =>
      match s.clients.lookup this with
      | none => none
      | some client =>
          if client.loginDue then
            some ({ s with clients := s.clients.insert this { client with loginDue := false } }.__doLogin
              client vid)
          else none
  | send this => (s.clients.lookup this).map s.sendData
  | disconnectTimer => some s.__cbTimerDisconnect
  | close pConn => (s.conns.lookup pConn).map (s.onClose pConn)

end LinkOp

def linkSystem : System Registries LinkOp where
  start s := s = {}
  step s op after := op.apply s = some after

/-! ## Descriptors -/

theorem toNat_getfd {conn : Conn} (low : 0 ≤ conn.fd) (high : conn.fd < 2 ^ 31) :
    (conn.getfd.toNat : Int) = conn.fd := by
  unfold Conn.getfd UInt32.ofInt
  rw [UInt32.toNat_ofNat', Int.natCast_mod, Int.toNat_of_nonneg (by omega)]
  omega

theorem bmod_of_lt (bits : Nat) {fd : Int} (low : 0 ≤ fd) (high : fd < 2 ^ bits) :
    fd.bmod (2 ^ (bits + 1)) = fd := by
  have twice : ((2 ^ (bits + 1) : Nat) : Int) = 2 * 2 ^ bits := by
    rw [pow_succ]
    push_cast
    ring
  apply Int.bmod_eq_of_le_mul_two
  · rw [twice]
    omega
  · rw [twice]
    omega

theorem intOf_getfd {conn : Conn} (low : 0 ≤ conn.fd) (high : conn.fd < 2 ^ 31) :
    intOf conn.getfd = conn.fd :=
  (congrArg (Int.bmod · (2 ^ 32)) (toNat_getfd low high)).trans (bmod_of_lt 31 low high)

theorem shortOf_getfd {conn : Conn} (low : 0 ≤ conn.fd) (high : conn.fd < 2 ^ 15) :
    shortOf conn.getfd = conn.fd :=
  (congrArg (Int.bmod · (2 ^ 16)) (toNat_getfd low (by omega))).trans (bmod_of_lt 15 low high)

theorem shortOf_lt (fd : UInt32) : shortOf fd < 2 ^ 15 :=
  Int.bmod_lt (by decide)

/-- Descriptors stay apart as `uint32_t`. -/
theorem ofInt_eq_getfd {conn : Conn} {it : Int} (low : 0 ≤ conn.fd) (high : conn.fd < 2 ^ 31)
    (itLow : 0 ≤ it) (itHigh : it < 2 ^ 31) : UInt32.ofInt it = conn.getfd ↔ it = conn.fd := by
  constructor
  · intro same
    have ofIt : ((UInt32.ofInt it).toNat : Int) = it := @toNat_getfd { fd := it } itLow itHigh
    have ofConn := toNat_getfd low high
    rw [same] at ofIt
    exact ofIt.symm.trans ofConn
  · rintro rfl
    rfl

namespace Registries

/-! ## Agreement -/

/-- Every client is found by the descriptor of its own connection, and every entry of
`conMap` is a live connection under its own descriptor. -/
def Agree (s : Registries) : Prop :=
  (∀ this client, s.clients.lookup this = some client →
      ∃ conn, s.conns.lookup client.pConn = some conn ∧
        s.findClientByfd (intOf conn.getfd) = some this) ∧
    ∀ fd entry, s.conMap.lookup fd = some entry →
      ∃ pConn conn, entry = some pConn ∧ s.conns.lookup pConn = some conn ∧ intOf conn.getfd = fd

/-- What ties clients and connections together while no descriptor is truncated. `cmap`
may keep descriptor 0 and null pointers. -/
structure Tied (s : Registries) : Prop where
  own : ∀ this client, s.clients.lookup this = some client →
    ∃ conn, s.conns.lookup client.pConn = some conn ∧ conn.fd = client.fd ∧
      s.cmap.lookup client.fd = some (some this)
  user : ∀ pConn conn, s.conns.lookup pConn = some conn →
    ∃ this client, s.clients.lookup this = some client ∧ client.pConn = pConn
  short : ∀ pConn conn, s.conns.lookup pConn = some conn → 0 ≤ conn.fd ∧ conn.fd < 2 ^ 15
  apart : ∀ pConn conn other conn', s.conns.lookup pConn = some conn →
    s.conns.lookup other = some conn' → conn'.fd = conn.fd → other = pConn
  listed : ∀ fd entry, s.conMap.lookup fd = some entry →
    ∃ pConn conn, entry = some pConn ∧ s.conns.lookup pConn = some conn ∧ conn.fd = fd
  found : ∀ fd this, s.cmap.lookup fd = some (some this) → fd < 2 ^ 15

/-- Every descriptor to be closed is in one list, once, and `conMap` has it. -/
structure Queued (s : Registries) : Prop where
  mapped : ∀ vid, ∀ fd ∈ s.delsOf vid, (s.conMap.lookup fd).isSome
  once : ∀ vid, (s.delsOf vid).Nodup
  alone : ∀ vid other fd, fd ∈ s.delsOf vid → fd ∈ s.delsOf other → other = vid

variable {s : Registries}

theorem Tied.intOf_getfd (tied : s.Tied) {pConn : Nat} {conn : Conn}
    (live : s.conns.lookup pConn = some conn) : intOf conn.getfd = conn.fd := by
  obtain ⟨low, high⟩ := tied.short pConn conn live
  exact CLibs.Robot.intOf_getfd low (by omega)

theorem Tied.agree (tied : s.Tied) : s.Agree := by
  constructor
  · intro this client live
    obtain ⟨conn, connected, same, found⟩ := tied.own this client live
    refine ⟨conn, connected, ?_⟩
    rw [tied.intOf_getfd connected, same, findClientByfd, found]
    rfl
  · intro fd entry mapped
    obtain ⟨pConn, conn, isConn, live, same⟩ := tied.listed fd entry mapped
    exact ⟨pConn, conn, isConn, live, (tied.intOf_getfd live).trans same⟩

/-! ## Steps -/

theorem Tied.newClient (tied : s.Tied) {this pConn : Nat} {fd : Int} (newThis : this ∉ s.clients)
    (newConn : pConn ∉ s.conns) (low : 0 ≤ fd) (high : fd < 2 ^ 15)
    (unused : ∀ other conn, s.conns.lookup other = some conn → conn.fd ≠ fd) :
    (s.newClient this pConn fd).Tied := by
  have same : shortOf (Conn.getfd { fd := fd }) = fd := shortOf_getfd low high
  unfold Registries.newClient
  simp only [same]
  constructor
  · refine Table.forall_insert ?_ ?_
    · intro other client live
      obtain ⟨conn, connected, own, found⟩ := tied.own other client live
      have differ : client.pConn ≠ pConn := by
        intro isNew
        rw [isNew, AList.lookup_eq_none.mpr newConn] at connected
        cases connected
      have apart : client.fd ≠ fd := own ▸ unused _ _ connected
      refine ⟨conn, ?_, own, ?_⟩
      · rw [AList.lookup_insert_ne differ, connected]
      · rw [AList.lookup_insert_ne apart, found]
    · exact ⟨{ fd := fd }, AList.lookup_insert _, rfl, AList.lookup_insert _⟩
  · refine Table.forall_insert ?_ ?_
    · intro other conn live
      obtain ⟨user, client, used, own⟩ := tied.user other conn live
      have differ : user ≠ this := by
        rintro rfl
        rw [AList.lookup_eq_none.mpr newThis] at used
        cases used
      exact ⟨user, client, by rw [AList.lookup_insert_ne differ, used], own⟩
    · exact ⟨this, _, AList.lookup_insert _, rfl⟩
  · exact Table.forall_insert tied.short ⟨low, high⟩
  · intro first conn second conn' isFirst isSecond equal
    revert equal
    revert second conn'
    refine Table.forall_insert ?_ ?_
    · intro second conn' isSecond
      revert first conn
      refine Table.forall_insert ?_ ?_
      · intro first conn isFirst equal
        exact tied.apart first conn second conn' isFirst isSecond equal
      · intro equal
        exact absurd equal (unused second conn' isSecond)
    · revert first conn
      refine Table.forall_insert ?_ ?_
      · intro first conn isFirst equal
        exact absurd equal.symm (unused first conn isFirst)
      · intro _
        rfl
  · intro key entry mapped
    obtain ⟨other, conn, isConn, live, own⟩ := tied.listed key entry mapped
    have differ : other ≠ pConn := by
      rintro rfl
      rw [AList.lookup_eq_none.mpr newConn] at live
      cases live
    exact ⟨other, conn, isConn, by rw [AList.lookup_insert_ne differ, live], own⟩
  · intro key other
    by_cases isNew : key = fd
    · rintro -
      omega
    · rw [AList.lookup_insert_ne isNew]
      exact tied.found key other

theorem Queued.not_mem (queued : s.Queued) {fd : Int} (missing : s.conMap.lookup fd = none)
    (vid : Int) : fd ∉ s.delsOf vid := by
  intro member
  have mapped := queued.mapped vid fd member
  rw [missing] at mapped
  cases mapped

theorem Queued.insert (queued : s.Queued) {after : Registries} {fd : Int} {entry : Option Nat}
    (conMap : after.conMap = s.conMap.insert fd entry) (dels : after.dels = s.dels) :
    after.Queued := by
  have same : ∀ vid, after.delsOf vid = s.delsOf vid := by
    intro vid
    rw [delsOf, delsOf, dels]
  constructor
  · intro vid other member
    rw [same] at member
    rw [conMap]
    by_cases isNew : other = fd
    · rw [isNew, AList.lookup_insert]
      rfl
    · rw [AList.lookup_insert_ne isNew]
      exact queued.mapped vid other member
  · intro vid
    rw [same]
    exact queued.once vid
  · intro vid other fd member member'
    rw [same] at member member'
    exact queued.alone vid other fd member member'

theorem Tied.insert_conMap (tied : s.Tied) {pConn : Nat} {conn : Conn}
    (live : s.conns.lookup pConn = some conn) :
    Tied { s with conMap := s.conMap.insert conn.fd (some pConn) } :=
  { tied with listed := Table.forall_insert tied.listed ⟨pConn, conn, rfl, live, rfl⟩ }

theorem Tied.cmap_touch (tied : s.Tied) {pConn : Nat} {conn : Conn}
    (live : s.conns.lookup pConn = some conn) : s.cmap.touch conn.fd none = s.cmap := by
  obtain ⟨this, client, used, own⟩ := tied.user pConn conn live
  obtain ⟨conn', live', same, found⟩ := tied.own this client used
  rw [own, live] at live'
  cases live'
  refine Table.touch_of_mem ?_ _
  rw [same]
  exact AList.lookup_isSome.mp (by rw [found]; rfl)

/-- A connection changes nothing but whether it is connected. -/
theorem Tied.insert_conn (tied : s.Tied) {pConn : Nat} {conn : Conn}
    (live : s.conns.lookup pConn = some conn) (after : Conn) (same : after.fd = conn.fd) :
    Tied { s with conns := s.conns.insert pConn after } := by
  have kept : ∀ {other conn'}, s.conns.lookup other = some conn' →
      ∃ conn'', (s.conns.insert pConn after).lookup other = some conn'' ∧ conn''.fd = conn'.fd := by
    intro other conn' live'
    by_cases isNew : other = pConn
    · subst isNew
      rw [live] at live'
      cases live'
      exact ⟨after, AList.lookup_insert _, same⟩
    · exact ⟨conn', by rw [AList.lookup_insert_ne isNew, live'], rfl⟩
  have before : ∀ other conn', (s.conns.insert pConn after).lookup other = some conn' →
      ∃ conn'', s.conns.lookup other = some conn'' ∧ conn''.fd = conn'.fd := by
    refine Table.forall_insert ?_ ?_
    · intro other conn' live'
      exact ⟨conn', live', rfl⟩
    · exact ⟨conn, live, same.symm⟩
  constructor
  · intro this client used
    obtain ⟨conn', live', own, found⟩ := tied.own this client used
    obtain ⟨conn'', live'', equal⟩ := kept live'
    exact ⟨conn'', live'', equal.trans own, found⟩
  · intro other conn' live'
    obtain ⟨conn'', live'', -⟩ := before other conn' live'
    exact tied.user other conn'' live''
  · intro other conn' live'
    obtain ⟨conn'', live'', equal⟩ := before other conn' live'
    rw [← equal]
    exact tied.short other conn'' live''
  · intro first conn' second conn'' isFirst isSecond equal
    obtain ⟨_, liveFirst, sameFirst⟩ := before first conn' isFirst
    obtain ⟨_, liveSecond, sameSecond⟩ := before second conn'' isSecond
    refine tied.apart first _ second _ liveFirst liveSecond ?_
    rw [sameSecond, equal, sameFirst]
  · intro fd entry mapped
    obtain ⟨other, conn', isConn, live', own⟩ := tied.listed fd entry mapped
    obtain ⟨conn'', live'', equal⟩ := kept live'
    exact ⟨other, conn'', isConn, live'', equal.trans own⟩
  · exact tied.found

theorem Tied.onConnected (tied : s.Tied) {pConn : Nat} {conn : Conn}
    (live : s.conns.lookup pConn = some conn) : (s.onConnected pConn conn).Tied := by
  let after : Conn := { conn with connected := true }
  have connected := tied.insert_conn live after rfl
  have live' : (s.conns.insert pConn after).lookup pConn = some after := AList.lookup_insert _
  unfold Registries.onConnected
  rw [tied.intOf_getfd live, tied.cmap_touch live]
  have mapped := connected.insert_conMap live'
  exact mapped

/-- A client changes nothing but whether its login timer runs. -/
theorem Tied.insert_client (tied : s.Tied) {this : Nat} {client : Client}
    (used : s.clients.lookup this = some client) :
    Tied { s with clients := s.clients.insert this { client with loginDue := false } } :=
  { tied with
    own := Table.forall_insert tied.own (tied.own this client used)
    user := by
      intro pConn conn live
      obtain ⟨other, client', used', own⟩ := tied.user pConn conn live
      by_cases isNew : other = this
      · subst isNew
        rw [used] at used'
        cases used'
        exact ⟨other, _, AList.lookup_insert _, own⟩
      · exact ⟨other, client', by rw [AList.lookup_insert_ne isNew, used'], own⟩ }

theorem __disConnectLater_eq (s : Registries) (client : Client) (vid : Int) :
    ∃ dels, s.__disConnectLater client vid = { s with dels := dels } ∧
      ∀ other, dels.get other [] = if client.fd ∉ s.delsOf vid ∧ other = vid then
        s.delsOf vid ++ [client.fd] else s.delsOf other := by
  unfold __disConnectLater
  split
  · next listed =>
    refine ⟨_, rfl, fun other => ?_⟩
    rw [Table.get_touch, if_neg fun both => both.1 listed]
    rfl
  · next missing =>
    refine ⟨_, rfl, fun other => ?_⟩
    rw [Table.get_insert]
    simp only [missing, not_false_eq_true, true_and]
    rfl

theorem Tied.__disConnectLater (tied : s.Tied) (client : Client) (vid : Int) :
    (s.__disConnectLater client vid).Tied := by
  obtain ⟨dels, result, -⟩ := __disConnectLater_eq s client vid
  rw [result]
  exact { tied with }

theorem Queued.__disConnectLater (queued : s.Queued) {client : Client} (vid : Int)
    (missing : ∀ vid, client.fd ∉ s.delsOf vid) (mapped : (s.conMap.lookup client.fd).isSome) :
    (s.__disConnectLater client vid).Queued := by
  obtain ⟨dels, result, read⟩ := __disConnectLater_eq s client vid
  have lists : ∀ other, delsOf { s with dels := dels } other =
      if other = vid then s.delsOf vid ++ [client.fd] else s.delsOf other := by
    intro other
    rw [delsOf, read]
    simp only [missing, not_false_eq_true, true_and]
  rw [result]
  have members : ∀ other fd, fd ∈ delsOf { s with dels := dels } other →
      fd ∈ s.delsOf other ∨ fd = client.fd ∧ other = vid := by
    intro other fd member
    rw [lists] at member
    split at member
    · next same =>
      rw [List.mem_append, List.mem_singleton] at member
      subst same
      exact member.imp_right fun isNew => ⟨isNew, rfl⟩
    · exact .inl member
  constructor
  · intro other fd member
    rcases members other fd member with old | ⟨rfl, -⟩
    · exact queued.mapped other fd old
    · exact mapped
  · intro other
    rw [lists]
    split
    · refine List.nodup_append.mpr ⟨queued.once vid, List.nodup_singleton _, ?_⟩
      intro fd old fd' new same
      rw [List.mem_singleton] at new
      exact missing vid (new ▸ same ▸ old)
    · exact queued.once other
  · intro first second fd inFirst inSecond
    rcases members first fd inFirst with old | ⟨rfl, rfl⟩ <;>
      rcases members second _ inSecond with old' | ⟨isNew, rfl⟩
    · exact queued.alone first second fd old old'
    · exact absurd (isNew ▸ old) (missing first)
    · exact absurd old' (missing second)
    · rfl

theorem sendData_of_mem {client : Client} (mapped : (s.conMap.lookup client.fd).isSome) :
    s.sendData client = s := by
  unfold sendData
  rw [Table.touch_of_mem (AList.lookup_isSome.mp mapped)]

theorem dropDel_eq (s : Registries) (fd : UInt32) :
    ∃ dels, s.dropDel fd = { s with dels := dels } ∧
      ∀ vid, List.Sublist (dels.get vid []) (s.delsOf vid) := by
  unfold dropDel
  split
  · exact ⟨s.dels, rfl, fun _ => List.Sublist.refl _⟩
  · next vid _ =>
    refine ⟨_, rfl, fun other => ?_⟩
    rw [Table.get_insert]
    split
    · next same => exact same ▸ List.eraseP_sublist
    · exact List.Sublist.refl _

theorem Queued.low (queued : s.Queued) (tied : s.Tied) {vid fd : Int} (member : fd ∈ s.delsOf vid) :
    0 ≤ fd ∧ fd < 2 ^ 15 := by
  obtain ⟨entry, mapped⟩ := Option.isSome_iff_exists.mp (queued.mapped vid fd member)
  obtain ⟨pConn, conn, -, live, same⟩ := tied.listed fd entry mapped
  exact same ▸ tied.short pConn conn live

theorem not_mem_eraseP {fds : List Int} (nodup : fds.Nodup) {drop : Int → Bool} {fd : Int}
    (drops : drop fd = true) (only : ∀ it ∈ fds, drop it = true → it = fd) :
    fd ∉ fds.eraseP drop := by
  intro member
  have present := List.mem_of_mem_eraseP member
  obtain ⟨it, before, after, -, dropped, split, erased⟩ := List.exists_of_eraseP present drops
  have same : it = fd := only it (by simp [split]) dropped
  rw [erased] at member
  rw [split, same, List.nodup_middle, List.nodup_cons] at nodup
  exact nodup.1 member

/-- The descriptor of a connection that closes leaves the lists. -/
theorem Queued.dropDel_gone (queued : s.Queued) (tied : s.Tied) {pConn : Nat} {conn : Conn}
    (live : s.conns.lookup pConn = some conn) (vid : Int) :
    conn.fd ∉ (s.dropDel conn.getfd).delsOf vid := by
  obtain ⟨low, high⟩ := tied.short pConn conn live
  have same : ∀ other, ∀ it ∈ s.delsOf other, UInt32.ofInt it = conn.getfd ↔ it = conn.fd := by
    intro other it member
    obtain ⟨itLow, itHigh⟩ := queued.low tied member
    exact ofInt_eq_getfd low (by omega) itLow (by omega)
  intro member
  have present : conn.fd ∈ s.delsOf vid := by
    obtain ⟨dels, result, shorter⟩ := dropDel_eq s conn.getfd
    rw [result] at member
    exact (shorter vid).subset member
  have matched : (s.delsOf vid).any fun it => UInt32.ofInt it = conn.getfd :=
    List.any_eq_true.mpr ⟨conn.fd, present, decide_eq_true rfl⟩
  unfold dropDel at member
  split at member
  · next none =>
    have key : vid ∈ s.dels.sortedKeys := by
      rw [Table.sortedKeys, List.mem_insertionSort]
      by_contra missing
      rw [delsOf, Table.get, AList.lookup_eq_none.mpr missing] at present
      cases present
    exact List.find?_eq_none.mp none vid key matched
  · next first found =>
    have holds := List.find?_some found
    obtain ⟨it, listed, equal⟩ := List.any_eq_true.mp holds
    rw [decide_eq_true_eq, same first it listed] at equal
    have isFirst : first = vid := queued.alone vid first conn.fd present (equal ▸ listed)
    subst isFirst
    rw [delsOf, Table.get_insert, if_pos rfl] at member
    refine not_mem_eraseP (queued.once first) ?_ ?_ member
    · exact decide_eq_true rfl
    · intro it listed dropped
      exact (same first it listed).mp (of_decide_eq_true dropped)

/-- What `onClose` does to a connection whose client is known. -/
theorem Tied.onClose_eq (tied : s.Tied) {pConn this : Nat} {conn : Conn} {client : Client}
    (live : s.conns.lookup pConn = some conn) (used : s.clients.lookup this = some client)
    (own : client.pConn = pConn) :
    ∃ dels cmap, s.onClose pConn conn =
        { cmap := cmap, conMap := s.conMap.erase conn.fd, dels := dels,
          clients := s.clients.erase this, conns := s.conns.erase pConn } ∧
      dels = (s.dropDel conn.getfd).dels ∧
      (cmap = s.cmap ∨ cmap = s.cmap.erase conn.fd) := by
  obtain ⟨conn', live', same, found⟩ := tied.own this client used
  rw [own, live] at live'
  cases live'
  obtain ⟨dels, dropped, -⟩ := dropDel_eq s conn.getfd
  have dropped' : Registries.dropDel { s with conMap := s.conMap.erase conn.fd } conn.getfd =
      { s with conMap := s.conMap.erase conn.fd, dels := dels } := by
    have result : Registries.dropDel { s with conMap := s.conMap.erase conn.fd } conn.getfd =
        { s.dropDel conn.getfd with conMap := s.conMap.erase conn.fd } := by
      unfold Registries.dropDel
      dsimp only [delsOf]
      split <;> rfl
    rw [result, dropped]
  have known : (s.cmap.lookup conn.fd).join = some this := by
    rw [same, found]
    rfl
  unfold Registries.onClose
  rw [tied.intOf_getfd live]
  simp only [dropped', tied.cmap_touch live, findClientByfd, known, deleteClient, used]
  refine ⟨dels, _, rfl, ?_, ?_⟩
  · rw [dropped]
  · rw [← same]
    split
    · exact .inr rfl
    · exact .inl rfl

theorem Tied.onClose (tied : s.Tied) {pConn : Nat} {conn : Conn}
    (live : s.conns.lookup pConn = some conn) : (s.onClose pConn conn).Tied := by
  obtain ⟨this, client, used, own⟩ := tied.user pConn conn live
  obtain ⟨conn', live', sameFd, found⟩ := tied.own this client used
  rw [own, live] at live'
  cases live'
  obtain ⟨dels, cmap, result, -, cmapIs⟩ := tied.onClose_eq live used own
  have elsewhere : ∀ fd, fd ≠ conn.fd → cmap.lookup fd = s.cmap.lookup fd := by
    intro fd differ
    rcases cmapIs with rfl | rfl
    · rfl
    · exact AList.lookup_erase_ne differ
  have before : ∀ fd entry, cmap.lookup fd = some entry → s.cmap.lookup fd = some entry := by
    intro fd entry kept
    rcases cmapIs with rfl | rfl
    · exact kept
    · exact Table.lookup_of_lookup_erase kept
  have differ : ∀ {other conn'}, (s.conns.erase pConn).lookup other = some conn' →
      other ≠ pConn := by
    rintro other conn' live' rfl
    rw [AList.lookup_erase] at live'
    cases live'
  rw [result]
  constructor
  · intro other client' used'
    have otherClient : other ≠ this := by
      rintro rfl
      rw [AList.lookup_erase] at used'
      cases used'
    obtain ⟨conn', live', same', found'⟩ := tied.own other client' (Table.lookup_of_lookup_erase used')
    have otherFd : client'.fd ≠ client.fd := by
      intro equal
      rw [equal, found] at found'
      cases found'
      exact otherClient rfl
    have otherConn : client'.pConn ≠ pConn := by
      intro equal
      rw [equal, live] at live'
      cases live'
      exact otherFd (same'.symm.trans sameFd)
    refine ⟨conn', ?_, same', ?_⟩
    · rw [AList.lookup_erase_ne otherConn, live']
    · rw [elsewhere _ (sameFd ▸ otherFd), found']
  · intro other conn' live'
    obtain ⟨user, client', used', own'⟩ := tied.user other conn' (Table.lookup_of_lookup_erase live')
    have otherClient : user ≠ this := by
      rintro rfl
      rw [used] at used'
      cases used'
      exact differ live' (own'.symm.trans own)
    exact ⟨user, client', by rw [AList.lookup_erase_ne otherClient, used'], own'⟩
  · intro other conn' live'
    exact tied.short other conn' (Table.lookup_of_lookup_erase live')
  · intro first conn' second conn'' isFirst isSecond equal
    exact tied.apart first conn' second conn'' (Table.lookup_of_lookup_erase isFirst)
      (Table.lookup_of_lookup_erase isSecond) equal
  · intro fd entry mapped
    obtain ⟨other, conn', isConn, live', same'⟩ :=
      tied.listed fd entry (Table.lookup_of_lookup_erase mapped)
    have otherConn : other ≠ pConn := by
      rintro rfl
      rw [live] at live'
      cases live'
      rw [← same', AList.lookup_erase] at mapped
      cases mapped
    exact ⟨other, conn', isConn, by rw [AList.lookup_erase_ne otherConn, live'], same'⟩
  · intro fd other kept
    exact tied.found fd other (before fd _ kept)

theorem Queued.onClose (queued : s.Queued) (tied : s.Tied) {pConn : Nat} {conn : Conn}
    (live : s.conns.lookup pConn = some conn) : (s.onClose pConn conn).Queued := by
  obtain ⟨this, client, used, own⟩ := tied.user pConn conn live
  obtain ⟨dels, cmap, result, delsIs, -⟩ := tied.onClose_eq live used own
  have gone := queued.dropDel_gone tied live
  obtain ⟨dels', dropped, shorter⟩ := dropDel_eq s conn.getfd
  rw [dropped] at delsIs gone
  subst delsIs
  rw [result]
  constructor
  · intro vid fd member
    have differ : fd ≠ conn.fd := by
      rintro rfl
      exact gone vid member
    have mapped := queued.mapped vid fd ((shorter vid).subset member)
    rwa [← AList.lookup_erase_ne differ] at mapped
  · intro vid
    exact (queued.once vid).sublist (shorter vid)
  · intro vid other fd member member'
    exact queued.alone vid other fd ((shorter vid).subset member) ((shorter other).subset member')

/-! ## The timer -/

theorem disconnectOne_eq (queued : s.Queued) (tied : s.Tied) (vid : Int) :
    s.disconnectOne vid = s ∨
      ∃ pConn conn, s.conns.lookup pConn = some conn ∧ s.disconnectOne vid = s.onClose pConn conn := by
  unfold disconnectOne
  split
  · exact .inl rfl
  · next it rest list =>
    have mapped := queued.mapped vid it (by rw [list]; exact List.mem_cons_self)
    obtain ⟨entry, isThere⟩ := Option.isSome_iff_exists.mp mapped
    obtain ⟨pConn, conn, rfl, live, -⟩ := tied.listed it entry isThere
    rw [Table.touch_of_mem (AList.lookup_isSome.mp mapped)]
    simp only [Table.get, isThere, Option.getD_some, live]
    exact .inr ⟨pConn, conn, live, rfl⟩

theorem disconnectAll (vids : List Int) (s : Registries) (tied : s.Tied) (queued : s.Queued) :
    (vids.foldl disconnectOne s).Tied ∧ (vids.foldl disconnectOne s).Queued := by
  induction vids generalizing s with
  | nil => exact ⟨tied, queued⟩
  | cons vid rest ih =>
      rw [List.foldl_cons]
      rcases disconnectOne_eq queued tied vid with result | ⟨pConn, conn, live, result⟩
      · rw [result]
        exact ih s tied queued
      · rw [result]
        exact ih _ (tied.onClose live) (queued.onClose tied live)

end Registries

/-! ## Runs -/

/-- New descriptors fit in a `short`, and messages go to descriptors that `conMap` has. -/
def LinkOp.Fits (s : Registries) : LinkOp → Prop
  | newClient _ _ fd => fd < 2 ^ 15
  | send this => ∀ client, s.clients.lookup this = some client → client.fd ∈ s.conMap
  | _ => True

open Registries

theorem Registries.Tied.fits {s after : Registries} (tied : s.Tied) (queued : s.Queued) {op : LinkOp}
    (fits : op.Fits s) (taken : op.apply s = some after) : after.Tied ∧ after.Queued := by
  cases op with
  | newClient this pConn fd =>
      dsimp only [LinkOp.apply] at taken
      split at taken
      · next free =>
        obtain ⟨newThis, newConn, low, -, unused⟩ := free
        cases taken
        constructor
        · refine tied.newClient newThis newConn low fits ?_
          intro other conn live same
          refine unused other ?_ ?_
          · exact AList.mem_keys.mp (AList.lookup_isSome.mp (by rw [live]; rfl))
          · rw [live, ← same]
            rfl
        · exact { queued with }
      · cases taken
  | connected pConn =>
      dsimp only [LinkOp.apply] at taken
      split at taken
      · cases taken
      · next conn live =>
        split at taken
        · cases taken
        · cases taken
          exact ⟨tied.onConnected live, queued.insert rfl rfl⟩
  | login this vid =>
      dsimp only [LinkOp.apply] at taken
      split at taken
      · cases taken
      · next client used =>
        split at taken
        · cases taken
          let clients := s.clients.insert this { client with loginDue := false }
          have tied' : Tied { s with clients := clients } := tied.insert_client used
          have queued' : Queued { s with clients := clients } := { queued with }
          unfold __doLogin
          split
          · next missing =>
            rw [Option.isNone_iff_eq_none] at missing
            obtain ⟨conn, live, same, -⟩ := tied.own this client used
            have mapped := tied'.insert_conMap live
            rw [same] at mapped
            have joined : Queued { s with
                clients := clients, conMap := s.conMap.insert client.fd (some client.pConn) } :=
              queued'.insert rfl rfl
            refine ⟨mapped.__disConnectLater client vid, joined.__disConnectLater vid ?_ ?_⟩
            · exact queued'.not_mem missing
            · rw [AList.lookup_insert]
              rfl
          · next isThere =>
            rw [Bool.not_eq_true, Option.isNone_eq_false_iff] at isThere
            rw [sendData_of_mem isThere]
            exact ⟨tied', queued'⟩
        · cases taken
  | send this =>
      obtain ⟨client, used, rfl⟩ := Option.map_eq_some_iff.mp taken
      rw [sendData_of_mem (AList.lookup_isSome.mpr (fits client used))]
      exact ⟨tied, queued⟩
  | disconnectTimer =>
      cases taken
      exact disconnectAll _ s tied queued
  | close pConn =>
      obtain ⟨conn, live, rfl⟩ := Option.map_eq_some_iff.mp taken
      exact ⟨tied.onClose live, queued.onClose tied live⟩

/-- A truncated descriptor is not found, and a message to a missing one leaves a null pointer. -/
theorem Registries.Tied.fits_of_agree {s after : Registries} (tied : s.Tied) {op : LinkOp}
    (taken : op.apply s = some after) (agree : after.Agree) : op.Fits s := by
  cases op with
  | newClient this pConn fd =>
      dsimp only [LinkOp.apply] at taken
      split at taken
      · next free =>
        obtain ⟨-, -, low, high, -⟩ := free
        cases taken
        by_contra long
        change ¬ fd < 2 ^ 15 at long
        obtain ⟨conn, live, found⟩ := agree.1 this _ (AList.lookup_insert _)
        have isNew : (s.conns.insert pConn { fd := fd }).lookup pConn = some { fd := fd } :=
          AList.lookup_insert _
        have isConn : some { fd := fd } = some conn := isNew.symm.trans live
        cases isConn
        have short := shortOf_lt (Conn.getfd { fd := fd })
        have differ : fd ≠ shortOf (Conn.getfd { fd := fd }) := by omega
        have sameFd : intOf (Conn.getfd { fd := fd }) = fd := @CLibs.Robot.intOf_getfd { fd := fd } low high
        rw [sameFd] at found
        have kept : (s.newClient this pConn fd).cmap.lookup fd = s.cmap.lookup fd :=
          AList.lookup_insert_ne differ
        rw [findClientByfd, kept, Option.join_eq_some_iff] at found
        exact long (tied.found fd this found)
      · cases taken
  | send this =>
      obtain ⟨client, used, rfl⟩ := Option.map_eq_some_iff.mp taken
      intro client' used'
      rw [used] at used'
      cases used'
      by_contra missing
      have isNull : (s.sendData client).conMap.lookup client.fd = some none := by
        unfold sendData Table.touch
        rw [AList.lookup_eq_none.mpr missing]
        exact AList.lookup_insert _
      obtain ⟨pConn, conn, isConn, -⟩ := agree.2 client.fd none isNull
      cases isConn
  | connected pConn => trivial
  | login this vid => trivial
  | disconnectTimer => trivial
  | close pConn => trivial

/-- The registries agree with the objects all along exactly the runs in which every
descriptor fits and every message is to an entry of `conMap`. -/
theorem registries_agree_iff (ops : List LinkOp) (s : Registries) :
    (linkSystem.filter fun _ _ after => after.Agree).Run ops s ↔
      (linkSystem.restrict fun s op => op.Fits s).Run ops s := by
  refine System.Run.filter_iff_restrict (fun s => s.Tied ∧ s.Queued) ?_ ?_ ?_
  · rintro s rfl
    constructor
    · constructor <;> simp
    · constructor <;> simp [delsOf]
  · intro s op after inv fits taken
    obtain ⟨tied, queued⟩ := inv.1.fits inv.2 fits taken
    exact ⟨⟨tied, queued⟩, tied.agree⟩
  · intro s op after inv agree taken
    exact inv.1.fits_of_agree taken agree

/-- The first client gets descriptor 40000. -/
theorem not_registries_agree :
    ¬ ∀ (ops : List LinkOp) (s : Registries), linkSystem.Run ops s → s.Agree := by
  intro agrees
  have run : linkSystem.Run ([] ++ [LinkOp.newClient 1 2 40000]) (({} : Registries).newClient 1 2 40000) :=
    .step (.start rfl) (by unfold linkSystem LinkOp.apply; simp)
  obtain ⟨conn, live, found⟩ := (agrees _ _ run).1 1 _ (AList.lookup_insert _)
  have isConn : some { fd := 40000 } = some conn := Eq.trans (by rfl) live
  cases isConn
  revert found
  decide

end CLibs.Robot
