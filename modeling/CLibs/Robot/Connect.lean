import CLibs.LibevworkUsing.ConnManager
import CLibs.Robot.Registries

/-!
# Connecting to a server

`CConnManager::connectServer` with the constructor and the destructor of `CClientConn`,
the handle set of the loop and the two registries that hear of a closed connection. A
failed connect is told by `m_fd`, which the constructor sets to -1 before it registers the
handle, and `getfd` returns as `uint32_t`.
-/

set_option autoImplicit false
set_option linter.style.nameCheck false

namespace CLibs.Robot

open General LibevworkUsing

/-- What `connect` says to one address. -/
inductive ConnectAnswer where
  | success
  | inProgress
  | error
deriving DecidableEq

/-- What the system answers to one `connectServer`. -/
structure NetAnswers where
  /-- The result of `socket`. -/
  socket : Int
  /-- `fcntl` succeeds in `__noblock`. -/
  noblock : Bool
  /-- The answers of `connect` for the addresses that `getaddrinfo` finds; `none` if it fails. -/
  servinfo : Option (List ConnectAnswer)

/-- `EV_READ` and `EV_WRITE`. -/
inductive Ev where
  | read
  | write
deriving DecidableEq

/-- Why a call does not return: `exception_errno`, or the assertion of `ev_io_start`. -/
inductive Stop where
  | exception
  | assertion

structure World where
  manager : CConnManager := {}
  registries : Registries := {}
  /-- `m_setHandle`: the handles by their connection, with the `fd` they are started with. -/
  handles : Table (Nat × Ev) Int := ∅

/-- A connection, as its constructor leaves it. -/
structure ClientConn where
  conn : Conn
  wevRegisted : Bool

/-- Some address of the server accepts the connect, or the connect to it is in progress. -/
def NetAnswers.Started (net : NetAnswers) : Prop :=
  ∃ servinfo, net.servinfo = some servinfo ∧
    ∃ answer ∈ servinfo, answer = .success ∨ answer = .inProgress

/-- `CClientConn::__connect`: the first address that is not refused ends the loop. -/
def __connect (net : NetAnswers) : Bool :=
  match net.servinfo with
  | none => false
  | some servinfo => servinfo.any (· ≠ .error)

namespace World

/-- `CEVLoop::setHandle`. With `asserts` off the assertion of `ev_io_start` is compiled
out, and a negative `fd` is taken like any other. -/
def setHandle (asserts : Bool) (s : World) (p : Nat × Ev) (fd : Int) : Except Stop World :=
  if p ∈ s.handles then .ok s
  else if asserts ∧ fd < 0 then .error .assertion
  else .ok { s with handles := s.handles.insert p fd }

def delHandle (s : World) (p : Nat × Ev) : World :=
  { s with handles := s.handles.erase p }

/-- `CClientConn::CClientConn` for an outgoing connection at the address `this`. -/
def newClientConn (asserts : Bool) (s : World) (this : Nat) (net : NetAnswers) :
    Except Stop (World × ClientConn) :=
  if net.socket = -1 then .error .exception
  else if !net.noblock then .error .exception
  else
    let fd := if !__connect net then -1 else net.socket
    let conn : Conn := { fd := fd }
    let s := { s with
      manager := s.manager.connectServer this
      registries := { s.registries with conns := s.registries.conns.insert this conn } }
    match s.setHandle asserts (this, .write) fd with
    | .error stop => .error stop
    | .ok s => .ok (s, { conn := conn, wevRegisted := true })

def deleteClientConn (s : World) (this : Nat) (pConn : ClientConn) : World :=
  let s := s.delHandle (this, .read)
  let s := if pConn.wevRegisted then s.delHandle (this, .write) else s
  { s with
    -- `LinkEV::onClose`, and then the rest of `CConnManager::onClose`
    registries := s.registries.onClose this pConn.conn
    manager := s.manager.onClose this { connected := false } }

def connectServer (asserts : Bool) (s : World) (this : Nat) (net : NetAnswers) :
    Except Stop (World × Option Nat) :=
  match s.newClientConn asserts this net with
  | .error stop => .error stop
  | .ok (s, pConn) =>
      if pConn.conn.getfd < 0 then .ok (s.deleteClientConn this pConn, none)
      else .ok (s, some this)

/-- A connect that could not be started is reported and leaves nothing behind. -/
def Reports (before : World) (this : Nat) (net : NetAnswers)
    (outcome : Except Stop (World × Option Nat)) : Prop :=
  ∃ after result, outcome = .ok (after, result) ∧
    (result.isSome ↔ net.Started) ∧
    (∀ pConn, result = some pConn →
      (∃ conn, after.registries.conns.lookup pConn = some conn ∧ 0 ≤ conn.fd) ∧
        (pConn, Ev.write) ∈ after.handles) ∧
    (result = none →
      (∀ ev, (this, ev) ∉ after.handles) ∧
        after.manager.mapCIdConn = before.manager.mapCIdConn ∧
        after.registries.cmap = before.registries.cmap ∧
        after.registries.conMap = before.registries.conMap)

theorem connect_iff (net : NetAnswers) : __connect net = true ↔ net.Started := by
  unfold __connect NetAnswers.Started
  cases net.servinfo with
  | none => simp
  | some servinfo =>
      simp only [List.any_eq_true, decide_eq_true_eq, Option.some.injEq, exists_eq_left']
      refine exists_congr fun answer => and_congr_right fun _ => ?_
      cases answer <;> simp

theorem getfd_not_neg (conn : Conn) : ¬ conn.getfd < 0 := by
  rw [UInt32.not_lt]
  exact UInt32.zero_le

/-- There is no way to the branch that returns the null pointer. -/
theorem connectServer_ne_null (asserts : Bool) (s : World) (this : Nat) (net : NetAnswers)
    {after : World} {result : Option Nat}
    (returned : s.connectServer asserts this net = .ok (after, result)) : result = some this := by
  unfold connectServer at returned
  cases made : s.newClientConn asserts this net with
  | error stop =>
      rw [made] at returned
      cases returned
  | ok constructed =>
      rw [made] at returned
      dsimp only at returned
      rw [if_neg (getfd_not_neg _)] at returned
      cases returned
      rfl

theorem newClientConn_started (asserts : Bool) (s : World) (this : Nat) {net : NetAnswers}
    (made : 0 ≤ net.socket) (nonblocking : net.noblock = true) (started : __connect net = true) :
    ∃ after, s.newClientConn asserts this net =
        .ok (after, { conn := { fd := net.socket }, wevRegisted := true }) ∧
      after.registries.conns.lookup this = some { fd := net.socket } ∧
      (this, Ev.write) ∈ after.handles := by
  have valid : net.socket ≠ -1 := by omega
  have accepted : ¬ (asserts = true ∧ net.socket < 0) := by omega
  let registered : World := { s with
    manager := s.manager.connectServer this
    registries := { s.registries with
      conns := s.registries.conns.insert this { fd := net.socket } } }
  by_cases there : (this, Ev.write) ∈ s.handles
  · refine ⟨registered, ?_, AList.lookup_insert _, there⟩
    simp [newClientConn, setHandle, valid, nonblocking, started, there, registered]
  · refine ⟨{ registered with handles := s.handles.insert (this, .write) net.socket }, ?_,
      AList.lookup_insert _, (AList.mem_insert _).mpr (.inl rfl)⟩
    simp [newClientConn, setHandle, valid, nonblocking, started, accepted, there, registered]

/-- A connect is reported as it should be exactly if it could be started. -/
theorem connectServer_reports_iff (asserts : Bool) (s : World) (this : Nat) {net : NetAnswers}
    (made : 0 ≤ net.socket) (nonblocking : net.noblock = true) :
    s.Reports this net (s.connectServer asserts this net) ↔ net.Started := by
  constructor
  · rintro ⟨after, result, returned, reported, -⟩
    rw [connectServer_ne_null asserts s this net returned] at reported
    exact reported.mp rfl
  · intro started
    obtain ⟨after, constructed, conn, handle⟩ :=
      newClientConn_started asserts s this made nonblocking ((connect_iff net).mpr started)
    refine ⟨after, some this, ?_, iff_of_true rfl started, ?_, by simp⟩
    · unfold connectServer
      rw [constructed]
      dsimp only
      rw [if_neg (getfd_not_neg _)]
    · rintro _ ⟨rfl⟩
      exact ⟨⟨_, conn, made⟩, handle⟩

/-- A server with two addresses: the first refuses, the second connect is in progress. -/
theorem connectServer_reports_iff_second :
    Reports {} 0 { socket := 5, noblock := true, servinfo := some [.error, .inProgress] }
      (connectServer true {} 0
        { socket := 5, noblock := true, servinfo := some [.error, .inProgress] }) :=
  (connectServer_reports_iff true {} 0 (by decide) rfl).mpr
    ⟨_, rfl, .inProgress, by decide, by decide⟩

/-- An address that refuses: with the assertion the program ends, and without it a
connection with the descriptor -1 is returned. -/
theorem not_connectServer_reports :
    ¬ ∀ (asserts : Bool) (s : World) (this : Nat) (net : NetAnswers), 0 ≤ net.socket →
      net.noblock = true → s.Reports this net (s.connectServer asserts this net) := by
  intro always
  obtain ⟨after, result, returned, reported, -⟩ :=
    always false {} 0 { socket := 5, noblock := true, servinfo := some [.error] } (by decide) rfl
  rw [connectServer_ne_null _ _ _ _ returned] at reported
  obtain ⟨servinfo, found, answer, member, started⟩ := reported.mp rfl
  cases found
  rw [List.mem_singleton.mp member] at started
  revert started
  decide

end World

end CLibs.Robot
