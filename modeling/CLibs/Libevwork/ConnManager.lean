import CLibs.General.Runs
import CLibs.General.Table
import Mathlib.Tactic

/-!
# The connection registry

`CConnManager` of `libevwork_full` with the connections that are alive. Connections
are named by their addresses, and the address of a freed connection may be used
again. The link events that the manager passes on are left out.
-/

set_option autoImplicit false
set_option linter.style.nameCheck false

namespace CLibs.Libevwork

open General

/-- What the manager knows of a connection, and whether `getConnByIpPort` made it. -/
structure IConn where
  strPeerIp : String
  uPeerPort : UInt16
  cid : UInt32 := 0
  connected : Bool
  outgoing : Bool

def __toIpPortKey (strIp : String) (uPort : UInt16) : String :=
  strIp ++ ":" ++ toString uPort.toNat

def IConn.key (conn : IConn) : String := __toIpPortKey conn.strPeerIp conn.uPeerPort

structure CConnManager where
  uLastConnId : UInt32 := 1
  mapCIdConn : Table UInt32 Nat := ∅
  mapIpPortConn : Table String Nat := ∅
  /-- The connections that are alive. -/
  conns : Table Nat IConn := ∅

namespace CConnManager

def getConnById (s : CConnManager) (uConnId : UInt32) : Option Nat := s.mapCIdConn.lookup uConnId

/-- `getConnByIpPort`. A new connection gets the address `pNew`. -/
def getConnByIpPort (s : CConnManager) (strIp : String) (uPort : UInt16) (pNew : Nat) :
    CConnManager × Nat :=
  let strKey := __toIpPortKey strIp uPort
  match s.mapIpPortConn.lookup strKey with
  | some pConn => (s, pConn)
  | none =>
      ({ s with
        conns := s.conns.insert pNew
          { strPeerIp := strIp, uPeerPort := uPort, connected := false, outgoing := true }
        mapIpPortConn := s.mapIpPortConn.insert strKey pNew }, pNew)

def onConnected (s : CConnManager) (pConn : Nat) (conn : IConn) : CConnManager :=
  { s with
    conns := s.conns.insert pConn { conn with cid := s.uLastConnId, connected := true }
    mapCIdConn := s.mapCIdConn.insert s.uLastConnId pConn
    uLastConnId := s.uLastConnId + 1 }

def onClose (s : CConnManager) (pConn : Nat) (conn : IConn) : CConnManager :=
  { s with
    mapCIdConn := s.mapCIdConn.erase conn.cid
    mapIpPortConn := s.mapIpPortConn.erase conn.key
    conns := s.conns.erase pConn }

end CConnManager

/-- What happens to the connections. `pNew` is an address that is not in use. -/
inductive RegistryOp where
  | getConnByIpPort (strIp : String) (uPort : UInt16) (pNew : Nat)
  | accept (strPeerIp : String) (uPeerPort : UInt16) (pNew : Nat)
  /-- The connect of an outgoing connection succeeds. -/
  | connect (pConn : Nat)
  /-- A connection is closed, or its connect fails. -/
  | close (pConn : Nat)

namespace RegistryOp

def apply (s : CConnManager) : RegistryOp → Option CConnManager
  | .getConnByIpPort strIp uPort pNew =>
      if pNew ∈ s.conns then none else some (s.getConnByIpPort strIp uPort pNew).1
  | .accept strPeerIp uPeerPort pNew =>
      if pNew ∈ s.conns then none
      else some (s.onConnected pNew
        { strPeerIp := strPeerIp, uPeerPort := uPeerPort, connected := true, outgoing := false })
  | .connect pConn =>
      match s.conns.lookup pConn with
      | some conn => if conn.connected then none else some (s.onConnected pConn conn)
      | none => none
  | .close pConn =>
      match s.conns.lookup pConn with
      | some conn => some (s.onClose pConn conn)
      | none => none

/-- The steps in which `onConnected` gives out a connection id. -/
def connects : RegistryOp → Bool
  | .accept .. => true
  | .connect _ => true
  | _ => false

end RegistryOp

def registrySystem : System CConnManager RegistryOp where
  start s := s = {}
  step s op next := op.apply s = some next

/-! ## Consistency -/

namespace CConnManager

/-- The two maps hold live connections, connection ids are unique, and a connection
made by `getConnByIpPort` is the one it returns for its address. -/
structure Consistent (s : CConnManager) : Prop where
  byIdLive : ∀ cid pConn, s.getConnById cid = some pConn → pConn ∈ s.conns
  byIpPortLive : ∀ key pConn, s.mapIpPortConn.lookup key = some pConn → pConn ∈ s.conns
  byId : ∀ pConn conn, s.conns.lookup pConn = some conn → conn.connected = true →
    ∀ cid, s.getConnById cid = some pConn ↔ cid = conn.cid
  byIpPort : ∀ pConn conn, s.conns.lookup pConn = some conn → conn.outgoing = true →
    s.mapIpPortConn.lookup conn.key = some pConn ∧
    ∀ pNew, s.getConnByIpPort conn.strPeerIp conn.uPeerPort pNew = (s, pConn)

/-- What a run keeps, `connects` times after a connection id was given out. -/
structure Registered (s : CConnManager) (connects : Nat) : Prop where
  lastConnId : s.uLastConnId.toNat = connects + 1
  cidMap : IndexOf s.mapCIdConn s.conns (fun conn => conn.connected = true) IConn.cid
  cidOld : ∀ pConn conn, s.conns.lookup pConn = some conn → conn.connected = true →
    0 < conn.cid.toNat ∧ conn.cid.toNat ≤ connects
  waiting : ∀ pConn conn, s.conns.lookup pConn = some conn → conn.connected = false →
    conn.cid = 0
  keyMap : IndexOf s.mapIpPortConn s.conns (fun conn => conn.outgoing = true) IConn.key

theorem Registered.consistent {s : CConnManager} {connects : Nat}
    (registered : s.Registered connects) : s.Consistent := by
  refine ⟨?_, ?_, ?_, ?_⟩
  · intro cid pConn found
    obtain ⟨conn, live, -, -⟩ := (registered.cidMap cid pConn).mp found
    exact AList.lookup_isSome.mp (by simp [live])
  · intro key pConn found
    obtain ⟨conn, live, -, -⟩ := (registered.keyMap key pConn).mp found
    exact AList.lookup_isSome.mp (by simp [live])
  · intro pConn conn live connected cid
    constructor
    · intro found
      obtain ⟨other, same, -, rfl⟩ := (registered.cidMap cid pConn).mp found
      rw [live] at same
      cases same
      rfl
    · rintro rfl
      exact (registered.cidMap _ _).mpr ⟨conn, live, connected, rfl⟩
  · intro pConn conn live outgoing
    have found : s.mapIpPortConn.lookup conn.key = some pConn :=
      (registered.keyMap _ _).mpr ⟨conn, live, outgoing, rfl⟩
    refine ⟨found, ?_⟩
    intro pNew
    unfold IConn.key at found
    rw [getConnByIpPort, found]

/-- The facts about connection ids, when one connection takes a place. -/
private theorem cids_insert {conns : Table Nat IConn} {before after : Nat} {pConn : Nat}
    {conn : IConn} (more : before ≤ after)
    (cidOld : ∀ pConn conn, conns.lookup pConn = some conn → conn.connected = true →
      0 < conn.cid.toNat ∧ conn.cid.toNat ≤ before)
    (new : conn.connected = true → 0 < conn.cid.toNat ∧ conn.cid.toNat ≤ after)
    (other : Nat) (peer : IConn) (found : (conns.insert pConn conn).lookup other = some peer)
    (connected : peer.connected = true) : 0 < peer.cid.toNat ∧ peer.cid.toNat ≤ after := by
  by_cases same : other = pConn
  · subst same
    rw [AList.lookup_insert] at found
    cases found
    exact new connected
  · rw [AList.lookup_insert_ne same] at found
    have old := cidOld other peer found connected
    exact ⟨old.1, le_trans old.2 more⟩

private theorem waiting_insert {conns : Table Nat IConn} {pConn : Nat} {conn : IConn}
    (waiting : ∀ pConn conn, conns.lookup pConn = some conn → conn.connected = false →
      conn.cid = 0)
    (new : conn.connected = false → conn.cid = 0)
    (other : Nat) (peer : IConn) (found : (conns.insert pConn conn).lookup other = some peer)
    (unconnected : peer.connected = false) : peer.cid = 0 := by
  by_cases same : other = pConn
  · subst same
    rw [AList.lookup_insert] at found
    cases found
    exact new unconnected
  · rw [AList.lookup_insert_ne same] at found
    exact waiting other peer found unconnected

theorem Registered.new {s : CConnManager} {connects : Nat} (registered : s.Registered connects)
    {strIp : String} {uPort : UInt16} {pNew : Nat} (fresh : pNew ∉ s.conns) :
    (s.getConnByIpPort strIp uPort pNew).1.Registered connects := by
  have notLive : s.conns.lookup pNew = none := AList.lookup_eq_none.mpr fresh
  rw [getConnByIpPort]
  cases found : s.mapIpPortConn.lookup (__toIpPortKey strIp uPort) with
  | some pConn => exact registered
  | none =>
      refine ⟨registered.lastConnId, ?_, ?_, ?_, ?_⟩
      · exact registered.cidMap.insert_hidden (by simp [notLive]) (by simp)
      · exact cids_insert (le_refl _) registered.cidOld (by simp)
      · exact waiting_insert registered.waiting (fun _ => rfl)
      · refine registered.keyMap.insert_shown
          { strPeerIp := strIp, uPeerPort := uPort, connected := false, outgoing := true }
          (by simp [notLive]) rfl ?_
        intro other peer live outgoing same
        have listed := (registered.keyMap _ _).mpr ⟨peer, live, outgoing, same⟩
        rw [IConn.key, found] at listed
        cases listed

/-- A connection gets the next id: it was not known before, or it was waiting. -/
theorem Registered.onConnected {s : CConnManager} {connects : Nat}
    (registered : s.Registered connects) (few : connects + 2 < 2 ^ 32) {pConn : Nat} {conn : IConn}
    (before : (s.conns.lookup pConn = none ∧ conn.outgoing = false) ∨
      (s.conns.lookup pConn = some conn ∧ conn.connected = false)) :
    (s.onConnected pConn conn).Registered (connects + 1) := by
  have last := registered.lastConnId
  have notShown : ∀ old, s.conns.lookup pConn = some old → ¬ old.connected = true := by
    intro old found
    rcases before with ⟨absent, _⟩ | ⟨live, waiting⟩
    · rw [absent] at found
      cases found
    · rw [live] at found
      cases found
      simp [waiting]
  refine ⟨?_, ?_, ?_, ?_, ?_⟩
  · rw [CConnManager.onConnected, UInt32.toNat_add, last]
    exact Nat.mod_eq_of_lt few
  · refine registered.cidMap.insert_shown { conn with cid := s.uLastConnId, connected := true }
      notShown rfl ?_
    intro other peer live connected same
    have old := (registered.cidOld other peer live connected).2
    rw [same, last] at old
    omega
  · exact cids_insert (Nat.le_succ _) registered.cidOld fun _ => by
      dsimp only
      omega
  · exact waiting_insert registered.waiting (by simp)
  · rcases before with ⟨absent, incoming⟩ | ⟨live, -⟩
    · exact registered.keyMap.insert_hidden (by simp [absent]) (by simp [incoming])
    · exact registered.keyMap.insert_alike live Iff.rfl rfl

theorem Registered.onClose {s : CConnManager} {connects : Nat}
    (registered : s.Registered connects) {pConn : Nat} {conn : IConn}
    (live : s.conns.lookup pConn = some conn)
    (harmless : conn.outgoing = true ∨ ∀ other peer, s.conns.lookup other = some peer →
      peer.outgoing = true → peer.key ≠ conn.key) :
    (s.onClose pConn conn).Registered connects := by
  have kept : ∀ other peer, (s.conns.erase pConn).lookup other = some peer →
      s.conns.lookup other = some peer := by
    intro other peer found
    by_cases same : other = pConn
    · subst same
      rw [AList.lookup_erase] at found
      cases found
    · rwa [AList.lookup_erase_ne same] at found
  refine ⟨registered.lastConnId, ?_, ?_, ?_, ?_⟩
  · refine registered.cidMap.erase live (fun _ => rfl) ?_
    intro other peer different found connected same
    by_cases closing : conn.connected = true
    · exact different (registered.cidMap.unique live closing found connected same.symm)
    · have zero := registered.waiting pConn conn live (by simpa using closing)
      have positive := (registered.cidOld other peer found connected).1
      rw [same, zero] at positive
      exact absurd positive (by decide)
  · exact fun other peer found => registered.cidOld other peer (kept other peer found)
  · exact fun other peer found => registered.waiting other peer (kept other peer found)
  · refine registered.keyMap.erase live (fun _ => rfl) ?_
    intro other peer different found outgoing same
    rcases harmless with closing | noOther
    · exact different (registered.keyMap.unique live closing found outgoing same.symm)
    · exact noOther other peer found outgoing same

end CConnManager

/-- The step closes no incoming connection whose peer address is the address of a
live outgoing one. -/
def RegistryOp.Harmless (s : CConnManager) : RegistryOp → Prop
  | .close pConn => ∀ conn, s.conns.lookup pConn = some conn → conn.outgoing = true ∨
      ∀ other peer, s.conns.lookup other = some peer → peer.outgoing = true →
        peer.key ≠ conn.key
  | _ => True

theorem CConnManager.Registered.step {s next : CConnManager} {connects : Nat}
    (registered : s.Registered connects) {op : RegistryOp} (harmless : op.Harmless s)
    (few : op.connects = true → connects + 2 < 2 ^ 32) (taken : op.apply s = some next) :
    next.Registered (connects + if op.connects then 1 else 0) := by
  cases op with
  | getConnByIpPort strIp uPort pNew =>
      simp only [RegistryOp.apply, Option.ite_none_left_eq_some, Option.some.injEq] at taken
      obtain ⟨fresh, rfl⟩ := taken
      exact registered.new fresh
  | accept strPeerIp uPeerPort pNew =>
      simp only [RegistryOp.apply, Option.ite_none_left_eq_some, Option.some.injEq] at taken
      obtain ⟨fresh, rfl⟩ := taken
      exact registered.onConnected (few rfl) (.inl ⟨AList.lookup_eq_none.mpr fresh, rfl⟩)
  | connect pConn =>
      cases live : s.conns.lookup pConn with
      | none => simp [RegistryOp.apply, live] at taken
      | some conn =>
          simp only [RegistryOp.apply, live, Option.ite_none_left_eq_some, Option.some.injEq]
            at taken
          obtain ⟨waiting, rfl⟩ := taken
          exact registered.onConnected (few rfl) (.inr ⟨live, by simpa using waiting⟩)
  | close pConn =>
      cases live : s.conns.lookup pConn with
      | none => simp [RegistryOp.apply, live] at taken
      | some conn =>
          simp only [RegistryOp.apply, live, Option.some.injEq] at taken
          subst taken
          exact registered.onClose live (harmless conn live)

/-- In every run that closes no incoming connection from the address of a live
outgoing one, and gives out fewer than `2 ^ 32 - 1` connection ids, the registry is
consistent. -/
theorem registry_consistent {ops : List RegistryOp} {s : CConnManager}
    (run : (registrySystem.restrict fun s op => op.Harmless s).Run ops s)
    (few : ops.countP RegistryOp.connects < 2 ^ 32 - 1) : s.Consistent := by
  have registered : s.Registered (ops.countP RegistryOp.connects) := by
    induction run with
    | start first =>
        cases first
        refine ⟨rfl, ?_, ?_, ?_, ?_⟩ <;> simp [IndexOf]
    | @step ops op before after run taken ih =>
        rw [List.countP_append, List.countP_singleton] at few ⊢
        refine (ih (by omega)).step taken.1 ?_ taken.2
        intro connects
        rw [if_pos connects] at few
        omega
  exact registered.consistent

/-- An outgoing connection, and a later one that the peer opens from another port. -/
theorem registry_consistent_twoConns :
    ((({} : CConnManager).getConnByIpPort "10.0.0.1" 8000 0).1.onConnected 1
      { strPeerIp := "10.0.0.1", uPeerPort := 40000, connected := true,
        outgoing := false }).Consistent := by
  let first : CConnManager := (({} : CConnManager).getConnByIpPort "10.0.0.1" 8000 0).1
  have opened : (registrySystem.restrict fun s op => op.Harmless s).Run
      ([] ++ [.getConnByIpPort "10.0.0.1" 8000 0]) first := .step (.start rfl) ⟨trivial, rfl⟩
  have run : (registrySystem.restrict fun s op => op.Harmless s).Run
      (([] ++ [.getConnByIpPort "10.0.0.1" 8000 0]) ++ [.accept "10.0.0.1" 40000 1])
      (first.onConnected 1
        { strPeerIp := "10.0.0.1", uPeerPort := 40000, connected := true, outgoing := false }) :=
    .step opened ⟨trivial, rfl⟩
  exact registry_consistent run (by decide)

/-- The peer of an outgoing connection opens one from the very port it listens on,
and closes it again: the outgoing connection is alive, but no longer in the map. -/
theorem registry_forgets_outgoing :
    ¬ ∀ (ops : List RegistryOp) (s : CConnManager), registrySystem.Run ops s →
      ops.countP RegistryOp.connects < 2 ^ 32 - 1 → s.Consistent := by
  intro always
  let first : CConnManager := (({} : CConnManager).getConnByIpPort "10.0.0.1" 8000 0).1
  let incoming : IConn :=
    { strPeerIp := "10.0.0.1", uPeerPort := 8000, connected := true, outgoing := false }
  let second : CConnManager := first.onConnected 1 incoming
  let third : CConnManager := second.onClose 1 { incoming with cid := 1 }
  have opened : registrySystem.Run ([] ++ [.getConnByIpPort "10.0.0.1" 8000 0]) first :=
    .step (.start rfl) rfl
  have accepted : registrySystem.Run
      (([] ++ [.getConnByIpPort "10.0.0.1" 8000 0]) ++ [.accept "10.0.0.1" 8000 1]) second :=
    .step opened rfl
  have closed : registrySystem.Run
      ((([] ++ [.getConnByIpPort "10.0.0.1" 8000 0]) ++ [.accept "10.0.0.1" 8000 1]) ++
        [.close 1]) third := .step accepted rfl
  have consistent := always _ _ closed (by decide)
  have found := (consistent.byIpPort 0 _ rfl rfl).1
  exact absurd found (by decide)

end CLibs.Libevwork
