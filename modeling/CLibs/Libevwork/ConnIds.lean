import CLibs.Libevwork.ConnManager

/-!
# Connection ids

The id counter of `CConnManager` is never checked for reuse. The ids identify the
connections as long as fewer than `2 ^ 32` of them have connected: the next one gets the
id 0, that of connections that never connected.
-/

set_option autoImplicit false

namespace CLibs.Libevwork

open General

/-- Connection ids identify the connected ones among `conns`, and `mapCIdConn` finds
them. -/
structure Identify {Conn : Type} (connected : Conn → Bool) (cid : Conn → UInt32)
    (mapCIdConn : Table UInt32 Nat) (conns : Table Nat Conn) : Prop where
  nonZero : ∀ pConn conn, conns.lookup pConn = some conn → connected conn = true → cid conn ≠ 0
  distinct : ∀ pConn conn other peer, conns.lookup pConn = some conn → connected conn = true →
    conns.lookup other = some peer → connected peer = true → cid conn = cid peer → pConn = other
  byId : ∀ pConn conn, conns.lookup pConn = some conn → connected conn = true →
    mapCIdConn.lookup (cid conn) = some pConn

section Identify

variable {Conn : Type} {connected : Conn → Bool} {cid : Conn → UInt32}
  {mapCIdConn : Table UInt32 Nat} {conns : Table Nat Conn}

theorem Identify.of_numbered
    (numbered : Numbered mapCIdConn conns (fun conn => connected conn = true) cid 0) :
    Identify connected cid mapCIdConn conns where
  nonZero := numbered.shown
  distinct := fun _ _ _ _ live isConnected otherLive otherConnected same =>
    (numbered.index.unique live isConnected otherLive otherConnected same).symm
  byId := fun pConn conn live isConnected =>
    (numbered.index (cid conn) pConn).mpr ⟨conn, live, isConnected, rfl⟩

/-- Ids that identify were given to connections that did not share them. -/
theorem Identify.fresh {pConn : Nat} {conn : Conn}
    (identify : Identify connected cid mapCIdConn (conns.insert pConn conn))
    (isConnected : connected conn = true)
    (before : ∀ old, conns.lookup pConn = some old → connected old = false) :
    cid conn ≠ 0 ∧
      ∀ other peer, conns.lookup other = some peer → connected peer = true →
        cid peer ≠ cid conn := by
  have live : (conns.insert pConn conn).lookup pConn = some conn := AList.lookup_insert _
  refine ⟨identify.nonZero pConn conn live isConnected, ?_⟩
  intro other peer otherLive otherConnected same
  by_cases closing : other = pConn
  · subst closing
    rw [before peer otherLive] at otherConnected
    cases otherConnected
  · have otherLive : (conns.insert pConn conn).lookup other = some peer := by
      rwa [AList.lookup_insert_ne closing]
    exact closing (identify.distinct other peer pConn conn otherLive otherConnected live
      isConnected same)

/-- How the ids were given out in `count` connects. -/
structure Counted (connected : Conn → Bool) (cid : Conn → UInt32) (uLastConnId : UInt32)
    (conns : Table Nat Conn) (count : Nat) : Prop where
  last : uLastConnId = UInt32.ofNat (count + 1)
  old : ∀ pConn conn, conns.lookup pConn = some conn → connected conn = true →
    (cid conn).toNat ≤ count

theorem Counted.lastToNat {uLastConnId : UInt32} {count : Nat}
    (counted : Counted connected cid uLastConnId conns count) (few : count + 1 < 2 ^ 32) :
    uLastConnId.toNat = count + 1 := by
  rw [counted.last, UInt32.toNat_ofNat_of_lt' few]

/-- The next id was not given out yet. -/
theorem Counted.fresh {uLastConnId : UInt32} {count : Nat}
    (counted : Counted connected cid uLastConnId conns count) (few : count + 1 < 2 ^ 32) :
    uLastConnId ≠ 0 ∧ ∀ pConn conn, conns.lookup pConn = some conn → connected conn = true →
      cid conn ≠ uLastConnId := by
  have last := counted.lastToNat few
  constructor
  · rintro rfl
    cases last
  · rintro pConn conn live isConnected rfl
    have old := counted.old pConn conn live isConnected
    omega

/-- An id that is not 0 is not the one after the last. -/
theorem Counted.few {uLastConnId : UInt32} {count : Nat}
    (counted : Counted connected cid uLastConnId conns count) (nonZero : uLastConnId ≠ 0)
    (few : count < 2 ^ 32) : count + 1 < 2 ^ 32 := by
  by_contra full
  have all : count + 1 = 2 ^ 32 := by omega
  rw [counted.last, all] at nonZero
  exact nonZero rfl

theorem Counted.onConnected {uLastConnId : UInt32} {count pConn : Nat} {conn : Conn}
    (counted : Counted connected cid uLastConnId conns count) (few : count + 1 < 2 ^ 32)
    (numbered : cid conn = uLastConnId) :
    Counted connected cid (uLastConnId + 1) (conns.insert pConn conn) (count + 1) where
  last := by
    rw [counted.last, UInt32.ofNat_add (count + 1) 1]
    rfl
  old := Table.forall_insert
    (fun other peer live isConnected =>
      (counted.old other peer live isConnected).trans (Nat.le_succ count))
    fun _ => by rw [numbered, counted.lastToNat few]

theorem Counted.hidden {uLastConnId : UInt32} {count pConn : Nat} {conn : Conn}
    (counted : Counted connected cid uLastConnId conns count)
    (notConnected : connected conn = false) :
    Counted connected cid uLastConnId (conns.insert pConn conn) count where
  last := counted.last
  old := Table.forall_insert counted.old fun isConnected => by
    rw [notConnected] at isConnected
    cases isConnected

theorem Counted.erase {uLastConnId : UInt32} {count pConn : Nat}
    (counted : Counted connected cid uLastConnId conns count) :
    Counted connected cid uLastConnId (conns.erase pConn) count where
  last := counted.last
  old other peer live := counted.old other peer (Table.lookup_of_lookup_erase live)

end Identify

namespace CConnManager

/-- What every step keeps, as long as the ids are fresh. -/
def NumberedConns (s : CConnManager) : Prop :=
  Numbered s.mapCIdConn s.conns (fun conn => conn.connected = true) IConn.cid 0

def Identifies (s : CConnManager) : Prop :=
  Identify IConn.connected IConn.cid s.mapCIdConn s.conns

def CountedIds (s : CConnManager) (count : Nat) : Prop :=
  Counted IConn.connected IConn.cid s.uLastConnId s.conns count

/-- The next id is neither 0 nor the id of a connection that is alive. -/
def FreshId (s : CConnManager) : Prop :=
  s.uLastConnId ≠ 0 ∧ ∀ pConn conn, s.conns.lookup pConn = some conn → conn.connected = true →
    conn.cid ≠ s.uLastConnId

theorem NumberedConns.onConnected {s : CConnManager} (numbered : s.NumberedConns)
    (fresh : s.FreshId) {pConn : Nat} (conn : IConn)
    (before : ∀ old, s.conns.lookup pConn = some old → old.connected = false) :
    (s.onConnected pConn conn).NumberedConns :=
  numbered.insert_shown { conn with cid := s.uLastConnId, connected := true }
    (by simpa using before) rfl fresh.1 fresh.2

theorem FreshId.of_identifies {s : CConnManager} {pConn : Nat} {conn : IConn}
    (identifies : (s.onConnected pConn conn).Identifies)
    (before : ∀ old, s.conns.lookup pConn = some old → old.connected = false) : s.FreshId :=
  Identify.fresh identifies rfl before

theorem NumberedConns.getConnByIpPort {s : CConnManager} (numbered : s.NumberedConns)
    {strIp : String} {uPort : UInt16} {pNew : Nat} (free : pNew ∉ s.conns) :
    (s.getConnByIpPort strIp uPort pNew).1.NumberedConns := by
  have notLive : s.conns.lookup pNew = none := AList.lookup_eq_none.mpr free
  rw [CConnManager.getConnByIpPort]
  cases s.mapIpPortConn.lookup (__toIpPortKey strIp uPort) with
  | some pConn => exact numbered
  | none => exact numbered.insert_hidden (by simp [notLive]) (by simp) rfl

end CConnManager

namespace RegistryOp

/-- The step that gives out an id gives out a fresh one. -/
def GivesFreshId (s : CConnManager) (op : RegistryOp) : Prop :=
  op.connects = true → s.FreshId

/-- After the step the ids identify the connections, and a close has removed the entry of
no other connection. -/
def KeepsIds (s : CConnManager) (op : RegistryOp) (next : CConnManager) : Prop :=
  next.Identifies ∧ ∀ pConn, op = .close pConn → ∀ cid other, other ≠ pConn →
    s.getConnById cid = some other → next.getConnById cid = some other

theorem keepsIds_of_fresh {s next : CConnManager} {op : RegistryOp} (numbered : s.NumberedConns)
    (fresh : op.GivesFreshId s) (taken : op.apply s = some next) :
    next.NumberedConns ∧ op.KeepsIds s next := by
  have keeps : next.NumberedConns := by
    cases op with
    | getConnByIpPort strIp uPort pNew =>
        simp only [apply, Option.ite_none_left_eq_some, Option.some.injEq] at taken
        obtain ⟨free, rfl⟩ := taken
        exact numbered.getConnByIpPort free
    | accept strPeerIp uPeerPort pNew =>
        simp only [apply, Option.ite_none_left_eq_some, Option.some.injEq] at taken
        obtain ⟨free, rfl⟩ := taken
        exact numbered.onConnected (fresh rfl) _ (by simp [AList.lookup_eq_none.mpr free])
    | connect pConn =>
        cases live : s.conns.lookup pConn with
        | none => simp [apply, live] at taken
        | some conn =>
            simp only [apply, live, Option.ite_none_left_eq_some, Option.some.injEq] at taken
            obtain ⟨waiting, rfl⟩ := taken
            exact numbered.onConnected (fresh rfl) conn (by simpa [live] using waiting)
    | close pConn =>
        cases live : s.conns.lookup pConn with
        | none => simp [apply, live] at taken
        | some conn =>
            simp only [apply, live, Option.some.injEq] at taken
            subst taken
            exact numbered.erase live
  refine ⟨keeps, .of_numbered keeps, ?_⟩
  rintro pConn rfl cid other different found
  refine numbered.index.lookup_stays keeps.index found ?_
  cases closing : s.conns.lookup pConn with
  | none => simp [apply, closing] at taken
  | some conn =>
      simp only [apply, closing, Option.some.injEq] at taken
      subst taken
      exact AList.lookup_erase_ne different

theorem fresh_of_keepsIds {s next : CConnManager} {op : RegistryOp} (keeps : op.KeepsIds s next)
    (taken : op.apply s = some next) : op.GivesFreshId s := by
  intro connects
  cases op with
  | getConnByIpPort strIp uPort pNew => cases connects
  | accept strPeerIp uPeerPort pNew =>
      simp only [apply, Option.ite_none_left_eq_some, Option.some.injEq] at taken
      obtain ⟨free, rfl⟩ := taken
      exact .of_identifies keeps.1 (by simp [AList.lookup_eq_none.mpr free])
  | connect pConn =>
      cases live : s.conns.lookup pConn with
      | none => simp [apply, live] at taken
      | some conn =>
          simp only [apply, live, Option.ite_none_left_eq_some, Option.some.injEq] at taken
          obtain ⟨waiting, rfl⟩ := taken
          exact .of_identifies keeps.1 (by simpa [live] using waiting)
  | close pConn => cases connects

end RegistryOp

theorem CConnManager.numbered_start {s : CConnManager} (start : registrySystem.start s) :
    s.NumberedConns := by
  cases start
  refine ⟨?_, ?_, ?_⟩ <;> simp [IndexOf]

theorem CConnManager.counted_start {s : CConnManager} (start : registrySystem.start s) :
    s.CountedIds 0 := by
  cases start
  exact ⟨rfl, by simp⟩

theorem RegistryOp.counted_step {s next : CConnManager} {op : RegistryOp} {count : Nat}
    (counted : s.CountedIds count) (few : count + op.connects.toNat < 2 ^ 32)
    (taken : op.apply s = some next) : next.CountedIds (count + op.connects.toNat) := by
  cases op with
  | getConnByIpPort strIp uPort pNew =>
      simp only [apply, Option.ite_none_left_eq_some, Option.some.injEq] at taken
      obtain ⟨-, rfl⟩ := taken
      rw [CConnManager.getConnByIpPort]
      cases s.mapIpPortConn.lookup (__toIpPortKey strIp uPort) with
      | some pConn => exact counted
      | none => exact counted.hidden rfl
  | accept strPeerIp uPeerPort pNew =>
      simp only [apply, Option.ite_none_left_eq_some, Option.some.injEq] at taken
      obtain ⟨-, rfl⟩ := taken
      exact counted.onConnected few rfl
  | connect pConn =>
      cases live : s.conns.lookup pConn with
      | none => simp [apply, live] at taken
      | some conn =>
          simp only [apply, live, Option.ite_none_left_eq_some, Option.some.injEq] at taken
          obtain ⟨-, rfl⟩ := taken
          exact counted.onConnected few rfl
  | close pConn =>
      cases live : s.conns.lookup pConn with
      | none => simp [apply, live] at taken
      | some conn =>
          simp only [apply, live, Option.some.injEq] at taken
          subst taken
          exact counted.erase

/-- The ids identify the connections at every step of a run exactly if fewer than `2 ^ 32`
connections have connected in it. -/
theorem registry_keepsIds_iff {ops : List RegistryOp} {s : CConnManager} :
    (registrySystem.filter fun s op next => op.KeepsIds s next).Run ops s ↔
      registrySystem.Run ops s ∧ ops.countP RegistryOp.connects < 2 ^ 32 := by
  apply System.Run.filter_iff_count
    (fun s count => s.NumberedConns ∧ s.CountedIds count) RegistryOp.connects (by decide)
  · exact fun _ start => ⟨CConnManager.numbered_start start, CConnManager.counted_start start⟩
  · rintro s op next count ⟨numbered, counted⟩ few taken
    have fresh : op.GivesFreshId s := fun connects => by
      rw [connects] at few
      exact Counted.fresh counted few
    obtain ⟨after, keeps⟩ := RegistryOp.keepsIds_of_fresh numbered fresh taken
    exact ⟨⟨after, RegistryOp.counted_step counted few taken⟩, keeps⟩
  · rintro s op next count ⟨-, counted⟩ few keeps taken
    cases connects : op.connects with
    | false => exact few
    | true => exact Counted.few counted (RegistryOp.fresh_of_keepsIds keeps taken connects).1 few

/-- One connection after the other comes and goes. -/
theorem exists_run_of_count (count : Nat) :
    ∃ ops s, registrySystem.Run ops s ∧ s.uLastConnId = UInt32.ofNat (count + 1) ∧
      0 ∉ s.conns := by
  induction count with
  | zero => exact ⟨[], {}, .start rfl, rfl, by simp⟩
  | succ count ih =>
      obtain ⟨ops, s, run, last, free⟩ := ih
      let conn : IConn :=
        { strPeerIp := "10.0.0.1", uPeerPort := 40000, connected := true, outgoing := false }
      have accepted : registrySystem.Run (ops ++ [.accept "10.0.0.1" 40000 0])
          (s.onConnected 0 conn) :=
        .step run (by simp [registrySystem, RegistryOp.apply, free, conn])
      have closed : registrySystem.Run ((ops ++ [.accept "10.0.0.1" 40000 0]) ++ [.close 0])
          ((s.onConnected 0 conn).onClose 0 { conn with cid := s.uLastConnId }) :=
        .step accepted (by simp [registrySystem, RegistryOp.apply, CConnManager.onConnected, conn])
      refine ⟨_, _, closed, ?_, ?_⟩
      · simp only [CConnManager.onClose, CConnManager.onConnected, last, UInt32.ofNat_add]
        rfl
      · simp [CConnManager.onClose, CConnManager.onConnected]

end CLibs.Libevwork
