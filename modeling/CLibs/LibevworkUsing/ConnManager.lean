import CLibs.Libevwork.ConnIds

/-!
# The connection registry of `libevwork_using`

`CConnManager` without the map from addresses to connections: `connectServer` makes a
new connection each time. Its ids come from the same unchecked counter.
-/

set_option autoImplicit false
set_option linter.style.nameCheck false

namespace CLibs.LibevworkUsing

open General Libevwork

structure IConn where
  cid : UInt32 := 0
  connected : Bool

structure CConnManager where
  uLastConnId : UInt32 := 1
  mapCIdConn : Table UInt32 Nat := ∅
  /-- The connections that are alive. -/
  conns : Table Nat IConn := ∅

namespace CConnManager

def getConnById (s : CConnManager) (uConnId : UInt32) : Option Nat := s.mapCIdConn.lookup uConnId

/-- `connectServer`. The test for a failed connect never holds: `getfd` is unsigned. -/
def connectServer (s : CConnManager) (pNew : Nat) : CConnManager :=
  { s with conns := s.conns.insert pNew { connected := false } }

def onConnected (s : CConnManager) (pConn : Nat) (conn : IConn) : CConnManager :=
  { s with
    conns := s.conns.insert pConn { conn with cid := s.uLastConnId, connected := true }
    mapCIdConn := s.mapCIdConn.insert s.uLastConnId pConn
    uLastConnId := s.uLastConnId + 1 }

def onClose (s : CConnManager) (pConn : Nat) (conn : IConn) : CConnManager :=
  { s with
    mapCIdConn := s.mapCIdConn.erase conn.cid
    conns := s.conns.erase pConn }

end CConnManager

/-- What happens to the connections. `pNew` is an address that is not in use. -/
inductive RegistryOp where
  | connectServer (pNew : Nat)
  | accept (pNew : Nat)
  /-- The connect of an outgoing connection succeeds. -/
  | connect (pConn : Nat)
  /-- A connection is closed, or its connect fails. -/
  | close (pConn : Nat)

namespace RegistryOp

def apply (s : CConnManager) : RegistryOp → Option CConnManager
  | .connectServer pNew => if pNew ∈ s.conns then none else some (s.connectServer pNew)
  | .accept pNew =>
      if pNew ∈ s.conns then none else some (s.onConnected pNew { connected := true })
  | .connect pConn =>
      match s.conns.lookup pConn with
      | some conn => if conn.connected then none else some (s.onConnected pConn conn)
      | none => none
  | .close pConn =>
      match s.conns.lookup pConn with
      | some conn => some (s.onClose pConn conn)
      | none => none

/-- The steps in which `onConnected` gives out a connection id. -/
def connects : RegistryOp → Bool
  | .accept _ => true
  | .connect _ => true
  | _ => false

end RegistryOp

def registrySystem : System CConnManager RegistryOp where
  start s := s = {}
  step s op next := op.apply s = some next

/-! ## Connection ids -/

namespace CConnManager

def NumberedConns (s : CConnManager) : Prop :=
  Numbered s.mapCIdConn s.conns (fun conn => conn.connected = true) IConn.cid 0

def Identifies (s : CConnManager) : Prop :=
  Identify IConn.connected IConn.cid s.mapCIdConn s.conns

def CountedIds (s : CConnManager) (count : Nat) : Prop :=
  Counted IConn.connected IConn.cid s.uLastConnId s.conns count

/-- The next id is neither 0 nor the id of a connection that is alive. -/
def FreshId (s : CConnManager) : Prop :=
  s.uLastConnId ≠ 0 ∧ ∀ pConn conn, s.conns.lookup pConn = some conn → conn.connected = true →
    conn.cid ≠ s.uLastConnId

theorem NumberedConns.onConnected {s : CConnManager} (numbered : s.NumberedConns)
    (fresh : s.FreshId) {pConn : Nat} (conn : IConn)
    (before : ∀ old, s.conns.lookup pConn = some old → old.connected = false) :
    (s.onConnected pConn conn).NumberedConns :=
  numbered.insert_shown { conn with cid := s.uLastConnId, connected := true }
    (by simpa using before) rfl fresh.1 fresh.2

theorem FreshId.of_identifies {s : CConnManager} {pConn : Nat} {conn : IConn}
    (identifies : (s.onConnected pConn conn).Identifies)
    (before : ∀ old, s.conns.lookup pConn = some old → old.connected = false) : s.FreshId :=
  Identify.fresh identifies rfl before

end CConnManager

namespace RegistryOp

/-- The step that gives out an id gives out a fresh one. -/
def GivesFreshId (s : CConnManager) (op : RegistryOp) : Prop :=
  op.connects = true → s.FreshId

/-- After the step the ids identify the connections, and a close has removed the entry of
no other connection. -/
def KeepsIds (s : CConnManager) (op : RegistryOp) (next : CConnManager) : Prop :=
  next.Identifies ∧ ∀ pConn, op = .close pConn → ∀ cid other, other ≠ pConn →
    s.getConnById cid = some other → next.getConnById cid = some other

theorem keepsIds_of_fresh {s next : CConnManager} {op : RegistryOp} (numbered : s.NumberedConns)
    (fresh : op.GivesFreshId s) (taken : op.apply s = some next) :
    next.NumberedConns ∧ op.KeepsIds s next := by
  have keeps : next.NumberedConns := by
    cases op with
    | connectServer pNew =>
        simp only [apply, Option.ite_none_left_eq_some, Option.some.injEq] at taken
        obtain ⟨free, rfl⟩ := taken
        exact numbered.insert_hidden (by simp [AList.lookup_eq_none.mpr free]) (by simp) rfl
    | accept pNew =>
        simp only [apply, Option.ite_none_left_eq_some, Option.some.injEq] at taken
        obtain ⟨free, rfl⟩ := taken
        exact numbered.onConnected (fresh rfl) _ (by simp [AList.lookup_eq_none.mpr free])
    | connect pConn =>
        cases live : s.conns.lookup pConn with
        | none => simp [apply, live] at taken
        | some conn =>
            simp only [apply, live, Option.ite_none_left_eq_some, Option.some.injEq] at taken
            obtain ⟨waiting, rfl⟩ := taken
            exact numbered.onConnected (fresh rfl) conn (by simpa [live] using waiting)
    | close pConn =>
        cases live : s.conns.lookup pConn with
        | none => simp [apply, live] at taken
        | some conn =>
            simp only [apply, live, Option.some.injEq] at taken
            subst taken
            exact numbered.erase live
  refine ⟨keeps, .of_numbered keeps, ?_⟩
  rintro pConn rfl cid other different found
  refine numbered.index.lookup_stays keeps.index found ?_
  cases closing : s.conns.lookup pConn with
  | none => simp [apply, closing] at taken
  | some conn =>
      simp only [apply, closing, Option.some.injEq] at taken
      subst taken
      exact AList.lookup_erase_ne different

theorem fresh_of_keepsIds {s next : CConnManager} {op : RegistryOp} (keeps : op.KeepsIds s next)
    (taken : op.apply s = some next) : op.GivesFreshId s := by
  intro connects
  cases op with
  | connectServer pNew => cases connects
  | accept pNew =>
      simp only [apply, Option.ite_none_left_eq_some, Option.some.injEq] at taken
      obtain ⟨free, rfl⟩ := taken
      exact .of_identifies keeps.1 (by simp [AList.lookup_eq_none.mpr free])
  | connect pConn =>
      cases live : s.conns.lookup pConn with
      | none => simp [apply, live] at taken
      | some conn =>
          simp only [apply, live, Option.ite_none_left_eq_some, Option.some.injEq] at taken
          obtain ⟨waiting, rfl⟩ := taken
          exact .of_identifies keeps.1 (by simpa [live] using waiting)
  | close pConn => cases connects

end RegistryOp

theorem RegistryOp.counted_step {s next : CConnManager} {op : RegistryOp} {count : Nat}
    (counted : s.CountedIds count) (few : count + op.connects.toNat < 2 ^ 32)
    (taken : op.apply s = some next) : next.CountedIds (count + op.connects.toNat) := by
  cases op with
  | connectServer pNew =>
      simp only [apply, Option.ite_none_left_eq_some, Option.some.injEq] at taken
      obtain ⟨-, rfl⟩ := taken
      exact counted.hidden rfl
  | accept pNew =>
      simp only [apply, Option.ite_none_left_eq_some, Option.some.injEq] at taken
      obtain ⟨-, rfl⟩ := taken
      exact counted.onConnected few rfl
  | connect pConn =>
      cases live : s.conns.lookup pConn with
      | none => simp [apply, live] at taken
      | some conn =>
          simp only [apply, live, Option.ite_none_left_eq_some, Option.some.injEq] at taken
          obtain ⟨-, rfl⟩ := taken
          exact counted.onConnected few rfl
  | close pConn =>
      cases live : s.conns.lookup pConn with
      | none => simp [apply, live] at taken
      | some conn =>
          simp only [apply, live, Option.some.injEq] at taken
          subst taken
          exact counted.erase

theorem registry_keepsIds_iff {ops : List RegistryOp} {s : CConnManager} :
    (registrySystem.filter fun s op next => op.KeepsIds s next).Run ops s ↔
      registrySystem.Run ops s ∧ ops.countP RegistryOp.connects < 2 ^ 32 := by
  apply System.Run.filter_iff_count
    (fun s count => s.NumberedConns ∧ s.CountedIds count) RegistryOp.connects (by decide)
  · rintro s rfl
    refine ⟨⟨?_, ?_, ?_⟩, rfl, ?_⟩ <;> simp [IndexOf]
  · rintro s op next count ⟨numbered, counted⟩ few taken
    have fresh : op.GivesFreshId s := fun connects => by
      rw [connects] at few
      exact Counted.fresh counted few
    obtain ⟨after, keeps⟩ := RegistryOp.keepsIds_of_fresh numbered fresh taken
    exact ⟨⟨after, RegistryOp.counted_step counted few taken⟩, keeps⟩
  · rintro s op next count ⟨-, counted⟩ few keeps taken
    cases connects : op.connects with
    | false => exact few
    | true => exact Counted.few counted (RegistryOp.fresh_of_keepsIds keeps taken connects).1 few

/-- In both libraries the ids identify the connections at every step of a run exactly if fewer
than `2 ^ 32` connections have connected in it, however many of them were closed again. -/
theorem ids_identify_iff (ops : List Libevwork.RegistryOp) (s : Libevwork.CConnManager)
    (usingOps : List RegistryOp) (t : CConnManager) :
    ((Libevwork.registrySystem.filter fun s op next => op.KeepsIds s next).Run ops s ↔
      Libevwork.registrySystem.Run ops s ∧
        ops.countP Libevwork.RegistryOp.connects < 2 ^ 32) ∧
    ((registrySystem.filter fun s op next => op.KeepsIds s next).Run usingOps t ↔
      registrySystem.Run usingOps t ∧ usingOps.countP RegistryOp.connects < 2 ^ 32) :=
  ⟨Libevwork.registry_keepsIds_iff, registry_keepsIds_iff⟩

/-- After `2 ^ 32 - 1` connections have come and gone, the next one gets the id 0. -/
theorem not_ids_identify :
    ¬ ∀ (ops : List Libevwork.RegistryOp) (s : Libevwork.CConnManager),
      Libevwork.registrySystem.Run ops s → s.Identifies := by
  intro always
  obtain ⟨ops, s, run, last, free⟩ := Libevwork.exists_run_of_count (2 ^ 32 - 1)
  have zero : s.uLastConnId = 0 := last.trans (by decide)
  let conn : Libevwork.IConn :=
    { strPeerIp := "10.0.0.1", uPeerPort := 40000, connected := true, outgoing := false }
  have accepted : Libevwork.registrySystem.Run (ops ++ [.accept "10.0.0.1" 40000 0])
      (s.onConnected 0 conn) :=
    .step run (by simp [Libevwork.registrySystem, Libevwork.RegistryOp.apply, free, conn])
  have identifies := always _ _ accepted
  exact identifies.nonZero 0 { conn with cid := s.uLastConnId, connected := true }
    (AList.lookup_insert _) rfl zero

end CLibs.LibevworkUsing
