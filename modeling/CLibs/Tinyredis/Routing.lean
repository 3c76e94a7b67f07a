import CLibs.Tinyredis.RedisFactory
import Mathlib.Data.List.TakeWhile

/-!
# Routing

Every sequence of additions and lookups on a new factory: the server that a key is routed
to, when the table is built by the first lookup and stays as it is.
-/

set_option autoImplicit false
set_option linter.style.nameCheck false

namespace CLibs.Tinyredis

open General

/-- A use of the factory; a server has a non-empty address or path. -/
inductive Op where
  | address (strIp : String) (uPort16 : UInt16) (strPass : String) (uMiniSeconds : UInt32)
      (named : strIp ≠ "")
  | path (strPath strPass : String) (uMiniSeconds : UInt32) (named : strPath ≠ "")
  | get (uKey : UInt32)
  | getStr (strKey : List UInt8)

namespace Op

def server : Op → Option SRedisParam
  | address strIp uPort16 strPass uMiniSeconds _ =>
      some { m_strIp := strIp, m_uPort16 := uPort16, m_strPass := strPass,
             m_uMiniSeconds := uMiniSeconds }
  | path strPath strPass uMiniSeconds _ =>
      some { m_strPath := strPath, m_strPass := strPass, m_uMiniSeconds := uMiniSeconds }
  | get _ => none
  | getStr _ => none

def key : Op → Option UInt32
  | get uKey => some uKey
  | getStr strKey => some (fnvHash strKey)
  | _ => none

/-- What the operation does to the factory and, for a lookup, the client that it returns. -/
def apply (s : CRedisFactory) : Op → Except Trap (CRedisFactory × Option Nat)
  | address strIp uPort16 strPass uMiniSeconds _ =>
      .ok (s.addRedisAddress strIp uPort16 strPass uMiniSeconds, none)
  | path strPath strPass uMiniSeconds _ => .ok (s.addRedisPath strPath strPass uMiniSeconds, none)
  | get uKey => s.getRedis uKey
  | getStr strKey => s.getRedisStr strKey

end Op

/-- The factory after the operations `ops` on a new one. -/
def run (ops : List Op) : Except Trap CRedisFactory :=
  ops.foldlM (fun s op => (op.apply s).map (·.1)) {}

def servers (ops : List Op) : List SRedisParam := ops.filterMap (·.server)

/-- The operations before the first lookup. -/
def additions (ops : List Op) : List Op := ops.takeWhile (·.key.isNone)

def hasLookup (ops : List Op) : Bool := ops.any (·.key.isSome)

/-- Where the server is, among `params`, to which they route the key. -/
def place (params : List SRedisParam) (uKey : UInt32) : Nat := uKey.toNat % params.length

/-- The server to which `params` route the key. -/
def route (params : List SRedisParam) (uKey : UInt32) : Option SRedisParam :=
  params[place params uKey]?

/-- Each lookup among the operations is answered with the client of the server it should be.
The clients are made in the order of the servers, so that a client's place among them says
which server it was built from. -/
structure Routes (ops : List Op) : Prop where
  /-- It divides by no zero, and returns the client of the server that all the servers
  added so far make of the key. -/
  routed : ∀ before op after uKey, ops = before ++ op :: after → op.key = some uKey →
    ∃ s next result, run before = .ok s ∧ op.apply s = .ok (next, result) ∧
      ∀ server, route (servers before) uKey = some server →
        result = some (place (servers before) uKey) ∧
          next.clients[place (servers before) uKey]? = server.newClient
  /-- Two lookups for one key return one client, if nothing is added between them. -/
  same : ∀ before op between again after, ops = before ++ op :: (between ++ again :: after) →
    op.key.isSome → op.key = again.key → servers between = [] →
    ∀ s next result s' next' result', run before = .ok s → op.apply s = .ok (next, result) →
      run (before ++ op :: between) = .ok s' → again.apply s' = .ok (next', result') →
      result = result'
  /-- A string key is its hash. -/
  hashed : ∀ before strKey after, ops = before ++ .getStr strKey :: after →
    ∀ s, run before = .ok s → s.getRedisStr strKey = s.getRedis (fnvHash strKey)

/-- Before the first lookup a server was added, and the key is the same modulo the number of
those servers and modulo the number of all. -/
structure Fits (before : List Op) (uKey : UInt32) : Prop where
  added : servers (additions before) ≠ []
  unmoved : uKey.toNat % (servers (additions before)).length =
    uKey.toNat % (servers before).length

/-! ## The table -/

/-- The table has each of `num` clients under its place, as far as 32 bits go. -/
structure Indexed (num : Nat) (map : CRedisMap) : Prop where
  size : map.size = min num (2 ^ 32)
  entries : ∀ uIdx : UInt32,
    map.m_mapIdxRedis.lookup uIdx = if uIdx.toNat < num then some (some uIdx.toNat) else none

theorem Indexed.grow {num : Nat} {map : CRedisMap} (indexed : Indexed num map)
    (room : num < 2 ^ 32) :
    Indexed (num + 1) ⟨map.m_mapIdxRedis.touch (.ofNat map.size) (some num)⟩ := by
  have next : (UInt32.ofNat map.size).toNat = num := by
    rw [UInt32.toNat_ofNat', indexed.size]
    omega
  have missing : UInt32.ofNat map.size ∉ map.m_mapIdxRedis := by
    rw [← AList.lookup_eq_none, indexed.entries, next, if_neg (lt_irrefl _)]
  have old : map.m_mapIdxRedis.keys.length = min num (2 ^ 32) := indexed.size
  rw [Table.touch_of_notMem missing]
  constructor
  · rw [CRedisMap.size, AList.keys_insert, List.length_cons, List.erase_of_not_mem missing, old]
    omega
  · intro uIdx
    by_cases last : uIdx = .ofNat map.size
    · rw [last, AList.lookup_insert, next, if_pos (Nat.lt_succ_self _)]
    · have other : uIdx.toNat ≠ num := by
        rw [← next]
        exact fun same => last (UInt32.toNat_inj.mp same)
      rw [AList.lookup_insert_ne last, indexed.entries]
      exact if_congr (by omega) rfl rfl

/-- From 2^32 clients on the next index is one that the table has, which stays as it is. -/
theorem Indexed.full {num : Nat} {map : CRedisMap} (indexed : Indexed num map)
    (room : ¬ num < 2 ^ 32) (pNew : Option Nat) :
    Indexed (num + 1) ⟨map.m_mapIdxRedis.touch (.ofNat map.size) pNew⟩ := by
  have first : UInt32.ofNat map.size = 0 := by
    rw [indexed.size, Nat.min_eq_right (by omega)]
    rfl
  have there : UInt32.ofNat map.size ∈ map.m_mapIdxRedis := by
    rw [first, ← AList.lookup_isSome, indexed.entries, if_pos (by simp; omega)]
    rfl
  rw [Table.touch_of_mem there]
  refine ⟨?_, fun uIdx => ?_⟩
  · rw [indexed.size]
    omega
  · have small := uIdx.toNat_lt
    rw [indexed.entries, if_pos (by omega), if_pos (by omega)]

/-- What the loop of `CRedisMap::CRedisMap` has made of `params`. -/
structure Made (params : List SRedisParam) (made : List CRedisClient × CRedisMap) : Prop where
  clients : made.1.map some = params.map (·.newClient)
  indexed : Indexed params.length made.2

theorem Made.length {params : List SRedisParam} {made : List CRedisClient × CRedisMap}
    (built : Made params made) : made.1.length = params.length := by
  have lengths := congrArg List.length built.clients
  simpa using lengths

theorem Made.addParam {params : List SRedisParam} {made : List CRedisClient × CRedisMap}
    (built : Made params made) {param : SRedisParam} {client : CRedisClient}
    (named : param.newClient = some client) :
    Made (params ++ [param]) (CRedisMap.addParam made param) := by
  obtain ⟨clients, map⟩ := made
  have length : clients.length = params.length := built.length
  have old : clients.map some = params.map (·.newClient) := built.clients
  have added : CRedisMap.addParam (clients, map) param = (clients ++ [client],
      ⟨map.m_mapIdxRedis.touch (.ofNat map.size) (some params.length)⟩) := by
    simp only [CRedisMap.addParam, named, Option.map_some, Option.toList_some, length]
  rw [added]
  refine ⟨by simp [old, named], ?_⟩
  rw [List.length_append, List.length_singleton]
  by_cases room : params.length < 2 ^ 32
  · exact built.indexed.grow room
  · exact built.indexed.full room _

theorem made_ofParams {params : List SRedisParam}
    (named : ∀ param ∈ params, param.newClient.isSome) :
    Made params (CRedisMap.ofParams params) := by
  induction params using List.reverseRecOn with
  | nil => exact ⟨rfl, rfl, fun _ => rfl⟩
  | append_singleton params param ih =>
      obtain ⟨client, made⟩ := Option.isSome_iff_exists.mp (named param (by simp))
      rw [CRedisMap.ofParams, List.foldl_append]
      exact (ih fun other member => named other (List.mem_append_left _ member)).addParam made

theorem Made.getRedis {params : List SRedisParam} {made : List CRedisClient × CRedisMap}
    (built : Made params made) (filled : params ≠ []) (uKey : UInt32) :
    made.2.getRedis uKey = .ok (some (place params uKey)) ∧
      made.1[place params uKey]? = (route params uKey).bind (·.newClient) := by
  have positive : 0 < params.length := List.length_pos_iff.mpr filled
  have small := uKey.toNat_lt
  have nonzero : made.2.size ≠ 0 := by
    rw [built.indexed.size]
    omega
  have index : uKey.toNat % made.2.size = uKey.toNat % params.length := by
    rw [built.indexed.size]
    by_cases room : params.length < 2 ^ 32
    · rw [Nat.min_eq_left room.le]
    · rw [Nat.min_eq_right (by omega), Nat.mod_eq_of_lt small, Nat.mod_eq_of_lt (by omega)]
  have below : uKey.toNat % params.length < params.length := Nat.mod_lt _ positive
  have value : (UInt32.ofNat (uKey.toNat % made.2.size)).toNat = uKey.toNat % params.length := by
    have bound := Nat.mod_le uKey.toNat params.length
    rw [index, UInt32.toNat_ofNat', Nat.mod_eq_of_lt (by omega)]
  constructor
  · rw [CRedisMap.getRedis, CRedisMap.__toIndex, if_neg nonzero, Except.map, built.indexed.entries, value,
      if_pos below]
    rfl
  · have inside : uKey.toNat % params.length < made.1.length := by
      rw [built.length]
      exact below
    have there := congrArg (·[uKey.toNat % params.length]?) built.clients
    simpa [route, place, below, inside] using there

/-! ## Runs -/

theorem run_append (ops : List Op) (op : Op) :
    run (ops ++ [op]) = (run ops).bind fun s => (op.apply s).map (·.1) := by
  unfold run
  rw [List.foldlM_append]
  cases ops.foldlM (fun s op => (op.apply s).map (·.1)) ({} : CRedisFactory) with
  | error trap => rfl
  | ok s =>
      show ([op].foldlM (fun s op => (op.apply s).map (·.1)) s : Except Trap CRedisFactory) =
        (op.apply s).map (·.1)
      rw [List.foldlM_cons]
      cases (op.apply s).map (·.1) <;> rfl

theorem run_append_ok {ops : List Op} {op : Op} {next : CRedisFactory} :
    run (ops ++ [op]) = .ok next ↔
      ∃ s result, run ops = .ok s ∧ op.apply s = .ok (next, result) := by
  rw [run_append]
  cases run ops with
  | error trap => simp [Except.bind]
  | ok s =>
      cases applied : op.apply s with
      | error trap => simp [Except.bind, Except.map, applied]
      | ok outcome =>
          obtain ⟨after, result⟩ := outcome
          simp [Except.bind, Except.map, applied]

theorem servers_append (before after : List Op) :
    servers (before ++ after) = servers before ++ servers after :=
  List.filterMap_append

theorem servers_named {ops : List Op} {param : SRedisParam} (added : param ∈ servers ops) :
    param.newClient.isSome := by
  obtain ⟨op, -, server⟩ := List.mem_filterMap.mp added
  cases op with
  | address strIp uPort16 strPass uMiniSeconds named =>
      cases server
      simp [SRedisParam.newClient, named]
  | path strPath strPass uMiniSeconds named =>
      cases server
      simp [SRedisParam.newClient, named]
  | get uKey => cases server
  | getStr strKey => cases server

theorem Op.server_of_key {op : Op} {uKey : UInt32} (lookup : op.key = some uKey) :
    op.server = none := by
  cases op with
  | address strIp uPort16 strPass uMiniSeconds named => cases lookup
  | path strPath strPass uMiniSeconds named => cases lookup
  | get uKey => rfl
  | getStr strKey => rfl

theorem Op.apply_addition {op : Op} (addition : op.key = none) (s : CRedisFactory) :
    ∃ server, op.server = some server ∧
      op.apply s = .ok ({ s with m_vecRedisParam := s.m_vecRedisParam ++ [server] }, none) := by
  cases op with
  | address strIp uPort16 strPass uMiniSeconds named => exact ⟨_, rfl, rfl⟩
  | path strPath strPass uMiniSeconds named => exact ⟨_, rfl, rfl⟩
  | get uKey => cases addition
  | getStr strKey => cases addition

theorem Op.apply_lookup {op : Op} {uKey : UInt32} (lookup : op.key = some uKey)
    (s : CRedisFactory) : op.apply s = s.getRedis uKey := by
  cases op with
  | address strIp uPort16 strPass uMiniSeconds named => cases lookup
  | path strPath strPass uMiniSeconds named => cases lookup
  | get key =>
      cases lookup
      rfl
  | getStr strKey =>
      cases lookup
      rfl

theorem hasLookup_append (before after : List Op) :
    hasLookup (before ++ after) = (hasLookup before || hasLookup after) :=
  List.any_append

theorem additions_append_of_lookup {ops : List Op} (looked : hasLookup ops = true)
    (more : List Op) : additions (ops ++ more) = additions ops := by
  induction ops with
  | nil => cases looked
  | cons op ops ih =>
      rw [additions, List.cons_append, List.takeWhile_cons, additions, List.takeWhile_cons]
      cases lookup : op.key with
      | none =>
          have later : hasLookup ops = true := by
            rw [hasLookup, List.any_cons, lookup] at looked
            exact looked
          exact congrArg (op :: ·) (ih later)
      | some uKey => rfl

theorem additions_of_no_lookup {ops : List Op} (unlooked : hasLookup ops = false) :
    additions ops = ops := by
  refine List.takeWhile_eq_self_iff.mpr fun op member => ?_
  have addition := List.any_eq_false.mp unlooked op member
  rwa [Bool.not_eq_true, Option.isSome_eq_false_iff] at addition

/-- The table that the first lookup after `ops` finds or builds. -/
def table (ops : List Op) : List CRedisClient × CRedisMap :=
  CRedisMap.ofParams (servers (additions ops))

/-- What a run of `ops` leaves: the servers in their order, and from the first lookup on
the table of those before it. -/
structure Settled (ops : List Op) (s : CRedisFactory) : Prop where
  params : s.m_vecRedisParam = servers ops
  fresh : hasLookup ops = false → s.m_pRedisMap = none
  frozen : hasLookup ops = true →
    s.m_pRedisMap = some (table ops).2 ∧ s.clients = (table ops).1

theorem Settled.getRedis {ops : List Op} {s : CRedisFactory} (settled : Settled ops s)
    (uKey : UInt32) :
    s.getRedis uKey = ((table ops).2.getRedis uKey).map
      ({ s with m_pRedisMap := some (table ops).2, clients := (table ops).1 }, ·) := by
  cases looked : hasLookup ops with
  | false =>
      have built : CRedisMap.ofParams s.m_vecRedisParam = table ops := by
        rw [settled.params, table, additions_of_no_lookup looked]
      rw [CRedisFactory.getRedis, CRedisFactory.__getRedisMap, settled.fresh looked]
      dsimp only
      rw [built]
  | true =>
      obtain ⟨map, clients⟩ := settled.frozen looked
      cases s with
      | mk params found made =>
          subst map clients
          rfl

theorem table_append {ops : List Op} (looked : hasLookup ops = true) (more : List Op) :
    table (ops ++ more) = table ops := by
  rw [table, additions_append_of_lookup looked, table]

theorem table_append_lookup {ops : List Op} {op : Op} {uKey : UInt32}
    (lookup : op.key = some uKey) : table (ops ++ [op]) = table ops := by
  cases looked : hasLookup ops with
  | true => exact table_append looked [op]
  | false =>
      have all : ∀ other ∈ ops, other.key.isNone = true :=
        List.takeWhile_eq_self_iff.mp (additions_of_no_lookup looked)
      rw [table, additions, List.takeWhile_append_of_pos all, table,
        additions_of_no_lookup looked, List.takeWhile_cons_of_neg (by simp [lookup]),
        List.append_nil]

theorem Settled.apply {ops : List Op} {s next : CRedisFactory} {op : Op} {result : Option Nat}
    (settled : Settled ops s) (applied : op.apply s = .ok (next, result)) :
    Settled (ops ++ [op]) next := by
  cases lookup : op.key with
  | none =>
      obtain ⟨server, added, grown⟩ := op.apply_addition lookup s
      have looks : hasLookup (ops ++ [op]) = hasLookup ops := by
        rw [hasLookup_append, hasLookup, hasLookup, List.any_cons, lookup]
        exact Bool.or_false _
      rw [grown] at applied
      cases applied
      refine ⟨?_, fun unlooked => settled.fresh (looks ▸ unlooked), fun looked => ?_⟩
      · show s.m_vecRedisParam ++ [server] = _
        rw [settled.params, servers_append, servers, servers, List.filterMap_cons_some added,
          List.filterMap_nil]
      · rw [table_append (looks ▸ looked)]
        exact settled.frozen (looks ▸ looked)
  | some uKey =>
      have looks : hasLookup (ops ++ [op]) = true := by
        rw [hasLookup_append, hasLookup, hasLookup, List.any_cons, lookup]
        exact Bool.or_true _
      rw [Op.apply_lookup lookup, settled.getRedis uKey] at applied
      cases found : (table ops).2.getRedis uKey with
      | error trap =>
          rw [found] at applied
          cases applied
      | ok pClient =>
          rw [found] at applied
          cases applied
          refine ⟨?_, fun unlooked => ?_, fun _ => ?_⟩
          · show s.m_vecRedisParam = _
            rw [settled.params, servers_append, servers, servers,
              List.filterMap_cons_none (Op.server_of_key lookup), List.filterMap_nil,
              List.append_nil]
          · rw [looks] at unlooked
            cases unlooked
          · rw [table_append_lookup lookup]
            exact ⟨rfl, rfl⟩

theorem settled_of_run {ops : List Op} {s : CRedisFactory} (ran : run ops = .ok s) :
    Settled ops s := by
  induction ops using List.reverseRecOn generalizing s with
  | nil =>
      cases ran
      exact ⟨rfl, fun _ => rfl, nofun⟩
  | append_singleton ops op ih =>
      obtain ⟨middle, result, before, applied⟩ := run_append_ok.mp ran
      exact (ih before).apply applied

theorem made_table (ops : List Op) : Made (servers (additions ops)) (table ops) :=
  made_ofParams fun _ => servers_named

theorem route_ne_none {params : List SRedisParam} (filled : params ≠ []) (uKey : UInt32) :
    ∃ server, route params uKey = some server :=
  ⟨_, List.getElem?_eq_getElem (Nat.mod_lt _ (List.length_pos_iff.mpr filled))⟩

/-- The servers in the table are the first ones of all. -/
theorem servers_additions (ops : List Op) : servers (additions ops) <+: servers ops := by
  have split :
      servers (additions ops) ++ servers (ops.dropWhile (·.key.isNone)) = servers ops := by
    rw [← servers_append, additions, List.takeWhile_append_dropWhile]
  exact ⟨_, split⟩

theorem lookup_result {before : List Op} {s next : CRedisFactory} {op : Op} {uKey : UInt32}
    {result : Option Nat} (ran : run before = .ok s) (lookup : op.key = some uKey)
    (applied : op.apply s = .ok (next, result)) :
    (table before).2.getRedis uKey = .ok result ∧ next.clients = (table before).1 := by
  rw [Op.apply_lookup lookup, (settled_of_run ran).getRedis uKey] at applied
  cases found : (table before).2.getRedis uKey with
  | error trap =>
      rw [found] at applied
      cases applied
  | ok pClient =>
      rw [found] at applied
      cases applied
      exact ⟨rfl, rfl⟩

theorem lookup_added {before : List Op} {s : CRedisFactory} {op : Op} {uKey : UInt32}
    (ran : run before = .ok s) (lookup : op.key = some uKey)
    (added : servers (additions before) ≠ []) :
    ∃ next, op.apply s = .ok (next, some (place (servers (additions before)) uKey)) ∧
      next.clients[place (servers (additions before)) uKey]? =
        (route (servers (additions before)) uKey).bind (·.newClient) := by
  obtain ⟨found, client⟩ := (made_table before).getRedis added uKey
  rw [Op.apply_lookup lookup, (settled_of_run ran).getRedis uKey, found]
  exact ⟨_, rfl, client⟩

/-- A lookup before any addition divides by zero. -/
theorem lookup_trap {before : List Op} {s : CRedisFactory} {op : Op} {uKey : UInt32}
    (ran : run before = .ok s) (lookup : op.key = some uKey)
    (bare : servers (additions before) = []) : op.apply s = .error .divisionByZero := by
  have empty : table before = ([], {}) := by rw [table, bare]; rfl
  rw [Op.apply_lookup lookup, (settled_of_run ran).getRedis uKey, empty]
  rfl

theorem run_ok {ops : List Op}
    (added : ∀ before op after uKey, ops = before ++ op :: after → op.key = some uKey →
      servers (additions before) ≠ []) : ∃ s, run ops = .ok s := by
  induction ops using List.reverseRecOn with
  | nil => exact ⟨_, rfl⟩
  | append_singleton ops op ih =>
      obtain ⟨s, ran⟩ := ih fun before other after uKey split lookup =>
        added before other (after ++ [op]) uKey (by rw [split]; simp) lookup
      have next : ∃ next result, op.apply s = .ok (next, result) := by
        cases lookup : op.key with
        | none =>
            obtain ⟨server, -, grown⟩ := op.apply_addition lookup s
            exact ⟨_, _, grown⟩
        | some uKey =>
            obtain ⟨next, applied, -⟩ :=
              lookup_added ran lookup (added ops op [] uKey rfl lookup)
            exact ⟨_, _, applied⟩
      obtain ⟨next, result, applied⟩ := next
      exact ⟨next, run_append_ok.mpr ⟨s, result, ran, applied⟩⟩

/-- The lookups are answered as they should be exactly if each comes after an addition and
the additions after the first lookup leave its key where it was. -/
theorem routes_iff (ops : List Op) :
    Routes ops ↔ ∀ before op after uKey, ops = before ++ op :: after → op.key = some uKey →
      Fits before uKey := by
  constructor
  · intro routes before op after uKey split lookup
    obtain ⟨s, next, result, ran, applied, answered⟩ := routes.routed _ _ _ _ split lookup
    have added : servers (additions before) ≠ [] := by
      intro bare
      rw [lookup_trap ran lookup bare] at applied
      cases applied
    have all : servers before ≠ [] := fun none =>
      added (List.prefix_nil.mp (none ▸ servers_additions before))
    obtain ⟨server, routed⟩ := route_ne_none all uKey
    obtain ⟨next', again, -⟩ := lookup_added ran lookup added
    obtain ⟨returned, -⟩ := answered server routed
    rw [applied, returned, Except.ok.injEq, Prod.mk.injEq, Option.some.injEq] at again
    exact ⟨added, again.2.symm⟩
  · intro fits
    refine ⟨fun before op after uKey split lookup => ?_, ?_, fun _ _ _ _ _ _ => rfl⟩
    · obtain ⟨s, ran⟩ := @run_ok before fun earlier other later key split' lookup' =>
        (fits earlier other (later ++ op :: after) key (by rw [split, split']; simp) lookup').added
      have here := fits before op after uKey split lookup
      obtain ⟨next, applied, client⟩ := lookup_added ran lookup here.added
      have unmoved : place (servers (additions before)) uKey = place (servers before) uKey :=
        here.unmoved
      obtain ⟨first, kept⟩ := route_ne_none here.added uKey
      have also : route (servers before) uKey = some first := by
        obtain ⟨later, whole⟩ := servers_additions before
        have inside := (List.getElem?_eq_some_iff.mp kept).1
        rw [route, ← unmoved, ← whole, List.getElem?_append_left inside]
        exact kept
      rw [unmoved, kept, Option.bind_some] at client
      refine ⟨s, next, _, ran, applied, fun server routed => ?_⟩
      rw [also] at routed
      cases routed
      exact ⟨congrArg some unmoved, client⟩
    · intro before op between again after split looked keys _ s next result s' next' result'
        ran applied ran' applied'
      obtain ⟨uKey, lookup⟩ := Option.isSome_iff_exists.mp looked
      have unchanged : table (before ++ op :: between) = table before := by
        have there : hasLookup (before ++ [op]) = true := by
          rw [hasLookup_append, hasLookup, hasLookup, List.any_cons, looked]
          exact Bool.or_true _
        rw [← List.singleton_append, ← List.append_assoc, table_append there,
          table_append_lookup lookup]
      have found := (lookup_result ran lookup applied).1
      have found' := (lookup_result ran' (keys ▸ lookup) applied').1
      rw [unchanged, found] at found'
      exact Except.ok.inj found'

/-- A lookup on a new factory. -/
theorem not_routes : ¬ ∀ ops : List Op, Routes ops := by
  intro always
  obtain ⟨s, next, result, ran, applied, -⟩ :=
    (always [.get 0]).routed [] (.get 0) [] 0 rfl rfl
  rw [lookup_trap ran rfl rfl] at applied
  cases applied

end CLibs.Tinyredis
