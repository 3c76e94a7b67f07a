import CLibs.General.Table
import CLibs.Tinyredis.RedisClient

/-!
# The table of servers

`CRedisFactory`, `CRedisMap` and the hash of string keys. The table of clients is built by
the first lookup, from the servers that were added until then.
-/

set_option autoImplicit false
set_option linter.style.nameCheck false

namespace CLibs.Tinyredis

open General

/-- The bits of `fnvHash` after its loop. -/
def fnvMix (uHash : UInt32) : UInt32 :=
  let uHash := uHash + uHash <<< 13
  let uHash := uHash ^^^ uHash >>> 7
  let uHash := uHash + uHash <<< 3
  let uHash := uHash ^^^ uHash >>> 17
  uHash + uHash <<< 5

def fnvHash (pData : List UInt8) : UInt32 :=
  fnvMix (pData.foldl (fun uHash byte => (uHash ^^^ byte.toUInt32) * 16777619) 0x811C9DC5)

structure SRedisParam where
  m_strIp : String := ""
  /-- Set only along with `m_strIp`. -/
  m_uPort16 : UInt16 := 0
  m_strPath : String := ""
  m_strPass : String
  m_uMiniSeconds : UInt32

/-- The client that `CRedisMap::CRedisMap` makes for a server; `none` is the null pointer. -/
def SRedisParam.newClient (param : SRedisParam) : Option CRedisClient :=
  if param.m_strIp ≠ "" then
    some (.ofAddress param.m_strIp param.m_uPort16 param.m_strPass param.m_uMiniSeconds)
  else if param.m_strPath ≠ "" then
    some (.ofPath param.m_strPath param.m_strPass param.m_uMiniSeconds)
  else none

/-- A trap of the processor. -/
inductive Trap where
  | divisionByZero
deriving DecidableEq

structure CRedisMap where
  m_mapIdxRedis : Table UInt32 (Option Nat) := ∅

namespace CRedisMap

def size (map : CRedisMap) : Nat := map.m_mapIdxRedis.keys.length

/-- One turn of the loop in `CRedisMap::CRedisMap`, with the clients made so far: the address
of a client is its place among them. `insert` leaves a key that is there as it is. -/
def addParam (made : List CRedisClient × CRedisMap) (param : SRedisParam) :
    List CRedisClient × CRedisMap :=
  let (clients, map) := made
  let pNew := param.newClient.map fun _ => clients.length
  (clients ++ param.newClient.toList, ⟨map.m_mapIdxRedis.touch (.ofNat map.size) pNew⟩)

def ofParams (vecParam : List SRedisParam) : List CRedisClient × CRedisMap :=
  vecParam.foldl addParam ([], {})

def __toIndex (map : CRedisMap) (uKey : UInt32) : Except Trap UInt32 :=
  if map.size = 0 then .error .divisionByZero else .ok (.ofNat (uKey.toNat % map.size))

def getRedis (map : CRedisMap) (uKey : UInt32) : Except Trap (Option Nat) :=
  (map.__toIndex uKey).map fun uIdx => (map.m_mapIdxRedis.lookup uIdx).join

def getRedisStr (map : CRedisMap) (strKey : List UInt8) : Except Trap (Option Nat) :=
  map.getRedis (fnvHash strKey)

end CRedisMap

structure CRedisFactory where
  m_vecRedisParam : List SRedisParam := []
  m_pRedisMap : Option CRedisMap := none
  /-- The clients that were made, by their addresses. -/
  clients : List CRedisClient := []

namespace CRedisFactory

def addRedisAddress (s : CRedisFactory) (strIp : String) (uPort16 : UInt16) (strPass : String)
    (uMiniSeconds : UInt32) : CRedisFactory :=
  { s with m_vecRedisParam := s.m_vecRedisParam ++ [{
      m_strIp := strIp
      m_uPort16 := uPort16
      m_strPass := strPass
      m_uMiniSeconds := uMiniSeconds }] }

def addRedisPath (s : CRedisFactory) (strPath strPass : String) (uMiniSeconds : UInt32) :
    CRedisFactory :=
  { s with m_vecRedisParam := s.m_vecRedisParam ++ [{
      m_strPath := strPath
      m_strPass := strPass
      m_uMiniSeconds := uMiniSeconds }] }

def __getRedisMap (s : CRedisFactory) : CRedisFactory × CRedisMap :=
  match s.m_pRedisMap with
  | some map => (s, map)
  | none =>
      let (clients, map) := CRedisMap.ofParams s.m_vecRedisParam
      ({ s with m_pRedisMap := some map, clients := clients }, map)

def getRedis (s : CRedisFactory) (uKey : UInt32) : Except Trap (CRedisFactory × Option Nat) :=
  let (s, map) := s.__getRedisMap
  (map.getRedis uKey).map (s, ·)

def getRedisStr (s : CRedisFactory) (strKey : List UInt8) :
    Except Trap (CRedisFactory × Option Nat) :=
  let (s, map) := s.__getRedisMap
  (map.getRedisStr strKey).map (s, ·)

end CRedisFactory

end CLibs.Tinyredis
