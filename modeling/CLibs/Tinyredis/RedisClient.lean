import Mathlib.Tactic

/-!
# The client of one server

`CRedisClient` with its connect, `auth` and command, and the error text that a failed call
leaves. hiredis is the environment: a call asks it for one connect, one `auth` and one
command at most, so its answers to a call are functions of their arguments.
-/

set_option autoImplicit false
set_option linter.style.nameCheck false

namespace CLibs.Tinyredis

/-- `REDIS_OK`; every other `err` is an error. -/
def REDIS_OK : Int := 0

structure redisContext where
  err : Int := REDIS_OK
  errstr : String := ""

/-- The kinds of reply, `REDIS_REPLY_STRING` and the rest. -/
inductive ReplyType where
  | string
  | array
  | integer
  | nil
  | status
  | error
deriving DecidableEq

/-- A reply; `str` has the bytes of a string, of a status or of an error. -/
structure redisReply where
  type : ReplyType
  str : String := ""

namespace redisReply

def isStatus (reply : redisReply) : Bool := reply.type = .status

def isOK (reply : redisReply) : Bool := reply.str = "OK"

end redisReply

structure timeval where
  tv_sec : UInt32
  tv_usec : UInt32

/-- What hiredis answers during one call; `none` is the null pointer. A command also leaves
the context as it is after it. -/
structure Hiredis where
  redisConnectWithTimeout : String → UInt16 → timeval → Option redisContext
  redisConnectUnixWithTimeout : String → timeval → Option redisContext
  /-- `redisCommand` with the format `auth %s`. -/
  redisCommand : redisContext → String → Option redisReply × redisContext
  /-- `redisvCommand` with the command that the caller's format and arguments make. -/
  redisvCommand : redisContext → String → Option redisReply × redisContext

/-- How the null context was followed: to read a member, or to issue a command. -/
inductive Fault where
  | member
  | command
deriving DecidableEq

structure CRedisClient where
  m_strIp : String := ""
  /-- Set only along with `m_strIp`. -/
  m_uPort16 : UInt16 := 0
  m_strPath : String := ""
  m_strPass : String
  m_uMiniSeconds : UInt32
  m_pRedisClient : Option redisContext := none
  m_strErrStr : String := ""

def cStr (text : String) : String := String.ofList (text.toList.takeWhile (·.toNat ≠ 0))

namespace CRedisClient

def ofAddress (strIp : String) (uPort16 : UInt16) (strPass : String) (uMiniSeconds : UInt32) :
    CRedisClient where
  m_strIp := strIp
  m_uPort16 := uPort16
  m_strPass := strPass
  m_uMiniSeconds := uMiniSeconds

def ofPath (strPath strPass : String) (uMiniSeconds : UInt32) : CRedisClient where
  m_strPath := strPath
  m_strPass := strPass
  m_uMiniSeconds := uMiniSeconds

/-- A character is a byte: `szErrTmp` has room for 1023 of them. -/
def __makeErrorString (s : CRedisClient) (text : String) : CRedisClient :=
  { s with m_strErrStr := String.ofList (text.toList.take 1023) }

def addressName (s : CRedisClient) : String :=
  "redis[" ++ cStr s.m_strIp ++ ":" ++ toString s.m_uPort16.toNat ++ "]"

def pathName (s : CRedisClient) : String := "redis[" ++ cStr s.m_strPath ++ "]"

/-- The error texts that differ for an address and for a path. -/
def makeNamedError (s : CRedisClient) (net ipc : String) : CRedisClient :=
  if s.m_strIp ≠ "" then s.__makeErrorString (s.addressName ++ net)
  else if s.m_strPath ≠ "" then s.__makeErrorString (s.pathName ++ ipc)
  else s

def __tryDisconnect (s : CRedisClient) : CRedisClient := { s with m_pRedisClient := none }

def tvConnect (s : CRedisClient) : timeval where
  tv_sec := s.m_uMiniSeconds / 1000
  tv_usec := s.m_uMiniSeconds % 1000 * 1000

def __auth (s : CRedisClient) (hiredis : Hiredis) : Except Fault (CRedisClient × Bool) :=
  match s.m_pRedisClient with
  | none => .error .command
  | some context =>
      let (result, context) := hiredis.redisCommand context (cStr s.m_strPass)
      let s := { s with m_pRedisClient := some context }
      match result with
      | none => .ok (s, false)
      | some reply =>
          if !reply.isStatus then
            let failed := " auth ****** failed, not support"
            .ok (s.makeNamedError failed failed, false)
          else if !reply.isOK then
            let failed := " auth ****** failed, response:" ++ cStr reply.str
            .ok (s.makeNamedError failed failed, false)
          else .ok (s.__makeErrorString "", true)

/-- The body of `__tryConnect` and of `__tryConnectIPC`, which ask hiredis for `connect`. -/
def tryContext (s : CRedisClient) (hiredis : Hiredis) (connect : Option redisContext)
    (name : String) : Except Fault (CRedisClient × Bool) :=
  if s.m_pRedisClient.isSome then .ok (s, true)
  else
    let s := { s with m_pRedisClient := connect }
    match connect with
    | none => .ok ((s.__makeErrorString (name ++ " connect failed")).__tryDisconnect, false)
    | some context =>
        if context.err ≠ REDIS_OK then
          let failed := name ++ " connect failed, desc:" ++ cStr context.errstr
          .ok ((s.__makeErrorString failed).__tryDisconnect, false)
        else if s.m_strPass = "" then .ok (s.__makeErrorString "", true)
        else
          match s.__auth hiredis with
          | .error fault => .error fault
          | .ok (s, false) => .ok (s.__tryDisconnect, false)
          | .ok (s, true) => .ok (s.__makeErrorString "", true)

def __tryConnect (s : CRedisClient) (hiredis : Hiredis) : Except Fault (CRedisClient × Bool) :=
  s.tryContext hiredis
    (hiredis.redisConnectWithTimeout (cStr s.m_strIp) s.m_uPort16 s.tvConnect) s.addressName

def __tryConnectIPC (s : CRedisClient) (hiredis : Hiredis) :
    Except Fault (CRedisClient × Bool) :=
  s.tryContext hiredis (hiredis.redisConnectUnixWithTimeout (cStr s.m_strPath) s.tvConnect)
    s.pathName

/-- The condition on which `command` gives up before it issues the command. -/
def connectFails (s : CRedisClient) (hiredis : Hiredis) : Except Fault (CRedisClient × Bool) :=
  match if s.m_strIp ≠ "" then s.__tryConnect hiredis else .ok (s, true) with
  | .error fault => .error fault
  | .ok (s, false) => .ok (s, true)
  | .ok (s, true) =>
      match if s.m_strPath ≠ "" then s.__tryConnectIPC hiredis else .ok (s, true) with
      | .error fault => .error fault
      | .ok (s, connected) => .ok (s, !connected)

def __commPrepareReply (s : CRedisClient) (pReply : Option redisReply) :
    Except Fault (CRedisClient × Int) :=
  match pReply with
  | none => .ok (s.__tryDisconnect, -1)
  | some reply =>
      match s.m_pRedisClient with
      | none => .error .member
      | some context =>
          if context.err ≠ REDIS_OK then .ok (s.__tryDisconnect, -1)
          else if reply.type = .error then .ok (s, 1)
          else .ok (s, 0)

/-- The error texts that end with `m_pRedisClient->errstr`. -/
def makeContextError (s : CRedisClient) (net ipc : String) : Except Fault CRedisClient :=
  if s.m_strIp = "" ∧ s.m_strPath = "" then .ok s
  else
    match s.m_pRedisClient with
    | none => .error .member
    | some context =>
        .ok (s.makeNamedError (net ++ cStr context.errstr) (ipc ++ cStr context.errstr))

/-- The turn of the loop in `command` from the command on. -/
def issue (s : CRedisClient) (hiredis : Hiredis) (szFormat : String) :
    Except Fault (CRedisClient × Option redisReply) :=
  match s.m_pRedisClient with
  | none => .error .command
  | some context =>
      let (result, context) := hiredis.redisvCommand context szFormat
      let s := { s with m_pRedisClient := some context }
      match s.__commPrepareReply result with
      | .error fault => .error fault
      | .ok (s, nRet) =>
          if nRet = -1 then
            (s.makeContextError " net error, desc:" " IPC error, desc:").map (·, none)
          else if nRet = 1 then
            (s.makeContextError " command error, desc:" " command error, desc:").map (·, none)
          else .ok (s.__makeErrorString "", result)

/-- The loop ends with `while (0)`, so that `continue` leaves it and nothing is retried. -/
def command (s : CRedisClient) (hiredis : Hiredis) (szFormat : String) :
    Except Fault (CRedisClient × Option redisReply) :=
  match s.connectFails hiredis with
  | .error fault => .error fault
  | .ok (s, true) => .ok (s, none)
  | .ok (s, false) => s.issue hiredis szFormat

end CRedisClient

end CLibs.Tinyredis
