import CLibs.Tinyredis.RedisClient

/-!
# The null context

Every sequence of commands on a client, for everything hiredis may answer: when the null
context is left alone and each result is told by the error text.
-/

set_option autoImplicit false
set_option linter.style.nameCheck false

namespace CLibs.Tinyredis

structure Call where
  hiredis : Hiredis
  szFormat : String

namespace CRedisClient

/-- A failed call leaves a text, a reply is no error reply and leaves the empty text. -/
def Told (s : CRedisClient) : Option redisReply → Prop
  | none => s.m_strErrStr ≠ ""
  | some reply => reply.type ≠ .error ∧ s.m_strErrStr = ""

/-- No call follows the null context, and each one is told. -/
def Sound : CRedisClient → List Call → Prop
  | _, [] => True
  | s, call :: calls => ∃ after result,
      s.command call.hiredis call.szFormat = .ok (after, result) ∧
        after.Told result ∧ after.Sound calls

def Configured (s : CRedisClient) : Prop := s.m_strIp ≠ "" ∨ s.m_strPath ≠ ""

/-- What a connect of the client is answered with. -/
def connectAnswer (s : CRedisClient) (hiredis : Hiredis) : Option redisContext :=
  if s.m_strIp ≠ "" then
    hiredis.redisConnectWithTimeout (cStr s.m_strIp) s.m_uPort16 s.tvConnect
  else hiredis.redisConnectUnixWithTimeout (cStr s.m_strPath) s.tvConnect

/-- What hiredis answers to an `auth` of the client. -/
def authAnswer (s : CRedisClient) (hiredis : Hiredis) (context : redisContext) :
    Option redisReply × redisContext :=
  hiredis.redisCommand context (cStr s.m_strPass)

/-- The call connects, and `context` is what it gets. -/
def Connects (s : CRedisClient) (hiredis : Hiredis) (context : redisContext) : Prop :=
  s.m_pRedisClient = none ∧ s.connectAnswer hiredis = some context ∧ context.err = REDIS_OK

/-- The context on which the call issues its command: the one that is there, a new one, or
a new one after its `auth`. -/
inductive Ready (s : CRedisClient) (hiredis : Hiredis) : redisContext → Prop where
  | kept {context : redisContext} (there : s.m_pRedisClient = some context) :
      Ready s hiredis context
  | connected {context : redisContext} (connects : s.Connects hiredis context)
      (noPass : s.m_strPass = "") : Ready s hiredis context
  | authorised {context : redisContext} {reply : redisReply}
      (connects : s.Connects hiredis context) (pass : s.m_strPass ≠ "")
      (answered : (s.authAnswer hiredis context).1 = some reply)
      (accepted : reply.isStatus ∧ reply.isOK) :
      Ready s hiredis (s.authAnswer hiredis context).2

/-- The call connects and gets no reply to its `auth`. -/
def AuthUnanswered (s : CRedisClient) (hiredis : Hiredis) : Prop :=
  ∃ context, s.Connects hiredis context ∧ s.m_strPass ≠ "" ∧
    (s.authAnswer hiredis context).1 = none

/-- The call finds an address or a path, an `auth` without a reply finds the text of an
earlier failure, and a command gets a reply on a context that stays in order. -/
structure Answered (s : CRedisClient) (call : Call) : Prop where
  configured : s.Configured
  auth : s.AuthUnanswered call.hiredis → s.m_strErrStr ≠ ""
  command : ∀ context, s.Ready call.hiredis context →
    (call.hiredis.redisvCommand context call.szFormat).1 ≠ none ∧
      (call.hiredis.redisvCommand context call.szFormat).2.err = REDIS_OK

/-- Each call of the sequence is answered in the state that it finds. -/
def AllAnswered : CRedisClient → List Call → Prop
  | _, [] => True
  | s, call :: calls => s.Answered call ∧
      ∀ after result, s.command call.hiredis call.szFormat = .ok (after, result) →
        after.AllAnswered calls

/-- Where the client connects to stays as it is. -/
structure SameServer (s after : CRedisClient) : Prop where
  ip : after.m_strIp = s.m_strIp
  path : after.m_strPath = s.m_strPath

/-- A client without address and path has no context. -/
def Consistent (s : CRedisClient) : Prop := s.Configured ∨ s.m_pRedisClient = none

theorem SameServer.refl (s : CRedisClient) : s.SameServer s := ⟨rfl, rfl⟩

theorem SameServer.trans {s middle after : CRedisClient} (first : s.SameServer middle)
    (second : middle.SameServer after) : s.SameServer after :=
  ⟨second.ip.trans first.ip, second.path.trans first.path⟩

theorem SameServer.configured_iff {s after : CRedisClient} (same : s.SameServer after) :
    after.Configured ↔ s.Configured := by
  rw [Configured, Configured, same.ip, same.path]

/-! ## Error texts -/

theorem makeErrorString_same (s : CRedisClient) (text : String) :
    s.SameServer (s.__makeErrorString text) := ⟨rfl, rfl⟩

@[simp] theorem makeErrorString_context (s : CRedisClient) (text : String) :
    (s.__makeErrorString text).m_pRedisClient = s.m_pRedisClient := rfl

@[simp] theorem makeErrorString_empty (s : CRedisClient) :
    (s.__makeErrorString "").m_strErrStr = "" := rfl

/-- A text that begins with `redis[` is not empty, clipped or not. -/
theorem makeErrorString_ne (s : CRedisClient) (rest : String) :
    (s.__makeErrorString ("redis[" ++ rest)).m_strErrStr ≠ "" := by
  intro empty
  have chars := congrArg String.toList empty
  simp [__makeErrorString] at chars

theorem addressName_ne (s t : CRedisClient) (text : String) :
    (t.__makeErrorString (s.addressName ++ text)).m_strErrStr ≠ "" := by
  have named : s.addressName ++ text =
      "redis[" ++ (cStr s.m_strIp ++ ":" ++ toString s.m_uPort16.toNat ++ "]" ++ text) := by
    simp only [addressName, String.append_assoc]
  rw [named]
  exact makeErrorString_ne t _

theorem pathName_ne (s t : CRedisClient) (text : String) :
    (t.__makeErrorString (s.pathName ++ text)).m_strErrStr ≠ "" := by
  have named : s.pathName ++ text = "redis[" ++ (cStr s.m_strPath ++ "]" ++ text) := by
    simp only [pathName, String.append_assoc]
  rw [named]
  exact makeErrorString_ne t _

theorem makeNamedError_same (s : CRedisClient) (net ipc : String) :
    s.SameServer (s.makeNamedError net ipc) := by
  unfold makeNamedError
  split
  · exact makeErrorString_same s _
  · split
    · exact makeErrorString_same s _
    · exact .refl s

theorem makeNamedError_context (s : CRedisClient) (net ipc : String) :
    (s.makeNamedError net ipc).m_pRedisClient = s.m_pRedisClient := by
  unfold makeNamedError
  split
  · exact makeErrorString_context s _
  · split
    · exact makeErrorString_context s _
    · rfl

theorem makeNamedError_ne {s : CRedisClient} (configured : s.Configured) (net ipc : String) :
    (s.makeNamedError net ipc).m_strErrStr ≠ "" := by
  unfold makeNamedError
  by_cases address : s.m_strIp ≠ ""
  · rw [if_pos address]
    exact addressName_ne s s _
  · rw [if_neg address, if_pos (configured.resolve_left address)]
    exact pathName_ne s s _

/-! ## Connecting -/

/-- `__auth` on a context: the context is the one that hiredis leaves, and a refusal is told
if there was a reply at all. -/
theorem auth_spec {s : CRedisClient} (configured : s.Configured) {context : redisContext}
    (there : s.m_pRedisClient = some context) (hiredis : Hiredis) :
    ∃ after accepted, s.__auth hiredis = .ok (after, accepted) ∧ s.SameServer after ∧
      after.m_pRedisClient = some (s.authAnswer hiredis context).2 ∧
      (accepted = true → ∃ reply, (s.authAnswer hiredis context).1 = some reply ∧
        reply.isStatus ∧ reply.isOK) ∧
      (accepted = false → ∀ reply, (s.authAnswer hiredis context).1 = some reply →
        ¬ (reply.isStatus ∧ reply.isOK) ∧ after.m_strErrStr ≠ "") ∧
      (accepted = false → (s.authAnswer hiredis context).1 = none →
        after.m_strErrStr = s.m_strErrStr) := by
  let asked : CRedisClient :=
    { s with m_pRedisClient := some (s.authAnswer hiredis context).2 }
  have askedConfigured : asked.Configured := configured
  have kept : s.SameServer asked := ⟨rfl, rfl⟩
  unfold __auth
  rw [there]
  dsimp only
  cases answered : (s.authAnswer hiredis context).1 with
  | none =>
      rw [authAnswer] at answered
      rw [answered]
      exact ⟨asked, false, rfl, ⟨rfl, rfl⟩, rfl, by simp, by simp, fun _ _ => rfl⟩
  | some reply =>
      rw [authAnswer] at answered
      rw [answered]
      dsimp only
      by_cases status : reply.isStatus = true
      · by_cases accepted : reply.isOK = true
        · simp only [status, accepted, Bool.not_true, Bool.false_eq_true, if_false]
          exact ⟨_, true, rfl, ⟨rfl, rfl⟩, rfl, by simp [status, accepted], by simp, by simp⟩
        · simp only [status, accepted, Bool.not_true, Bool.not_false, Bool.false_eq_true,
            if_false, if_true]
          refine ⟨_, false, rfl, kept.trans (makeNamedError_same asked _ _),
            makeNamedError_context asked _ _, by simp, ?_, by simp⟩
          rintro - _ ⟨rfl⟩
          exact ⟨fun both => accepted both.2, makeNamedError_ne askedConfigured _ _⟩
      · simp only [status, Bool.not_false, if_true]
        refine ⟨_, false, rfl, kept.trans (makeNamedError_same asked _ _),
          makeNamedError_context asked _ _, by simp, ?_, by simp⟩
        rintro - _ ⟨rfl⟩
        exact ⟨fun both => status both.1, makeNamedError_ne askedConfigured _ _⟩

/-- What a call has come to when it has tried to connect. -/
structure Tried (s : CRedisClient) (hiredis : Hiredis) (after : CRedisClient)
    (connected : Bool) : Prop where
  same : s.SameServer after
  ready : connected = true →
    (∃ context, after.m_pRedisClient = some context ∧ s.Ready hiredis context) ∧
      ¬ s.AuthUnanswered hiredis
  away : connected = false → after.m_pRedisClient = none ∧
    (∀ context, ¬ s.Ready hiredis context) ∧
    (after.m_strErrStr ≠ "" ↔ (s.AuthUnanswered hiredis → s.m_strErrStr ≠ ""))

theorem Connects.unique {s : CRedisClient} {hiredis : Hiredis} {context other : redisContext}
    (one : s.Connects hiredis context) (two : s.Connects hiredis other) : context = other :=
  Option.some.inj (one.2.1.symm.trans two.2.1)

theorem Connects.not_kept {s : CRedisClient} {hiredis : Hiredis} {context other : redisContext}
    (connects : s.Connects hiredis context) : s.m_pRedisClient ≠ some other := by
  rw [connects.1]
  exact nofun

theorem Ready.connects {s : CRedisClient} {hiredis : Hiredis} {context : redisContext}
    (ready : s.Ready hiredis context) (noContext : s.m_pRedisClient = none) :
    ∃ made, s.Connects hiredis made := by
  cases ready with
  | kept there => exact absurd (noContext.symm.trans there) nofun
  | connected connects _ => exact ⟨_, connects⟩
  | authorised connects _ _ _ => exact ⟨_, connects⟩

theorem Ready.unique {s : CRedisClient} {hiredis : Hiredis} {context other : redisContext}
    (one : s.Ready hiredis context) (two : s.Ready hiredis other) : context = other := by
  cases one with
  | kept there =>
      cases two with
      | kept also => exact Option.some.inj (there.symm.trans also)
      | connected connects _ => exact absurd there connects.not_kept
      | authorised connects _ _ _ => exact absurd there connects.not_kept
  | connected connects noPass =>
      cases two with
      | kept also => exact absurd also connects.not_kept
      | connected again _ => exact connects.unique again
      | authorised _ pass _ _ => exact absurd noPass pass
  | authorised connects pass _ _ =>
      cases two with
      | kept also => exact absurd also connects.not_kept
      | connected _ noPass => exact absurd noPass pass
      | authorised again _ _ _ => rw [connects.unique again]

theorem tried_kept {s : CRedisClient} {context : redisContext}
    (there : s.m_pRedisClient = some context) (hiredis : Hiredis) :
    s.Tried hiredis s true where
  same := .refl s
  ready _ := ⟨⟨context, there, .kept there⟩, fun ⟨_, connects, _⟩ => connects.not_kept there⟩
  away := nofun

/-- A connect that gives no good context is told and leaves none. -/
theorem tried_refused {s after : CRedisClient} {hiredis : Hiredis}
    (noContext : s.m_pRedisClient = none) (refused : ∀ context, ¬ s.Connects hiredis context)
    (same : s.SameServer after) (away : after.m_pRedisClient = none)
    (told : after.m_strErrStr ≠ "") : s.Tried hiredis after false where
  same := same
  ready := nofun
  away _ := by
    refine ⟨away, fun context ready => ?_, iff_of_true told ?_⟩
    · obtain ⟨made, connects⟩ := ready.connects noContext
      exact refused made connects
    · rintro ⟨made, connects, -⟩
      exact absurd connects (refused made)

theorem authorise_tried {s : CRedisClient} (configured : s.Configured) {hiredis : Hiredis}
    {context : redisContext} (connects : s.Connects hiredis context) (pass : s.m_strPass ≠ "") :
    ∃ after connected,
      (match ({ s with m_pRedisClient := some context } : CRedisClient).__auth hiredis with
        | .error fault => .error fault
        | .ok (s, false) => .ok (s.__tryDisconnect, false)
        | .ok (s, true) => .ok (s.__makeErrorString "", true)) =
          Except.ok (after, connected) ∧
        s.Tried hiredis after connected := by
  let made : CRedisClient := { s with m_pRedisClient := some context }
  obtain ⟨asked, accepted, authorised, same, context', granted, refused, silent⟩ :=
    @auth_spec made configured context rfl hiredis
  rw [authorised]
  cases accepted with
  | true =>
      obtain ⟨reply, answered, ok⟩ := granted rfl
      refine ⟨_, true, rfl, ⟨same.ip, same.path⟩, fun _ => ⟨⟨_, context', ?_⟩, ?_⟩, nofun⟩
      · exact .authorised connects pass answered ok
      · rintro ⟨other, again, -, unanswered⟩
        rw [again.unique connects] at unanswered
        exact absurd (answered.symm.trans unanswered) (by simp)
  | false =>
      refine ⟨_, false, rfl, ⟨same.ip, same.path⟩, nofun,
        fun _ => ⟨rfl, fun other ready => ?_, ?_⟩⟩
      · cases ready with
        | kept there => exact connects.not_kept there
        | connected _ noPass => exact pass noPass
        | @authorised again reply connected _ answered ok =>
            rw [connected.unique connects] at answered
            exact (refused rfl reply answered).1 ok
      · show asked.m_strErrStr ≠ "" ↔ _
        cases answered : (s.authAnswer hiredis context).1 with
        | none =>
            rw [silent rfl answered]
            exact ⟨fun told _ => told, fun told => told ⟨context, connects, pass, answered⟩⟩
        | some reply =>
            refine iff_of_true (refused rfl reply answered).2 ?_
            rintro ⟨other, again, -, unanswered⟩
            rw [again.unique connects, answered] at unanswered
            cases unanswered

/-- The body of `__tryConnect` and `__tryConnectIPC`, when there is no context. -/
theorem tryContext_tried {s : CRedisClient} (configured : s.Configured)
    (noContext : s.m_pRedisClient = none) (hiredis : Hiredis) {name : String}
    (named : ∀ (t : CRedisClient) (text : String),
      (t.__makeErrorString (name ++ text)).m_strErrStr ≠ "") :
    ∃ after connected,
      s.tryContext hiredis (s.connectAnswer hiredis) name = .ok (after, connected) ∧
        s.Tried hiredis after connected := by
  unfold tryContext
  simp only [noContext, Option.isSome_none, Bool.false_eq_true, if_false]
  cases answered : s.connectAnswer hiredis with
  | none =>
      have refused : ∀ context, ¬ s.Connects hiredis context := by
        intro context connects
        rw [connects.2.1] at answered
        cases answered
      exact ⟨_, false, rfl, tried_refused noContext refused ⟨rfl, rfl⟩ rfl (named _ _)⟩
  | some context =>
      by_cases good : context.err = REDIS_OK
      · have connects : s.Connects hiredis context := ⟨noContext, answered, good⟩
        simp only [good, ne_eq, not_true_eq_false, if_false]
        by_cases noPass : s.m_strPass = ""
        · rw [if_pos noPass]
          refine ⟨_, true, rfl, ⟨rfl, rfl⟩,
            fun _ => ⟨⟨context, rfl, .connected connects noPass⟩, ?_⟩, nofun⟩
          rintro ⟨_, _, pass, _⟩
          exact pass noPass
        · rw [if_neg noPass]
          exact authorise_tried configured connects noPass
      · have refused : ∀ context, ¬ s.Connects hiredis context := by
          intro other connects
          rw [connects.2.1] at answered
          cases answered
          exact good connects.2.2
        simp only [ne_eq, good, not_false_eq_true, if_true]
        refine ⟨_, false, rfl, tried_refused noContext refused ⟨rfl, rfl⟩ rfl ?_⟩
        rw [String.append_assoc]
        exact named s _

theorem tryContext_kept {s : CRedisClient} {context : redisContext}
    (there : s.m_pRedisClient = some context) (hiredis : Hiredis)
    (connect : Option redisContext) (name : String) :
    s.tryContext hiredis connect name = .ok (s, true) := by
  rw [tryContext, there]
  rfl

theorem connectFails_address {s : CRedisClient} (address : s.m_strIp ≠ "") {hiredis : Hiredis}
    {after : CRedisClient} {connected : Bool}
    (tried : s.__tryConnect hiredis = .ok (after, connected))
    (there : connected = true → ∃ context, after.m_pRedisClient = some context) :
    s.connectFails hiredis = .ok (after, !connected) := by
  unfold connectFails
  rw [if_pos address, tried]
  cases connected with
  | false => rfl
  | true =>
      obtain ⟨context, found⟩ := there rfl
      dsimp only
      by_cases path : after.m_strPath ≠ ""
      · rw [if_pos path, __tryConnectIPC, tryContext_kept found]
      · rw [if_neg path]

theorem connectFails_path {s : CRedisClient} (address : ¬ s.m_strIp ≠ "")
    (path : s.m_strPath ≠ "") {hiredis : Hiredis} {after : CRedisClient} {connected : Bool}
    (tried : s.__tryConnectIPC hiredis = .ok (after, connected)) :
    s.connectFails hiredis = .ok (after, !connected) := by
  unfold connectFails
  rw [if_neg address]
  dsimp only
  rw [if_pos path, tried]

theorem connectFails_tried {s : CRedisClient} (configured : s.Configured) (hiredis : Hiredis) :
    ∃ after connected, s.connectFails hiredis = .ok (after, !connected) ∧
      s.Tried hiredis after connected := by
  by_cases address : s.m_strIp ≠ ""
  · have tries : ∃ after connected,
        s.__tryConnect hiredis = .ok (after, connected) ∧ s.Tried hiredis after connected := by
      cases there : s.m_pRedisClient with
      | some context => exact ⟨s, true, tryContext_kept there _ _ _, tried_kept there hiredis⟩
      | none =>
          have tried := tryContext_tried configured there hiredis (addressName_ne s)
          rw [connectAnswer, if_pos address] at tried
          exact tried
    obtain ⟨after, connected, tried, told⟩ := tries
    exact ⟨after, connected, connectFails_address address tried fun done =>
      (told.ready done).1.imp fun _ both => both.1, told⟩
  · have path := configured.resolve_left address
    have tries : ∃ after connected,
        s.__tryConnectIPC hiredis = .ok (after, connected) ∧ s.Tried hiredis after connected := by
      cases there : s.m_pRedisClient with
      | some context => exact ⟨s, true, tryContext_kept there _ _ _, tried_kept there hiredis⟩
      | none =>
          have tried := tryContext_tried configured there hiredis (pathName_ne s)
          rw [connectAnswer, if_neg address] at tried
          exact tried
    obtain ⟨after, connected, tried, told⟩ := tries
    exact ⟨after, connected, connectFails_path address path tried, told⟩

/-! ## The command -/

theorem makeContextError_away {s : CRedisClient} (configured : s.Configured)
    (away : s.m_pRedisClient = none) (net ipc : String) :
    s.makeContextError net ipc = .error .member := by
  have named : ¬ (s.m_strIp = "" ∧ s.m_strPath = "") := fun bare =>
    configured.elim (· bare.1) (· bare.2)
  rw [makeContextError, if_neg named, away]

theorem makeContextError_there {s : CRedisClient} (configured : s.Configured)
    {context : redisContext} (there : s.m_pRedisClient = some context) (net ipc : String) :
    s.makeContextError net ipc =
      .ok (s.makeNamedError (net ++ cStr context.errstr) (ipc ++ cStr context.errstr)) := by
  have named : ¬ (s.m_strIp = "" ∧ s.m_strPath = "") := fun bare =>
    configured.elim (· bare.1) (· bare.2)
  rw [makeContextError, if_neg named, there]

theorem commPrepareReply_bad {s : CRedisClient} {context : redisContext}
    (there : s.m_pRedisClient = some context) {pReply : Option redisReply}
    (bad : pReply = none ∨ context.err ≠ REDIS_OK) :
    s.__commPrepareReply pReply = .ok (s.__tryDisconnect, -1) := by
  cases pReply with
  | none => rfl
  | some reply =>
      have err : context.err ≠ REDIS_OK := bad.resolve_left (by simp)
      rw [__commPrepareReply, there]
      dsimp only
      rw [if_pos err]

/-- The caller then asks the context that is gone for its error. -/
theorem issue_fault {s : CRedisClient} (configured : s.Configured) {context : redisContext}
    (there : s.m_pRedisClient = some context) {hiredis : Hiredis} {szFormat : String}
    (bad : (hiredis.redisvCommand context szFormat).1 = none ∨
      (hiredis.redisvCommand context szFormat).2.err ≠ REDIS_OK) :
    s.issue hiredis szFormat = .error .member := by
  let asked : CRedisClient :=
    { s with m_pRedisClient := some (hiredis.redisvCommand context szFormat).2 }
  have freed : asked.__commPrepareReply (hiredis.redisvCommand context szFormat).1 =
      .ok (asked.__tryDisconnect, -1) := commPrepareReply_bad rfl bad
  have gone := @makeContextError_away asked.__tryDisconnect configured rfl
    " net error, desc:" " IPC error, desc:"
  rw [issue, there]
  dsimp only
  rw [freed]
  dsimp only
  rw [if_pos rfl, gone]
  rfl

/-- A reply on a context in order is told. -/
theorem issue_told {s : CRedisClient} (configured : s.Configured) {context : redisContext}
    (there : s.m_pRedisClient = some context) {hiredis : Hiredis} {szFormat : String}
    (replied : (hiredis.redisvCommand context szFormat).1 ≠ none)
    (good : (hiredis.redisvCommand context szFormat).2.err = REDIS_OK) :
    ∃ after result, s.issue hiredis szFormat = .ok (after, result) ∧ s.SameServer after ∧
      after.Told result := by
  let asked : CRedisClient :=
    { s with m_pRedisClient := some (hiredis.redisvCommand context szFormat).2 }
  have askedConfigured : asked.Configured := configured
  have same : s.SameServer asked := ⟨rfl, rfl⟩
  obtain ⟨reply, answered⟩ := Option.ne_none_iff_exists'.mp replied
  have prepared : asked.__commPrepareReply (some reply) =
      .ok (asked, if reply.type = .error then 1 else 0) := by
    simp only [__commPrepareReply, asked, good, ne_eq, not_true_eq_false, if_false]
    split <;> rfl
  rw [issue, there]
  dsimp only
  rw [answered, prepared]
  by_cases refused : reply.type = .error
  · have named := @makeContextError_there asked askedConfigured _ rfl " command error, desc:"
      " command error, desc:"
    simp only [refused, if_true]
    rw [if_neg (by decide), named]
    exact ⟨_, none, rfl, same.trans (makeNamedError_same asked _ _),
      makeNamedError_ne askedConfigured _ _⟩
  · simp only [refused, if_false]
    rw [if_neg (by decide), if_neg (by decide)]
    exact ⟨_, some reply, rfl, ⟨rfl, rfl⟩, refused, rfl⟩

/-! ## Calls -/

/-- The client that no constructor gave an address or a path: the command is issued on the
null context. -/
theorem command_unconfigured {s : CRedisClient} (bare : ¬ s.Configured)
    (away : s.m_pRedisClient = none) (hiredis : Hiredis) (szFormat : String) :
    s.command hiredis szFormat = .error .command := by
  rw [Configured, not_or] at bare
  have passed : s.connectFails hiredis = .ok (s, false) := by
    rw [connectFails, if_neg bare.1]
    dsimp only
    rw [if_neg bare.2]
    rfl
  have issued : s.issue hiredis szFormat = .error .command := by rw [issue, away]
  rw [command, passed]
  exact issued

theorem command_told {s : CRedisClient} {call : Call} (answered : s.Answered call) :
    ∃ after result, s.command call.hiredis call.szFormat = .ok (after, result) ∧
      s.SameServer after ∧ after.Told result := by
  obtain ⟨after, connected, tried, told⟩ := connectFails_tried answered.configured call.hiredis
  rw [command, tried]
  cases connected with
  | false => exact ⟨after, none, rfl, told.same, (told.away rfl).2.2.mpr answered.auth⟩
  | true =>
      obtain ⟨⟨context, there, ready⟩, -⟩ := told.ready rfl
      obtain ⟨replied, good⟩ := answered.command context ready
      have configured := told.same.configured_iff.mpr answered.configured
      obtain ⟨last, result, issued, same, heard⟩ := issue_told configured there replied good
      exact ⟨last, result, issued, told.same.trans same, heard⟩

theorem answered_of_told {s after : CRedisClient} (consistent : s.Consistent) {call : Call}
    {result : Option redisReply}
    (returned : s.command call.hiredis call.szFormat = .ok (after, result))
    (heard : after.Told result) : s.Answered call := by
  by_cases configured : s.Configured
  · obtain ⟨middle, connected, tried, told⟩ := connectFails_tried configured call.hiredis
    rw [command, tried] at returned
    cases connected with
    | false =>
        cases returned
        obtain ⟨-, unready, telling⟩ := told.away rfl
        exact ⟨configured, telling.mp heard, fun context ready => absurd ready (unready context)⟩
    | true =>
        obtain ⟨⟨context, there, ready⟩, granted⟩ := told.ready rfl
        refine ⟨configured, fun unanswered => absurd unanswered granted, fun other also => ?_⟩
        rw [also.unique ready]
        by_contra bad
        rw [Decidable.not_and_iff_or_not, not_not] at bad
        have fault := issue_fault (told.same.configured_iff.mpr configured) there bad
        have issued : middle.issue call.hiredis call.szFormat = .ok (after, result) := returned
        rw [fault] at issued
        cases issued
  · rw [command_unconfigured configured (consistent.resolve_left configured)] at returned
    cases returned

theorem sound_iff_of_consistent {s : CRedisClient} (consistent : s.Consistent)
    (calls : List Call) : s.Sound calls ↔ s.AllAnswered calls := by
  induction calls generalizing s with
  | nil => exact Iff.rfl
  | cons call calls ih =>
      constructor
      · rintro ⟨after, result, returned, heard, rest⟩
        have answered := answered_of_told consistent returned heard
        refine ⟨answered, fun last told again => ?_⟩
        obtain ⟨_, _, called, same, -⟩ := command_told answered
        rw [called] at again returned
        cases again
        cases returned
        exact (ih (.inl (same.configured_iff.mpr answered.configured))).mp rest
      · rintro ⟨answered, rest⟩
        obtain ⟨after, result, returned, same, heard⟩ := command_told answered
        have configured := same.configured_iff.mpr answered.configured
        exact ⟨after, result, returned, heard, (ih (.inl configured)).mpr (rest _ _ returned)⟩

/-- A client as one of its constructors makes it. -/
inductive Constructed : CRedisClient → Prop where
  | address (strIp : String) (uPort16 : UInt16) (strPass : String) (uMiniSeconds : UInt32) :
      Constructed (ofAddress strIp uPort16 strPass uMiniSeconds)
  | path (strPath strPass : String) (uMiniSeconds : UInt32) :
      Constructed (ofPath strPath strPass uMiniSeconds)

/-- A sequence of commands on a new client never follows the null context and tells each
result, exactly if each of its calls is answered. -/
theorem sound_iff_allAnswered {s : CRedisClient} (constructed : s.Constructed)
    (calls : List Call) : s.Sound calls ↔ s.AllAnswered calls := by
  have away : s.m_pRedisClient = none := by cases constructed <;> rfl
  exact sound_iff_of_consistent (.inr away) calls

/-- hiredis where each connect succeeds and nothing breaks the context. -/
def answering (auth command : Option redisReply) : Hiredis where
  redisConnectWithTimeout _ _ _ := some {}
  redisConnectUnixWithTimeout _ _ := some {}
  redisCommand _ _ := (auth, {})
  redisvCommand _ _ := (command, {})

theorem answering_answered {s : CRedisClient} (configured : s.Configured)
    (auth command : redisReply) (szFormat : String) :
    s.Answered ⟨answering (some auth) (some command), szFormat⟩ where
  configured := configured
  auth unanswered := by
    obtain ⟨_, _, _, unanswered⟩ := unanswered
    cases unanswered
  command _ _ := ⟨nofun, rfl⟩

/-- A command that the server refuses, and then one that it takes. -/
theorem sound_iff_allAnswered_refused :
    (ofAddress "10.0.0.1" 6379 "secret" 500).Sound
      [⟨answering (some ⟨.status, "OK"⟩) (some ⟨.error, "ERR"⟩), "get"⟩,
        ⟨answering (some ⟨.status, "OK"⟩) (some ⟨.status, "OK"⟩), "set a b"⟩] := by
  refine (sound_iff_allAnswered (.address ..) _).mpr ?_
  have first := answering_answered (s := ofAddress "10.0.0.1" 6379 "secret" 500)
    (.inl (by decide)) ⟨.status, "OK"⟩ ⟨.error, "ERR"⟩ "get"
  refine ⟨first, fun after result returned => ⟨answering_answered ?_ _ _ _, fun _ _ _ => trivial⟩⟩
  obtain ⟨_, _, called, same, -⟩ := command_told first
  rw [called] at returned
  cases returned
  exact same.configured_iff.mpr first.configured

/-- A command that gets no reply. -/
theorem not_sound :
    ¬ ∀ s : CRedisClient, s.Constructed → ∀ calls : List Call, s.Sound calls := by
  intro always
  obtain ⟨after, result, returned, heard, -⟩ :=
    always (ofAddress "10.0.0.1" 6379 "" 500) (.address ..) [⟨answering none none, "get a"⟩]
  have answered := answered_of_told (.inr rfl) returned heard
  have connects : (ofAddress "10.0.0.1" 6379 "" 500).Connects (answering none none) {} :=
    ⟨rfl, if_pos (by decide), rfl⟩
  exact (answered.command {} (.connected connects rfl)).1 rfl

end CRedisClient

end CLibs.Tinyredis
