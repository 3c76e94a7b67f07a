import CLibs.LibevworkUsing.JsonData
import CLibs.Libevwork.PacketStream

/-!
# When `CJsonData::onData` stays inside its data

The length of a packet comes from the peer, and the header size is added to it in
32 bit words. The passes of the loop are compared with the packets of the data
counted in natural numbers.
-/

set_option autoImplicit false

namespace CLibs.LibevworkUsing

open General Libevwork

variable {World Value : Type}

/-- An application that leaves the connection alone. -/
def Application.keeping (dispatch : World → Value → World) : Application World Value where
  dispatch := dispatch
  alive _ := true

/-- The bytes of a packet, its header included. -/
def Pass.size (pass : Pass Value) : Nat := 4 + pass.uPktLen.toNat

def Received.dispatched (received : Received World Value) : List (Pass Value) :=
  received.passes.filter (·.value.isSome)

/-- The call returns, takes packets from its `size` bytes only, consumes at least a
header with every packet, counts what it dispatched, and keeps to the limit. -/
structure Received.Safe (received : Received World Value) (limit : UInt32) (size : Nat) :
    Prop where
  returns : ∃ n, received.ending = .returned n
  inside : ∀ pass ∈ received.passes, pass.offset + pass.size ≤ size
  consumes : ∀ pass ∈ received.dispatched, 4 ≤ (pass.uPktLen + headerSize).toNat
  counts : ∀ n : Int, received.ending = .returned n → 0 ≤ n →
    n = (received.dispatched.map Pass.size).sum ∧ n ≤ size
  limited : ∀ pass ∈ received.dispatched, limit.toNat = 2 ^ 32 - 1 ∨ pass.size ≤ limit.toNat

/-! ## The packets of the data -/

/-- A complete packet with a JSON text stands in front of the data. -/
def Whole (json : Jsoncpp Value) (data : List UInt8) : Prop :=
  4 ≤ data.length ∧ 4 + lenField data ≤ data.length ∧
    (Jpacket.parse json (Memory.read data 4 (lenField data))).isSome

/-- `rest` is what is left of the data behind some complete packets. -/
inductive Walks (json : Jsoncpp Value) : List UInt8 → List UInt8 → Prop where
  | here {data : List UInt8} : Walks json data data
  | next {data rest : List UInt8} : Whole json data →
      Walks json (data.drop (4 + lenField data)) rest → Walks json data rest

/-- The size of the packet in front of the data is no 32 bit word. -/
def Wraps (data : List UInt8) : Prop := 4 ≤ data.length ∧ 2 ^ 32 ≤ 4 + lenField data

/-- The data under which `onData` is safe. Without a limit no packet size may wrap.
A limit below the header size wraps itself and admits nearly every packet; then no
packet may be complete, and no admitted size may wrap. -/
def Harmless (json : Jsoncpp Value) (limit : UInt32) (data : List UInt8) : Prop :=
  (4 ≤ limit.toNat ∧ limit.toNat ≠ 2 ^ 32 - 1) ∨
  (limit.toNat = 2 ^ 32 - 1 ∧ ∀ rest, Walks json data rest → ¬ Wraps rest) ∨
  (limit.toNat < 4 ∧ ¬ Whole json data ∧
    (Wraps data → 2 ^ 32 - 4 + limit.toNat < lenField data))

theorem Harmless.next {json : Jsoncpp Value} {limit : UInt32} {data : List UInt8}
    (harmless : Harmless json limit data) (whole : Whole json data) :
    Harmless json limit (data.drop (4 + lenField data)) := by
  rcases harmless with large | ⟨unlimited, walks⟩ | ⟨_, notWhole, _⟩
  · exact .inl large
  · exact .inr (.inl ⟨unlimited, fun rest walk => walks rest (.next whole walk)⟩)
  · exact absurd whole notWhole

/-! ## One pass of the loop -/

namespace CJsonData

variable {json : Jsoncpp Value} {app : Application World Value} {handler : CJsonData}
  {world : World} {pData : List UInt8}

theorem peekLen_toNat (pData : List UInt8) : (Header.peekLen pData).toNat = lenField pData :=
  load32_toNat pData

@[simp] theorem headerSize_toNat : headerSize.toNat = 4 := rfl

theorem refuses_iff (handler : CJsonData) (uPktLen : UInt32) :
    handler.refuses uPktLen = true ↔ handler.uPacketLimit.toNat ≠ 2 ^ 32 - 1 ∧
      (2 ^ 32 - 4 + handler.uPacketLimit.toNat) % 2 ^ 32 < uPktLen.toNat := by
  have whole : handler.uPacketLimit = 0xFFFFFFFF ↔
      handler.uPacketLimit.toNat = 2 ^ 32 - 1 := by
    rw [← UInt32.toNat_inj]
    rfl
  simp only [refuses, Bool.and_eq_true, bne_iff_ne, ne_eq, whole, decide_eq_true_eq,
    UInt32.lt_iff_toNat_lt, UInt32.toNat_sub, headerSize_toNat]

theorem size_toNat (uPktLen : UInt32) :
    (headerSize + uPktLen).toNat = (4 + uPktLen.toNat) % 2 ^ 32 := by
  rw [UInt32.toNat_add, headerSize_toNat]

theorem onDataFrom_short (offset : Nat) (nProcessed : Int) (short : pData.length < 4) :
    handler.onDataFrom json app world pData offset nProcessed =
      ⟨handler, world, [], .returned nProcessed⟩ := by
  rw [onDataFrom, headerSize_toNat]
  split_ifs
  · rfl
  · rfl

theorem onDataFrom_freed (offset : Nat) (nProcessed : Int) (header : 4 ≤ pData.length)
    (freed : app.alive world = false) :
    handler.onDataFrom json app world pData offset nProcessed = ⟨handler, world, [], .freed⟩ := by
  rw [onDataFrom, headerSize_toNat, if_neg (by omega), if_neg (by omega), if_pos freed]

theorem onDataFrom_refused (offset : Nat) (nProcessed : Int) (header : 4 ≤ pData.length)
    (alive : app.alive world = true) (refused : handler.refuses (Header.peekLen pData) = true) :
    handler.onDataFrom json app world pData offset nProcessed =
      ⟨handler, world, [], .returned (-1)⟩ := by
  rw [onDataFrom, headerSize_toNat, if_neg (by omega), if_neg (by omega),
    if_neg (by simp [alive])]
  dsimp only
  rw [if_pos refused]

theorem onDataFrom_partial (offset : Nat) (nProcessed : Int) (header : 4 ≤ pData.length)
    (alive : app.alive world = true) (admitted : ¬ handler.refuses (Header.peekLen pData) = true)
    (noWrap : 4 + lenField pData < 2 ^ 32) (short : pData.length < 4 + lenField pData) :
    handler.onDataFrom json app world pData offset nProcessed =
      ⟨handler, world, [], .returned nProcessed⟩ := by
  rw [onDataFrom, headerSize_toNat, if_neg (by omega), if_neg (by omega),
    if_neg (by simp [alive])]
  dsimp only
  rw [if_neg admitted, size_toNat, peekLen_toNat, if_pos (by omega)]

theorem onDataFrom_overrun (offset : Nat) (nProcessed : Int) (header : 4 ≤ pData.length)
    (alive : app.alive world = true) (admitted : ¬ handler.refuses (Header.peekLen pData) = true)
    (wraps : 2 ^ 32 ≤ 4 + lenField pData) (short : pData.length < 2 ^ 32) :
    handler.onDataFrom json app world pData offset nProcessed =
      ⟨handler, world, [⟨offset, Header.peekLen pData, none⟩], .overrun⟩ := by
  have bound := lenField_lt pData
  rw [onDataFrom, headerSize_toNat, if_neg (by omega), if_neg (by omega),
    if_neg (by simp [alive])]
  dsimp only
  rw [if_neg admitted, size_toNat, peekLen_toNat, if_neg (by omega), if_pos (by omega)]

theorem onDataFrom_garbage (offset : Nat) (nProcessed : Int) (header : 4 ≤ pData.length)
    (alive : app.alive world = true) (admitted : ¬ handler.refuses (Header.peekLen pData) = true)
    (complete : 4 + lenField pData ≤ pData.length)
    (garbage : Jpacket.parse json (Memory.read pData 4 (lenField pData)) = none) :
    handler.onDataFrom json app world pData offset nProcessed =
      ⟨handler, world, [⟨offset, Header.peekLen pData, none⟩], .returned (-1)⟩ := by
  rw [onDataFrom, headerSize_toNat, if_neg (by omega), if_neg (by omega),
    if_neg (by simp [alive])]
  dsimp only
  rw [if_neg admitted, size_toNat, peekLen_toNat,
    if_neg (by have := Nat.mod_le (4 + lenField pData) (2 ^ 32); omega), if_neg (by omega),
    garbage]

theorem onDataFrom_packet (offset : Nat) (nProcessed : Int) (header : 4 ≤ pData.length)
    (alive : app.alive world = true) (admitted : ¬ handler.refuses (Header.peekLen pData) = true)
    (complete : 4 + lenField pData ≤ pData.length) (small : pData.length < 2 ^ 32)
    {value : Value}
    (parsed : Jpacket.parse json (Memory.read pData 4 (lenField pData)) = some value) :
    handler.onDataFrom json app world pData offset nProcessed =
      let rest := (handler.counted (Header.peekLen pData)).onDataFrom json app
        (app.dispatch world value) (pData.drop (4 + lenField pData))
        (offset + (4 + lenField pData)) (int32 (nProcessed + int32 (4 + lenField pData : Nat)))
      { rest with passes := ⟨offset, Header.peekLen pData, some value⟩ :: rest.passes } := by
  have size : (Header.peekLen pData + headerSize).toNat = 4 + lenField pData := by
    rw [UInt32.add_comm, size_toNat, peekLen_toNat, Nat.mod_eq_of_lt (by omega)]
  have moves : ¬ Header.peekLen pData + headerSize = 0 := by
    intro zero
    rw [zero] at size
    simp at size
    omega
  conv_lhs => rw [onDataFrom]
  rw [headerSize_toNat, if_neg (by omega), if_neg (by omega), if_neg (by simp [alive])]
  dsimp only
  rw [if_neg admitted, size_toNat, peekLen_toNat,
    if_neg (by have := Nat.mod_le (4 + lenField pData) (2 ^ 32); omega), if_neg (by omega),
    parsed]
  dsimp only
  rw [dif_neg moves, size]

end CJsonData

/-! ## The whole loop -/

/-- `Safe` for a loop that has already consumed `offset` bytes. -/
private structure SafeFrom (received : Received World Value) (limit : UInt32)
    (offset length : Nat) : Prop where
  returns : ∃ n, received.ending = .returned n
  inside : ∀ pass ∈ received.passes, pass.offset + pass.size ≤ offset + length
  consumes : ∀ pass ∈ received.dispatched, 4 ≤ (pass.uPktLen + headerSize).toNat
  counts : ∀ n : Int, received.ending = .returned n → 0 ≤ n →
    n = offset + (received.dispatched.map Pass.size).sum ∧ n ≤ offset + length
  limited : ∀ pass ∈ received.dispatched, limit.toNat = 2 ^ 32 - 1 ∨ pass.size ≤ limit.toNat

/-- A last pass, which dispatches nothing. -/
private theorem safeFrom_last {received : Received World Value} (limit : UInt32)
    {offset length : Nat} {n : Int} (ending : received.ending = .returned n)
    (counted : n = offset ∨ n = -1)
    (last : ∀ pass ∈ received.passes, pass.value = none ∧
      pass.offset + pass.size ≤ offset + length) :
    SafeFrom received limit offset length := by
  have nothing : received.dispatched = [] := by
    refine List.filter_eq_nil_iff.mpr ?_
    intro pass member
    simp [(last pass member).1]
  constructor
  · exact ⟨n, ending⟩
  · intro pass member
    exact (last pass member).2
  · simp [nothing]
  · intro m same nonneg
    rw [ending] at same
    cases same
    simp only [nothing, List.map_nil, List.sum_nil]
    omega
  · simp [nothing]

private theorem SafeFrom.cons {received : Received World Value} {limit : UInt32}
    {offset length : Nat} {uPktLen : UInt32} {value : Value}
    (rest : SafeFrom received limit (offset + (4 + uPktLen.toNat))
      (length - (4 + uPktLen.toNat)))
    (complete : 4 + uPktLen.toNat ≤ length) (small : length < 2 ^ 32)
    (admitted : limit.toNat = 2 ^ 32 - 1 ∨ 4 + uPktLen.toNat ≤ limit.toNat) :
    SafeFrom { received with passes := ⟨offset, uPktLen, some value⟩ :: received.passes }
      limit offset length := by
  have dispatched : ({ received with passes := ⟨offset, uPktLen, some value⟩ :: received.passes } :
      Received World Value).dispatched = ⟨offset, uPktLen, some value⟩ :: received.dispatched := rfl
  constructor
  · exact rest.returns
  · intro pass member
    rcases List.mem_cons.mp member with rfl | later
    · simp only [Pass.size]
      omega
    · have := rest.inside pass later
      omega
  · intro pass member
    rw [dispatched] at member
    rcases List.mem_cons.mp member with rfl | later
    · have noWrap : 4 + uPktLen.toNat < 2 ^ 32 := by omega
      rw [UInt32.add_comm, CJsonData.size_toNat, Nat.mod_eq_of_lt noWrap]
      exact Nat.le_add_right 4 _
    · exact rest.consumes pass later
  · intro n same nonneg
    have counts := rest.counts n same nonneg
    rw [dispatched, List.map_cons, List.sum_cons, Pass.size]
    push_cast at counts ⊢
    omega
  · intro pass member
    rw [dispatched] at member
    rcases List.mem_cons.mp member with rfl | later
    · exact admitted
    · exact rest.limited pass later

/-- The limit holds unless it is smaller than a header. -/
private theorem limited_of_admitted {handler : CJsonData} {uPktLen : UInt32}
    (admitted : ¬ handler.refuses uPktLen = true) (noSmall : 4 ≤ handler.uPacketLimit.toNat) :
    handler.uPacketLimit.toNat = 2 ^ 32 - 1 ∨
      4 + uPktLen.toNat ≤ handler.uPacketLimit.toNat := by
  have bound := handler.uPacketLimit.toNat_lt
  rw [CJsonData.refuses_iff] at admitted
  omega

private theorem onDataFrom_safe (json : Jsoncpp Value) (dispatch : World → Value → World)
    (length : Nat) : ∀ (handler : CJsonData) (world : World) (pData : List UInt8) (offset : Nat),
    pData.length = length → offset + length < 2 ^ 31 →
    Harmless json handler.uPacketLimit pData →
    SafeFrom (handler.onDataFrom json (.keeping dispatch) world pData offset offset)
      handler.uPacketLimit offset length := by
  induction length using Nat.strongRecOn with
  | ind length ih =>
      intro handler world pData offset same small harmless
      have alive : (Application.keeping dispatch).alive world = true := rfl
      have bound := lenField_lt pData
      by_cases header : pData.length < 4
      · rw [CJsonData.onDataFrom_short _ _ header]
        exact safeFrom_last _ rfl (.inl rfl) (by simp)
      rw [not_lt] at header
      by_cases refused : handler.refuses (Header.peekLen pData) = true
      · rw [CJsonData.onDataFrom_refused _ _ header alive refused]
        exact safeFrom_last _ rfl (.inr rfl) (by simp)
      have admitted := refused
      rw [CJsonData.refuses_iff, CJsonData.peekLen_toNat] at admitted
      have noWrap : 4 + lenField pData < 2 ^ 32 := by
        by_contra wraps
        rcases harmless with large | ⟨_, walks⟩ | ⟨_, _, fits⟩
        · have := handler.uPacketLimit.toNat_lt
          omega
        · exact walks pData .here ⟨header, by omega⟩
        · have := fits ⟨header, by omega⟩
          omega
      by_cases short : pData.length < 4 + lenField pData
      · rw [CJsonData.onDataFrom_partial _ _ header alive refused noWrap short]
        exact safeFrom_last _ rfl (.inl rfl) (by simp)
      rw [not_lt] at short
      cases parsed : Jpacket.parse json (Memory.read pData 4 (lenField pData)) with
      | none =>
          rw [CJsonData.onDataFrom_garbage _ _ header alive refused short parsed]
          refine safeFrom_last _ rfl (.inr rfl) ?_
          intro pass member
          cases List.mem_singleton.mp member
          refine ⟨rfl, ?_⟩
          simp only [Pass.size, CJsonData.peekLen_toNat]
          omega
      | some value =>
          have whole : Whole json pData := ⟨header, short, by simp [parsed]⟩
          have large : 4 ≤ handler.uPacketLimit.toNat := by
            rcases harmless with large | ⟨unlimited, _⟩ | ⟨_, notWhole, _⟩
            · exact large.1
            · omega
            · exact absurd whole notWhole
          have dropped : (pData.drop (4 + lenField pData)).length = length - (4 + lenField pData) := by
            rw [List.length_drop, same]
          rw [CJsonData.onDataFrom_packet _ _ header alive refused short (by omega) parsed,
            int32_add (by omega)]
          refine SafeFrom.cons ?_ (by rw [CJsonData.peekLen_toNat]; omega) (by omega)
            (limited_of_admitted refused large)
          rw [CJsonData.peekLen_toNat]
          exact ih _ (by omega) (handler.counted _) _ _ _ dropped (by omega) (harmless.next whole)

private theorem SafeFrom.safe {received : Received World Value} {limit : UInt32} {size : Nat} :
    SafeFrom received limit 0 size ↔ received.Safe limit size := by
  constructor
  · intro safe
    exact ⟨safe.returns, fun pass member => by simpa using safe.inside pass member, safe.consumes,
      fun n same nonneg => by simpa using safe.counts n same nonneg, safe.limited⟩
  · intro safe
    exact ⟨safe.returns, fun pass member => by simpa using safe.inside pass member, safe.consumes,
      fun n same nonneg => by simpa using safe.counts n same nonneg, safe.limited⟩

/-! ## Data that is not harmless -/

private theorem overrun_of_walks {json : Jsoncpp Value} (dispatch : World → Value → World)
    {data rest : List UInt8} (walk : Walks json data rest) (wraps : Wraps rest)
    (handler : CJsonData) (world : World) (offset : Nat) (nProcessed : Int)
    (unlimited : handler.uPacketLimit.toNat = 2 ^ 32 - 1) (small : data.length < 2 ^ 32) :
    (handler.onDataFrom json (.keeping dispatch) world data offset nProcessed).ending =
      .overrun := by
  induction walk generalizing handler world offset nProcessed with
  | @here data =>
      have admitted : ¬ handler.refuses (Header.peekLen data) = true := by
        rw [CJsonData.refuses_iff]
        exact fun limited => limited.1 unlimited
      rw [CJsonData.onDataFrom_overrun _ _ wraps.1 rfl admitted wraps.2 small]
  | @next data rest whole _ ih =>
      have admitted : ¬ handler.refuses (Header.peekLen data) = true := by
        rw [CJsonData.refuses_iff]
        exact fun limited => limited.1 unlimited
      obtain ⟨value, parsed⟩ := Option.isSome_iff_exists.mp whole.2.2
      rw [CJsonData.onDataFrom_packet _ _ whole.1 rfl admitted whole.2.1 small parsed]
      refine ih wraps (handler.counted _) _ _ _ unlimited ?_
      rw [List.length_drop]
      omega

private theorem harmless_of_small {json : Jsoncpp Value} {dispatch : World → Value → World}
    {handler : CJsonData} {world : World} {data : List UInt8} (small : data.length < 2 ^ 31)
    (tiny : handler.uPacketLimit.toNat < 4)
    (safe : (handler.onData json (.keeping dispatch) world data).Safe handler.uPacketLimit
      data.length) :
    ¬ Whole json data ∧
      (Wraps data → 2 ^ 32 - 4 + handler.uPacketLimit.toNat < lenField data) := by
  constructor
  · intro whole
    have admitted : ¬ handler.refuses (Header.peekLen data) = true := by
      have := whole.2.1
      rw [CJsonData.refuses_iff, CJsonData.peekLen_toNat]
      omega
    obtain ⟨value, parsed⟩ := Option.isSome_iff_exists.mp whole.2.2
    rw [CJsonData.onData, CJsonData.onDataFrom_packet _ _ whole.1 rfl admitted whole.2.1 (by omega)
      parsed] at safe
    have limited := safe.limited ⟨0, Header.peekLen data, some value⟩ (List.mem_cons_self ..)
    simp only [Pass.size] at limited
    omega
  · intro wraps
    by_contra less
    have admitted : ¬ handler.refuses (Header.peekLen data) = true := by
      rw [CJsonData.refuses_iff, CJsonData.peekLen_toNat]
      omega
    rw [CJsonData.onData, CJsonData.onDataFrom_overrun _ _ wraps.1 rfl admitted wraps.2 (by omega)]
      at safe
    obtain ⟨n, ending⟩ := safe.returns
    cases ending

/-- `onData` is safe exactly on harmless data, whatever the limit is. -/
theorem onData_safe_iff (json : Jsoncpp Value) (dispatch : World → Value → World)
    (handler : CJsonData) (world : World) {data : List UInt8} (small : data.length < 2 ^ 31) :
    (handler.onData json (.keeping dispatch) world data).Safe handler.uPacketLimit data.length ↔
      Harmless json handler.uPacketLimit data := by
  constructor
  · intro safe
    by_cases unlimited : handler.uPacketLimit.toNat = 2 ^ 32 - 1
    · refine .inr (.inl ⟨unlimited, ?_⟩)
      intro rest walk wraps
      obtain ⟨n, ending⟩ := safe.returns
      rw [CJsonData.onData, overrun_of_walks dispatch walk wraps handler world 0 0 unlimited
        (by omega)] at ending
      cases ending
    · by_cases tiny : handler.uPacketLimit.toNat < 4
      · exact .inr (.inr ⟨tiny, harmless_of_small small tiny safe⟩)
      · exact .inl ⟨by omega, unlimited⟩
  · intro harmless
    exact SafeFrom.safe.mp
      (onDataFrom_safe json dispatch data.length handler world data 0 rfl (by omega) harmless)

def digitJson : Jsoncpp (Fin 10) where
  toStyledString digit := [48 + UInt8.ofNat digit.val, 10]
  parse
    | [char, 10] => if digit : 48 ≤ char.toNat ∧ char.toNat < 58 then
        some ⟨char.toNat - 48, by omega⟩ else none
    | _ => none

/-- A packet with the text `7` and the first two bytes of another one. -/
theorem onData_safe_iff_seven :
    (CJsonData.onData digitJson (.keeping fun _ digit => some digit) {} none
      [2, 0, 0, 0, 39, 26, 2, 0]).Safe (1024 * 1024 * 16) 8 :=
  (onData_safe_iff digitJson (fun _ digit => some digit) {} none (by decide)).mpr
    (.inl (by decide))

/-- Without a limit, a length field of `2 ^ 32 - 4` reads behind the data. -/
theorem not_onData_safe :
    ¬ (CJsonData.onData digitJson (.keeping fun _ digit => some digit)
      { uPacketLimit := 0xFFFFFFFF } none [252, 255, 255, 255]).Safe 0xFFFFFFFF 4 := by
  intro safe
  have ending : (CJsonData.onData digitJson (.keeping fun _ digit => some digit)
      { uPacketLimit := 0xFFFFFFFF } none [252, 255, 255, 255]).ending = .overrun :=
    overrun_of_walks _ .here ⟨by decide, by decide⟩ _ _ _ _ (by decide) (by decide)
  obtain ⟨n, returned⟩ := safe.returns
  rw [ending] at returned
  cases returned

end CLibs.LibevworkUsing
