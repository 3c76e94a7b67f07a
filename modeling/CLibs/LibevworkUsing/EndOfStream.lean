import CLibs.Libevwork.BlockInput
import CLibs.LibevworkUsing.ClientConn

/-!
# The end of a stream

Whether the handler saw what was received before the connection went, in both versions
of `CClientConn`: with `m_strInput` of `libevwork_using` and `m_Input` of
`libevwork_full`.
-/

set_option autoImplicit false
set_option linter.style.nameCheck false

namespace CLibs.LibevworkUsing

open General Libevwork

/-- `m_strInput` in `__onRead`. -/
def stringInput : Input (List UInt8) where
  bytes strInput := strInput
  size strInput := strInput.length
  reserve strInput := strInput
  room _ := readBuffSize
  push strInput bytes := strInput ++ bytes
  erase strInput size := strInput.drop size

/-- One round of the loop, where bytes that are missing join as well. -/
theorem string_readLoop (strInput : List UInt8) (recvs : List RecvAnswer) :
    stringInput.readLoop strInput recvs =
      let got := recvData readBuffSize recvs []
      match got.ending with
      | .peerClose => ⟨strInput, got.bytes, .peerClose⟩
      | .failed => ⟨strInput, got.bytes, .failed⟩
      | .full | .again =>
          if 0 < got.bytes.length ∧ maxInputSize < strInput.length + got.bytes.length then
            ⟨strInput, got.bytes, .overflow⟩
          else if got.bytes.length < readBuffSize then
            ⟨strInput ++ got.bytes, got.bytes, .drained⟩
          else
            let rest := stringInput.readLoop (strInput ++ got.bytes) got.answers
            { rest with received := got.bytes ++ rest.received } := by
  have joined : ∀ bytes : List UInt8,
      (if 0 < bytes.length then strInput ++ bytes else strInput) = strInput ++ bytes := by
    intro bytes
    split_ifs with some
    · rfl
    · rw [List.length_eq_zero_iff.mp (show bytes.length = 0 by omega), List.append_nil]
  have positive : 0 < readBuffSize := by decide
  have reserve : ∀ b, stringInput.reserve b = b := fun _ => rfl
  have room : ∀ b, stringInput.room b = readBuffSize := fun _ => rfl
  have size : ∀ b, stringInput.size b = b.length := fun _ => rfl
  have push : ∀ b bytes, stringInput.push b bytes = b ++ bytes := fun _ _ => rfl
  rw [Input.readLoop]
  simp only [reserve, room, size, push, joined, if_pos positive]
  rfl

theorem Env.readLoop_eq (env : Env) (recvs : List RecvAnswer) :
    env.readLoop recvs =
      let reading := stringInput.readLoop env.conn.strInput recvs
      let env := { env with conn := { env.conn with strInput := reading.buffer } }
      match reading.ending with
      | .drained => (env, true)
      | _ => (env.__willFreeMyself, false) := by
  induction recvs using WellFounded.induction (measure recvWeight).wf generalizing env with
  | _ recvs ih =>
      cases recvs with
      | nil =>
          have none : recvData readBuffSize [] [] = ⟨[], .again, []⟩ := rfl
          rw [string_readLoop, Env.readLoop, none]
          simp [show 0 < readBuffSize by decide]
      | cons answer recvs =>
          have loop := recvLoop_eq_recvData readBuffSize (answer :: recvs) []
          have less := recvLoop_weight_lt (show ([] : List UInt8).length < readBuffSize by decide)
            answer recvs
          rw [Env.readLoop, string_readLoop]
          rw [loop] at less ⊢
          generalize recvData readBuffSize (answer :: recvs) [] = got at *
          obtain ⟨bytes, ending, answers⟩ := got
          cases ending with
          | peerClose => rfl
          | failed => rfl
          | again =>
              dsimp only
              split_ifs
              · rfl
              · rfl
              · exact ih answers less _
          | full =>
              dsimp only
              split_ifs
              · rfl
              · rfl
              · exact ih answers less _

/-! ## Both versions -/

/-- The string is within the input limit. -/
def StringFits (strInput : List UInt8) : Prop := strInput.length ≤ Libevwork.maxInputSize

theorem string_steady : stringInput.Steady StringFits where
  size _ _ := rfl
  small _ fits := fits
  push b bytes _ _ small := by
    refine ⟨?_, rfl⟩
    change (b ++ bytes).length ≤ _
    rw [List.length_append]
    exact small
  refill b bytes _ room _ small := by
    refine ⟨?_, room, rfl⟩
    change (b ++ bytes).length ≤ _
    rw [List.length_append]
    exact small
  reserve _ fits := ⟨fits, (by decide : 0 < readBuffSize), rfl⟩
  erase b size fits := by
    have shorter : (b.drop size).length ≤ b.length := by
      rw [List.length_drop]
      omega
    exact ⟨shorter.trans fits, shorter⟩

theorem block_steady {platform : Platform} (isLocal : CBuffer.Local platform) :
    (blockInput platform).Steady CBuffer.Ready where
  toLawful := CBuffer.lawful platform
  reserve _ ready := ready.reserve_local isLocal
  erase _ _ ready := ready.erase _

theorem steady_string {W : Type} (world : W) :
    Reader.Steady stringInput StringFits { buffer := [], world := world } :=
  Reader.steady_start (show StringFits [] from Nat.zero_le _) rfl world

/-- In both versions, where no read event meets an error or exceeds the input limit,
freed connections have passed all received bytes to `onData` exactly if the peer never
closed in the read event in which the last data arrived. -/
theorem received_passed_iff (platform : Platform) (isLocal : CBuffer.Local platform) {W : Type}
    (onData : W → List UInt8 → W × Int) (world : W) (events : List (List RecvAnswer)) :
    (∀ s, ((Reader.orderlySystem stringInput onData { buffer := [], world := world }).filter
          fun _ _ after => after.Delivered).Run events s ↔
        ((Reader.orderlySystem stringInput onData { buffer := [], world := world }).restrict
          fun _ recvs => ¬ Abrupt recvs).Run events s) ∧
      ∀ s, ((Reader.orderlySystem (blockInput platform) onData
          { buffer := CBuffer.input, world := world }).filter
            fun _ _ after => after.Delivered).Run events s ↔
        ((Reader.orderlySystem (blockInput platform) onData
          { buffer := CBuffer.input, world := world }).restrict
            fun _ recvs => ¬ Abrupt recvs).Run events s := by
  constructor
  · intro s
    exact Reader.delivered_iff onData string_steady (steady_string world)
  · intro s
    exact Reader.delivered_iff onData (block_steady isLocal) (Reader.steady_start ready_input rfl world)

theorem zeroing_local : CBuffer.Local zeroing := by
  intro mem src n
  refine Memory.length_write ?_
  rw [Memory.read, List.length_take, List.length_drop]
  omega

/-- A handler that takes all bytes and remembers them. -/
def remember (seen pData : List UInt8) : List UInt8 × Int := (seen ++ pData, pData.length)

def remembering : Reader (List UInt8) (List UInt8) where
  buffer := []
  world := []

/-- Two bytes arrive, and in a later read event the close. -/
theorem received_passed_iff_closedLater :
    let first := remembering.__onRead stringInput remember [.got [1, 2], .again]
    let last := first.__onRead stringInput remember [.interrupted, .got []]
    last.world = [1, 2] ∧ last.alive = false ∧
      ((Reader.orderlySystem stringInput remember remembering).filter
        fun _ _ after => after.Delivered).Run
          (([] ++ [[.got [1, 2], .again]]) ++ [[.interrupted, .got []]]) last := by
  intro first last
  have data : ¬ Abrupt [.got [1, 2], .again] := by
    rintro ⟨-, ⟨⟩⟩
  have close : ¬ Abrupt [.interrupted, .got []] := fun both => both.1 rfl
  have opens : remembering.Orderly stringInput [.got [1, 2], .again] :=
    (steady_string []).orderly string_steady nofun (by decide)
  have taken : first.alive = true ∧ first.buffer = [] ∧ first.world = [1, 2] := by
    unfold first
    rw [Reader.__onRead, string_readLoop]
    exact ⟨rfl, rfl, rfl⟩
  have closes : first.Orderly stringInput [.interrupted, .got []] := by
    have steady : first.Steady stringInput StringFits :=
      ((steady_string []).onRead remember string_steady opens data).1 taken.1
    refine steady.orderly string_steady nofun ?_
    rw [taken.2.1]
    decide
  have ended : last.world = first.world ∧ last.alive = false := by
    unfold last
    rw [Reader.__onRead, string_readLoop]
    exact ⟨rfl, rfl⟩
  refine ⟨ended.1.trans taken.2.2, ended.2,
    ((received_passed_iff zeroing zeroing_local _ [] _).1 _).mpr ?_⟩
  exact .step (.step (.start rfl) ⟨data, opens, rfl, rfl⟩) ⟨close, closes, taken.1, rfl⟩

/-- A byte arrives together with the close. -/
theorem not_received_passed :
    ¬ ∀ (events : List (List RecvAnswer)) (s : Reader (List UInt8) Unit),
      (Reader.orderlySystem stringInput (fun _ data => ((), data.length))
        { buffer := [], world := () }).Run events s → s.Delivered := by
  intro delivered
  have orderly : Reader.Orderly stringInput { buffer := [], world := () } [.got [1], .got []] :=
    (steady_string ()).orderly string_steady nofun (by decide)
  have abrupt : Abrupt [.got [1], .got []] := ⟨List.cons_ne_nil _ _, rfl⟩
  exact (steady_string ()).not_delivered _ string_steady orderly abrupt
    (delivered _ _ (.step (.start rfl) ⟨orderly, rfl, rfl⟩))

end CLibs.LibevworkUsing
