import CLibs.LibevworkUsing.JsonSafety

/-!
# JSON values over a stream

What `Jpacket::end` writes is what `CJsonData::onData` dispatches, whatever the
chunks are in which the packets arrive.
-/

set_option autoImplicit false

namespace CLibs.LibevworkUsing

open General Libevwork

variable {World Value : Type}

/-- The input side of a connection: the data handler, what the application has made
of the requests, and the bytes not yet used up. -/
structure Reader (World : Type) where
  data : CJsonData
  world : World
  strInput : List UInt8 := []
  closed : Bool := false

/-- A chunk arrives: the end of `__onRead`. After a result that is negative, and
after a call that goes astray, the connection is gone. -/
def Reader.receive (json : Jsoncpp Value) (dispatch : World → Value → World)
    (reader : Reader World) (chunk : List UInt8) : Reader World :=
  if reader.closed then reader
  else
    let strInput := reader.strInput ++ chunk
    let received := reader.data.onData json (.keeping dispatch) reader.world strInput
    match received.ending with
    | .returned nRetSize =>
        ⟨received.handler, received.world, strInput.drop nRetSize.toNat, nRetSize < 0⟩
    | _ => ⟨received.handler, received.world, strInput, true⟩

/-- The connection after all chunks. -/
def readAll (json : Jsoncpp Value) (dispatch : World → Value → World) (reader : Reader World)
    (chunks : List (List UInt8)) : Reader World :=
  chunks.foldl (Reader.receive json dispatch) reader

/-- Every call of `onData` gets less than `2 ^ 31` bytes. -/
def ReadsSmall (json : Jsoncpp Value) (dispatch : World → Value → World) (reader : Reader World)
    (chunks : List (List UInt8)) : Prop :=
  ∀ before chunk after, chunks = before ++ chunk :: after →
    (readAll json dispatch reader before).strInput.length + chunk.length < 2 ^ 31

/-! ## Packets -/

section Packets

variable {json : Jsoncpp Value}

theorem xorfunc_eq {str : List UInt8} (small : str.length < 2 ^ 31) :
    Jpacket.xorfunc str = str.map (· ^^^ xorKey) := by
  have strLen : int32 (str.length : Int) = str.length :=
    Int.bmod_eq_of_le (by omega) (by omega)
  rw [Jpacket.xorfunc, strLen, Int.toNat_natCast, List.take_length, List.drop_length,
    List.append_nil]

theorem length_xorfunc {str : List UInt8} (small : str.length < 2 ^ 31) :
    (Jpacket.xorfunc str).length = str.length := by
  rw [xorfunc_eq small, List.length_map]

theorem xorfunc_xorfunc {str : List UInt8} (small : str.length < 2 ^ 31) :
    Jpacket.xorfunc (Jpacket.xorfunc str) = str := by
  have masked : (Jpacket.xorfunc str).length < 2 ^ 31 := by rwa [length_xorfunc small]
  rw [xorfunc_eq masked, xorfunc_eq small, List.map_map]
  refine List.map_id'' ?_ str
  intro byte
  rw [Function.comp_apply, UInt8.xor_assoc, UInt8.xor_self, UInt8.xor_zero]

/-- The packet of a value that can be sent under a limit. -/
structure Fits (json : Jsoncpp Value) (limit : UInt32) (value : Value) : Prop where
  limited : (json.toStyledString value).length + 4 ≤ limit.toNat
  small : (json.toStyledString value).length + 4 < 2 ^ 31

theorem end_eq {limit : UInt32} {value : Value} (fits : Fits json limit value) :
    Jpacket.end_ json value =
      LittleEndian.encode 4 (json.toStyledString value).length ++
        Jpacket.xorfunc (json.toStyledString value) := by
  have small := fits.small
  have word : (json.toStyledString value).length < UInt32.size := by
    rw [UInt32.size]
    omega
  rw [Jpacket.end_, length_xorfunc (by omega), word32, UInt32.toNat_ofNat_of_lt' word]

theorem length_end {limit : UInt32} {value : Value} (fits : Fits json limit value) :
    (Jpacket.end_ json value).length = 4 + (json.toStyledString value).length := by
  have small := fits.small
  rw [end_eq fits, List.length_append, LittleEndian.length_encode, length_xorfunc (by omega)]

theorem lenField_end {limit : UInt32} {value : Value} (fits : Fits json limit value)
    (later : List UInt8) :
    lenField (Jpacket.end_ json value ++ later) = (json.toStyledString value).length := by
  have small := fits.small
  have word : (256 : Nat) ^ 4 = 2 ^ 32 := by decide
  rw [lenField_append later (by rw [length_end fits]; omega), end_eq fits, lenField,
    List.take_append_of_le_length (by simp), List.take_of_length_le (by simp),
    LittleEndian.decode_encode (by omega)]

theorem read_end {limit : UInt32} {value : Value} (fits : Fits json limit value)
    (later : List UInt8) :
    Memory.read (Jpacket.end_ json value ++ later) 4 (json.toStyledString value).length =
      Jpacket.xorfunc (json.toStyledString value) := by
  have small := fits.small
  rw [end_eq fits, Memory.read, List.append_assoc, List.drop_append_of_le_length (by simp),
    List.drop_of_length_le (by simp), List.nil_append,
    List.take_append_of_le_length (by rw [length_xorfunc (by omega)]),
    List.take_of_length_le (by rw [length_xorfunc (by omega)])]

def stream (json : Jsoncpp Value) (values : List Value) : List UInt8 :=
  (values.map (Jpacket.end_ json)).flatten

theorem stream_cons (value : Value) (values : List Value) :
    stream json (value :: values) = Jpacket.end_ json value ++ stream json values := rfl

theorem stream_append (first second : List Value) :
    stream json (first ++ second) = stream json first ++ stream json second := by
  rw [stream, List.map_append, List.flatten_append]
  rfl

/-- Bytes of the stream that do not reach the end of its first packet. -/
def Unfinished (json : Jsoncpp Value) (bytes : List UInt8) : List Value → Prop
  | [] => bytes = []
  | value :: values => bytes.length < (Jpacket.end_ json value).length ∧
      bytes <+: stream json (value :: values)

end Packets

/-! ## The loop on a piece of the stream -/

section Loop

variable {json : Jsoncpp Value} (dispatch : World → Value → World)

private theorem admitted_of_fits {handler : CJsonData} {value : Value}
    (fits : Fits json handler.uPacketLimit value) {pData : List UInt8}
    (len : lenField pData = (json.toStyledString value).length) :
    ¬ handler.refuses (Header.peekLen pData) = true := by
  have limited := fits.limited
  have bound := handler.uPacketLimit.toNat_lt
  rw [CJsonData.refuses_iff, CJsonData.peekLen_toNat, len]
  omega

/-- A piece that ends inside its first packet is left as it is. -/
theorem onDataFrom_unfinished {handler : CJsonData} {world : World} {pData : List UInt8}
    (offset : Nat) (nProcessed : Int) {value : Value} {values : List Value}
    (fits : Fits json handler.uPacketLimit value)
    (unfinished : Unfinished json pData (value :: values)) :
    handler.onDataFrom json (.keeping dispatch) world pData offset nProcessed =
      ⟨handler, world, [], .returned nProcessed⟩ := by
  have small := fits.small
  by_cases header : pData.length < 4
  · exact CJsonData.onDataFrom_short _ _ header
  · rw [not_lt] at header
    have len : lenField pData = (json.toStyledString value).length := by
      obtain ⟨later, whole⟩ := unfinished.2
      rw [← lenField_append later header, whole, stream_cons, lenField_end fits]
    have short := unfinished.1
    rw [length_end fits] at short
    exact CJsonData.onDataFrom_partial _ _ header rfl (admitted_of_fits fits len) (by omega)
      (by omega)

theorem int32_add_int32 (first second : Nat) :
    int32 (int32 (first : Int) + int32 (second : Int)) = int32 (first + second : Nat) := by
  rw [int32, int32, int32, int32, Int.bmod_add_bmod, Int.add_bmod_bmod, Nat.cast_add]

theorem onDataFrom_end (inverse : ∀ value, json.parse (json.toStyledString value) = some value)
    (handler : CJsonData) (world : World) {later : List UInt8} (offset nProcessed : Nat)
    {value : Value} (fits : Fits json handler.uPacketLimit value)
    (small : (Jpacket.end_ json value ++ later).length < 2 ^ 32) :
    ∃ passes, handler.onDataFrom json (.keeping dispatch) world
      (Jpacket.end_ json value ++ later) offset (int32 nProcessed) =
        let rest := (handler.counted (Header.peekLen (Jpacket.end_ json value ++ later))).onDataFrom
          json (.keeping dispatch) (dispatch world value) later
          (offset + (Jpacket.end_ json value).length)
          (int32 (nProcessed + (Jpacket.end_ json value).length : Nat))
        { rest with passes := passes } := by
  have len := lenField_end fits later
  have size := length_end fits
  have text := fits.small
  have parsed : Jpacket.parse json (Memory.read (Jpacket.end_ json value ++ later) 4
      (lenField (Jpacket.end_ json value ++ later))) = some value := by
    rw [len, read_end fits, Jpacket.parse, xorfunc_xorfunc (by omega), inverse]
  rw [CJsonData.onDataFrom_packet _ _ (by rw [List.length_append]; omega) rfl
    (admitted_of_fits fits len) (by rw [len, List.length_append]; omega) small parsed, len, ← size,
    List.drop_left, int32_add_int32]
  exact ⟨_, rfl⟩

/-- The loop on a piece of the stream dispatches the packets that are complete. -/
theorem onDataFrom_stream (inverse : ∀ value, json.parse (json.toStyledString value) = some value)
    (values : List Value) : ∀ (handler : CJsonData) (world : World) (pData : List UInt8)
    (offset nProcessed : Nat), (∀ value ∈ values, Fits json handler.uPacketLimit value) →
    pData <+: stream json values → pData.length < 2 ^ 32 →
    ∃ taken rest left, values = taken ++ rest ∧ pData = stream json taken ++ left ∧
      Unfinished json left rest ∧
      (handler.onDataFrom json (.keeping dispatch) world pData offset (int32 nProcessed)).ending =
        .returned (int32 (nProcessed + (stream json taken).length : Nat)) ∧
      (handler.onDataFrom json (.keeping dispatch) world pData offset (int32 nProcessed)).world =
        taken.foldl dispatch world ∧
      (handler.onDataFrom json (.keeping dispatch) world pData offset
        (int32 nProcessed)).handler.uPacketLimit = handler.uPacketLimit := by
  induction values with
  | nil =>
      intro handler world pData offset nProcessed _ piece _
      have nothing : pData = [] := List.prefix_nil.mp piece
      subst nothing
      rw [CJsonData.onDataFrom_short _ _ (by simp)]
      exact ⟨[], [], [], rfl, rfl, rfl, rfl, rfl, rfl⟩
  | cons value values ih =>
      intro handler world pData offset nProcessed fits piece small
      have first : Fits json handler.uPacketLimit value := fits value (List.mem_cons_self ..)
      by_cases unfinished : pData.length < (Jpacket.end_ json value).length
      · rw [onDataFrom_unfinished dispatch _ _ first ⟨unfinished, piece⟩]
        exact ⟨[], value :: values, pData, rfl, rfl, ⟨unfinished, piece⟩, rfl, rfl, rfl⟩
      · obtain ⟨later, rfl⟩ : Jpacket.end_ json value <+: pData :=
          List.prefix_of_prefix_length_le (List.prefix_append _ _) piece (by omega)
        rw [stream_cons, List.prefix_append_right_inj] at piece
        have size := small
        rw [List.length_append] at size
        obtain ⟨passes, loop⟩ :=
          onDataFrom_end dispatch inverse handler world offset nProcessed first small
        obtain ⟨taken, rest, left, rfl, rfl, open_, ending, world', limit⟩ := ih
          (handler.counted (Header.peekLen (Jpacket.end_ json value ++ later)))
          (dispatch world value) later
          (offset + (Jpacket.end_ json value).length)
          (nProcessed + (Jpacket.end_ json value).length)
          (fun other member => fits other (List.mem_cons_of_mem _ member)) piece (by omega)
        refine ⟨value :: taken, rest, left, rfl, by rw [stream_cons, List.append_assoc], open_, ?_,
          ?_, ?_⟩
        · rw [loop]
          dsimp only
          rw [ending, stream_cons, List.length_append, Nat.add_assoc]
        · rw [loop]
          exact world'
        · rw [loop]
          exact limit

end Loop

/-! ## The whole connection -/

/-- How far a connection has come with the stream: `before` has arrived, of which
`left` is not used up yet. -/
structure Reader.Reads (json : Jsoncpp Value) (dispatch : World → Value → World)
    (reader first : Reader World) (values : List Value) (before : List UInt8) : Prop where
  progress : ∃ done rest, values = done ++ rest ∧ before = stream json done ++ reader.strInput ∧
    Unfinished json reader.strInput rest ∧ reader.world = done.foldl dispatch first.world
  limit : reader.data.uPacketLimit = first.data.uPacketLimit
  opened : reader.closed = false

section Connection

variable {json : Jsoncpp Value} {dispatch : World → Value → World}
  {first reader : Reader World} {values : List Value} {before : List UInt8}

theorem Reader.Reads.start (fits : ∀ value ∈ values, Fits json first.data.uPacketLimit value)
    (empty : first.strInput = []) (opened : first.closed = false) :
    first.Reads json dispatch first values [] := by
  refine ⟨⟨[], values, rfl, ?_, ?_, rfl⟩, rfl, opened⟩
  · rw [empty]
    rfl
  · rw [empty]
    cases values with
    | nil => rfl
    | cons value values =>
        refine ⟨?_, List.nil_prefix⟩
        rw [length_end (fits value (List.mem_cons_self ..)), List.length_nil]
        omega

theorem Reader.Reads.receive
    (inverse : ∀ value, json.parse (json.toStyledString value) = some value)
    (fits : ∀ value ∈ values, Fits json first.data.uPacketLimit value)
    (reads : reader.Reads json dispatch first values before) {chunk : List UInt8}
    (piece : before ++ chunk <+: stream json values)
    (small : reader.strInput.length + chunk.length < 2 ^ 31) :
    (reader.receive json dispatch chunk).Reads json dispatch first values (before ++ chunk) := by
  obtain ⟨done, rest, rfl, rfl, -, world⟩ := reads.progress
  rw [stream_append, List.append_assoc, List.prefix_append_right_inj] at piece
  obtain ⟨taken, rest, left, rfl, used, unfinished, ending, world', limit⟩ :=
    onDataFrom_stream dispatch inverse rest reader.data reader.world (reader.strInput ++ chunk) 0 0
      (fun value member => by
        rw [reads.limit]
        exact fits value (List.mem_append_right _ member))
      piece (by rw [List.length_append]; omega)
  have used_le : (stream json taken).length < 2 ^ 31 := by
    have whole := congrArg List.length used
    rw [List.length_append, List.length_append] at whole
    omega
  have whole : int32 ((stream json taken).length : Int) = (stream json taken).length :=
    Int.bmod_eq_of_le (by omega) (by omega)
  rw [Nat.zero_add, whole] at ending
  have next : reader.receive json dispatch chunk =
      ⟨(reader.data.onData json (.keeping dispatch) reader.world (reader.strInput ++ chunk)).handler,
        taken.foldl dispatch reader.world, left, false⟩ := by
    have ended : (reader.data.onData json (.keeping dispatch) reader.world
        (reader.strInput ++ chunk)).ending = .returned (stream json taken).length := ending
    have became : (reader.data.onData json (.keeping dispatch) reader.world
        (reader.strInput ++ chunk)).world = taken.foldl dispatch reader.world := world'
    have counted : ¬ ((stream json taken).length : Int) < 0 := by omega
    rw [Reader.receive, reads.opened, if_neg (by decide)]
    dsimp only
    rw [ended, became]
    dsimp only
    rw [Int.toNat_natCast, used, List.drop_left]
    simp [counted]
  rw [next]
  refine ⟨⟨done ++ taken, rest, by rw [List.append_assoc], ?_, unfinished, ?_⟩, ?_, rfl⟩
  · rw [stream_append, List.append_assoc, List.append_assoc, used]
  · rw [List.foldl_append, ← world]
  · exact limit.trans reads.limit

theorem readAll_reads
    (inverse : ∀ value, json.parse (json.toStyledString value) = some value)
    (fits : ∀ value ∈ values, Fits json first.data.uPacketLimit value)
    (empty : first.strInput = []) (opened : first.closed = false)
    (chunks : List (List UInt8)) (small : ReadsSmall json dispatch first chunks)
    (piece : chunks.flatten <+: stream json values) :
    (readAll json dispatch first chunks).Reads json dispatch first values chunks.flatten := by
  induction chunks using List.reverseRecOn with
  | nil => exact .start fits empty opened
  | append_singleton chunks chunk ih =>
      rw [List.flatten_append, List.flatten_singleton] at piece ⊢
      have before : ReadsSmall json dispatch first chunks := by
        intro earlier next after same
        refine small earlier next (after ++ [chunk]) ?_
        rw [same, List.append_assoc, List.cons_append]
      rw [readAll, List.foldl_append, List.foldl_cons, List.foldl_nil]
      exact (ih before ((List.prefix_append _ _).trans piece)).receive inverse fits piece
        (small chunks chunk [] rfl)

end Connection

/-- Decoding undoes encoding: whatever the chunks are, the values of the packets
are dispatched in order, and no byte is left over. -/
theorem read_packets (json : Jsoncpp Value)
    (inverse : ∀ value, json.parse (json.toStyledString value) = some value)
    (dispatch : World → Value → World) (data : CJsonData) (world : World) (values : List Value)
    (fits : ∀ value ∈ values, (json.toStyledString value).length + 4 ≤ data.uPacketLimit.toNat ∧
      (json.toStyledString value).length + 4 < 2 ^ 31)
    (chunks : List (List UInt8))
    (cut : chunks.flatten = (values.map (Jpacket.end_ json)).flatten)
    (small : ReadsSmall json dispatch { data := data, world := world } chunks) :
    (readAll json dispatch { data := data, world := world } chunks).world =
        values.foldl dispatch world ∧
      (readAll json dispatch { data := data, world := world } chunks).strInput = [] ∧
      (readAll json dispatch { data := data, world := world } chunks).closed = false := by
  have reads := readAll_reads inverse (fun value member => ⟨(fits value member).1, (fits value member).2⟩)
    rfl rfl chunks small (by rw [cut]; exact List.prefix_refl _)
  obtain ⟨done, rest, rfl, arrived, unfinished, became⟩ := reads.progress
  have left : (readAll json dispatch { data := data, world := world } chunks).strInput =
      stream json rest := by
    have whole : stream json done ++ stream json rest = stream json done ++
        (readAll json dispatch { data := data, world := world } chunks).strInput := by
      rw [← arrived, cut, ← stream_append]
      rfl
    exact (List.append_cancel_left whole).symm
  cases rest with
  | nil =>
      rw [List.append_nil]
      exact ⟨became, left, reads.opened⟩
  | cons value rest =>
      have short := unfinished.1
      rw [left, stream_cons, List.length_append] at short
      omega

theorem length_strInput_readAll (json : Jsoncpp Value) (dispatch : World → Value → World)
    (reader : Reader World) (chunks : List (List UInt8)) :
    (readAll json dispatch reader chunks).strInput.length ≤
      reader.strInput.length + chunks.flatten.length := by
  induction chunks generalizing reader with
  | nil => exact Nat.le_refl _
  | cons chunk chunks ih =>
      have step : (reader.receive json dispatch chunk).strInput.length ≤
          reader.strInput.length + chunk.length := by
        unfold Reader.receive
        split_ifs
        · omega
        · dsimp only
          split
          · simp
          · simp
      have rest := ih (reader.receive json dispatch chunk)
      rw [List.flatten_cons, List.length_append]
      rw [readAll, List.foldl_cons] at *
      omega

theorem readsSmall_of_length (json : Jsoncpp Value) (dispatch : World → Value → World)
    {reader : Reader World} {chunks : List (List UInt8)}
    (small : reader.strInput.length + chunks.flatten.length < 2 ^ 31) :
    ReadsSmall json dispatch reader chunks := by
  intro before chunk after same
  have bound := length_strInput_readAll json dispatch reader before
  rw [same, List.flatten_append, List.flatten_cons, List.length_append, List.length_append] at small
  omega

/-- Two digits, cut inside the first header and inside the second text. -/
theorem read_packets_digits :
    (readAll digitJson (fun log digit => log ++ [digit]) { data := {}, world := [] }
      [[2, 0], [0, 0, 39, 26, 2, 0, 0, 0, 36], [26]]).world = [7, 4] :=
  (read_packets digitJson (by decide) (fun log digit => log ++ [digit]) {} [] [7, 4] (by decide)
    [[2, 0], [0, 0, 39, 26, 2, 0, 0, 0, 36], [26]] (by decide)
    (readsSmall_of_length _ _ (by decide))).1

/-- The packets of one digit, many enough for their bytes not to be counted by an `int`. -/
theorem read_overflow {count : Nat} (many : 2 ^ 31 ≤ 6 * count) (few : 6 * count < 2 ^ 32)
    (dispatch : World → Fin 10 → World) (world : World) (digit : Fin 10) :
    let bytes := stream digitJson (List.replicate count digit)
    let reader := readAll digitJson dispatch { data := {}, world := world } [bytes]
    reader.strInput = bytes ∧ reader.closed = true := by
  have text : ∀ digit, (digitJson.toStyledString digit).length = 2 := by decide
  have fits : ∀ value ∈ List.replicate count digit,
      Fits digitJson ({} : CJsonData).uPacketLimit value := by
    intro value member
    rw [List.eq_of_mem_replicate member]
    exact ⟨by rw [text]; decide, by rw [text]; decide⟩
  have size : (stream digitJson (List.replicate count digit)).length = 6 * count := by
    rw [stream, List.length_flatten, List.map_map, List.map_replicate,
      List.sum_replicate_nat, Function.comp_apply]
    have some : count ≠ 0 := by omega
    rw [length_end (fits digit (List.mem_replicate.mpr ⟨some, rfl⟩)), text, Nat.mul_comm]
  have inverse : ∀ digit, digitJson.parse (digitJson.toStyledString digit) = some digit := by decide
  obtain ⟨taken, rest, left, same, bytes, unfinished, ending, -, -⟩ :=
    onDataFrom_stream dispatch inverse (List.replicate count digit) {} world
      (stream digitJson (List.replicate count digit)) 0 0 fits (List.prefix_refl _) (by rwa [size])
  -- no packet of the whole stream is left
  have all : rest = [] := by
    cases rest with
    | nil => rfl
    | cons value rest =>
        have short := unfinished.1
        rw [same, stream_append, List.append_cancel_left_eq] at bytes
        rw [← bytes, stream_cons, List.length_append] at short
        omega
  rw [all, List.append_nil] at same
  have negative : int32 ((6 * count : Nat) : Int) < 0 := by
    rw [int32, Int.bmod_def, Nat.cast_mul, Int.emod_eq_of_lt (by omega) (by omega)]
    split <;> omega
  rw [Nat.zero_add, ← same, size] at ending
  have called : (({} : CJsonData).onData digitJson (.keeping dispatch) world
      ([] ++ stream digitJson (List.replicate count digit))).ending =
        .returned (int32 (6 * count : Nat)) := ending
  dsimp only
  rw [readAll, List.foldl_cons, List.foldl_nil, Reader.receive, if_neg Bool.false_ne_true]
  dsimp only
  rw [called]
  dsimp only
  rw [Int.toNat_of_nonpos negative.le]
  exact ⟨rfl, decide_eq_true negative⟩

/-- The packets have 2147483652 bytes together. -/
theorem not_read_packets :
    (∀ value ∈ List.replicate 357913942 (7 : Fin 10),
      (digitJson.toStyledString value).length + 4 ≤ ({} : CJsonData).uPacketLimit.toNat ∧
        (digitJson.toStyledString value).length + 4 < 2 ^ 31) ∧
      let bytes := stream digitJson (List.replicate 357913942 7)
      let reader := readAll digitJson (fun log digit => log ++ [digit])
        { data := {}, world := [] } [bytes]
      reader.strInput = bytes ∧ reader.closed = true := by
  refine ⟨fun value _ => ?_, read_overflow (by decide) (by decide) _ [] 7⟩
  have text : ∀ digit, (digitJson.toStyledString digit).length = 2 := by decide
  rw [text]
  decide

end CLibs.LibevworkUsing
