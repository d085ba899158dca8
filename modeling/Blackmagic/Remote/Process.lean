import Blackmagic.Gdb.Bounds

/-!
# The remote protocol: `remote.c`

A packet between `!` and `#` is handled by `packetProcess`. What it does is the list of its acts:
the places of `jtag_devs` and of local buffers that it uses, the string that it gives the responder,
the clock cycles of each loop that takes its count from the packet, and the responses. A call
through a function pointer that nobody has set ends the list. The packet is in `pbuf`, of `len`
characters with a terminator, after which the buffer goes on with what earlier packets left there.
What the ADIv5 and SPI layers answer, and the pins, are parameters.
-/

namespace Blackmagic.Remote

open Scanf

/-! ## Acts -/

/-- What the handler of a packet does. A loop of clock cycles comes with the number that the packet
encodes for it. -/
inductive Act
  | jtagDev (index : Nat)
  | store (s : Store)
  | string (text : Option (List UInt8))
  | clock (encoded ran : Nat)
  | nullCall
  | response (text : List UInt8)
  deriving DecidableEq, Repr

/-- `hex_string_to_num`. -/
def hexStringToNum (maxDigits : Nat) (str : List UInt8) : UInt64 :=
  ((str.take maxDigits).takeWhile isHex).foldl
    (fun ret value => ret <<< 4 ||| (unhexDigit value).toUInt64) 0

/-- The number that a packet encodes from an offset on. -/
def encoded (maxDigits offset : Nat) (pbuf : List UInt8) (len : Nat) : Nat :=
  (hexStringToNum maxDigits ((pbuf.take len).drop offset)).toNat

/-! ## Responses -/

/-- `REMOTE_RESP_OK`. -/
def respOk : UInt8 := 0x4b

/-- `REMOTE_RESP_PARERR`. -/
def respParerr : UInt8 := 0x50

/-- `REMOTE_RESP_ERR`. -/
def respErr : UInt8 := 0x45

/-- `REMOTE_RESP_NOTSUP`. -/
def respNotsup : UInt8 := 0x4e

/-- `REMOTE_ERROR_UNRECOGNISED`. -/
def errorUnrecognised : UInt64 := 1

/-- `REMOTE_ERROR_WRONGLEN`. -/
def errorWronglen : UInt64 := 2

/-- `REMOTE_ERROR_FAULT`. -/
def errorFault : UInt64 := 3

/-- `REMOTE_ERROR_EXCEPTION`. -/
def errorException : UInt64 := 4

/-- A response, from `REMOTE_RESP` to `REMOTE_EOM`. -/
def framed (code : UInt8) (body : List UInt8) : Act := .response (0x26 :: code :: body ++ [0x23])

/-- The first loop of `remote_respond`: the digits of a number, the last one first. -/
def responseDigits : (left : Nat) → (param : UInt64) → List UInt8
  | 0, _ => []
  | left + 1, param =>
    if param = 0 then [] else hexDigit (param &&& 0xf).toUInt8 :: responseDigits left (param >>> 4)

/-- The content of `response` in `remote_respond`. -/
def responseText (param : UInt64) : List UInt8 :=
  match responseDigits 16 param with
  | [] => [0x30]
  | digits => digits

/-- `remote_respond`. -/
def respond (code : UInt8) (param : UInt64) : List Act :=
  (unhexifyStores 16 (responseText param).length).map .store ++
    [framed code (responseText param).reverse]

/-- `remote_send_buf`, which goes through `hex`, of two characters, for each byte. -/
def sendBuf (data : List UInt8) : List Act :=
  data.flatMap fun _ => (hexifyStores 2 1).map .store

/-- `remote_respond_buf`. -/
def respondBuf (code : UInt8) (data : List UInt8) : List Act :=
  sendBuf data ++ [framed code (hexify data)]

/-- The characters that `remote_respond_string` replaces. -/
def replaced (chr : UInt8) : UInt8 := if chr = 0x24 ∨ chr = 0x21 ∨ chr = 0x23 then 0x20 else chr

/-- `remote_respond_string`. The length of a null string is never known. -/
def respondString (code : UInt8) (str : Option (List UInt8)) : List Act :=
  match str with
  | some text => [.string str, framed code (text.map replaced)]
  | none => [.string none]

/-! ## The surroundings -/

/-- `JTAG_MAX_DEVS`. -/
def jtagMaxDevs : Nat := 32

/-- The two sets of functions that `REMOTE_INIT` gives `remote_dp`. -/
inductive Link
  | swd
  | jtag
  deriving DecidableEq, Repr

/-- Whether `jtag_proc` and `swd_proc` are set, which functions `remote_dp` has, and
`jtag_dev_count`. -/
structure State where
  jtagProc : Bool
  swdProc : Bool
  dp : Option Link
  devCount : Nat
  devCount_le : devCount ≤ jtagMaxDevs

/-- The state at boot. -/
def State.boot : State := ⟨false, false, none, 0, Nat.zero_le _⟩

/-- An access of the ADIv5 layer. -/
inductive Access
  | dpRead (addr : UInt16)
  | raw (addr : UInt16) (value : UInt32)
  | apRead (addr : UInt16)
  | apWrite (addr : UInt16) (value : UInt32)
  | memRead (csw address length : UInt32)
  | memWrite (csw : UInt32) (align : UInt8) (dest : UInt32) (data : List UInt8)
  deriving DecidableEq, Repr

/-- How an access ends: with data, with a fault of the DP, or with an exception. -/
inductive AccessEnd
  | done (data : Nat → UInt8)
  | fault (code : UInt8)
  | raised (type : UInt32)

/-- What a packet meets: the pins, the version of the firmware, and the ADIv5 and SPI layers. -/
structure Env where
  tdo : Nat → Bool
  seqIn : (clockCycles : Nat) → UInt32
  parityError : Bool
  nrst : Bool
  maxFrequency : UInt32
  version : List UInt8
  adiv5 : (devIndex apsel : UInt8) → Access → AccessEnd
  spiInit : UInt8 → Bool
  spiDeinit : UInt8 → Bool
  spiChipSelect : UInt8 → Bool
  spiXfer : (bus value : UInt8) → UInt8
  spiRead : (bus device : UInt8) → (command : UInt16) → (address : UInt32) → Nat → UInt8

/-- `platform_target_voltage`, which has nothing to say. -/
def platformTargetVoltage : Option (List UInt8) := none

/-- A call through `jtag_proc` or `swd_proc`. -/
def throughProc (isSet : Bool) (acts : List Act) : List Act := if isSet then acts else [.nullCall]

/-! ## SWD packets -/

/-- The cases of `remote_packet_process_swd`. -/
inductive SwdCommand
  | init
  | seqInPar
  | seqIn
  | seqOut
  | seqOutPar
  | unrecognised
  deriving DecidableEq, Repr

/-- The case of a character. -/
def swdCommand (c : UInt8) : SwdCommand :=
  if c = 0x53 then .init
  else if c = 0x49 then .seqInPar
  else if c = 0x69 then .seqIn
  else if c = 0x6f then .seqOut
  else if c = 0x4f then .seqOutPar
  else .unrecognised

/-- `remote_packet_process_swd`. -/
def packetProcessSwd (env : Env) (st : State) (pbuf : List UInt8) (len : Nat) : List Act :=
  let clockCycles := (hexStringToNum 2 (pbuf.drop 2)).toNat
  let loop := Act.clock (encoded 2 2 pbuf len) clockCycles
  match swdCommand (pbuf.getD 1 0) with
  | .init => if len = 2 then respond respOk 0 else respond respErr errorWronglen
  | .seqInPar =>
    throughProc st.swdProc
      (loop :: respond (if env.parityError then respParerr else respOk)
        (env.seqIn clockCycles).toUInt64)
  | .seqIn => throughProc st.swdProc (loop :: respond respOk (env.seqIn clockCycles).toUInt64)
  | .seqOut => throughProc st.swdProc (loop :: respond respOk 0)
  | .seqOutPar => throughProc st.swdProc (loop :: respond respOk 0)
  | .unrecognised => respond respErr errorUnrecognised

/-! ## JTAG packets -/

/-- The cases of `remote_packet_process_jtag`. -/
inductive JtagCommand
  | init
  | reset
  | tms
  | cycle
  | tdiTdo
  | next
  | unrecognised
  deriving DecidableEq, Repr

/-- The case of a character. -/
def jtagCommand (c : UInt8) : JtagCommand :=
  if c = 0x53 then .init
  else if c = 0x52 then .reset
  else if c = 0x54 then .tms
  else if c = 0x63 then .cycle
  else if c = 0x44 ∨ c = 0x64 then .tdiTdo
  else if c = 0x4e then .next
  else .unrecognised

/-- The stores of `jtagtap_tdi_tdo_seq` to `data_out`: each byte when its last bit is there, and
what is left of the last one. -/
def tdiTdoStores (capacity clockCycles : Nat) : List Store :=
  (((List.range clockCycles).filter fun cycle => cycle % 8 = 7).map fun cycle =>
    ⟨capacity, cycle / 8⟩) ++
    if clockCycles % 8 ≠ 0 then [⟨capacity, (clockCycles - 1) / 8⟩] else []

/-- `data_out` after a shift of at most 64 cycles. -/
def tdiTdoValue (tdo : Nat → Bool) (clockCycles : Nat) : UInt64 :=
  (List.range (min clockCycles 64)).foldl
    (fun value cycle => if tdo cycle then value ||| 1 <<< UInt64.ofNat cycle else value) 0

/-- The cycles of `jtagtap_cycle`: one of its own, and a loop whose count is a `size_t`. -/
def jtagtapCycle (clockCycles : UInt32) : Nat := 1 + (clockCycles - 1).toNat

/-- `remote_packet_process_jtag`. -/
def packetProcessJtag (env : Env) (st : State) (pbuf : List UInt8) (len : Nat) : List Act :=
  match jtagCommand (pbuf.getD 1 0) with
  | .init => respond respOk 0
  | .reset => throughProc st.jtagProc (respond respOk 0)
  | .tms =>
    if len < 4 then respond respErr errorWronglen
    else
      throughProc st.jtagProc
        (.clock (encoded 2 2 pbuf len) (hexStringToNum 2 (pbuf.drop 2)).toNat :: respond respOk 0)
  | .cycle =>
    let clockCycles := (hexStringToNum 8 (pbuf.drop 4)).toUInt32
    throughProc st.jtagProc
      (.clock (encoded 8 4 pbuf len) (jtagtapCycle clockCycles) :: respond respOk 0)
  | .tdiTdo =>
    if len < 5 then respond respErr errorWronglen
    else
      let clockCycles := (hexStringToNum 2 (pbuf.drop 2)).toNat
      throughProc st.jtagProc
        (.clock (encoded 2 2 pbuf len) clockCycles :: (tdiTdoStores 8 clockCycles).map .store ++
          respond respOk (tdiTdoValue env.tdo clockCycles))
  | .next =>
    if len ≠ 4 then respond respErr errorWronglen
    else throughProc st.jtagProc (respond respOk (if env.tdo 0 then 1 else 0))
  | .unrecognised => respond respErr errorUnrecognised

/-! ## General packets -/

/-- The cases of `remote_packet_process_general`. -/
inductive GeneralCommand
  | voltage
  | nrstSet
  | nrstGet
  | freqSet
  | freqGet
  | pwrSet
  | pwrGet
  | start
  | targetClkOe
  | unrecognised
  deriving DecidableEq, Repr

/-- The case of a character. -/
def generalCommand (c : UInt8) : GeneralCommand :=
  if c = 0x56 then .voltage
  else if c = 0x5a then .nrstSet
  else if c = 0x7a then .nrstGet
  else if c = 0x46 then .freqSet
  else if c = 0x66 then .freqGet
  else if c = 0x50 then .pwrSet
  else if c = 0x70 then .pwrGet
  else if c = 0x41 then .start
  else if c = 0x45 then .targetClkOe
  else .unrecognised

/-- The bytes of a word in memory. -/
def wordData (value : UInt32) : List UInt8 :=
  [value.toUInt8, (value >>> 8).toUInt8, (value >>> 16).toUInt8, (value >>> 24).toUInt8]

/-- `remote_packet_process_general`, for a platform without a power switch. -/
def packetProcessGeneral (env : Env) (pbuf : List UInt8) : List Act :=
  match generalCommand (pbuf.getD 1 0) with
  | .voltage => respondString respOk platformTargetVoltage
  | .nrstSet => respond respOk 0
  | .nrstGet => respond respOk (if env.nrst then 1 else 0)
  | .freqSet => respond respOk 0
  | .freqGet => respondBuf respOk (wordData env.maxFrequency)
  | .pwrSet => respond respNotsup 0
  | .pwrGet => respond respNotsup 0
  | .start => respondString respOk (some (ascii "ESP32-S3" ++ env.version))
  | .targetClkOe => respond respOk 0
  | .unrecognised => respond respErr errorUnrecognised

/-! ## High-level packets -/

/-- `REMOTE_HL_VERSION`. -/
def hlVersion : UInt64 := 3

/-- The cases of `remote_packet_process_high_level`. -/
inductive HlCommand
  | check
  | addJtagDev
  | unrecognised
  deriving DecidableEq, Repr

/-- The case of a character. -/
def hlCommand (c : UInt8) : HlCommand :=
  if c = 0x43 then .check
  else if c = 0x4a then .addJtagDev
  else .unrecognised

/-- The index of a `HJ` packet. -/
def devIndexArg (pbuf : List UInt8) : UInt8 := (hexStringToNum 2 (pbuf.drop 2)).toUInt8

/-- The places of `jtag_devs` that `jtag_add_device` writes. -/
def jtagAddDevice (devIndex : Nat) : List Act :=
  (if devIndex = 0 then (List.range jtagMaxDevs).map .jtagDev else []) ++ [.jtagDev devIndex]

/-- `remote_packet_process_high_level`. -/
def packetProcessHighLevel (pbuf : List UInt8) (len : Nat) : List Act :=
  match hlCommand (pbuf.getD 1 0) with
  | .check => respond respOk hlVersion
  | .addJtagDev =>
    if len < 22 then respond respErr errorWronglen
    else jtagAddDevice (devIndexArg pbuf).toNat ++ respond respOk 0
  | .unrecognised => respond respErr errorUnrecognised

/-! ## ADIv5 packets -/

/-- What an ADIv5 packet asks for: an access, or a response without one. -/
inductive Request
  | access (a : Access)
  | refused (code : UInt8) (param : UInt64)
  deriving DecidableEq, Repr

/-- A field of a packet. -/
def field (digits offset : Nat) (pbuf : List UInt8) : UInt64 :=
  hexStringToNum digits (pbuf.drop offset)

/-- The case `REMOTE_MEM_READ`. -/
def memReadRequest (pbuf : List UInt8) : Request :=
  let length := (field 8 22 pbuf).toUInt32
  if 1024 < length then .refused respParerr 0
  else .access (.memRead (field 8 6 pbuf).toUInt32 (field 8 14 pbuf).toUInt32 length)

/-- The case `REMOTE_MEM_WRITE`. -/
def memWriteRequest (pbuf : List UInt8) : Request :=
  let align := (field 2 14 pbuf).toUInt8
  let length := (field 8 24 pbuf).toUInt32
  if 1024 < length then .refused respParerr 0
  else if length &&& (1 <<< align.toUInt32 - 1) ≠ 0 then .refused respParerr 0
  else
    .access (.memWrite (field 8 6 pbuf).toUInt32 align (field 8 16 pbuf).toUInt32
      (unhexify (pbuf.drop 32) length.toNat))

/-- The switch of `remote_packet_process_adiv5`. -/
def adiv5Request (pbuf : List UInt8) : Request :=
  let c := pbuf.getD 1 0
  let addr := (field 4 6 pbuf).toUInt16
  let value := (field 8 10 pbuf).toUInt32
  if c = 0x64 then .access (.dpRead addr)
  else if c = 0x52 then .access (.raw addr value)
  else if c = 0x61 then .access (.apRead addr)
  else if c = 0x41 then .access (.apWrite addr value)
  else if c = 0x6d then memReadRequest pbuf
  else if c = 0x4d then memWriteRequest pbuf
  else .refused respErr errorUnrecognised

/-- How much data `remote_adiv5_respond` gets, when it gets any. -/
def Access.replyLength : Access → Option Nat
  | .dpRead _ | .raw _ _ | .apRead _ => some 4
  | .memRead _ _ length => some length.toNat
  | .apWrite _ _ | .memWrite _ _ _ _ => none

/-- `adiv5_mem_read` of nothing does not get as far as the DP. -/
def Access.reachesDp : Access → Bool
  | .memRead _ _ length => length != 0
  | _ => true

/-- The stores to the packet buffer: the data that is read, or that is to be written. -/
def Access.stores : Access → List Store
  | .memRead _ _ length => unhexifyStores pbufCapacity length.toNat
  | .memWrite _ _ _ data => unhexifyStores pbufCapacity data.length
  | _ => []

/-- What an access does before it ends. Over JTAG it selects the device with `jtag_dev_write_ir`,
which marks all devices when the IR changes. -/
def Access.acts (st : State) (devIndex : UInt8) (a : Access) : List Act :=
  a.stores.map .store ++
    if a.reachesDp ∧ st.dp = some .jtag then
      .jtagDev devIndex.toNat :: (List.range st.devCount).map .jtagDev
    else []

/-- `remote_adiv5_respond`, or the response to an exception in `remote_packet_process`. -/
def adiv5Respond (replyLength : Option Nat) : AccessEnd → List Act
  | .raised type => respond respErr (errorException ||| type.toUInt64 <<< 8)
  | .fault code => respond respErr (errorFault ||| code.toUInt64 <<< 8)
  | .done data =>
    match replyLength with
    | some length => respondBuf respOk ((List.range length).map data)
    | none => respond respOk 0

/-- `remote_packet_process_adiv5`, inside the block of `remote_packet_process`. -/
def packetProcessAdiv5 (env : Env) (st : State) (pbuf : List UInt8) (len : Nat) : List Act :=
  let devIndex := devIndexArg pbuf
  let apsel := (field 2 4 pbuf).toUInt8
  if len < 8 then respond respParerr 0
  else
    match adiv5Request pbuf with
    | .refused code param => respond code param
    | .access a =>
      if a.reachesDp ∧ st.dp = none then [.nullCall]
      else a.acts st devIndex ++ adiv5Respond a.replyLength (env.adiv5 devIndex apsel a)

/-! ## SPI packets -/

/-- The cases of `remote_packet_process_spi`. -/
inductive SpiCommand
  | busBegin
  | busEnd
  | chipSelect
  | transfer
  | read
  | write
  | chipId
  | runCommand
  | unrecognised
  deriving DecidableEq, Repr

/-- The case of a character. -/
def spiCommand (c : UInt8) : SpiCommand :=
  if c = 0x42 then .busBegin
  else if c = 0x45 then .busEnd
  else if c = 0x43 then .chipSelect
  else if c = 0x58 then .transfer
  else if c = 0x72 then .read
  else if c = 0x77 then .write
  else if c = 0x49 then .chipId
  else if c = 0x63 then .runCommand
  else .unrecognised

/-- `remote_spi_respond`. -/
def spiRespond (result : Bool) : List Act :=
  if result then respond respOk 0 else respond respErr errorFault

/-- The length of a transfer with the SPI Flash. -/
def spiLength (pbuf : List UInt8) : Nat := (field 4 16 pbuf).toNat

/-- `SPI_FLASH_CMD_READ_JEDEC_ID`. -/
def readJedecId : UInt16 := 0x9f

/-- `remote_packet_process_spi`. -/
def packetProcessSpi (env : Env) (pbuf : List UInt8) (len : Nat) : List Act :=
  let bus := (field 2 2 pbuf).toUInt8
  let device := (field 2 4 pbuf).toUInt8
  let command := (field 4 6 pbuf).toUInt16
  let address := (field 6 10 pbuf).toUInt32
  let length := spiLength pbuf
  if len < 4 then respond respParerr 0
  else
    match spiCommand (pbuf.getD 1 0) with
    | .busBegin => spiRespond (env.spiInit bus)
    | .busEnd => spiRespond (env.spiDeinit bus)
    | .chipSelect => spiRespond (env.spiChipSelect bus)
    | .transfer => respond respOk (env.spiXfer bus (field 2 4 pbuf).toUInt8).toUInt64
    | .read =>
      if 256 < length then respond respParerr 0
      else
        (unhexifyStores pbufCapacity length).map .store ++
          respondBuf respOk ((List.range length).map (env.spiRead bus device command address))
    | .write =>
      if 256 < length then respond respParerr 0
      else (unhexifyStores pbufCapacity length).map .store ++ respond respOk 0
    | .chipId =>
      (unhexifyStores 3 3).map .store ++
        respondBuf respOk ((List.range 3).map (env.spiRead bus device readJedecId 0))
    | .runCommand => respond respOk 0
    | .unrecognised => respond respErr errorUnrecognised

/-! ## All packets -/

/-- The cases of `remote_packet_process`. -/
inductive Kind
  | swdp
  | jtag
  | general
  | highLevel
  | adiv5
  | spi
  | unrecognised
  deriving DecidableEq, Repr

/-- The case of a first character. -/
def kind (c : UInt8) : Kind :=
  if c = 0x53 then .swdp
  else if c = 0x4a then .jtag
  else if c = 0x47 then .general
  else if c = 0x48 then .highLevel
  else if c = 0x41 then .adiv5
  else if c = 0x73 then .spi
  else .unrecognised

/-- `remote_packet_process`. -/
def packetProcess (env : Env) (st : State) (pbuf : List UInt8) (len : Nat) : List Act :=
  match kind (pbuf.getD 0 0) with
  | .swdp => packetProcessSwd env st pbuf len
  | .jtag => packetProcessJtag env st pbuf len
  | .general => packetProcessGeneral env pbuf
  | .highLevel => packetProcessHighLevel pbuf len
  | .adiv5 => packetProcessAdiv5 env st pbuf len
  | .spi => packetProcessSpi env pbuf len
  | .unrecognised => respond respErr errorUnrecognised

/-- What a packet leaves: `REMOTE_INIT` sets the functions, and `HJ` the number of devices. -/
def State.next (st : State) (pbuf : List UInt8) (len : Nat) : State :=
  match kind (pbuf.getD 0 0) with
  | .swdp =>
    if swdCommand (pbuf.getD 1 0) = .init ∧
      len = 2 then { st with swdProc := true, dp := some .swd }
    else st
  | .jtag =>
    if jtagCommand (pbuf.getD 1 0) = .init then { st with jtagProc := true, dp := some .jtag }
      else st
  | .highLevel =>
    if h : hlCommand (pbuf.getD 1 0) = .addJtagDev ∧ 22 ≤ len ∧
        (devIndexArg pbuf).toNat < jtagMaxDevs then
      { st with devCount := (devIndexArg pbuf).toNat + 1, devCount_le := h.2.2 }
    else st
  | _ => st

end Blackmagic.Remote
