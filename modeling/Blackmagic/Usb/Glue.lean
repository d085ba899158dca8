import Blackmagic.Lib.Run

/-!
# CDC interfaces: `usb-glue.c`

Which CDC interface the glue writes to, for each USB device type. TinyUSB is a library: the calls
made to it are logged, and what the host sees on an interface are the bytes of the writes to it, in
order. The producers are the GDB thread, the task that forwards the target's UART (`usb-uart.c`) and
the redirected standard output of the target (`usb_serial.c`).
-/

namespace Blackmagic

/-! ## The glue -/

/-- `USBDeviceType`. -/
inductive UsbDeviceType
  | dapLink
  | dualCdc
  | cdcMsc
  deriving DecidableEq, Repr

/-- `BlackmagicCDCTypeGDB`. -/
def blackmagicCdcTypeGdb : Nat := 0

/-- `BlackmagicCDCTypeUART`. -/
def blackmagicCdcTypeUart : Nat := 1

/-- `DapCDCTypeUART`. -/
def dapCdcTypeUart : Nat := 0

/-- A call of TinyUSB: `tud_cdc_n_write`, `tud_cdc_n_write_flush` and `tud_cdc_n_read_flush`. -/
inductive TudCall
  | write (itf : Nat) (buf : List UInt8)
  | writeFlush (itf : Nat)
  | readFlush (itf : Nat)
  deriving DecidableEq, Repr

/-- `esp_system_abort`. -/
inductive UsbAbort
  | wrongDeviceType
  deriving DecidableEq, Repr

/-- A write, and a flush when asked for. -/
def tudWrite (itf : Nat) (buf : List UInt8) (flush : Bool) : List TudCall :=
  .write itf buf :: if flush then [.writeFlush itf] else []

/-- `usb_glue_cdc_send`. -/
def usbGlueCdcSend (type : UsbDeviceType) (buf : List UInt8) (flush : Bool) : List TudCall :=
  if type = .dualCdc then tudWrite blackmagicCdcTypeUart buf flush
  else tudWrite dapCdcTypeUart buf flush

/-- `usb_glue_gdb_send`. -/
def usbGlueGdbSend (type : UsbDeviceType) (buf : List UInt8) (flush : Bool) :
    Except UsbAbort (List TudCall) :=
  if type = .dualCdc ∨ type = .cdcMsc then .ok (tudWrite blackmagicCdcTypeGdb buf flush)
  else .error .wrongDeviceType

/-- The callback that `tud_cdc_rx_cb` calls for an interface, if any. -/
inductive RxCallback
  | gdbReceive
  | cdcReceive
  deriving DecidableEq, Repr

/-- `tud_cdc_rx_cb`: the callback, or a flush of what was received. -/
def tudCdcRxCb (type : UsbDeviceType) (interface : Nat) : Option RxCallback :=
  match type with
  | .dualCdc =>
    if interface = blackmagicCdcTypeGdb then some .gdbReceive
    else if interface = blackmagicCdcTypeUart then some .cdcReceive
    else none
  | .dapLink => if interface = dapCdcTypeUart then some .cdcReceive else none
  | .cdcMsc => if interface = 0 then some .gdbReceive else none

/-- `usb_uart_rx_task` on the bytes that it received: one character at a time, the last one
flushed. -/
def usbUartRxTask (type : UsbDeviceType) : List UInt8 → List TudCall
  | [] => []
  | [c] => usbGlueCdcSend type [c] true
  | c :: rest => usbGlueCdcSend type [c] false ++ usbUartRxTask type rest

/-- `debug_serial_send_stdout`. -/
def debugSerialSendStdout (type : UsbDeviceType) (data : List UInt8) : List TudCall :=
  usbGlueCdcSend type data true

/-- An event of a run: the GDB thread sends, the target's UART or standard output has bytes, or the
host has sent to an interface. -/
inductive UsbEvent
  | gdbSend (buf : List UInt8) (flush : Bool)
  | uartRx (data : List UInt8)
  | stdout (data : List UInt8)
  | host (interface : Nat)

/-- The calls of TinyUSB for an event. -/
def usbEvent (type : UsbDeviceType) : UsbEvent → Except UsbAbort (List TudCall)
  | .gdbSend buf flush => usbGlueGdbSend type buf flush
  | .uartRx data => .ok (usbUartRxTask type data)
  | .stdout data => .ok (debugSerialSendStdout type data)
  | .host interface =>
    .ok (if tudCdcRxCb type interface = none then [.readFlush interface] else [])

/-- The calls of TinyUSB for a run. -/
def usbRun (type : UsbDeviceType) : List UsbEvent → Except UsbAbort (List TudCall)
  | [] => .ok []
  | e :: es => do
    let calls ← usbEvent type e
    let calls' ← usbRun type es
    .ok (calls ++ calls')

/-! ## What the host sees -/

/-- The bytes written to an interface. -/
def cdcStream (itf : Nat) : List TudCall → List UInt8
  | [] => []
  | .write i buf :: calls => if i = itf then buf ++ cdcStream itf calls else cdcStream itf calls
  | _ :: calls => cdcStream itf calls

/-- What the GDB thread sent. -/
def gdbBytes : List UsbEvent → List UInt8
  | [] => []
  | .gdbSend buf _ :: es => buf ++ gdbBytes es
  | _ :: es => gdbBytes es

/-- What the target printed, on its UART or its standard output. -/
def targetBytes : List UsbEvent → List UInt8
  | [] => []
  | .uartRx data :: es => data ++ targetBytes es
  | .stdout data :: es => data ++ targetBytes es
  | _ :: es => targetBytes es

/-- A run without what the target printed. -/
def silence : List UsbEvent → List UsbEvent
  | [] => []
  | .uartRx _ :: es => silence es
  | .stdout _ :: es => silence es
  | e :: es => e :: silence es

/-- The stream of an interface over two parts. -/
theorem cdcStream_append (itf : Nat) (calls calls' : List TudCall) :
    cdcStream itf (calls ++ calls') = cdcStream itf calls ++ cdcStream itf calls' := by
  induction calls with
  | nil => rfl
  | cons call calls ih =>
    cases call with
    | write i buf =>
      simp only [List.cons_append, cdcStream, ih]
      split
      · rw [List.append_assoc]
      · rfl
    | writeFlush i => exact ih
    | readFlush i => exact ih

/-- A write goes to its interface only. -/
theorem cdcStream_tudWrite (itf i : Nat) (buf : List UInt8) (flush : Bool) :
    cdcStream itf (tudWrite i buf flush) = if i = itf then buf else [] := by
  cases flush <;> simp [tudWrite, cdcStream]

/-- The interface that the target's bytes go to. -/
def cdcInterface (type : UsbDeviceType) : Nat :=
  if type = .dualCdc then blackmagicCdcTypeUart else dapCdcTypeUart

/-- What `usb_glue_cdc_send` writes goes to the UART's interface. -/
theorem cdcStream_usbGlueCdcSend (itf : Nat) (type : UsbDeviceType) (buf : List UInt8)
    (flush : Bool) : cdcStream itf (usbGlueCdcSend type buf flush) =
      if cdcInterface type = itf then buf else [] := by
  unfold usbGlueCdcSend cdcInterface
  split <;> rw [cdcStream_tudWrite]

/-- So does what the UART received. -/
theorem cdcStream_usbUartRxTask (itf : Nat) (type : UsbDeviceType) (data : List UInt8) :
    cdcStream itf (usbUartRxTask type data) = if cdcInterface type = itf then data else [] := by
  fun_induction usbUartRxTask type data with
  | case1 => simp [cdcStream]
  | case2 c => exact cdcStream_usbGlueCdcSend itf type [c] true
  | case3 c rest _ ih =>
    rw [cdcStream_append, cdcStream_usbGlueCdcSend, ih]
    split <;> rfl

/-- The bytes of one event on the GDB interface: those of the GDB thread, and those of the target
when its interface is the same. -/
theorem usbEvent_stream {type : UsbDeviceType} {e : UsbEvent} {calls : List TudCall}
    (h : usbEvent type e = .ok calls) : cdcStream blackmagicCdcTypeGdb calls =
      gdbBytes [e] ++ if cdcInterface type = blackmagicCdcTypeGdb then targetBytes [e] else [] := by
  cases e with
  | gdbSend buf flush =>
    simp only [usbEvent, usbGlueGdbSend] at h
    split at h
    · cases h
      simp [cdcStream_tudWrite, gdbBytes, targetBytes]
    · cases h
  | uartRx data =>
    cases h
    simp [cdcStream_usbUartRxTask, gdbBytes, targetBytes]
  | stdout data =>
    cases h
    simp [debugSerialSendStdout, cdcStream_usbGlueCdcSend, gdbBytes, targetBytes]
  | host interface =>
    cases h
    split <;> simp [cdcStream, gdbBytes, targetBytes]

/-- A run of a device type with a GDB interface does not abort. -/
theorem usbRun_ok {type : UsbDeviceType} (htype : type ≠ .dapLink) (es : List UsbEvent) :
    ∃ calls, usbRun type es = .ok calls := by
  induction es with
  | nil => exact ⟨[], rfl⟩
  | cons e es ih =>
    obtain ⟨calls', hes⟩ := ih
    have hevent : ∃ calls, usbEvent type e = .ok calls := by
      cases e with
      | gdbSend buf flush =>
        refine ⟨_, if_pos ?_⟩
        cases type with
        | dapLink => exact absurd rfl htype
        | dualCdc => exact .inl rfl
        | cdcMsc => exact .inr rfl
      | uartRx data => exact ⟨_, rfl⟩
      | stdout data => exact ⟨_, rfl⟩
      | host interface => exact ⟨_, rfl⟩
    obtain ⟨calls, he⟩ := hevent
    refine ⟨calls ++ calls', ?_⟩
    rw [usbRun, he, hes]
    rfl

/-- The first event of a run. -/
theorem usbRun_cons {type : UsbDeviceType} {e : UsbEvent} {es : List UsbEvent}
    {calls : List TudCall} (h : usbRun type (e :: es) = .ok calls) :
    ∃ calls₁ calls₂, usbEvent type e = .ok calls₁ ∧
      usbRun type es = .ok calls₂ ∧ calls = calls₁ ++ calls₂ := by
  obtain ⟨calls₁, he, h⟩ := Run.bind_eq_ok.1 h
  obtain ⟨calls₂, hes, h⟩ := Run.bind_eq_ok.1 h
  cases h
  exact ⟨calls₁, calls₂, he, hes, rfl⟩

/-- What GDB is sent by the first event and the others. -/
theorem gdbBytes_cons (e : UsbEvent) (es : List UsbEvent) :
    gdbBytes (e :: es) = gdbBytes [e] ++ gdbBytes es := by
  cases e <;> simp [gdbBytes]

/-- What the target sends by the first event and the others. -/
theorem targetBytes_cons (e : UsbEvent) (es : List UsbEvent) :
    targetBytes (e :: es) = targetBytes [e] ++ targetBytes es := by
  cases e <;> simp [targetBytes]

/-- The GDB interface carries what the GDB thread sent when the target's bytes go elsewhere, or
there are none. -/
theorem usbRun_stream {type : UsbDeviceType} {es : List UsbEvent} : ∀ {calls : List TudCall},
    usbRun type es = .ok calls →
      cdcInterface type ≠ blackmagicCdcTypeGdb ∨ targetBytes es = [] →
      cdcStream blackmagicCdcTypeGdb calls = gdbBytes es := by
  induction es with
  | nil =>
    intro calls h _
    cases h
    rfl
  | cons e es ih =>
    intro calls h hquiet
    obtain ⟨calls₁, calls₂, he, hes, rfl⟩ := usbRun_cons h
    rw [targetBytes_cons e es, List.append_eq_nil_iff] at hquiet
    have hevent : (if cdcInterface type = blackmagicCdcTypeGdb then targetBytes [e] else []) =
        [] := by
      rcases hquiet with hother | hnone
      · rw [if_neg hother]
      · rw [hnone.1, ite_self]
    rw [cdcStream_append, usbEvent_stream he, ih hes (hquiet.imp_right And.right), hevent,
      List.append_nil, gdbBytes_cons e es]

/-- In CDC+MSC mode the target's bytes go to the GDB interface too: it carries as many bytes as both
sent together. -/
theorem usbRun_cdcMsc_length {es : List UsbEvent} : ∀ {calls : List TudCall},
    usbRun .cdcMsc es = .ok calls →
      (cdcStream blackmagicCdcTypeGdb calls).length =
        (gdbBytes es).length + (targetBytes es).length := by
  induction es with
  | nil =>
    intro calls h
    cases h
    rfl
  | cons e es ih =>
    intro calls h
    obtain ⟨calls₁, calls₂, he, hes, rfl⟩ := usbRun_cons h
    have hsame : cdcInterface .cdcMsc = blackmagicCdcTypeGdb := by decide
    rw [cdcStream_append, usbEvent_stream he, if_pos hsame, gdbBytes_cons e es,
      targetBytes_cons e es]
    simp only [List.length_append, ih hes]
    omega

/-- Silencing the UART leaves GDB's bytes. -/
theorem gdbBytes_silence (es : List UsbEvent) : gdbBytes (silence es) = gdbBytes es := by
  induction es with
  | nil => rfl
  | cons e es ih => cases e <;> simp [silence, gdbBytes, ih]

/-! ## Isolation -/

/-- The GDB interface carries exactly what the GDB thread sent. -/
def GdbIsolated (type : UsbDeviceType) (es : List UsbEvent) : Prop :=
  ∃ calls, usbRun type es = .ok calls ∧ cdcStream blackmagicCdcTypeGdb calls = gdbBytes es

/-- Runs that differ only in what the target printed look the same on the GDB interface. -/
def GdbNoninterference (type : UsbDeviceType) : Prop :=
  ∀ es es' calls calls', silence es = silence es' → usbRun type es = .ok calls →
    usbRun type es' = .ok calls' →
    cdcStream blackmagicCdcTypeGdb calls = cdcStream blackmagicCdcTypeGdb calls'

/-- **Isolation of the GDB channel.** Among the device types with a GDB interface, a run is isolated
exactly when the type is dual-CDC or the target printed nothing, and what the target prints does not
matter exactly for dual-CDC. -/
theorem gdbIsolated_iff (type : UsbDeviceType) (htype : type ≠ .dapLink) :
    (∀ es, GdbIsolated type es ↔ type = .dualCdc ∨ targetBytes es = []) ∧
    (GdbNoninterference type ↔ type = .dualCdc) := by
  cases type with
  | dapLink => exact absurd rfl htype
  | dualCdc =>
    have hother : cdcInterface .dualCdc ≠ blackmagicCdcTypeGdb := by decide
    refine ⟨fun es => iff_of_true ?_ (.inl rfl), iff_of_true ?_ rfl⟩
    · obtain ⟨calls, hrun⟩ := usbRun_ok htype es
      exact ⟨calls, hrun, usbRun_stream hrun (.inl hother)⟩
    · intro es es' calls calls' hsilence hrun hrun'
      rw [usbRun_stream hrun (.inl hother),
        usbRun_stream hrun' (.inl hother), ← gdbBytes_silence es, hsilence, gdbBytes_silence]
  | cdcMsc =>
    refine ⟨fun es => ⟨?_, ?_⟩, iff_of_false ?_ nofun⟩
    · rintro ⟨calls, hrun, hstream⟩
      have hlen := usbRun_cdcMsc_length hrun
      rw [hstream] at hlen
      exact .inr (List.length_eq_zero_iff.1 (by omega))
    · rintro (htype' | hnone)
      · cases htype'
      · obtain ⟨calls, hrun⟩ := usbRun_ok htype es
        exact ⟨calls, hrun, usbRun_stream hrun (.inr hnone)⟩
    · intro hni
      have hsame := hni [.stdout [0x41]] [] _ _ rfl rfl rfl
      revert hsame
      decide

/-- A dual-CDC device whose target prints. -/
theorem gdbIsolated_iff_dualCdc :
    GdbIsolated .dualCdc [.gdbSend [0x2b] true, .uartRx [0x68, 0x69], .stdout [0x0a]] :=
  ((gdbIsolated_iff .dualCdc nofun).1 _).2 (.inl rfl)

/-- A CDC+MSC device: the target's output lands between the acknowledgement and the packet. -/
theorem cdcMsc_not_isolated :
    ¬ GdbIsolated .cdcMsc [.gdbSend [0x2b] true, .uartRx [0x68, 0x69], .gdbSend [0x24] true] ∧
    ¬ GdbNoninterference .cdcMsc := by
  constructor
  · rintro ⟨calls, hrun, hstream⟩
    cases hrun
    revert hstream
    decide
  · intro hni
    have hsame := hni [.stdout [0x41]] [] _ _ rfl rfl rfl
    revert hsame
    decide

end Blackmagic
