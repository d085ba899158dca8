import Blackmagic.Lib.Bytes
import Blackmagic.Lib.Effect
import Blackmagic.Lib.Scanf
import Blackmagic.Lib.Word

/-!
# The serial flasher: `serial_flash_cmd`

A file of the card is padded to whole words and goes to a boot loader in blocks of 1 KiB. What a
block lacks when `fread` comes back short is filled up with `0xff`, at the end of the file and
elsewhere, and the checksum of the boot loader is one of what it was sent. `Accepts` says when the
command returns true, and `Delivers` what the medium must do in each read for that to mean that the
file was sent.
-/

namespace Blackmagic.Ui

open Effect Scanf Bytes

/-! ## The command: `serial_flash.c` -/

/-- `SER_BLOCK`. -/
def serBlock : UInt32 := 1024

/-- `SER_DEFAULT_OFF`. -/
def serDefaultOff : UInt32 := 0x10000

/-- `SER_FAST_BAUD`. -/
def serFastBaud : Nat := 460800

/-- The card and the calls of the flasher's library. A file that opens has contents; in the
`call`-th read the medium can hand over anything, up to what is asked for. A call of the library
succeeds or fails. -/
structure SerialHost where
  storage : Bool
  fopen : (path : List UInt8) → Option (List UInt8)
  fread : (call want : Nat) → List UInt8
  fread_le : ∀ call want, (fread call want).length ≤ want
  portInit : Bool
  connect : Bool
  changeRate : Bool
  flashStart : Bool
  flashWrite : (call : Nat) → Bool
  flashVerify : Bool
  flashFinish : Bool

/-- A call that the command makes. -/
inductive SerialCall
  | storageAcquire
  | storageRelease
  | fopen (path : List UInt8)
  | fclose
  | portInit
  | portDeinit
  | connect
  | changeRate (baud : Nat)
  | flashStart (offset imageSize blockSize : UInt32)
  | flashWrite (data : List UInt8)
  | flashVerify
  | flashFinish (reboot : Bool)
  | releasePins
  deriving DecidableEq, Repr

/-- The calls so far; a program that is left goes to `done`. -/
abbrev SerialM := EStateM Unit (List SerialCall)

/-- A call. -/
def call (c : SerialCall) : SerialM Unit := modify fun calls => calls ++ [c]

/-- A call that must succeed. -/
def callOrDone (c : SerialCall) (ok : Bool) : SerialM Unit := do
  call c
  if ok then pure () else throw ()

/-- `sdpath`, with a buffer of 128 characters. -/
def sdpath (name : List UInt8) : List UInt8 :=
  if name.head? = some 0x2f then name else (ascii "/sdcard/" ++ name).take 127

/-- The offset that the arguments give, in hexadecimal. -/
def serialOffset (argv : List (List UInt8)) : UInt32 :=
  if 2 < argv.length then (strtoul 16 (argv.getD 2 [])).1 else serDefaultOff

/-- `ftell` at the end of a file; a `long` has 32 bits. -/
def fileSize (contents : List UInt8) : Int := if contents.length < 2 ^ 31 then contents.length
    else -1

/-- `image_size`. -/
def imageSize (fsz : Nat) : UInt32 := UInt32.ofNat (fsz + 3) &&& ~~~3

/-- What is asked for when some bytes are sent. -/
def wanted (imageSize sent : UInt32) : UInt32 :=
  if serBlock < imageSize - sent then serBlock else imageSize - sent

/-- The position in the image moves on, to its end at most. -/
theorem toNat_wanted {imageSize sent : UInt32} (h : sent < imageSize) :
    (wanted imageSize sent).toNat = min 1024 (imageSize.toNat - sent.toNat) := by
  have hle : sent ≤ imageSize := UInt32.le_of_lt h
  have hsub := UInt32.toNat_sub_of_le _ _ hle
  rw [wanted]
  split
  · next hblock =>
    rw [UInt32.lt_iff_toNat_lt, hsub] at hblock
    change 1024 < _ at hblock
    exact (Nat.min_eq_left (Nat.le_of_lt hblock)).symm
  · next hblock =>
    rw [UInt32.lt_iff_toNat_lt, hsub] at hblock
    change ¬ 1024 < _ at hblock
    rw [hsub]
    omega

/-- The count of bytes sent does not wrap. -/
theorem toNat_sent {imageSize sent : UInt32} (h : sent < imageSize) :
    (sent + wanted imageSize sent).toNat =
      sent.toNat + min 1024 (imageSize.toNat - sent.toNat) := by
  have hlt := UInt32.lt_iff_toNat_lt.1 h
  have hbound := imageSize.toNat_lt
  rw [UInt32.toNat_add, toNat_wanted h]
  omega

section
variable (host : SerialHost)

/-- The buffer of a block: what is read, filled up with `0xff`. -/
def fillBlock (read want : Nat) : List UInt8 :=
  host.fread read want ++ List.replicate (want - (host.fread read want).length) 0xff

/-- The loop that streams the image, from a number of bytes sent and of reads made. -/
def streamLoop (imageSize sent : UInt32) (reads : Nat) : SerialM Unit :=
  if h : sent < imageSize then do
    let want := wanted imageSize sent
    callOrDone (.flashWrite (fillBlock host reads want.toNat)) (host.flashWrite reads)
    streamLoop imageSize (sent + want) (reads + 1)
  else pure ()
termination_by imageSize.toNat - sent.toNat
decreasing_by
  have hlt := UInt32.lt_iff_toNat_lt.1 h
  rw [toNat_sent h]
  omega

/-- Between the port's initialisation and `done`. -/
def programImage (offset imageSize : UInt32) : SerialM Unit := do
  callOrDone .connect host.connect
  call (.changeRate serFastBaud)
  callOrDone (.flashStart offset imageSize serBlock) host.flashStart
  streamLoop host imageSize 0 0
  callOrDone .flashVerify host.flashVerify
  callOrDone (.flashFinish true) host.flashFinish

/-- `if (have_fs) storage_release("/sdcard")`. -/
def storageRelease : SerialM Unit := if host.storage then call .storageRelease else pure ()

/-- What follows `done`, for a program that went through or not. -/
def cleanUp (ok : Bool) : SerialM Bool := do
  call .portDeinit
  call .releasePins
  call .fclose
  storageRelease host
  return ok

/-- `serial_flash_cmd`. -/
def serialFlashCmd (argv : List (List UInt8)) : SerialM Bool :=
  if argv.length < 2 then pure false
  else
    let offset := serialOffset argv
    if offset &&& 3 ≠ 0 then pure false
    else do
      let path := sdpath (argv.getD 1 [])
      call .storageAcquire
      call (.fopen path)
      match host.fopen path with
      | none => do
        storageRelease host
        return false
      | some contents =>
        if fileSize contents ≤ 0 then do
          call .fclose
          storageRelease host
          return false
        else do
          call .portInit
          if ¬ host.portInit then do
            call .fclose
            storageRelease host
            return false
          else
            let ok ← tryCatchThe Unit (do
              programImage host offset (imageSize (fileSize contents).toNat)
              return true) fun _ => return false
            cleanUp host ok

end

/-- The buffer that a call passes to `esp_loader_flash_write`. -/
def SerialCall.sends : SerialCall → List UInt8
  | .flashWrite data => data
  | _ => []

/-- The size that a call announces to `esp_loader_flash_start`. -/
def SerialCall.announces : SerialCall → Option UInt32
  | .flashStart _ imageSize _ => some imageSize
  | _ => none

/-- The buffers that were passed to `esp_loader_flash_write`, in one piece. -/
def sentBytes (calls : List SerialCall) : List UInt8 := calls.flatMap SerialCall.sends

/-- The sizes that were announced to `esp_loader_flash_start`. -/
def announced (calls : List SerialCall) : List UInt32 := calls.filterMap SerialCall.announces

/-- When the command returns true, the file was sent with at most three bytes behind it, in the
length that was announced. -/
def SendsFile (host : SerialHost) (argv : List (List UInt8)) : Prop :=
  ∀ calls, serialFlashCmd host argv [] = .ok true calls →
    ∃ contents pad, host.fopen (sdpath (argv.getD 1 [])) = some contents ∧ pad ≤ 3 ∧
      sentBytes calls = contents ++ List.replicate pad 0xff ∧
      (announced calls).map (·.toNat) = [(sentBytes calls).length]

/-! ## When the command returns true -/

/-- The length of a file in whole words. -/
def padded (len : Nat) : Nat := (len + 3) / 4 * 4

/-- What is asked for in the read of a block. -/
def blockWant (len i : Nat) : Nat := min 1024 (padded len - 1024 * i)

/-- The arguments and the file are good, and every call of the library succeeds. -/
structure Accepts (host : SerialHost) (argv : List (List UInt8)) (contents : List UInt8) :
    Prop where
  named : 2 ≤ argv.length
  aligned : serialOffset argv &&& 3 = 0
  opens : host.fopen (sdpath (argv.getD 1 [])) = some contents
  nonempty : 0 < contents.length
  sized : contents.length < 2 ^ 31
  portInit : host.portInit = true
  connect : host.connect = true
  flashStart : host.flashStart = true
  flashWrite : ∀ i, 1024 * i < contents.length → host.flashWrite i = true
  flashVerify : host.flashVerify = true
  flashFinish : host.flashFinish = true

/-- A read hands over the bytes of its block, `0xff` behind the file's end, and those that it leaves
out are `0xff`. -/
structure Delivers (host : SerialHost) (contents : List UInt8) (i : Nat) : Prop where
  right : ∀ k < (host.fread i (blockWant contents.length i)).length,
    (host.fread i (blockWant contents.length i))[k]? = some (contents.getD (1024 * i + k) 0xff)
  blank : ∀ k, (host.fread i (blockWant contents.length i)).length ≤ k →
    k < blockWant contents.length i →
    contents.getD (1024 * i + k) 0xff = 0xff

section
variable {host : SerialHost} {argv : List (List UInt8)} {contents : List UInt8}
  {calls : List SerialCall}
  {c : SerialCall}

@[simp] theorem ends_call {Q : Unit → List SerialCall → Prop} {E : Unit → List SerialCall → Prop} :
    Ends (call c) calls Q E ↔ Q () (calls ++ [c]) := Iff.rfl

/-- The rule for a call that may end the run. -/
@[simp] theorem ends_callOrDone {ok : Bool} {Q : Unit → List SerialCall → Prop}
    {E : Unit → List SerialCall → Prop} :
    Ends (callOrDone c ok) calls Q E ↔ if ok then Q () (calls ++ [c]) else E () (calls ++ [c]) := by
  rw [callOrDone, ends_bind, ends_call]
  cases ok <;> rfl

@[simp] theorem sentBytes_nil : sentBytes [] = [] := rfl

@[simp] theorem announced_nil : announced [] = [] := rfl

@[simp] theorem sentBytes_cons : sentBytes (c :: calls) = c.sends ++ sentBytes calls :=
  List.flatMap_cons

@[simp] theorem announced_cons :
    announced (c :: calls) = c.announces.toList ++ announced calls := by
  cases h : c.announces <;> simp [announced, h]

@[simp] theorem sentBytes_append (calls calls' : List SerialCall) :
    sentBytes (calls ++ calls') = sentBytes calls ++ sentBytes calls' := List.flatMap_append

@[simp] theorem announced_append (calls calls' : List SerialCall) :
    announced (calls ++ calls') = announced calls ++ announced calls' := List.filterMap_append

/-- The size of the image is the padded length. -/
theorem toNat_imageSize {len : Nat} (h : len < 2 ^ 31) : (imageSize len).toNat = padded len := by
  rw [imageSize, padded]
  have hmask := Word.toNat_and_high (UInt32.ofNat (len + 3)) (show 2 < 32 by decide)
  have hlen : (UInt32.ofNat (len + 3)).toNat = len + 3 := by
    rw [UInt32.toNat_ofNat']
    omega
  rw [hlen] at hmask
  refine hmask.trans ?_
  omega

/-- The size of a file that fits an `int32_t`. -/
theorem fileSize_of_lt (h : contents.length < 2 ^ 31) : fileSize contents = contents.length :=
  if_pos h

/-- Files that are neither empty nor too long. -/
theorem fileSize_pos_iff :
    ¬ fileSize contents ≤ 0 ↔ 0 < contents.length ∧ contents.length < 2 ^ 31 := by
  rw [fileSize]
  split <;> omega

/-! ### The stream -/

/-- The buffer of a block. -/
def blockAt (host : SerialHost) (len i : Nat) : List UInt8 := fillBlock host i (blockWant len i)

/-- A block is as long as asked for. -/
theorem length_blockAt (len i : Nat) : (blockAt host len i).length = blockWant len i := by
  rw [blockAt, fillBlock, List.length_append, List.length_replicate,
    Nat.add_sub_cancel' (host.fread_le _ _)]

/-- The place of a block in the image. -/
theorem lt_padded_iff (len i : Nat) : 1024 * i < padded len ↔ 1024 * i < len := by
  rw [padded]
  omega

/-- Past the image's end there is nothing to send. -/
theorem flatMap_blockAt_end {len i : Nat} (h : padded len ≤ 1024 * i) (n : Nat) :
    (List.range' i n).flatMap (blockAt host len) = [] := by
  refine List.flatMap_eq_nil_iff.2 fun j hj => ?_
  have hij := (List.mem_range'_1.1 hj).1
  refine List.eq_nil_of_length_eq_zero ?_
  rw [length_blockAt, blockWant]
  omega

/-- The loop sends the blocks that are left when the library takes them all; otherwise it is
left. -/
theorem streamLoop_ends {size : UInt32} {len : Nat} (hsize : size.toNat = padded len) (n : Nat) :
    ∀ (i : Nat) (sent : UInt32) (calls : List SerialCall),
      sent.toNat = min (1024 * i) (padded len) →
      padded len ≤ 1024 * (i + n) →
      Ends (streamLoop host size sent i) calls
        (fun _ calls' => (∀ j, i ≤ j → 1024 * j < len → host.flashWrite j = true) ∧
          sentBytes calls' = sentBytes calls ++ (List.range' i n).flatMap (blockAt host len) ∧
          announced calls' = announced calls)
        fun _ _ => ∃ j, 1024 * j < len ∧ host.flashWrite j = false := by
  induction n with
  | zero =>
    intro i sent calls hsent hend
    have hdone : ¬ sent < size := by
      rw [UInt32.lt_iff_toNat_lt]
      omega
    rw [streamLoop, dif_neg hdone, ends_pure]
    refine ⟨fun j hij hj => ?_, (List.append_nil _).symm, rfl⟩
    rw [← lt_padded_iff] at hj
    omega
  | succ n ih =>
    intro i sent calls hsent hend
    rw [streamLoop]
    by_cases hin : 1024 * i < padded len
    · have hlt : sent < size := by
        rw [UInt32.lt_iff_toNat_lt]
        omega
      have hwant : (wanted size sent).toNat = blockWant len i := by
        rw [toNat_wanted hlt, blockWant]
        omega
      rw [dif_pos hlt, ends_bind, ends_callOrDone, hwant]
      split
      · next hwrite =>
        have hnext : (sent + wanted size sent).toNat = min (1024 * (i + 1)) (padded len) := by
          rw [toNat_sent hlt]
          omega
        refine (ih (i + 1) _ _ hnext (by omega)).imp ?_ fun _ _ h => h
        rintro _ calls' ⟨hall, hsentBytes, hannounced⟩
        refine ⟨fun j hij hj => ?_, ?_, ?_⟩
        · rcases Nat.eq_or_lt_of_le hij with rfl | hij
          · exact hwrite
          · exact hall j hij hj
        · simp [hsentBytes, SerialCall.sends, List.range'_succ, blockAt]
        · simp [hannounced, SerialCall.announces]
      · next hwrite => exact ⟨i, (lt_padded_iff len i).1 hin, Bool.eq_false_of_not_eq_true hwrite⟩
    · have hdone : ¬ sent < size := by
        rw [UInt32.lt_iff_toNat_lt]
        omega
      rw [dif_neg hdone, ends_pure, flatMap_blockAt_end (Nat.le_of_not_lt hin)]
      refine ⟨fun j hij hj => ?_, (List.append_nil _).symm, rfl⟩
      rw [← lt_padded_iff] at hj
      omega

/-! ### The command -/

/-- The image: all blocks in one piece. -/
def image (host : SerialHost) (len : Nat) : List UInt8 :=
  (List.range len).flatMap (blockAt host len)

/-- Programming an image sends it whole when every call succeeds, and stops at the first that fails.
-/
theorem programImage_ends {len : Nat} (hlen : len < 2 ^ 31) (offset : UInt32) :
    Ends (programImage host offset (imageSize len)) calls
      (fun _ calls' => (host.connect = true ∧ host.flashStart = true ∧
          (∀ i, 1024 * i < len → host.flashWrite i = true) ∧ host.flashVerify = true ∧
            host.flashFinish = true) ∧
        sentBytes calls' = sentBytes calls ++ image host len ∧
          announced calls' = announced calls ++ [imageSize len])
      fun _ _ => host.connect = false ∨ host.flashStart = false ∨
        (∃ i, 1024 * i < len ∧ host.flashWrite i = false) ∨ host.flashVerify = false ∨
          host.flashFinish = false := by
  rw [programImage, ends_bind, ends_callOrDone]
  split
  next hconnect =>
    rw [ends_bind, ends_call, ends_bind, ends_callOrDone]
    split
    next hstart =>
      rw [ends_bind]
      refine (streamLoop_ends (toNat_imageSize hlen) len 0 0 _ (Nat.zero_min _).symm
        (by rw [padded]; omega)).imp ?_
        fun _ _ hfailed => .inr (.inr (.inl hfailed))
      rintro _ calls₁ ⟨hwrites, hsent, hannounced⟩
      rw [ends_bind, ends_callOrDone]
      split
      next hverify =>
        rw [ends_callOrDone]
        split
        next hfinish =>
          refine ⟨⟨hconnect, hstart, fun i hi => hwrites i (Nat.zero_le i) hi, hverify, hfinish⟩,
            ?_, ?_⟩
          · simp [hsent, SerialCall.sends, image, List.range_eq_range']
          · simp [hannounced, SerialCall.announces]
        next hfinish => exact .inr (.inr (.inr (.inr (Bool.eq_false_of_not_eq_true hfinish))))
      next hverify => exact .inr (.inr (.inr (.inl (Bool.eq_false_of_not_eq_true hverify))))
    next hstart => exact .inr (.inl (Bool.eq_false_of_not_eq_true hstart))
  next hconnect => exact .inl (Bool.eq_false_of_not_eq_true hconnect)

/-- The rule for giving the storage back. -/
@[simp] theorem ends_storageRelease {Q : Unit → List SerialCall → Prop}
    {E : Unit → List SerialCall → Prop} :
    Ends (storageRelease host) calls Q E ↔
      Q () (if host.storage then calls ++ [.storageRelease] else calls) := by
  rw [storageRelease]
  split <;> rfl

/-- What is called on the way out sends and announces nothing. -/
theorem cleanUp_ends (ok : Bool) :
    Ends (cleanUp host ok) calls
      (fun ok' calls' => ok' = ok ∧ sentBytes calls' = sentBytes calls ∧
        announced calls' = announced calls)
      fun _ _ => False := by
  rw [cleanUp, ends_bind, ends_call, ends_bind, ends_call, ends_bind, ends_call, ends_bind,
    ends_storageRelease, ends_pure]
  split <;> simp [SerialCall.sends, SerialCall.announces]

/-- The command returns true if and only if everything that it needs succeeds, and then all blocks
were sent. -/
def Outcome (host : SerialHost) (argv : List (List UInt8)) (ok : Bool) (calls : List SerialCall) :
    Prop :=
  (ok = true ↔ ∃ contents, Accepts host argv contents) ∧
    ∀ contents, Accepts host argv contents →
      sentBytes calls = image host contents.length ∧ announced calls = [imageSize contents.length]

/-- What a refused call sends. -/
theorem outcome_refused (h : ∀ contents, ¬ Accepts host argv contents) :
    Outcome host argv false calls :=
  ⟨⟨Bool.noConfusion, fun ⟨contents, ha⟩ => absurd ha (h contents)⟩, fun contents ha =>
    absurd ha (h contents)⟩

/-- The file that is sent is the one that opens. -/
theorem Accepts.contents_eq (h : Accepts host argv contents) {contents' : List UInt8}
    (hopen : host.fopen (sdpath (argv.getD 1 [])) = some contents') : contents' = contents :=
  Option.some.inj (hopen.symm.trans h.opens)

/-- Every run of the command ends with its outcome. -/
theorem serialFlashCmd_ends : Ends (serialFlashCmd host argv) [] (Outcome host argv) fun _ _ =>
    False := by
  rw [serialFlashCmd]
  split
  next hargc => exact outcome_refused fun _ h => absurd h.named (Nat.not_le.2 hargc)
  next hargc =>
  dsimp only
  split
  next hoffset => exact outcome_refused fun _ h => hoffset h.aligned
  next hoffset =>
  rw [ends_bind, ends_call, ends_bind, ends_call]
  split
  next hopen =>
    rw [ends_bind, ends_storageRelease]
    refine outcome_refused fun contents h => ?_
    rw [h.opens] at hopen
    cases hopen
  next contents hopen =>
  split
  next hsize =>
    rw [ends_bind, ends_call, ends_bind, ends_storageRelease]
    refine outcome_refused fun contents' h => ?_
    rw [h.contents_eq hopen] at hsize
    exact fileSize_pos_iff.2 ⟨h.nonempty, h.sized⟩ hsize
  next hsize =>
  obtain ⟨hnonempty, hsized⟩ := fileSize_pos_iff.1 hsize
  rw [ends_bind, ends_call]
  split
  next hport =>
    rw [ends_bind, ends_call, ends_bind, ends_storageRelease]
    exact outcome_refused fun _ h => hport h.portInit
  next hport =>
  rw [fileSize_of_lt hsized, Int.toNat_natCast, ends_bind, ends_tryCatchThe, ends_bind]
  refine (programImage_ends hsized (serialOffset argv)).imp ?_ ?_
  · rintro _ calls₁ ⟨⟨hconnect, hstart, hwrite, hverify, hfinish⟩, hsent, hannounced⟩
    rw [ends_pure]
    refine (cleanUp_ends true).imp ?_ fun _ _ h => h
    rintro _ calls₂ ⟨rfl, hsent₂, hannounced₂⟩
    refine ⟨⟨fun _ => ⟨contents, ?_⟩, fun _ => rfl⟩, fun contents' h => ?_⟩
    · exact ⟨Nat.le_of_not_lt hargc, not_not.1 hoffset, hopen, hnonempty, hsized, not_not.1 hport,
        hconnect, hstart,
        hwrite, hverify, hfinish⟩
    · rw [← h.contents_eq hopen, hsent₂, hannounced₂, hsent, hannounced]
      simp [SerialCall.sends, SerialCall.announces]
  · rintro _ calls₁ hfailed
    rw [ends_pure]
    refine (cleanUp_ends false).imp ?_ fun _ _ h => h
    rintro _ calls₂ ⟨rfl, _, _⟩
    refine outcome_refused fun contents' h => ?_
    rw [h.contents_eq hopen] at hfailed
    obtain hc | hc | ⟨i, hi, hc⟩ | hc | hc := hfailed
    · rw [h.connect] at hc
      cases hc
    · rw [h.flashStart] at hc
      cases hc
    · rw [h.flashWrite i hi] at hc
      cases hc
    · rw [h.flashVerify] at hc
      cases hc
    · rw [h.flashFinish] at hc
      cases hc

/-! ### What the blocks hold -/

/-- The file with the bytes behind it. -/
def paddedFile (contents : List UInt8) : List UInt8 :=
  contents ++ List.replicate (padded contents.length - contents.length) 0xff

/-- A padded file has the padded length. -/
theorem length_paddedFile (contents : List UInt8) :
    (paddedFile contents).length = padded contents.length := by
  rw [paddedFile, List.length_append, List.length_replicate, padded]
  omega

/-- It is the file, then `0xff`. -/
theorem getElem?_paddedFile {k : Nat} (h : k < padded contents.length) :
    (paddedFile contents)[k]? = some (contents.getD k 0xff) := by
  rw [paddedFile, List.getElem?_append, List.getD_eq_getElem?_getD]
  split
  next hk => rw [List.getElem?_eq_getElem hk, Option.getD_some]
  next hk =>
    rw [List.getElem?_replicate_of_lt (by omega), List.getElem?_eq_none (Nat.le_of_not_lt hk),
      Option.getD_none]

/-- The blocks of a list in one piece. -/
theorem flatMap_slice (l : List UInt8) (n : Nat) :
    (List.range n).flatMap (fun i => slice l (1024 * i) 1024) = l.take (1024 * n) := by
  induction n with
  | zero => rfl
  | succ n ih =>
    rw [List.range_succ, List.flatMap_append, ih, List.flatMap_singleton, Nat.mul_succ,
      List.take_add]
    rfl

/-- A block of it is as long as asked for. -/
theorem length_slice_paddedFile (i : Nat) :
    (slice (paddedFile contents) (1024 * i) 1024).length = blockWant contents.length i := by
  rw [slice, List.length_take, List.length_drop, length_paddedFile, blockWant]

/-- A block is right if and only if its read delivers. -/
theorem blockAt_eq_iff (i : Nat) :
    blockAt host contents.length i = slice (paddedFile contents) (1024 * i) 1024 ↔
      Delivers host contents i := by
  have hle := host.fread_le i (blockWant contents.length i)
  have hblock : ∀ k < blockWant contents.length i,
      (slice (paddedFile contents) (1024 * i) 1024)[k]? =
        some (contents.getD (1024 * i + k) 0xff) := by
    intro k hk
    rw [blockWant] at hk
    rw [slice, List.getElem?_take_of_lt (by omega), List.getElem?_drop,
      getElem?_paddedFile (by omega)]
  constructor
  · intro h
    refine ⟨fun k hk => ?_, fun k hk hwant => ?_⟩
    · rw [← hblock k (Nat.lt_of_lt_of_le hk hle), ← h, blockAt, fillBlock,
        List.getElem?_append_left hk]
    · have hfill := hblock k hwant
      rw [← h, blockAt, fillBlock, List.getElem?_append_right hk,
        List.getElem?_replicate_of_lt (by omega)] at hfill
      exact (Option.some.inj hfill).symm
  · intro h
    refine List.ext_getElem? fun k => ?_
    rcases Nat.lt_or_ge k (blockWant contents.length i) with hk | hk
    · rw [hblock k hk, blockAt, fillBlock]
      rcases Nat.lt_or_ge k (host.fread i (blockWant contents.length i)).length with hread | hread
      · rw [List.getElem?_append_left hread, h.right k hread]
      · rw [List.getElem?_append_right hread, List.getElem?_replicate_of_lt (by omega),
          h.blank k hread hk]
    · rw [List.getElem?_eq_none ((length_blockAt _ i).trans_le hk),
        List.getElem?_eq_none ((length_slice_paddedFile i).trans_le hk)]

/-- Past the file's end nothing is asked for. -/
theorem delivers_end {i : Nat} (h : contents.length ≤ 1024 * i) : Delivers host contents i := by
  have hwant : blockWant contents.length i = 0 := by
    rw [blockWant, padded]
    omega
  have hread := host.fread_le i (blockWant contents.length i)
  exact ⟨fun k hk => absurd hk (by omega), fun k _ hk => absurd hk (by omega)⟩

/-- The image is right if and only if every read of a block of the file delivers. -/
theorem image_eq_iff :
    image host contents.length = paddedFile contents ↔ ∀ i, 1024 * i < contents.length →
      Delivers host contents i := by
  have hwhole : (List.range contents.length).flatMap
      (fun i => slice (paddedFile contents) (1024 * i) 1024) =
      paddedFile contents := by
    rw [flatMap_slice, List.take_of_length_le]
    rw [length_paddedFile, padded]
    omega
  have hlengths : ((List.range contents.length).map (blockAt host contents.length)).map
      List.length =
      ((List.range contents.length).map fun i => slice (paddedFile contents) (1024 * i) 1024).map
        List.length := by
    simp only [List.map_map, List.map_inj_left, Function.comp_apply, length_blockAt,
      length_slice_paddedFile, implies_true]
  calc image host contents.length = paddedFile contents
    _ ↔ (List.range contents.length).map (blockAt host contents.length) =
          (List.range contents.length).map fun i =>
            slice (paddedFile contents) (1024 * i) 1024 := by
      rw [List.eq_iff_flatten_eq, and_iff_left hlengths, ← List.flatMap_def, ← List.flatMap_def,
        hwhole, image]
    _ ↔ ∀ i < contents.length, Delivers host contents i := by
      simp only [List.map_inj_left, List.mem_range, blockAt_eq_iff]
    _ ↔ ∀ i, 1024 * i < contents.length → Delivers host contents i := by
      refine ⟨fun h i hi => h i (by omega), fun h i _ => ?_⟩
      rcases Nat.lt_or_ge (1024 * i) contents.length with hi | hi
      · exact h i hi
      · exact delivers_end hi

/-- When the command returns true it was right to do so if and only if every read delivered. -/
theorem Accepts.sends_iff (h : Accepts host argv contents) :
    SendsFile host argv ↔ ∀ i, 1024 * i < contents.length → Delivers host contents i := by
  rw [← image_eq_iff]
  have hends : Ends (serialFlashCmd host argv) [] (Outcome host argv) fun _ _ => False :=
    serialFlashCmd_ends
  constructor
  · intro hsends
    cases hrun : serialFlashCmd host argv [] with
    | error e calls => exact (hends.error hrun).elim
    | ok ok calls =>
      obtain ⟨htrue, hcalls⟩ := hends.ok hrun
      obtain ⟨hsent, hannounced⟩ := hcalls contents h
      rw [htrue.2 ⟨contents, h⟩] at hrun
      obtain ⟨contents', pad, hopen, -, heq, hlength⟩ := hsends calls hrun
      rw [h.contents_eq hopen] at heq
      rw [hsent] at heq hlength
      rw [hannounced, List.map_singleton, toNat_imageSize h.sized, heq, List.length_append,
        List.length_replicate] at hlength
      have hpad : pad = padded contents.length - contents.length := by
        have := List.singleton_inj.1 hlength
        omega
      rw [heq, hpad, paddedFile]
  · intro himage calls hrun
    obtain ⟨hsent, hannounced⟩ := (hends.ok hrun).2 contents h
    refine ⟨contents, padded contents.length - contents.length, h.opens, ?_, ?_, ?_⟩
    · rw [padded]
      omega
    · rw [hsent, himage, paddedFile]
    · rw [hannounced, hsent, himage, length_paddedFile, List.map_singleton, toNat_imageSize h.sized]

end

/-- The command sends the file whenever it returns true if and only if each read delivers what its
block has, or something that the command needs fails. -/
theorem sendsFile_iff (host : SerialHost) (argv : List (List UInt8)) :
    SendsFile host argv ↔ ∀ contents, Accepts host argv contents →
      ∀ i, 1024 * i < contents.length → Delivers host contents i := by
  constructor
  · exact fun hsends contents h => h.sends_iff.1 hsends
  · intro hall calls hrun
    obtain ⟨contents, h⟩ := (serialFlashCmd_ends.ok hrun).1.1 rfl
    exact h.sends_iff.2 (hall contents h) calls hrun

/-! ## A short read -/

/-- Two blocks of zeros, of which the first read hands over half a block, and a library that does
what it is asked for. -/
def shortHost : SerialHost where
  storage := true
  fopen := fun _ => some (List.replicate 2048 0)
  fread := fun call want => List.replicate (if call = 0 then min 512 want else want) 0
  fread_le := by
    intro call want
    rw [List.length_replicate]
    split <;> omega
  portInit := true
  connect := true
  changeRate := true
  flashStart := true
  flashWrite := fun _ => true
  flashVerify := true
  flashFinish := true

/-- A host with a short read sends something else. -/
theorem not_sendsFile_shortHost : ¬ SendsFile shortHost [ascii "serialflash", ascii "app.bin"] := by
  have haccepts : Accepts shortHost [ascii "serialflash", ascii "app.bin"]
      (List.replicate 2048 0) :=
    ⟨by decide, by decide, rfl, by rw [List.length_replicate]; decide,
      by rw [List.length_replicate]; decide, rfl, rfl, rfl, fun _ _ => rfl, rfl, rfl⟩
  rw [haccepts.sends_iff]
  intro h
  have hwant : blockWant (List.replicate 2048 (0 : UInt8)).length 0 = 1024 := by
    rw [List.length_replicate]
    decide
  have hread : (shortHost.fread 0 1024).length = 512 := List.length_replicate
  have hblank := (h 0 (by rw [List.length_replicate]; decide)).blank 512
  rw [hwant, hread, List.getD_eq_getElem?_getD, List.getElem?_replicate_of_lt (by decide)] at hblank
  exact absurd (hblank (Nat.le_refl _) (by decide)) (by decide)

end Blackmagic.Ui
