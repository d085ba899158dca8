import Mathlib
import Blackmagic.Gdb.Replies
import Blackmagic.Lib.Machine

/-!
# Host calls: `semihosting_get_gdb_response`

A host call waits for the `F` packet of the host, and has `gdb_main_loop` handle what comes before
it. The test for the `F` packet reads the buffer after the handler, which `g`, `m` and `p` use for
their reply.
-/

namespace Blackmagic

open Effect Scanf Bytes

/-! ## The reply of the host -/

/-- What `target_controller_s` holds of a host call. -/
structure HostReply where
  gdbErrno : UInt32
  interrupted : Bool
  deriving DecidableEq, Repr

/-- `TARGET_EUNKNOWN`. -/
def targetEunknown : UInt32 := 9999

/-- The number in `pbuf` and what is behind it, as `semihosting_reply` reads them. -/
def replyItems (pbuf : List UInt8) : List UInt32 :=
  (sscanf (cstr (pbuf.drop (if pbuf.getD 1 0 = 0x2d then 2 else 1)))
    [.int 16 0, .lit 0x2c, .int 16 0, .lit 0x2c, .char]).values

/-- `semihosting_reply`. -/
def semihostingReply (pbuf : List UInt8) : Int32 × HostReply :=
  match replyItems pbuf with
  | [] => (-1, ⟨targetEunknown, false⟩)
  | retcode :: items =>
    ((if pbuf.getD 1 0 = 0x2d then 0 - retcode else retcode).toInt32,
      ⟨items.getD 0 0, items.length = 2 ∧ items.getD 1 0 = 0x43⟩)

example : semihostingReply (ascii "F-1,4,C") = (-1, ⟨4, true⟩) := by decide

/-! ## The handlers and the buffer -/

/-- The data that the handlers of `g`, `m` and `p` put into `pbuf` with `hexify`. -/
def hexReply (env : GdbEnv) (pbuf : List UInt8) (id : Nat) : Option (List UInt8) :=
  match gdbCommand (pbuf.headD 0) with
  | .readRegs =>
    if env.fns.regsSize id ≠ 0 then some ((env.fns.regsRead id).take (env.fns.regsSize id))
      else none
  | .readMem =>
    let args := (sscanf (cstr pbuf) (lits "m" ++ [.int 16 0, .lit 0x2c, .int 16 0])).values
    let addr := args.getD 0 env.locals.addr
    let len := args.getD 1 env.locals.len
    if gdbPacketBufferSize / 2 < len.toNat then none
    else (env.fns.memRead addr len id).map (·.take len.toNat)
  | .readReg =>
    if env.fns.hasRegRead id then (env.fns.regRead (readRegNumber env pbuf) id).filter (· ≠ [])
    else none
  | _ => none

/-- The buffer after the handler of a packet. -/
def pbufAfter (env : GdbEnv) (cur : Option Nat) (pbuf : List UInt8) : List UInt8 :=
  match cur.bind (hexReply env pbuf) with
  | some data => overwrite pbuf 0 (hexify data ++ [0])
  | none => pbuf

/-- `gdb_main_loop` in a host call: the value, `tc` and the buffer. -/
def gdbMainLoop (env : GdbEnv) (tc : HostReply) (pbuf : List UInt8) (size : Nat) :
    GdbM (Int32 × HostReply × List UInt8) := do
  if pbuf.headD 0 = 0x46 then
    return ((semihostingReply pbuf).1, (semihostingReply pbuf).2, pbuf)
  else
    let cur ← curTarget
    gdbMain env pbuf size
    return (0, tc, pbufAfter env cur pbuf)

/-- A packet of the host, with what its handler meets. -/
abbrev HostPacket := GdbEnv × List UInt8

/-- The buffer when `gdb_getpacket` has returned a packet. -/
def received (buf packet : List UInt8) : List UInt8 := overwrite buf 0 (packet ++ [0])

/-- `semihosting_get_gdb_response` on the packets that come: the value, `tc` and the packets that
are left, or nothing while it waits. -/
def semihostingGetGdbResponse :
    List HostPacket → HostReply → (buf : List UInt8) →
      GdbM (Option (Int32 × HostReply × List HostPacket))
  | [], _, _ => return none
  | (env, packet) :: packets, tc, buf => do
    if packet = [eot] then return some (-1, tc, packets)
    else
      let (result, tc, pbuf) ← gdbMainLoop env tc (received buf packet) packet.length
      if pbuf.headD 0 = 0x46 then return some (result, tc, packets)
      else semihostingGetGdbResponse packets tc pbuf

/-- The handler of a packet: the session and the buffer after it. -/
def serviceStep (st : GdbSession × List UInt8) (p : HostPacket) :
    Except Stop (GdbSession × List UInt8) :=
  match gdbMain p.1 (received st.2 p.2) p.2.length st.1 with
  | .ok _ s => .ok (s, pbufAfter p.1 st.1.targets.cur (received st.2 p.2))
  | .error e _ => .error e

/-- A packet after which the host call goes on: it is not the one that says that the link is closed,
its handler returns, and no reply in the buffer begins with an `F`. -/
structure GoesOn (st : GdbSession × List UInt8) (p : HostPacket) : Prop where
  open_ : p.2 ≠ [eot]
  returns : ∃ s, gdbMain p.1 (received st.2 p.2) p.2.length st.1 = .ok () s
  reply : ∀ id data, st.1.targets.cur = some id → hexReply p.1 (received st.2 p.2) id = some data →
    data.headD 0 < 0xf0

/-! ## The first character of the buffer -/

section
variable {env : GdbEnv} {cur : Option Nat} {buf packet pbuf : List UInt8}

/-- The packet, its terminator, and what an older one left. -/
theorem received_eq (buf packet : List UInt8) :
    received buf packet = packet ++ 0 :: buf.drop (packet.length + 1) := by
  simp [received, overwrite]

/-- The buffer begins with the packet. -/
theorem headD_received (buf : List UInt8) {packet : List UInt8} (h : packet ≠ []) :
    (received buf packet).headD 0 = packet.headD 0 := by
  obtain ⟨c, cs, rfl⟩ := List.exists_cons_of_ne_nil h
  rfl

/-- The digit of a high half is `F` from `0xf0` on. -/
theorem hexDigit_eq_F (b : UInt8) : hexDigit (b >>> 4) = 0x46 ↔ 0xf0 ≤ b := by
  have h : ∀ n < 256, hexDigit (UInt8.ofNat n >>> 4) = 0x46 ↔ 0xf0 ≤ UInt8.ofNat n := by
    decide +kernel
  have hb := h b.toNat b.toNat_lt
  rwa [UInt8.ofNat_toNat] at hb

/-- A reply begins with an `F` when its first byte does. -/
theorem headD_pbufAfter_some {id : Nat} {data : List UInt8}
    (hdata : hexReply env pbuf id = some data) :
    (pbufAfter env (some id) pbuf).headD 0 = 0x46 ↔ 0xf0 ≤ data.headD 0 := by
  rw [pbufAfter, Option.bind_some, hdata]
  cases data with
  | nil => exact iff_of_false (fun h => by simp [overwrite, hexify] at h) (by decide)
  | cons b data => exact hexDigit_eq_F b

/-- No `F` is in the buffer after a packet whose reply has none. -/
theorem headD_pbufAfter_ne (hne : pbuf.headD 0 ≠ 0x46)
    (hreply : ∀ id data, cur = some id → hexReply env pbuf id = some data → data.headD 0 < 0xf0) :
    (pbufAfter env cur pbuf).headD 0 ≠ 0x46 := by
  cases cur with
  | none => exact hne
  | some id =>
    cases hdata : hexReply env pbuf id with
    | none =>
      rw [pbufAfter, Option.bind_some, hdata]
      exact hne
    | some data =>
      rw [Ne, headD_pbufAfter_some hdata, UInt8.not_le]
      exact hreply id data rfl hdata

/-- A reply that begins with an `F` stands in the buffer. -/
theorem headD_pbufAfter_eq {id : Nat} {data : List UInt8} (hcur : cur = some id)
    (hdata : hexReply env pbuf id = some data) (hF : ¬ data.headD 0 < 0xf0) :
    (pbufAfter env cur pbuf).headD 0 = 0x46 := by
  rw [hcur, headD_pbufAfter_some hdata]
  exact UInt8.not_lt.1 hF

/-- `semihosting_reply` reads no more than the packet. -/
theorem semihostingReply_received (buf : List UInt8) (h : packet ≠ []) :
    semihostingReply (received buf packet) = semihostingReply packet := by
  have hcstr : ∀ l : List UInt8, cstr (l ++ 0 :: buf.drop (packet.length + 1)) = cstr l := by
    intro l
    induction l with
    | nil => rfl
    | cons c l ih =>
      simp only [cstr, List.cons_append, List.takeWhile_cons] at ih ⊢
      rw [ih]
  have hsecond : (received buf packet).getD 1 0 = packet.getD 1 0 := by
    rw [received_eq]
    match packet, h with
    | [c], _ => rfl
    | c :: d :: cs, _ => rfl
  have hitems : replyItems (received buf packet) = replyItems packet := by
    rw [replyItems, hsecond, replyItems, received_eq]
    congr 2
    split
    · rename_i hminus
      match packet, h with
      | c :: d :: cs, _ => exact hcstr cs
      | [c], _ => cases hminus
    · obtain ⟨c, cs, rfl⟩ := List.exists_cons_of_ne_nil h
      exact hcstr cs
  rw [semihostingReply, hitems, hsecond]
  rfl

/-! ## The host call -/

variable {s s' : GdbSession} {tc : HostReply} {p : HostPacket} {packets : List HostPacket}

/-- Neither is one after a packet without it. -/
theorem headD_received_ne (hF : packet.headD 0 ≠ 0x46) (buf : List UInt8) :
    (received buf packet).headD 0 ≠ 0x46 := by
  cases packet with
  | nil =>
    rw [received_eq]
    exact (by decide : (0 : UInt8) ≠ 0x46)
  | cons c cs =>
    rw [headD_received buf (List.cons_ne_nil c cs)]
    exact hF

/-- A packet whose handler returns is served. -/
theorem gdbMainLoop_ok (hne : pbuf.headD 0 ≠ 0x46) {size : Nat}
    (hs : gdbMain env pbuf size s = .ok () s') :
    gdbMainLoop env tc pbuf size s = .ok (0, tc, pbufAfter env s.targets.cur pbuf) s' := by
  have hcur : curTarget s = .ok s.targets.cur s := rfl
  rw [gdbMainLoop, if_neg hne, run_bind_ok hcur, run_bind_ok hs]
  rfl

/-- One whose handler stops is not. -/
theorem gdbMainLoop_error (hne : pbuf.headD 0 ≠ 0x46) {size : Nat} {e : Stop}
    (hs : gdbMain env pbuf size s = .error e s') :
    gdbMainLoop env tc pbuf size s = .error e s' := by
  have hcur : curTarget s = .ok s.targets.cur s := rfl
  rw [gdbMainLoop, if_neg hne, run_bind_ok hcur, run_bind_error hs]

/-- A packet whose handler returns: the buffer decides whether the call goes on. -/
theorem response_cons (hF : p.2.headD 0 ≠ 0x46) (hopen : p.2 ≠ [eot])
    (hs : gdbMain p.1 (received buf p.2) p.2.length s = .ok () s') :
    semihostingGetGdbResponse (p :: packets) tc buf s =
      if (pbufAfter p.1 s.targets.cur (received buf p.2)).headD 0 = 0x46 then
        .ok (some (0, tc, packets)) s'
      else
        semihostingGetGdbResponse packets tc (pbufAfter p.1 s.targets.cur (received buf p.2))
          s' := by
  obtain ⟨env, packet⟩ := p
  rw [semihostingGetGdbResponse, if_neg hopen,
    run_bind_ok (gdbMainLoop_ok (headD_received_ne hF buf) hs)]
  dsimp only
  split <;> rfl

/-- A packet whose handler does not return. -/
theorem response_cons_error {e : Stop} (hF : p.2.headD 0 ≠ 0x46) (hopen : p.2 ≠ [eot])
    (hs : gdbMain p.1 (received buf p.2) p.2.length s = .error e s') :
    semihostingGetGdbResponse (p :: packets) tc buf s = .error e s' := by
  obtain ⟨env, packet⟩ := p
  rw [semihostingGetGdbResponse, if_neg hopen,
    run_bind_error (gdbMainLoop_error (headD_received_ne hF buf) hs)]

/-- The state after a packet whose handler returns. -/
theorem serviceStep_ok (hs : gdbMain p.1 (received buf p.2) p.2.length s = .ok () s') :
    serviceStep (s, buf) p = .ok (s', pbufAfter p.1 s.targets.cur (received buf p.2)) := by
  rw [serviceStep, hs]

/-- The `F` packet ends the call. -/
theorem response_F {f : List UInt8} (hF : f.headD 0 = 0x46) (rest : List HostPacket) :
    semihostingGetGdbResponse ((env, f) :: rest) tc buf s =
      .ok (some ((semihostingReply f).1, (semihostingReply f).2, rest)) s := by
  have hne : f ≠ [] := by
    rintro rfl
    cases hF
  have hopen : f ≠ [eot] := by
    rintro rfl
    cases hF
  have hhead := (headD_received buf hne).trans hF
  rw [semihostingGetGdbResponse, if_neg hopen, gdbMainLoop, if_pos hhead,
    semihostingReply_received buf hne]
  change (if (received buf f).headD 0 = 0x46 then _ else _ : GdbM _) s = _
  rw [if_pos hhead]
  rfl

/-- The host call services the packets before the first `F` packet and returns what that packet
says, exactly when none of them disturbs it. -/
theorem semihostingGetGdbResponse_iff {f : List UInt8} (hF : f.headD 0 = 0x46) (env : GdbEnv)
    (tc : HostReply) (rest : List HostPacket) :
    ∀ (packets : List HostPacket), (∀ p ∈ packets, p.2.headD 0 ≠ 0x46) →
      ∀ (s : GdbSession) (buf : List UInt8),
      ((∃ s' buf', Machine.run serviceStep (s, buf) packets = .ok (s', buf') ∧
        semihostingGetGdbResponse (packets ++ (env, f) :: rest) tc buf s =
          .ok (some ((semihostingReply f).1, (semihostingReply f).2, rest)) s') ↔
        Machine.Along serviceStep GoesOn (s, buf) packets) := by
  intro packets
  induction packets with
  | nil =>
    intro _ s buf
    exact iff_of_true ⟨s, buf, rfl, response_F hF rest⟩ Machine.along_nil
  | cons p packets ih =>
    intro hpackets s buf
    have hp := hpackets p List.mem_cons_self
    have hpackets' := fun q hq => hpackets q (List.mem_cons_of_mem p hq)
    -- a packet that disturbs the call leaves at least the `F` packet unread
    have hearly : ∀ r : Int32 × HostReply, (some (r.1, r.2, packets ++ (env, f) :: rest)) ≠
        some ((semihostingReply f).1, (semihostingReply f).2, rest) := by
      intro r h
      have := congrArg (fun o => o.map fun r => r.2.2.length) h
      simp at this
      omega
    by_cases hopen : p.2 = [eot]
    · refine iff_of_false ?_ fun halong => halong.head.open_ hopen
      rintro ⟨s', buf', -, hresponse⟩
      obtain ⟨env', packet⟩ := p
      rw [List.cons_append, semihostingGetGdbResponse, if_pos hopen] at hresponse
      injection hresponse with hvalue
      exact hearly (-1, tc) hvalue
    cases hs : gdbMain p.1 (received buf p.2) p.2.length s with
    | error e s' =>
      refine iff_of_false ?_ fun halong => ?_
      · rintro ⟨s', buf', -, hresponse⟩
        rw [List.cons_append, response_cons_error hp hopen hs] at hresponse
        cases hresponse
      · obtain ⟨s'', hs''⟩ := halong.head.returns
        rw [show gdbMain p.1 (received (s, buf).2 p.2) p.2.length (s, buf).1 = _ from hs] at hs''
        cases hs''
    | ok a s' =>
      have hstep := serviceStep_ok hs
      rw [Machine.run_cons hstep, Machine.along_cons hstep, List.cons_append,
        response_cons hp hopen hs]
      by_cases hfirst : (pbufAfter p.1 s.targets.cur (received buf p.2)).headD 0 = 0x46
      · rw [if_pos hfirst]
        refine iff_of_false ?_ fun halong => ?_
        · rintro ⟨s'', buf', -, hresponse⟩
          injection hresponse with hvalue
          exact hearly (0, tc) hvalue
        · exact headD_pbufAfter_ne (headD_received_ne hp buf) halong.1.reply hfirst
      · rw [if_neg hfirst, ih hpackets' s' _]
        refine ⟨fun h => ⟨⟨hopen, ⟨s', hs⟩, fun id data hcur hdata => ?_⟩, h⟩, fun h => h.2⟩
        by_contra hlt
        exact hfirst (headD_pbufAfter_eq hcur hdata hlt)

/-- A target whose memory reads as one byte. -/
def memEnv (b : UInt8) : GdbEnv :=
  { plainEnv true with
    fns := { (plainEnv true).fns with memRead := fun _ len _ => some (List.replicate len.toNat b) }
      }

/-- Bytes that do not look like the reply of the host are read before it, in two packets. -/
theorem response_after_reads :
    ∃ s' buf', Machine.run serviceStep (oneTarget (some 0) none, [])
        [(memEnv 0x12, ascii "m20000000,2"), (memEnv 0x34, ascii "m20000000,1")] = .ok (s', buf') ∧
      semihostingGetGdbResponse
          ([(memEnv 0x12, ascii "m20000000,2"), (memEnv 0x34, ascii "m20000000,1")] ++
            (plainEnv true, ascii "F4") :: []) ⟨0, false⟩ [] (oneTarget (some 0) none) =
        .ok (some ((semihostingReply (ascii "F4")).1, (semihostingReply (ascii "F4")).2, []))
          s' := by
  refine (semihostingGetGdbResponse_iff (f := ascii "F4") (by decide) _ _ _ _ (by
    rw [List.forall_mem_cons, List.forall_mem_singleton]
    decide) _ _).2 ?_
  have hfirst : GoesOn (oneTarget (some 0) none, []) (memEnv 0x12, ascii "m20000000,2") := by
    refine ⟨by decide, ⟨_, rfl⟩, fun id data hcur hdata => ?_⟩
    cases hcur
    rw [show hexReply _ _ _ = some [0x12, 0x12] by decide +kernel] at hdata
    cases hdata
    decide
  obtain ⟨s', hs', hcur⟩ : ∃ s', gdbMain (memEnv 0x12)
      (received [] (ascii "m20000000,2")) (ascii "m20000000,2").length (oneTarget (some 0) none) =
        .ok () s' ∧ s' = { oneTarget (some 0) none with out := s'.out } :=
    ⟨_, rfl, rfl⟩
  refine (Machine.along_cons (serviceStep_ok hs')).2 ⟨hfirst, ?_⟩
  clear hs'
  generalize s'.out = out at hcur
  subst hcur
  have hsecond : GoesOn ({ oneTarget (some 0) none with out := out },
      pbufAfter (memEnv 0x12) (oneTarget (some 0) none).targets.cur
        (received [] (ascii "m20000000,2"))) (memEnv 0x34, ascii "m20000000,1") := by
    refine ⟨by decide, ⟨_, rfl⟩, fun id data hid hdata => ?_⟩
    cases hid
    have hread : hexReply (memEnv 0x34) (received (pbufAfter (memEnv 0x12) (some 0)
        (received [] (ascii "m20000000,2"))) (ascii "m20000000,1")) 0 = some [0x34] := by
          decide +kernel
    rw [show data = [0x34] from Option.some.inj (hdata.symm.trans hread)]
    decide
  obtain ⟨s₂, hs₂⟩ := hsecond.returns
  exact (Machine.along_cons (serviceStep_ok hs₂)).2 ⟨hsecond, Machine.along_nil⟩

/-- The value that a host call returned. -/
def returnedValue :
    EStateM.Result Stop GdbSession (Option (Int32 × HostReply × List HostPacket)) → Option Int32
  | .ok r _ => r.map fun r => r.1
  | .error _ _ => none

/-- The reply to a read of `0xf0` ends the host call with 0, before the host has answered. -/
theorem response_confused :
    ¬ ∃ s' buf', Machine.run serviceStep (oneTarget (some 0) none, [])
        [(memEnv 0xf0, ascii "m20000000,2")] = .ok (s', buf') ∧
      semihostingGetGdbResponse
          ([(memEnv 0xf0, ascii "m20000000,2")] ++ (plainEnv true, ascii "F4") :: []) ⟨0, false⟩ []
          (oneTarget (some 0) none) =
        .ok (some ((semihostingReply (ascii "F4")).1, (semihostingReply (ascii "F4")).2, []))
          s' := by
  rintro ⟨s', buf', -, h⟩
  have hvalue : returnedValue _ = some (semihostingReply (ascii "F4")).1 := congrArg returnedValue h
  revert hvalue
  decide +kernel

end

end Blackmagic
