import Blackmagic.Gdb.Frame
import Blackmagic.Gdb.Replies
import Blackmagic.Lib.Machine

/-!
# The two main loops

`main` of the upstream firmware runs `bmp_poll_loop` again and again and catches the exceptions that
leave it; `gdb_application_thread` of this port receives a packet, handles it, and does so forever.
Both are machines over the events that come from outside: a character from the host, and a target
that halts. Between two events the poll loop only finds out that there is nothing to do.
-/

namespace Blackmagic

open Effect Scanf

/-! ## Polling the target -/

/-- `target_halt_reason_e`. -/
inductive HaltReason
  | running
  | error
  | request
  | stepping
  | breakpoint
  | watchpoint
  | fault
  deriving DecidableEq, Repr

/-- The digits of `"%08X"`. -/
def formatHex8 (n : UInt32) : String :=
  String.ofList ((List.range 8).map fun i =>
    Char.ofNat (hexDigit (UInt8.ofNat (n.toNat / 16 ^ (7 - i) % 16))).toNat)

/-- The stop reply of a halt reason. -/
def stopReply (reason : HaltReason) (watch : UInt32) : String :=
  match reason with
  | .error => "X1D"
  | .request => "T02"
  | .watchpoint => "T05watch:" ++ formatHex8 watch ++ ";"
  | .fault => "T0B"
  | _ => "T05"

/-- What `target_halt_poll` finds: the reason, the address that was watched, and whether the driver
lost the target, in which case it has freed the target list. -/
structure Halt where
  reason : HaltReason
  watch : UInt32
  lost : Bool
  deriving DecidableEq, Repr

/-- `gdb_poll_target`. -/
def gdbPollTarget (env : GdbEnv) (h : Halt) : GdbM Unit := do
  if (← curTarget).isNone then putPacketz "W00"
  else
    call env .haltPoll (← curTarget) fun _ => ()
    if h.lost then listFree env.fns.toDriver
    if h.reason ≠ .running then
      modify fun s => { s with running := false }
      putPacketF env (stopReply h.reason h.watch)

/-! ## The loops -/

/-- A loop: the session, the call of `gdb_getpacket` that waits for the host, and what earlier calls
have sent. -/
structure Loop where
  gdb : GdbSession
  rx : Rx
  sent : List RxOut
  deriving DecidableEq, Repr

/-- What comes from outside: a character from the host, or a target that `target_halt_poll` would
find halted. With it comes what the handlers meet then. -/
inductive LoopEvent
  | char (c : UInt8) (env : GdbEnv)
  | halt (h : Halt) (env : GdbEnv)

/-- Why a loop ends. -/
inductive LoopFault
  | receive (f : RxFault)
  | stop (e : Stop)
  deriving DecidableEq, Repr

/-- The condition of `bmp_poll_loop` on polling the target. -/
def Loop.polls (s : Loop) : Bool := s.gdb.running && s.gdb.targets.cur.isSome

/-- Give a character to `gdb_getpacket`. When it returns, `handle` handles the packet. -/
def receive (handle : GdbM Unit → GdbSession → Except Stop GdbSession) (s : Loop) (c : UInt8)
    (env : GdbEnv) : Except LoopFault Loop :=
  match rxStep s.gdb.noackmode gdbPacketBufferSize s.rx c with
  | .error f => .error (.receive f)
  | .ok (.more rx) => .ok { s with rx := rx }
  | .ok (.done rx size) =>
    match handle (gdbMain env rx.packet size) s.gdb with
    | .ok gdb => .ok { gdb := gdb, rx := Rx.start rx.packet, sent := s.sent ++ rx.out }
    | .error e => .error (.stop e)

/-- The text of an exception. -/
def Exc.msg : Exc → String
  | .error msg => msg
  | .timeout msg => msg

/-- What `main` does when an exception leaves the poll loop. -/
def uncaughtException (d : Driver) (e : Exc) : GdbM Unit := do
  putPacketz "EFF"
  listFree d
  emit (.console ("Uncaught exception: " ++ e.msg ++ "\n"))

/-- A program outside of any `TRY_CATCH`: an exception is not caught, and `raise_exception`
aborts. -/
def noCatch (m : GdbM Unit) (s : GdbSession) : Except Stop GdbSession :=
  match m s with
  | .ok _ s' => .ok s'
  | .error e _ => .error e

/-- A program in the `TRY_CATCH` of `main`. -/
def tryCatchAll (d : Driver) (m : GdbM Unit) (s : GdbSession) : Except Stop GdbSession :=
  match m s with
  | .ok _ s' => .ok s'
  | .error (.raised e) s' => noCatch (uncaughtException d e) s'
  | .error e _ => .error e

/-- Run a program of the poll loop. -/
def pollWith (d : Driver) (m : GdbM Unit) (s : Loop) : Except LoopFault Loop :=
  match tryCatchAll d m s.gdb with
  | .ok gdb => .ok { s with gdb := gdb }
  | .error e => .error (.stop e)

/-- `main` with `bmp_poll_loop`. While it polls, a character is read to see whether it is an
interrupt, and is lost otherwise. -/
def mainStep (s : Loop) : LoopEvent → Except LoopFault Loop
  | .char c env =>
    if s.polls then
      if c = 0x03 ∨ c = 0x04 then
        pollWith env.fns.toDriver (do call env .haltRequest (← curTarget) fun _ => ()) s
      else .ok s
    else receive (tryCatchAll env.fns.toDriver) s c env
  | .halt h env =>
    if s.polls then pollWith env.fns.toDriver (gdbPollTarget env h) s else .ok s

/-- `gdb_application_thread`. -/
def threadStep (s : Loop) : LoopEvent → Except LoopFault Loop
  | .char c env => receive noCatch s c env
  | .halt _ _ => .ok s

/-- A loop at the start, with the buffer of `main.c`. -/
def Loop.start (gdb : GdbSession) : Loop :=
  { gdb := gdb, rx := Rx.start (List.replicate (gdbPacketBufferSize + 1) 0), sent := [] }

/-! ## What the poll loop does -/

section
variable {s : Loop} {env : GdbEnv} {id : Nat}

/-- A target that halts while it runs is answered by one stop reply, and no longer polled. -/
theorem mainStep_halt (hpolls : s.polls = true) (hvalid : s.gdb.targets.Sound)
    (hquiet : env.Quiet) (hmemory : env.vasprintf = true) {h : Halt}
    (hreason : h.reason ≠ .running) :
    ∃ s', mainStep s (.halt h env) = .ok s' ∧ s'.gdb.running = false ∧
      replyCount s'.gdb.out = replyCount s.gdb.out + 1 ∧
      .reply (ascii (stopReply h.reason h.watch)) ∈ s'.gdb.out := by
  simp only [Loop.polls, Bool.and_eq_true] at hpolls
  obtain ⟨id, hcur⟩ := Option.isSome_iff_exists.1 hpolls.2
  have hends : Ends (gdbPollTarget env h) s.gdb
      (fun _ gdb => gdb.running = false ∧ replyCount gdb.out = replyCount s.gdb.out + 1 ∧
        .reply (ascii (stopReply h.reason h.watch)) ∈ gdb.out) fun _ _ => False := by
    simp only [gdbPollTarget, ends_bind, ends_curTarget, hcur, Option.isNone_some,
      Bool.false_eq_true, if_false, ends_call hquiet (hvalid.cur id hcur)]
    cases h.lost with
    | false => simp [hreason, putPacketF, hmemory]
    | true =>
      simp only [if_true, ends_bind]
      refine listFree_ends hquiet.fns hvalid.whole fun targets => ?_
      simp [hreason, putPacketF, hmemory]
  rw [mainStep, if_pos (by simp [Loop.polls, hpolls])]
  unfold pollWith tryCatchAll
  unfold Ends at hends
  cases hm : gdbPollTarget env h s.gdb with
  | ok a gdb =>
    rw [hm] at hends
    exact ⟨_, rfl, hends⟩
  | error e gdb =>
    rw [hm] at hends
    exact hends.elim

/-- An interrupt character requests the target to halt. -/
theorem mainStep_interrupt (hpolls : s.polls = true) (hvalid : s.gdb.targets.Sound)
    (hquiet : env.Quiet) (hcur : s.gdb.targets.cur = some id) :
    mainStep s (.char 0x03 env) =
      .ok { s with gdb := { s.gdb with out := s.gdb.out ++ [.call id .haltRequest] } } := by
  have hends : Ends (do call env .haltRequest (← curTarget) fun _ => ()) s.gdb
      (fun _ gdb => gdb = { s.gdb with out := s.gdb.out ++ [.call id .haltRequest] })
      fun _ _ => False := by
    simp only [ends_bind, ends_curTarget, hcur, ends_call hquiet (hvalid.cur id hcur)]
  rw [mainStep, if_pos hpolls, if_pos (.inl rfl)]
  unfold pollWith tryCatchAll
  unfold Ends at hends
  split at hends
  · next hm =>
    simp only [hm]
    rw [hends]
  · exact hends.elim

/-- An exception that leaves the handler of a packet is answered by `EFF`, and the targets are
freed. -/
theorem receive_raised {c : UInt8} {rx : Rx} {size : Nat} {e : Exc} {gdb : GdbSession}
    (hrx : rxStep s.gdb.noackmode gdbPacketBufferSize s.rx c = .ok (.done rx size))
    (hraise : gdbMain env rx.packet size s.gdb = .error (.raised e) gdb)
    (htorn : gdb.targets.torn = none)
    (hdetach : (targetListFree (env.fns.raises .detach) gdb.targets).1 = none) :
    (∃ s', receive (tryCatchAll env.fns.toDriver) s c env = .ok s' ∧
      .reply (ascii "EFF") ∈ s'.gdb.out ∧
      s'.gdb.targets = (targetListFree (env.fns.raises .detach) gdb.targets).2) ∧
      receive noCatch s c env = .error (.stop (.raised e)) := by
  have hends : Ends (uncaughtException env.fns.toDriver e) gdb
      (fun _ gdb' => .reply (ascii "EFF") ∈ gdb'.out ∧
        gdb'.targets = (targetListFree (env.fns.raises .detach) gdb.targets).2) fun _ _ =>
          False := by
    simp only [uncaughtException, ends_bind, ends_putPacketz]
    refine (ends_listFree (by exact htorn)).2 ?_
    dsimp only
    rw [hdetach]
    simp
  constructor
  · unfold Ends at hends
    cases hm : uncaughtException env.fns.toDriver e gdb with
    | ok a gdb' =>
      rw [hm] at hends
      refine ⟨⟨gdb', Rx.start rx.packet, s.sent ++ rx.out⟩, ?_, hends⟩
      simp only [receive, hrx, tryCatchAll, hraise, noCatch, hm]
    | error e' gdb' =>
      rw [hm] at hends
      exact hends.elim
  · simp only [receive, hrx, noCatch, hraise]

end

/-! ## The thread and the poll loop -/

/-- The events in which the thread does what the poll loop does: nothing happens while the poll loop
polls the target, and the handlers raise no exception. -/
def Undisturbed (s : Loop) : LoopEvent → Prop
  | .char _ env => s.polls = false ∧ env.Quiet
  | .halt _ _ => s.polls = false

/-- Without exceptions it does not matter whether they are caught. -/
theorem noCatch_gdbMain {env : GdbEnv} (hquiet : env.Quiet) (pbuf : List UInt8) (size : Nat)
    (s : GdbSession) :
    noCatch (gdbMain env pbuf size) s = tryCatchAll env.fns.toDriver (gdbMain env pbuf size) s := by
  have hstops : env.fns.toDriver.Stops fun e => ∀ x, e ≠ .raised x := by
    refine ⟨nofun, fun _ => nofun, nofun, nofun, fun op id e he => ?_⟩
    rw [hquiet.fns op id] at he
    cases he
  have hmonitor : env.MonitorStops fun e => ∀ x, e ≠ .raised x := by
    intro target line e he
    rw [hquiet.monitor target line] at he
    cases he
  have hends : Ends (gdbMain env pbuf size) s (fun _ _ => True) fun e _ => ∀ x, e ≠ .raised x :=
    stopsWith_gdbMain hstops hmonitor s
  unfold noCatch tryCatchAll
  unfold Ends at hends
  split at hends
  · next hm => rw [hm]
  · next e s' hm =>
    rw [hm]
    cases e with
    | nullTarget => rfl
    | freedTarget id => rfl
    | overrun => rfl
    | crcLost => rfl
    | raised x => exact absurd rfl (hends x)

/-- An undisturbed event is treated by both loops in one way. -/
theorem threadStep_eq {s : Loop} {ev : LoopEvent} (h : Undisturbed s ev) :
    threadStep s ev = mainStep s ev := by
  cases ev with
  | halt halt env => rw [threadStep, mainStep, if_neg (by rw [h]; decide)]
  | char c env =>
    obtain ⟨hpolls, hquiet⟩ := h
    rw [threadStep, mainStep, if_neg (by rw [hpolls]; decide)]
    unfold receive
    split
    · rfl
    · rfl
    · rw [noCatch_gdbMain hquiet]

/-- **The thread and the poll loop.** As long as no character comes and no target halts while a
target runs, and no handler raises an exception, `gdb_application_thread` does at every point what
`main` with `bmp_poll_loop` does. -/
theorem threadRun_refines {s : Loop} {es : List LoopEvent}
    (h : Machine.Along threadStep Undisturbed s es) (es₁ es₂ : List LoopEvent)
    (hes : es = es₁ ++ es₂) :
    Machine.run threadStep s es₁ = Machine.run mainStep s es₁ := by
  rw [hes] at h
  exact Machine.run_eq_of_along (fun _ _ => threadStep_eq) h.left

/-- The characters of a packet, met by the same surroundings. -/
def packetEvents (env : GdbEnv) (text : String) : List LoopEvent :=
  (gdbTransmit (ascii text)).map (.char · env)

/-- The packet `!` to a session without targets. -/
theorem threadRun_refines_extended :
    Machine.run threadStep ⟨GdbSession.boot, Rx.start [0, 0], []⟩
      (packetEvents (plainEnv true) "!") =
      Machine.run mainStep ⟨GdbSession.boot, Rx.start [0, 0], []⟩
        (packetEvents (plainEnv true) "!") := by
  refine threadRun_refines ?_ _ [] (List.append_nil _).symm
  have hquiet := plainEnv_quiet true
  refine (Machine.along_cons rfl).2 ⟨⟨rfl, hquiet⟩, ?_⟩
  refine (Machine.along_cons rfl).2 ⟨⟨rfl, hquiet⟩, ?_⟩
  refine (Machine.along_cons rfl).2 ⟨⟨rfl, hquiet⟩, ?_⟩
  refine (Machine.along_cons rfl).2 ⟨⟨rfl, hquiet⟩, ?_⟩
  exact (Machine.along_cons rfl).2 ⟨⟨rfl, hquiet⟩, Machine.along_nil⟩

/-- What a run has done, if it has not ended. -/
def runOut (r : Except LoopFault Loop) : Option (List GdbOut) := r.toOption.map (·.gdb.out)

/-- A target whose registers cannot be read. -/
def brokenEnv : GdbEnv :=
  { plainEnv true with
    fns := { (plainEnv true).fns with
      raises := fun op _ => if op = .regsSize then some (.error "no ack") else none } }

/-- A target that halts is not reported, an interrupt does not reach the target, and an exception
ends the thread. -/
theorem threadRun_differs :
    (runOut (Machine.run mainStep (Loop.start (oneTarget (some 0) none))
        (packetEvents (plainEnv true) "?" ++ [.halt ⟨.breakpoint, 0, false⟩ (plainEnv true)])) =
      some [.call 0 .haltPoll, .reply (ascii "T05")] ∧
      runOut (Machine.run threadStep (Loop.start (oneTarget (some 0) none))
        (packetEvents (plainEnv true) "?" ++ [.halt ⟨.breakpoint, 0, false⟩ (plainEnv true)])) =
      some []) ∧
    (runOut (Machine.run mainStep (Loop.start (oneTarget (some 0) none))
        (packetEvents (plainEnv true) "?" ++ [.char 0x03 (plainEnv true)])) =
      some [.call 0 .haltRequest] ∧
      runOut (Machine.run threadStep (Loop.start (oneTarget (some 0) none))
        (packetEvents (plainEnv true) "?" ++ [.char 0x03 (plainEnv true)])) = some []) ∧
    (runOut (Machine.run mainStep (Loop.start (oneTarget (some 0) none))
        (packetEvents brokenEnv "g")) =
      some [.call 0 .regsSize, .reply (ascii "EFF"), .console "Uncaught exception: no ack\n"] ∧
      runOut (Machine.run threadStep (Loop.start (oneTarget (some 0) none))
        (packetEvents brokenEnv "g")) = none) := by
  decide +kernel

end Blackmagic
