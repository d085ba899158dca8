import Blackmagic.Lib.Machine
import Mathlib

/-!
# The target lock

The UI task and the GDB thread share the targets, and `target_lock.h` has one lock for both. This
module has the two tasks as programs of calls to the lock and accesses to the target, and runs them
in every order of steps. `app_main` does not create the lock, so that a call to it does nothing, and
the GDB thread does not call it.
-/

namespace Blackmagic

/-! ## The tasks -/

/-- The tasks that access the targets. -/
inductive Task
  | ui
  | gdb
  deriving DecidableEq, Repr

/-- What a task does: it calls the lock, or accesses the target in a part of its program. -/
inductive Instr
  | lock
  | unlock
  | access (part : Nat)
  deriving DecidableEq, Repr

/-- A sequence of accesses that belong together, and whether the lock is taken around it. -/
structure Critical where
  locked : Bool
  accesses : Nat
  deriving DecidableEq, Repr

/-- The verbs of the UI, with the number of accesses that their target functions make; `read` has
one such number for each chunk. A `command` is a line for `command_process`. -/
inductive UiVerb
  | attach (accesses : Nat)
  | detach (accesses : Nat)
  | flash (accesses : Nat)
  | read (chunks : List Nat)
  | regs (accesses : Nat)
  | mem (accesses : Nat)
  | reset (accesses : Nat)
  | halt (accesses : Nat)
  | run (accesses : Nat)
  | step (accesses : Nat)
  | poll (accesses : Nat)
  | command (accesses : Nat)
  deriving DecidableEq, Repr

/-- The critical sections of a verb. -/
def UiVerb.sections : UiVerb → List Critical
  | .attach n | .detach n | .flash n | .regs n | .mem n | .reset n | .halt n | .run n | .step n
  | .poll n => [⟨true, n⟩]
  | .read chunks => chunks.map (⟨true, ·⟩)
  | .command n => [⟨false, n⟩]

/-- The handling of a packet by `gdb_application_thread`, with its number of accesses. -/
def packetSection (accesses : Nat) : Critical := ⟨false, accesses⟩

/-- The program of a section. -/
def Critical.program (part : Nat) (c : Critical) : List Instr :=
  if c.locked then .lock :: List.replicate c.accesses (.access part) ++ [.unlock]
  else List.replicate c.accesses (.access part)

/-- The program of sections, numbered from `part` on. -/
def programFrom (part : Nat) : List Critical → List Instr
  | [] => []
  | c :: cs => c.program part ++ programFrom (part + 1) cs

/-! ## The lock -/

/-- The calls of `app_main`. -/
inductive InitCall
  | nvsFlashInit
  | gdbGlueInit
  | displayInit
  | ledInit
  | ledSetGreen
  | sdcardMount
  | storageInit
  | usbInit
  | pinsInit
  | targetLockInit
  | gdbThread
  | uiStart
  deriving DecidableEq, Repr

/-- `app_main`. -/
def appMain : List InitCall :=
  [.nvsFlashInit, .gdbGlueInit, .displayInit, .ledInit, .ledSetGreen, .sdcardMount, .storageInit,
    .usbInit, .pinsInit, .gdbThread, .uiStart, .ledSetGreen]

/-- The tasks at a point: whether `g_target_lock` was created, who holds it, what the tasks have
left to do, and the accesses so far. -/
structure Tasks where
  created : Bool
  holder : Option Task
  programs : Task → List Instr
  trace : List (Task × Nat)

/-- A task that cannot take a step. -/
inductive Blocked
  | finished
  | waiting
  deriving DecidableEq, Repr

/-- A step of a task. -/
def taskStep (s : Tasks) (t : Task) : Except Blocked Tasks :=
  match s.programs t with
  | [] => .error .finished
  | .lock :: rest =>
    if s.created then
      match s.holder with
      | none => .ok { s with holder := some t, programs := Function.update s.programs t rest }
      | some _ => .error .waiting
    else .ok { s with programs := Function.update s.programs t rest }
  | .unlock :: rest =>
    .ok { s with
      holder := if s.created then none else s.holder, programs :=
        Function.update s.programs t rest }
  | .access part :: rest =>
    .ok { s with programs := Function.update s.programs t rest, trace := s.trace ++ [(t, part)] }

/-- The tasks after `app_main`, with the verbs and packets that they will handle. -/
def tasksStart (verbs : List UiVerb) (packets : List Nat) : Tasks :=
  { created := appMain.contains .targetLockInit, holder := none, trace := [],
    programs := fun
      | .ui => programFrom 0 (verbs.flatMap UiVerb.sections)
      | .gdb => programFrom 0 (packets.map packetSection) }

/-- No task accesses the target between two accesses of a part of the other one. -/
def ExclusiveTrace (trace : List (Task × Nat)) : Prop :=
  ∀ l₁ a l₂ b l₃ l₄, trace = l₁ ++ a :: (l₂ ++ b :: (l₃ ++ a :: l₄)) → b.1 = a.1

/-! ## Accesses -/

/-- The accesses of a program. -/
def accessesOf (t : Task) (p : List Instr) : List (Task × Nat) :=
  p.filterMap fun
    | .access part => some (t, part)
    | _ => none

/-- The accesses of two parts of a program. -/
theorem accessesOf_append (t : Task) (p q : List Instr) :
    accessesOf t (p ++ q) = accessesOf t p ++ accessesOf t q := List.filterMap_append

/-- The accesses of a critical section. -/
theorem accessesOf_program (t : Task) (part : Nat) (c : Critical) :
    accessesOf t (c.program part) = List.replicate c.accesses (t, part) := by
  have hrep : ∀ n, accessesOf t (List.replicate n (.access part)) = List.replicate n (t, part) := by
    intro n
    induction n with
    | zero => rfl
    | succ n ih =>
      rw [List.replicate_succ, List.replicate_succ, ← ih]
      rfl
  unfold Critical.program
  split
  · rw [accessesOf_append, ← List.singleton_append, accessesOf_append, hrep]
    exact List.append_nil _
  · exact hrep _

/-- The parts of a program are numbered from `part` on. -/
theorem le_of_mem_programFrom {t : Task} {k : Nat} {cs : List Critical} : ∀ {part : Nat},
    (t, k) ∈ accessesOf t (programFrom part cs) → part ≤ k := by
  induction cs with
  | nil => exact fun h => nomatch h
  | cons c cs ih =>
    intro part h
    rw [programFrom, accessesOf_append, accessesOf_program, List.mem_append] at h
    rcases h with h | h
    · cases List.eq_of_mem_replicate h
      exact Nat.le_refl _
    · exact Nat.le_of_succ_le (ih h)

/-- A part that is accessed twice is a section with two accesses. -/
theorem exists_of_count {t : Task} {k n : Nat} (hn : 0 < n) {cs : List Critical} : ∀ {part : Nat},
    n ≤ (accessesOf t (programFrom part cs)).count (t, k) → ∃ c ∈ cs, n ≤ c.accesses := by
  induction cs with
  | nil =>
    intro part h
    exact absurd h (by simp [programFrom, accessesOf]; omega)
  | cons c cs ih =>
    intro part h
    rw [programFrom, accessesOf_append, accessesOf_program, List.count_append,
      List.count_replicate] at h
    by_cases hk : part = k
    · subst hk
      -- the later parts have larger numbers
      have hzero : (accessesOf t (programFrom (part + 1) cs)).count (t, part) = 0 := by
        rw [List.count_eq_zero]
        intro hmem
        exact Nat.not_succ_le_self _ (le_of_mem_programFrom hmem)
      rw [hzero] at h
      simp only [beq_self_eq_true, if_true] at h
      exact ⟨c, List.mem_cons_self, h⟩
    · rw [if_neg (by simpa using hk)] at h
      obtain ⟨c', hc', hn'⟩ := @ih (part + 1) (by omega)
      exact ⟨c', List.mem_cons_of_mem c hc', hn'⟩

/-- A section with two accesses makes them in a row. -/
theorem programFrom_split {c : Critical} {n : Nat} (hn : n + 1 ≤ c.accesses) {cs : List Critical} :
    ∀ {part : Nat}, c ∈ cs → ∃ p k q,
      programFrom part cs = p ++ List.replicate (n + 1) (.access k) ++ q := by
  induction cs with
  | nil => exact fun h => nomatch h
  | cons c' cs ih =>
    intro part h
    rcases List.mem_cons.1 h with rfl | h
    · have hrep : List.replicate c.accesses (Instr.access part) =
          List.replicate (n + 1) (.access part) ++ List.replicate (c.accesses - (n + 1))
            (.access part) := by
        rw [List.replicate_append_replicate]
        congr 1
        omega
      rw [programFrom, Critical.program]
      split
      · refine ⟨[.lock], part,
          List.replicate (c.accesses - (n + 1)) (.access part) ++ [.unlock] ++
            programFrom (part + 1) cs, ?_⟩
        rw [hrep]
        simp only [List.append_assoc, List.cons_append, List.nil_append]
      · refine ⟨[], part,
          List.replicate (c.accesses - (n + 1)) (.access part) ++ programFrom (part + 1) cs, ?_⟩
        rw [hrep]
        simp only [List.append_assoc, List.nil_append]
    · obtain ⟨p, k, q, hpq⟩ := @ih (part + 1) h
      exact ⟨c'.program part ++ p, k, q, by rw [programFrom, hpq]; simp⟩

/-! ## Runs without the lock -/

/-- The accesses that a task has made, and those that it has left. -/
def accessesBy (s : Tasks) (t : Task) : List (Task × Nat) :=
  s.trace.filter (·.1 = t) ++ accessesOf t (s.programs t)

/-- What a step of a task does when the lock was not created. -/
theorem taskStep_cases {s s' : Tasks} {t : Task} (hcreated : s.created = false)
    (h : taskStep s t = .ok s') : ∃ i rest, s.programs t = i :: rest ∧ s'.created = false ∧
      s'.programs = Function.update s.programs t rest ∧ s'.trace = s.trace ++ accessesOf t [i] := by
  unfold taskStep at h
  split at h
  · cases h
  · next rest hp =>
    rw [hcreated] at h
    cases h
    exact ⟨.lock, rest, hp, rfl, rfl, (List.append_nil _).symm⟩
  · next rest hp =>
    cases h
    exact ⟨.unlock, rest, hp, hcreated, rfl, (List.append_nil _).symm⟩
  · next part rest hp =>
    cases h
    exact ⟨.access part, rest, hp, hcreated, rfl, rfl⟩

/-- A step moves accesses from the program to the trace. -/
theorem taskStep_accessesBy {s s' : Tasks} {t : Task} (hcreated : s.created = false)
    (h : taskStep s t = .ok s') (t' : Task) : accessesBy s' t' = accessesBy s t' := by
  obtain ⟨i, rest, hp, -, hprograms, htrace⟩ := taskStep_cases hcreated h
  have hown : ∀ x ∈ accessesOf t [i], x.1 = t := by
    intro x hx
    cases i with
    | lock => cases hx
    | unlock => cases hx
    | access part =>
      rw [List.mem_singleton.1 hx]
  unfold accessesBy
  rw [htrace, hprograms, List.filter_append]
  by_cases ht : t' = t
  · subst ht
    have hall : (accessesOf t' [i]).filter (·.1 = t') = accessesOf t' [i] :=
      List.filter_eq_self.2 fun x hx => decide_eq_true (hown x hx)
    have hcons : accessesOf t' (i :: rest) = accessesOf t' [i] ++ accessesOf t' rest :=
      accessesOf_append t' [i] rest
    rw [Function.update_self, hp, hall, hcons, List.append_assoc]
  · have hnone : (accessesOf t [i]).filter (·.1 = t') = [] := by
      rw [List.filter_eq_nil_iff]
      intro x hx
      rw [hown x hx]
      simpa using fun h => ht h.symm
    rw [Function.update_of_ne ht, hnone, List.append_nil]

/-- So does a run, by induction on its steps. -/
theorem taskRun_accessesBy (ts : List Task) : ∀ {s s' : Tasks}, s.created = false →
    Machine.run taskStep s ts = .ok s' → ∀ t, accessesBy s' t = accessesBy s t := by
  induction ts with
  | nil =>
    intro s s' _ h t
    cases h
    rfl
  | cons t₀ ts ih =>
    intro s s' hcreated h t
    obtain ⟨s₁, hstep, hrun⟩ := Run.bind_eq_ok.1 h
    obtain ⟨-, -, -, hcreated₁, -⟩ := taskStep_cases hcreated hstep
    rw [ih hcreated₁ hrun t, taskStep_accessesBy hcreated hstep t]

/-- A task alone runs its program. -/
theorem taskRun_alone (t : Task) (p q : List Instr) : ∀ {s : Tasks}, s.created = false →
    s.programs t = p ++ q → ∃ s', Machine.run taskStep s (List.replicate p.length t) = .ok s' ∧
      s'.created = false ∧ s'.programs = Function.update s.programs t q ∧
      s'.trace = s.trace ++ accessesOf t p := by
  induction p with
  | nil =>
    intro s hcreated hp
    refine ⟨s, rfl, hcreated, ?_, (List.append_nil _).symm⟩
    rw [← hp.trans (List.nil_append q), Function.update_eq_self]
  | cons i p ih =>
    intro s hcreated hp
    have hstep : ∃ s₁, taskStep s t = .ok s₁ := by
      unfold taskStep
      rw [hp]
      cases i with
      | lock => exact ⟨_, if_neg (by rw [hcreated]; decide)⟩
      | unlock => exact ⟨_, rfl⟩
      | access part => exact ⟨_, rfl⟩
    obtain ⟨s₁, hs₁⟩ := hstep
    obtain ⟨i', rest, hp', hcreated₁, hprograms₁, htrace₁⟩ := taskStep_cases hcreated hs₁
    cases hp.symm.trans hp'
    obtain ⟨s', hrun, hcreated', hprograms', htrace'⟩ := @ih s₁ hcreated₁
      (by rw [hprograms₁, Function.update_self]; rfl)
    refine ⟨s', ?_, hcreated', ?_, ?_⟩
    · rw [List.length_cons, List.replicate_succ, Machine.run_cons hs₁]
      exact hrun
    · rw [hprograms', hprograms₁, Function.update_idem]
    · rw [htrace', htrace₁, List.append_assoc, ← accessesOf_append]
      rfl

/-- A task that makes two accesses of a part can be interrupted by an access of the other one. -/
theorem exists_intrusion {s : Tasks} (hcreated : s.created = false) {t t' : Task} (hne : t' ≠ t)
    {p q p' q' : List Instr} {k k' : Nat}
    (ht : s.programs t = p ++ List.replicate 2 (.access k) ++ q)
    (ht' : s.programs t' = p' ++ List.replicate 1 (.access k') ++ q') :
    ∃ ts s', Machine.run taskStep s ts = .ok s' ∧ ¬ ExclusiveTrace s'.trace := by
  -- the first access of the part, the other task, and the second access
  obtain ⟨s₁, hrun₁, hcreated₁, hprograms₁, htrace₁⟩ := taskRun_alone t (p ++ [.access k])
    (.access k :: q) hcreated (by rw [ht]; simp)
  obtain ⟨s₂, hrun₂, hcreated₂, hprograms₂, htrace₂⟩ := taskRun_alone t' (p' ++ [.access k']) q'
    hcreated₁ (by rw [hprograms₁, Function.update_of_ne hne, ht']; simp)
  obtain ⟨s₃, hrun₃, -, -, htrace₃⟩ := taskRun_alone t [.access k] q hcreated₂
    (by rw [hprograms₂, Function.update_of_ne hne.symm, hprograms₁, Function.update_self]; rfl)
  refine ⟨List.replicate (p ++ [Instr.access k]).length t ++
    (List.replicate (p' ++ [Instr.access k']).length t' ++ List.replicate 1 t), s₃, ?_, ?_⟩
  · rw [Machine.run_append, hrun₁, Run.ok_bind, Machine.run_append, hrun₂, Run.ok_bind]
    exact hrun₃
  · intro hexclusive
    refine hne (hexclusive (s.trace ++ accessesOf t p) (t, k) (accessesOf t' p') (t', k') [] [] ?_)
    rw [htrace₃, htrace₂, htrace₁, accessesOf_append, accessesOf_append]
    simp [accessesOf]

/-- An access of one task between two of a part of the other one. -/
theorem exists_sections {t t' : Task} {cs cs' : List Critical} {trace : List (Task × Nat)}
    (hsame : trace.filter (·.1 = t) <+: accessesOf t (programFrom 0 cs))
    (hsame' : trace.filter (·.1 = t') <+: accessesOf t' (programFrom 0 cs')) {k k' : Nat}
    {l₁ l₂ l₃ l₄ : List (Task × Nat)}
    (htrace : trace = l₁ ++ (t, k) :: (l₂ ++ (t', k') :: (l₃ ++ (t, k) :: l₄))) :
    (∃ c ∈ cs, 2 ≤ c.accesses) ∧ ∃ c ∈ cs', 1 ≤ c.accesses := by
  constructor
  · refine exists_of_count (k := k) (by decide) (t := t)
      (Nat.le_trans ?_ (hsame.sublist.count_le _))
    rw [List.count_filter (by simp), htrace]
    simp only [List.count_append, List.count_cons, beq_self_eq_true, if_true]
    omega
  · refine exists_of_count (k := k') (by decide) (t := t')
      (Nat.le_trans ?_ (hsame'.sublist.count_le _))
    rw [List.count_filter (by simp), htrace]
    simp only [List.count_append, List.count_cons, beq_self_eq_true, if_true]
    omega

/-- The accesses of a task in a run are the first ones of its program. -/
theorem taskRun_filter {verbs : List UiVerb} {packets : List Nat} {ts : List Task} {s : Tasks}
    (h : Machine.run taskStep (tasksStart verbs packets) ts = .ok s) (t : Task) :
    s.trace.filter (·.1 = t) <+: accessesOf t ((tasksStart verbs packets).programs t) := by
  have hby := taskRun_accessesBy ts rfl h t
  exact ⟨accessesOf t (s.programs t), hby⟩

/-- The sections of the packets have the accesses of the packets. -/
theorem packets_accesses {packets : List Nat} {n : Nat} :
    (∃ c ∈ packets.map packetSection, n ≤ c.accesses) ↔ ∃ m ∈ packets, n ≤ m := by
  simp [packetSection]

/-- **Exclusive access to the target.** Whatever order the steps of the UI task and the GDB thread
take, neither accesses the target in the middle of a section of the other, exactly when the sections
of one with several accesses never meet any access of the other. -/
theorem tasks_exclusive_iff (verbs : List UiVerb) (packets : List Nat) :
    (∀ ts s, Machine.run taskStep (tasksStart verbs packets) ts = .ok s → ExclusiveTrace s.trace) ↔
      ¬ ((∃ c ∈ verbs.flatMap UiVerb.sections, 2 ≤ c.accesses) ∧ ∃ n ∈ packets, 1 ≤ n) ∧
      ¬ ((∃ n ∈ packets, 2 ≤ n) ∧ ∃ c ∈ verbs.flatMap UiVerb.sections, 1 ≤ c.accesses) := by
  constructor
  · intro h
    constructor
    · rintro ⟨⟨c, hc, hn⟩, hpackets⟩
      obtain ⟨c', hc', hn'⟩ := packets_accesses.2 hpackets
      obtain ⟨p, k, q, hp⟩ := programFrom_split hn hc
      obtain ⟨p', k', q', hp'⟩ := programFrom_split hn' hc'
      obtain ⟨ts, s, hrun, hno⟩ := exists_intrusion (s := tasksStart verbs packets) (t := .ui) rfl
        (by decide : Task.gdb ≠ Task.ui) hp hp'
      exact hno (h ts s hrun)
    · rintro ⟨hpackets, c, hc, hn⟩
      obtain ⟨c', hc', hn'⟩ := packets_accesses.2 hpackets
      obtain ⟨p, k, q, hp⟩ := programFrom_split hn hc
      obtain ⟨p', k', q', hp'⟩ := programFrom_split hn' hc'
      obtain ⟨ts, s, hrun, hno⟩ := exists_intrusion (s := tasksStart verbs packets) (t := .gdb) rfl
        (by decide : Task.ui ≠ Task.gdb) hp' hp
      exact hno (h ts s hrun)
  · rintro ⟨hui, hgdb⟩ ts s hrun l₁ ⟨t, k⟩ l₂ ⟨t', k'⟩ l₃ l₄ htrace
    refine Decidable.byContradiction fun hne => ?_
    have hsame := taskRun_filter hrun t
    have hsame' := taskRun_filter hrun t'
    cases t with
    | ui =>
      cases t' with
      | ui => exact hne rfl
      | gdb =>
        obtain ⟨htwo, hone⟩ := exists_sections hsame hsame' htrace
        exact hui ⟨htwo, packets_accesses.1 hone⟩
    | gdb =>
      cases t' with
      | gdb => exact hne rfl
      | ui =>
        obtain ⟨htwo, hone⟩ := exists_sections hsame hsame' htrace
        exact hgdb ⟨packets_accesses.1 htwo, hone⟩

/-- A packet accesses the target in the middle of a flash, and the UI in the middle of a packet. -/
theorem tasks_intrude :
    ¬ (∀ ts s, Machine.run taskStep (tasksStart [.flash 2] [1]) ts = .ok s →
      ExclusiveTrace s.trace) ∧
    ¬ ∀ ts s, Machine.run taskStep (tasksStart [.command 1] [2]) ts = .ok s →
      ExclusiveTrace s.trace := by
  constructor
  · intro h
    have hsame := h [.ui, .ui, .gdb, .ui] _ rfl [] (.ui, 0) [] (.gdb, 0) [] [] rfl
    revert hsame
    decide
  · intro h
    have hsame := h [.gdb, .ui, .gdb] _ rfl [] (.gdb, 0) [] (.ui, 0) [] [] rfl
    revert hsame
    decide

end Blackmagic
