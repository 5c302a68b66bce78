import YckjAcu.Lib.Runs
import YckjAcu.UcosTasks

/-!
# Tasks and interrupts on the kernel

The current task and the interrupts take turns at every point at which
interrupts are enabled.  A call that readies or suspends a task leaves the
current task in front of `OS_Sched`, and an interrupt may come before it.  The
lists of messages are history.
-/

namespace YckjAcu.Ucos

open PriorityTable

variable {ι μ : Type} [DecidableEq ι]

/-- Where a task stands: in its own code, in front of `OS_Sched`, or in a pend
call, in front of `OS_Sched` or behind it. -/
inductive Pc (ι : Type)
  | run
  | sched
  | blocked (e : ι) (behind : Bool)
deriving DecidableEq

/-- `accepted` are the messages for which a post returned `OS_ERR_NONE`, `handed`
those that were given to a task or taken from the store, and `received` those
that a pend call returned. -/
structure System (ι μ : Type) where
  kernel : Kernel ι μ
  pc : ℕ → Pc ι
  accepted : ι → List (Option μ)
  handed : ι → List (ℕ × Option μ)
  received : ℕ → ι → List (Option μ)

inductive Label (ι μ : Type)
  | qPost (e : ι) (pmsg : Option μ)
  | semPost (e : ι)
  | qPend (e : ι) (timeout : ℕ)
  | semPend (e : ι) (timeout : ℕ)
  | timeDly (ticks : ℕ)
  | suspend (p : ℕ)
  | resume (p : ℕ)
  | schedLock
  | schedUnlock
  | sched
  | finish
  | intEnter
  | tick (p : ℕ)
  | intExit
deriving DecidableEq

/-- `OS_TASK_IDLE_PRIO`; the idle task makes no calls. -/
def osTaskIdlePrio : ℕ := 63

namespace System

/-- The current task is in its own code, and no interrupt is active. -/
def AtTask (s : System ι μ) : Prop :=
  s.kernel.intNesting = 0 ∧ s.pc s.kernel.cur = .run ∧ s.kernel.cur ≠ osTaskIdlePrio

instance (s : System ι μ) : Decidable s.AtTask := inferInstanceAs (Decidable (_ ∧ _ ∧ _))

def goto (c : Pc ι) (s : System ι μ) : System ι μ :=
  { s with pc := Function.update s.pc s.kernel.cur c }

/-- An interrupt goes on at once, since `OS_Sched` does nothing there. -/
def beforeSched (follows : Bool) (s : System ι μ) : System ι μ :=
  if follows ∧ s.kernel.intNesting = 0 then s.goto .sched else s

def accept (e : ι) (m : Option μ) (s : System ι μ) : System ι μ :=
  { s with accepted := Function.update s.accepted e (s.accepted e ++ [m]) }

def hand (e : ι) (p : ℕ) (m : Option μ) (s : System ι μ) : System ι μ :=
  { s with handed := Function.update s.handed e (s.handed e ++ [(p, m)]) }

def receive (e : ι) (m : Option μ) (s : System ι μ) : System ι μ :=
  let p := s.kernel.cur
  let ms := Function.update (s.received p) e (s.received p e ++ [m])
  { s with received := Function.update s.received p ms }

def posted (e : ι) (m : Option μ) (r : OsErr × Option ℕ × Kernel ι μ) (s : System ι μ) :
    System ι μ :=
  let s : System ι μ := { s with kernel := r.2.2 }
  let s := if r.1 = .none then s.accept e m else s
  match r.2.1 with
  | some p => (s.hand e p m).beforeSched true
  | none => s

def pended (e : ι) (r : PendStart μ × Kernel ι μ) (s : System ι μ) : System ι μ :=
  let s : System ι μ := { s with kernel := r.2 }
  match r.1 with
  | .returns .none m => (s.hand e s.kernel.cur m).receive e m
  | .returns _ _ => s
  | .waits => s.goto (.blocked e false)

def finished (e : ι) (r : OsErr × Option μ × Kernel ι μ) (s : System ι μ) : System ι μ :=
  let s : System ι μ := { s with kernel := r.2.2 }
  (if r.1 = .none then s.receive e r.2.1 else s).goto .run

def step : Label ι μ → System ι μ → Option (System ι μ)
  | .qPost e m, s =>
      if 0 < s.kernel.intNesting ∨ s.AtTask then some (s.posted e m (s.kernel.osQPost e m)) else none
  | .semPost e, s =>
      if 0 < s.kernel.intNesting ∨ s.AtTask then some (s.posted e none (s.kernel.osSemPost e))
      else none
  | .qPend e timeout, s => if s.AtTask then some (s.pended e (s.kernel.osQPend e timeout)) else none
  | .semPend e timeout, s =>
      if s.AtTask then some (s.pended e (s.kernel.osSemPend e timeout)) else none
  | .timeDly ticks, s =>
      let r := s.kernel.osTimeDly ticks
      if s.AtTask then some (({ s with kernel := r.2 } : System ι μ).beforeSched r.1) else none
  | .suspend p, s =>
      let r := s.kernel.osTaskSuspend p
      if s.AtTask ∧ p ≠ osTaskIdlePrio then
        some (({ s with kernel := r.2.2 } : System ι μ).beforeSched r.2.1)
      else none
  | .resume p, s =>
      let r := s.kernel.osTaskResume p
      if s.AtTask then some (({ s with kernel := r.2.2 } : System ι μ).beforeSched r.2.1) else none
  | .schedLock, s => if s.AtTask then some { s with kernel := s.kernel.osSchedLock } else none
  | .schedUnlock, s =>
      let r := s.kernel.osSchedUnlock
      if s.AtTask then some (({ s with kernel := r.2 } : System ι μ).beforeSched r.1) else none
  | .sched, s =>
      if s.kernel.intNesting = 0 then
        match s.pc s.kernel.cur with
        | .sched => some { s.goto .run with kernel := s.kernel.osSched }
        | .blocked e false => some { s.goto (.blocked e true) with kernel := s.kernel.osSched }
        | _ => none
      else none
  | .finish, s =>
      if s.kernel.intNesting = 0 then
        match s.pc s.kernel.cur with
        | .blocked e true =>
            match (s.kernel.event e).type with
            | .q => some (s.finished e (s.kernel.osQPendReturn e))
            | .sem => some (s.finished e (s.kernel.osSemPendReturn e))
        | _ => none
      else none
  | .intEnter, s => some { s with kernel := s.kernel.osIntEnter }
  | .tick p, s =>
      if 0 < s.kernel.intNesting ∧ s.kernel.present p = true ∧ p ≠ osTaskIdlePrio then
        some { s with kernel := s.kernel.osTimeTick p }
      else none
  | .intExit, s =>
      if 0 < s.kernel.intNesting then some { s with kernel := s.kernel.osIntExit } else none

end System

end YckjAcu.Ucos
