import YckjAcu.Lib.PriorityTable
import YckjAcu.Lib.Ring

/-!
# The kernel services that the tasks use

Queues, semaphores, delays and the scheduler of uC/OS-II, with `OS_LOWEST_PRIO`
63 and without argument checks.  A task is named by its priority.  The part of
a call up to `OS_Sched` runs with interrupts disabled; what follows `OS_Sched`
in `OSQPend` and `OSSemPend` is a definition of its own, since other tasks run
in between.
-/

namespace YckjAcu.Ucos

def osUnMapTbl : Array UInt8 := #[
  0, 0, 1, 0, 2, 0, 1, 0, 3, 0, 1, 0, 2, 0, 1, 0,
  4, 0, 1, 0, 2, 0, 1, 0, 3, 0, 1, 0, 2, 0, 1, 0,
  5, 0, 1, 0, 2, 0, 1, 0, 3, 0, 1, 0, 2, 0, 1, 0,
  4, 0, 1, 0, 2, 0, 1, 0, 3, 0, 1, 0, 2, 0, 1, 0,
  6, 0, 1, 0, 2, 0, 1, 0, 3, 0, 1, 0, 2, 0, 1, 0,
  4, 0, 1, 0, 2, 0, 1, 0, 3, 0, 1, 0, 2, 0, 1, 0,
  5, 0, 1, 0, 2, 0, 1, 0, 3, 0, 1, 0, 2, 0, 1, 0,
  4, 0, 1, 0, 2, 0, 1, 0, 3, 0, 1, 0, 2, 0, 1, 0,
  7, 0, 1, 0, 2, 0, 1, 0, 3, 0, 1, 0, 2, 0, 1, 0,
  4, 0, 1, 0, 2, 0, 1, 0, 3, 0, 1, 0, 2, 0, 1, 0,
  5, 0, 1, 0, 2, 0, 1, 0, 3, 0, 1, 0, 2, 0, 1, 0,
  4, 0, 1, 0, 2, 0, 1, 0, 3, 0, 1, 0, 2, 0, 1, 0,
  6, 0, 1, 0, 2, 0, 1, 0, 3, 0, 1, 0, 2, 0, 1, 0,
  4, 0, 1, 0, 2, 0, 1, 0, 3, 0, 1, 0, 2, 0, 1, 0,
  5, 0, 1, 0, 2, 0, 1, 0, 3, 0, 1, 0, 2, 0, 1, 0,
  4, 0, 1, 0, 2, 0, 1, 0, 3, 0, 1, 0, 2, 0, 1, 0]

def unMap (v : BitVec 8) : ℕ := (osUnMapTbl.getD v.toNat 0).toNat

theorem unMap_findsLowest : PriorityTable.FindsLowest unMap := by
  unfold PriorityTable.FindsLowest
  decide +kernel

/-- `OSEventGrp` and `OSEventTbl`, or `OSRdyGrp` and `OSRdyTbl`. -/
abbrev OsPrioTbl := PriorityTable 8 8

/-- `(y << 3u) + x`. -/
def highest (t : OsPrioTbl) : ℕ := t.first unMap unMap

/-- `OSTCBStat`. -/
abbrev OsStat := BitVec 8

def osStatRdy : OsStat := 0x00
def osStatSem : OsStat := 0x01
def osStatQ : OsStat := 0x04
def osStatSuspend : OsStat := 0x08
def osStatPendAny : OsStat := 0x37

inductive OsStatPend
  | ok
  | timeout
  | abort
deriving DecidableEq, Repr

inductive OsEventType
  | q
  | sem
deriving DecidableEq, Repr

/-- The status bit of a task that waits for an event of this type. -/
def OsEventType.stat : OsEventType → OsStat
  | q => osStatQ
  | sem => osStatSem

inductive OsErr
  | none
  | eventType
  | pendIsr
  | timeout
  | pendLocked
  | pendAbort
  | qFull
  | semOvf
  | taskSuspendPrio
  | taskResumePrio
  | taskNotSuspended
deriving DecidableEq, Repr

/-- A message is a pointer that may be null. -/
structure OsTcb (ι μ : Type) where
  stat : OsStat
  statPend : OsStatPend
  dly : ℕ
  msg : Option μ
  eventPtr : Option ι

/-- The pointers are indices from `OSQStart` on, and `OSQEnd` is at `size`. -/
structure OsQ (μ : Type) where
  cells : ℕ → Option μ
  inn : ℕ
  out : ℕ
  size : ℕ
  entries : ℕ

structure OsEvent (μ : Type) where
  type : OsEventType
  cnt : ℕ
  waiters : OsPrioTbl
  q : OsQ μ

structure Kernel (ι μ : Type) where
  rdy : OsPrioTbl
  tcb : ℕ → OsTcb ι μ
  /-- `OSTCBPrioTbl` has a task at this priority. -/
  present : ℕ → Bool
  event : ι → OsEvent μ
  /-- `OSPrioCur`. -/
  cur : ℕ
  intNesting : ℕ
  lockNesting : ℕ

/-- A call of `OSQPend` or `OSSemPend` either returns at once, with a message
when there is no error, or has to wait. -/
inductive PendStart (μ : Type)
  | returns (err : OsErr) (pmsg : Option μ)
  | waits

variable {ι μ : Type} [DecidableEq ι]

namespace Kernel

def setTcb (p : ℕ) (t : OsTcb ι μ) (k : Kernel ι μ) : Kernel ι μ :=
  { k with tcb := Function.update k.tcb p t }

def setEvent (e : ι) (ev : OsEvent μ) (k : Kernel ι μ) : Kernel ι μ :=
  { k with event := Function.update k.event e ev }

def setWaiters (e : ι) (w : OsPrioTbl) (k : Kernel ι μ) : Kernel ι μ :=
  k.setEvent e { k.event e with waiters := w }

/-! ### `os_core.c` -/

def osEventTaskRemove (p : ℕ) (e : ι) (k : Kernel ι μ) : Kernel ι μ :=
  k.setWaiters e ((k.event e).waiters.erase p)

/-- The task that gets the message, and the state. -/
def osEventTaskRdy (e : ι) (pmsg : Option μ) (msk : OsStat) (pendStat : OsStatPend)
    (k : Kernel ι μ) : ℕ × Kernel ι μ :=
  let prio := highest (k.event e).waiters
  let stat := (k.tcb prio).stat &&& ~~~msk
  let k := k.setTcb prio { k.tcb prio with dly := 0, msg := pmsg, stat, statPend := pendStat }
  let k := if stat &&& osStatSuspend = osStatRdy then { k with rdy := k.rdy.insert prio } else k
  (prio, k.osEventTaskRemove prio e)

def osEventTaskWait (e : ι) (k : Kernel ι μ) : Kernel ι μ :=
  let k := k.setTcb k.cur { k.tcb k.cur with eventPtr := some e }
  let k := k.setWaiters e ((k.event e).waiters.insert k.cur)
  { k with rdy := k.rdy.erase k.cur }

/-- `OS_Sched` with `OS_SchedNew`. -/
def osSched (k : Kernel ι μ) : Kernel ι μ :=
  if k.intNesting = 0 ∧ k.lockNesting = 0 then { k with cur := highest k.rdy } else k

def osIntEnter (k : Kernel ι μ) : Kernel ι μ :=
  if k.intNesting < 255 then { k with intNesting := k.intNesting + 1 } else k

def osIntExit (k : Kernel ι μ) : Kernel ι μ :=
  osSched { k with intNesting := k.intNesting - 1 }

/-- What `OSTimeTick` does to one task other than the idle task. -/
def osTimeTick (p : ℕ) (k : Kernel ι μ) : Kernel ι μ :=
  let t := k.tcb p
  if t.dly ≠ 0 then
    if t.dly - 1 = 0 then
      let t : OsTcb ι μ :=
        if t.stat &&& osStatPendAny ≠ osStatRdy then
          { t with dly := 0, stat := t.stat &&& ~~~osStatPendAny, statPend := .timeout }
        else
          { t with dly := 0, statPend := .ok }
      let k := k.setTcb p t
      if t.stat &&& osStatSuspend = osStatRdy then { k with rdy := k.rdy.insert p } else k
    else
      k.setTcb p { t with dly := t.dly - 1 }
  else k

def osSchedLock (k : Kernel ι μ) : Kernel ι μ :=
  if k.intNesting = 0 ∧ k.lockNesting < 255 then { k with lockNesting := k.lockNesting + 1 } else k

/-- Up to `OS_Sched`, with the news whether it follows. -/
def osSchedUnlock (k : Kernel ι μ) : Bool × Kernel ι μ :=
  if 0 < k.lockNesting then
    (k.lockNesting - 1 = 0 ∧ k.intNesting = 0, { k with lockNesting := k.lockNesting - 1 })
  else (false, k)

/-! ### `os_time.c` and `os_task.c` -/

/-- Up to `OS_Sched`, with the news whether it follows. -/
def osTimeDly (ticks : ℕ) (k : Kernel ι μ) : Bool × Kernel ι μ :=
  if 0 < k.intNesting ∨ 0 < k.lockNesting then (false, k)
  else if 0 < ticks then
    let k : Kernel ι μ := { k with rdy := k.rdy.erase k.cur }
    (true, k.setTcb k.cur { k.tcb k.cur with dly := ticks })
  else (false, k)

def osTaskSuspend (p : ℕ) (k : Kernel ι μ) : OsErr × Bool × Kernel ι μ :=
  if k.present p = false then (.taskSuspendPrio, false, k)
  else
    let k : Kernel ι μ := { k with rdy := k.rdy.erase p }
    (.none, p = k.cur, k.setTcb p { k.tcb p with stat := (k.tcb p).stat ||| osStatSuspend })

def osTaskResume (p : ℕ) (k : Kernel ι μ) : OsErr × Bool × Kernel ι μ :=
  if k.present p = false then (.taskResumePrio, false, k)
  else if (k.tcb p).stat &&& osStatSuspend ≠ osStatRdy then
    let stat := (k.tcb p).stat &&& ~~~osStatSuspend
    let k := k.setTcb p { k.tcb p with stat }
    if stat = osStatRdy ∧ (k.tcb p).dly = 0 then
      (.none, true, { k with rdy := k.rdy.insert p })
    else (.none, false, k)
  else (.taskNotSuspended, false, k)

/-! ### `os_q.c` and `os_sem.c` -/

/-- Up to `OS_Sched`, with the task that got the message, if any; then `OS_Sched`
follows. -/
def osQPost (e : ι) (pmsg : Option μ) (k : Kernel ι μ) : OsErr × Option ℕ × Kernel ι μ :=
  let ev := k.event e
  if ev.type ≠ .q then (.eventType, none, k)
  else if ev.waiters.grp ≠ 0 then
    let r := k.osEventTaskRdy e pmsg osStatQ .ok
    (.none, some r.1, r.2)
  else if ev.q.size ≤ ev.q.entries then (.qFull, none, k)
  else
    let q := { ev.q with
      cells := Function.update ev.q.cells ev.q.inn pmsg
      inn := Ring.next ev.q.size ev.q.inn
      entries := ev.q.entries + 1 }
    (.none, none, k.setEvent e { ev with q })

def osSemPost (e : ι) (k : Kernel ι μ) : OsErr × Option ℕ × Kernel ι μ :=
  let ev := k.event e
  if ev.type ≠ .sem then (.eventType, none, k)
  else if ev.waiters.grp ≠ 0 then
    let r := k.osEventTaskRdy e none osStatSem .ok
    (.none, some r.1, r.2)
  else if ev.cnt < 65535 then (.none, none, k.setEvent e { ev with cnt := ev.cnt + 1 })
  else (.semOvf, none, k)

/-- The suspension of the current task in `OSQPend` and `OSSemPend`. -/
def pendWait (e : ι) (msk : OsStat) (timeout : ℕ) (k : Kernel ι μ) : Kernel ι μ :=
  let t := k.tcb k.cur
  (k.setTcb k.cur { t with stat := t.stat ||| msk, statPend := .ok, dly := timeout }).osEventTaskWait e

def osQPend (e : ι) (timeout : ℕ) (k : Kernel ι μ) : PendStart μ × Kernel ι μ :=
  let ev := k.event e
  if ev.type ≠ .q then (.returns .eventType none, k)
  else if 0 < k.intNesting then (.returns .pendIsr none, k)
  else if 0 < k.lockNesting then (.returns .pendLocked none, k)
  else if 0 < ev.q.entries then
    let q := { ev.q with out := Ring.next ev.q.size ev.q.out, entries := ev.q.entries - 1 }
    (.returns .none (ev.q.cells ev.q.out), k.setEvent e { ev with q })
  else (.waits, k.pendWait e osStatQ timeout)

def osSemPend (e : ι) (timeout : ℕ) (k : Kernel ι μ) : PendStart μ × Kernel ι μ :=
  let ev := k.event e
  if ev.type ≠ .sem then (.returns .eventType none, k)
  else if 0 < k.intNesting then (.returns .pendIsr none, k)
  else if 0 < k.lockNesting then (.returns .pendLocked none, k)
  else if 0 < ev.cnt then (.returns .none none, k.setEvent e { ev with cnt := ev.cnt - 1 })
  else (.waits, k.pendWait e osStatSem timeout)

/-- The end of both functions behind `OS_Sched`: the `switch` and the reset of
the control block. -/
def pendReturn (e : ι) (k : Kernel ι μ) : OsErr × Kernel ι μ :=
  let t := k.tcb k.cur
  let reset : OsTcb ι μ := { t with stat := osStatRdy, statPend := .ok, eventPtr := none }
  match t.statPend with
  | .ok => (.none, k.setTcb k.cur reset)
  | .abort => (.pendAbort, k.setTcb k.cur reset)
  | .timeout => (.timeout, (k.osEventTaskRemove k.cur e).setTcb k.cur reset)

/-- The message is in the control block, which is cleared. -/
def osQPendReturn (e : ι) (k : Kernel ι μ) : OsErr × Option μ × Kernel ι μ :=
  let t := k.tcb k.cur
  let r := k.pendReturn e
  (r.1, if t.statPend = .ok then t.msg else none,
    r.2.setTcb k.cur { r.2.tcb k.cur with msg := none })

def osSemPendReturn (e : ι) (k : Kernel ι μ) : OsErr × Option μ × Kernel ι μ :=
  let r := k.pendReturn e
  (r.1, none, r.2)

end Kernel

end YckjAcu.Ucos
