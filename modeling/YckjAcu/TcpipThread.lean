import YckjAcu.Timers

/-!
# The timers of the TCP/IP thread

Four timers set themselves again whenever they are called, and the one of TCP as long
as there are connections.  The time they count is what `sys_arch_mbox_fetch` makes of
the system's ticks: a message that is there in the tick in which the wait begins counts
as one that took `0xffffffff` ticks.
-/

namespace YckjAcu

/-- The handlers of the timeouts. -/
inductive TmrHandler
  | ipReassTimer
  | arpTimer
  | dhcpTimerCoarse
  | dhcpTimerFine
  | tcpipTcpTimer
deriving DecidableEq

namespace TmrHandler

/-- `IP_TMR_INTERVAL` and the others, in milliseconds. -/
def interval : TmrHandler → UInt32
  | ipReassTimer => 1000
  | arpTimer => 5000
  | dhcpTimerCoarse => 60000
  | dhcpTimerFine => 500
  | tcpipTcpTimer => 250

/-- The timers of `sys_timeouts_init`. -/
def initial : List TmrHandler := [ipReassTimer, arpTimer, dhcpTimerCoarse, dhcpTimerFine]

def wanted (tcpipTcpTimerActive : Bool) : List TmrHandler :=
  initial ++ if tcpipTcpTimerActive then [tcpipTcpTimer] else []

theorem mem_initial {h : TmrHandler} (hne : h ≠ tcpipTcpTimer) : h ∈ initial := by
  cases h with
  | tcpipTcpTimer => exact absurd rfl hne
  | _ => decide

theorem interval_le (h : TmrHandler) : h.interval.toNat ≤ 60000 := by
  cases h <;> decide

end TmrHandler

/-- `OS_TICKS_PER_SEC`. -/
def osTicksPerSec : UInt32 := 200

/-- The timeout that `sys_arch_mbox_fetch` passes to `OSQPend`. -/
def ucosTimeout (timeout : UInt32) : UInt16 :=
  if timeout ≠ 0 then
    (if timeout * osTicksPerSec / 1000 < 1 then 1
      else timeout * osTicksPerSec / 1000).toUInt16
  else 0

/-- What `sys_arch_mbox_fetch` returns with a message, by the system times before and
after the wait. -/
def fetchTime (timeout timeoutNew : UInt32) : UInt32 :=
  (if timeoutNew > timeout then timeoutNew - timeout
    else 0xffffffff - timeout + timeoutNew) * 1000 / osTicksPerSec + 1

/-- The thread with the handler that it is in.  The ticks that have passed, the messages
and the time that the waits were counted for are kept for comparison. -/
structure TcpipThread where
  timeouts : Timeouts TmrHandler
  tcpipTcpTimerActive : Bool
  handler : Option TmrHandler
  osTime : UInt32
  ticks : ℕ
  messages : ℕ
  counted : ℕ

/-- What the thread does: wait for a message or for the first timeout, each for a number
of ticks, end a handler, register a connection, or be busy with anything else.  Whether
there are connections is part of a step. -/
inductive ThreadOp
  | message (n : ℕ)
  | timeout (n : ℕ)
  | handled (pcbs : Bool)
  | tcpTimerNeeded (pcbs : Bool)
  | busy (n : ℕ)

namespace TcpipThread

def pass (n : ℕ) (s : TcpipThread) : TcpipThread :=
  { s with osTime := s.osTime + UInt32.ofNat n, ticks := s.ticks + n }

def arm (h : TmrHandler) (s : TcpipThread) : TcpipThread :=
  { s with timeouts := s.timeouts.sysTimeout h.interval h 0 }

def tcpTimerNeeded (pcbs : Bool) (s : TcpipThread) : TcpipThread :=
  if ¬ s.tcpipTcpTimerActive ∧ pcbs then
    { s with tcpipTcpTimerActive := true }.arm .tcpipTcpTimer
  else s

def handled (pcbs : Bool) (h : TmrHandler) (s : TcpipThread) : TcpipThread :=
  match h with
  | .tcpipTcpTimer =>
      if pcbs then { s with handler := none }.arm .tcpipTcpTimer
      else { s with handler := none, tcpipTcpTimerActive := false }
  | h => { s with handler := none }.arm h

def fetched (n : ℕ) (s : TcpipThread) : TcpipThread :=
  let timeNeeded := fetchTime s.osTime (s.pass n).osTime
  { s.pass n with
    timeouts := s.timeouts.message timeNeeded
    messages := s.messages + 1
    counted := s.counted + s.timeouts.elapsed timeNeeded }

/-- The ticks that a wait for the entry can end after without a message; with nothing to
wait for it is not even begun. -/
def Expires (t : SysTimeo TmrHandler) (n : ℕ) : Prop :=
  if t.time = 0 then n = 0 else ucosTimeout t.time ≠ 0 ∧ (ucosTimeout t.time).toNat ≤ n

instance (t : SysTimeo TmrHandler) (n : ℕ) : Decidable (Expires t n) := by
  unfold Expires
  infer_instance

def step : ThreadOp → TcpipThread → Option TcpipThread
  | .message n, s =>
      if s.handler = none ∧ ∀ t ∈ s.timeouts.nextTimeout.head?, t.time ≠ 0 then
        some (s.fetched n)
      else none
  | .timeout n, s =>
      match s.timeouts.nextTimeout with
      | [] => none
      | t :: rest =>
          if s.handler = none ∧ Expires t n then
            some { s.pass n with
              timeouts := ⟨rest, s.timeouts.called ++ [(t.h, t.arg)]⟩
              handler := some t.h
              counted := s.counted + t.time.toNat }
          else none
  | .handled pcbs, s => s.handler.map fun h => s.handled pcbs h
  | .tcpTimerNeeded pcbs, s => some (s.tcpTimerNeeded pcbs)
  | .busy n, s => some (s.pass n)

/-- After `sys_timeouts_init`. -/
def start (osTime : UInt32) : TcpipThread :=
  TmrHandler.initial.foldl (fun s h => s.arm h)
    ⟨Timeouts.empty, false, none, osTime, 0, 0, 0⟩

def calls (h : TmrHandler) (s : TcpipThread) : ℕ := (s.timeouts.called.map Prod.fst).count h

end TcpipThread

/-! ### Ticks and milliseconds -/

/-- At least a tick, and up to four milliseconds less than asked for. -/
theorem le_ucosTimeout {timeout : UInt32} (hle : timeout.toNat ≤ 60000) (hpos : timeout ≠ 0) :
    timeout.toNat ≤ 5 * (ucosTimeout timeout).toNat + 4 := by
  have hmul : (timeout * osTicksPerSec).toNat = timeout.toNat * 200 := by
    rw [UInt32.toNat_mul]
    exact Nat.mod_eq_of_lt (by change timeout.toNat * 200 < _; omega)
  have hdiv : (timeout * osTicksPerSec / 1000).toNat = timeout.toNat * 200 / 1000 := by
    rw [UInt32.toNat_div, hmul]
    rfl
  rw [ucosTimeout, if_pos hpos]
  split_ifs with hlt
  · have hlt' : (timeout * osTicksPerSec / 1000).toNat < 1 := UInt32.lt_iff_toNat_lt.mp hlt
    rw [hdiv] at hlt'
    have hone : (UInt32.toUInt16 1).toNat = 1 := rfl
    omega
  · rw [UInt32.toNat_toUInt16, hdiv]
    omega

theorem fetchTime_self (t : UInt32) : fetchTime t t = 21474832 := by
  have hsum : 0xffffffff - t + t = (0xffffffff : UInt32) := UInt32.sub_add_cancel _ _
  rw [fetchTime, if_neg (UInt32.lt_irrefl t), hsum]
  rfl

theorem toNat_milliseconds_le (d : UInt32) :
    (d * 1000 / osTicksPerSec + 1).toNat ≤ 5 * d.toNat + 1 := by
  have hmul : (d * 1000).toNat ≤ d.toNat * 1000 := by
    rw [UInt32.toNat_mul]
    exact Nat.mod_le _ _
  have hdiv : (d * 1000 / osTicksPerSec).toNat = (d * 1000).toNat / 200 := UInt32.toNat_div _ _
  have hadd : (d * 1000 / osTicksPerSec + 1).toNat ≤ (d * 1000 / osTicksPerSec).toNat + 1 := by
    rw [UInt32.toNat_add]
    exact Nat.mod_le _ _
  omega

/-- A wait of at least a tick is counted with at most one millisecond too much. -/
theorem fetchTime_le (t : UInt32) {n : ℕ} (hn : 0 < n) :
    (fetchTime t (t + UInt32.ofNat n)).toNat ≤ 5 * n + 1 := by
  have hof : (UInt32.ofNat n).toNat = n % 2 ^ 32 := rfl
  have hlt32 := t.toNat_lt
  have hticks : (if t + UInt32.ofNat n > t then t + UInt32.ofNat n - t
      else 0xffffffff - t + (t + UInt32.ofNat n)).toNat ≤ n := by
    split_ifs with hlt
    · rw [UInt32.add_comm, UInt32.add_sub_cancel, hof]
      exact Nat.mod_le _ _
    · have hnot : ¬ t.toNat < (t + UInt32.ofNat n).toNat := fun h =>
        hlt (UInt32.lt_iff_toNat_lt.mpr h)
      have hle : t ≤ 0xffffffff := UInt32.le_iff_toNat_le.mpr (Nat.le_of_lt_succ hlt32)
      have hlast : (0xffffffff - t).toNat = 0xffffffff - t.toNat :=
        UInt32.toNat_sub_of_le _ _ hle
      rw [UInt32.toNat_add, hlast]
      rw [UInt32.toNat_add, hof] at hnot ⊢
      omega
  exact (toNat_milliseconds_le _).trans (by omega)

/-! ### The timers on the clock -/

namespace AlarmClock

variable {a : AlarmClock TmrHandler} {active : Bool} {running : Option TmrHandler}
  {h : TmrHandler} {x : Alarm TmrHandler} {xs : List (Alarm TmrHandler)}

def rings (h : TmrHandler) (a : AlarmClock TmrHandler) : ℕ := (a.rung.map Alarm.h).count h

def setAlarm (h : TmrHandler) (a : AlarmClock TmrHandler) : AlarmClock TmrHandler :=
  { a with
    alarms := a.alarms.orderedInsert (fun x y => x.due < y.due)
      ⟨h, 0, a.now, h.interval.toNat, a.numbered⟩
    numbered := a.numbered + 1 }

/-- With the handler that is running, every wanted timer is there once; the alarm of a
timer that sets itself is for the next multiple of its interval. -/
structure OnSchedule (active : Bool) (running : Option TmrHandler)
    (a : AlarmClock TmrHandler) : Prop where
  timers : (a.alarms.map Alarm.h ++ running.toList).Perm (TmrHandler.wanted active)
  set : ∀ x ∈ a.alarms, x.set ≤ a.now
  msecs : ∀ x ∈ a.alarms, x.msecs = x.h.interval.toNat
  next : ∀ x ∈ a.alarms, x.h ≠ .tcpipTcpTimer →
    x.due = (a.rings x.h + 1) * x.h.interval.toNat
  last : ∀ h ∈ running, h ≠ .tcpipTcpTimer → a.now = a.rings h * h.interval.toNat

theorem OnSchedule.length_le (ho : a.OnSchedule active running) : a.alarms.length ≤ 5 := by
  have hlength := ho.timers.length_eq
  have hwanted : (TmrHandler.wanted active).length ≤ 5 := by cases active <;> decide
  rw [List.length_append, List.length_map] at hlength
  omega

theorem OnSchedule.setAlarm {active' : Bool} {running' : Option TmrHandler}
    (ho : a.OnSchedule active running)
    (htimers : (h :: a.alarms.map Alarm.h ++ running'.toList).Perm (TmrHandler.wanted active'))
    (hnow : h ≠ .tcpipTcpTimer → a.now = a.rings h * h.interval.toNat)
    (hrunning : ∀ r ∈ running', r ∈ running) :
    (a.setAlarm h).OnSchedule active' running' := by
  have hmem : ∀ x ∈ (a.setAlarm h).alarms,
      x = ⟨h, 0, a.now, h.interval.toNat, a.numbered⟩ ∨ x ∈ a.alarms :=
    fun x hx => (List.mem_orderedInsert _).mp hx
  constructor
  · have hperm := (List.perm_orderedInsert (fun x y : Alarm TmrHandler => x.due < y.due)
      ⟨h, 0, a.now, h.interval.toNat, a.numbered⟩ a.alarms).map Alarm.h
    exact (hperm.append_right _).trans htimers
  · intro x hx
    rcases hmem x hx with rfl | hx
    · exact Nat.le_refl _
    · exact ho.set x hx
  · intro x hx
    rcases hmem x hx with rfl | hx
    · rfl
    · exact ho.msecs x hx
  · intro x hx hne
    rcases hmem x hx with rfl | hx
    · have hsum : a.now + h.interval.toNat = (a.rings h + 1) * h.interval.toNat := by
        rw [hnow hne, Nat.add_mul, Nat.one_mul]
      exact hsum
    · exact ho.next x hx hne
  · intro r hr hne
    exact ho.last r (hrunning r hr) hne

theorem OnSchedule.again (ho : a.OnSchedule active (some h)) :
    (a.setAlarm h).OnSchedule active none := by
  refine ho.setAlarm ?_ (ho.last h rfl) (fun r hr => absurd hr (by simp))
  rw [Option.toList_none, List.append_nil]
  exact (List.perm_append_singleton h _).symm.trans ho.timers

theorem OnSchedule.needed (ho : a.OnSchedule false running) :
    (a.setAlarm .tcpipTcpTimer).OnSchedule true running := by
  refine ho.setAlarm ?_ (fun hne => absurd rfl hne) (fun r hr => hr)
  have hcons := ho.timers.cons TmrHandler.tcpipTcpTimer
  exact hcons.trans (List.perm_append_singleton _ _).symm

/-- The timer of TCP stops without connections. -/
theorem OnSchedule.stop (ho : a.OnSchedule active (some .tcpipTcpTimer)) :
    a.OnSchedule false none := by
  have htimers := ho.timers
  have hmem : TmrHandler.tcpipTcpTimer ∈ TmrHandler.wanted active :=
    htimers.subset (List.mem_append_right _ (List.mem_singleton.mpr rfl))
  have hactive : active = true := by
    cases active with
    | true => rfl
    | false => exact absurd hmem (by decide)
  subst hactive
  refine ⟨?_, ho.set, ho.msecs, ho.next, fun r hr => absurd hr (by simp)⟩
  rw [Option.toList_none]
  exact ((List.perm_append_right_iff _).mp htimers).append_right []

theorem OnSchedule.advance (ho : a.OnSchedule active none) {n : ℕ} (hle : a.now ≤ n) :
    OnSchedule active none { a with now := n } :=
  ⟨ho.timers, fun x hx => (ho.set x hx).trans hle, ho.msecs, ho.next,
    fun r hr => absurd hr (by simp)⟩

theorem OnSchedule.ring (ho : a.OnSchedule active none) (hin : a.InOrder)
    (halarms : a.alarms = x :: xs) :
    OnSchedule active (some x.h)
      { a with now := x.due, alarms := xs, rung := a.rung ++ [x] } := by
  have htimers := ho.timers
  rw [halarms, Option.toList_none, List.append_nil, List.map_cons] at htimers
  have hnodup : (TmrHandler.wanted active).Nodup := by cases active <;> decide
  have hother : x.h ∉ xs.map Alarm.h := (List.nodup_cons.mp (htimers.nodup_iff.mpr hnodup)).1
  have hmem : ∀ y ∈ xs, y ∈ a.alarms := fun y hy => halarms ▸ List.mem_cons_of_mem x hy
  have hx : x ∈ a.alarms := halarms ▸ List.mem_cons_self
  have hrings : ∀ r, rings r { a with now := x.due, alarms := xs, rung := a.rung ++ [x] } =
      a.rings r + if x.h = r then 1 else 0 := by
    intro r
    simp [rings, List.count_append, List.count_singleton]
  constructor
  · exact (List.perm_append_singleton x.h _).trans htimers
  · intro y hy
    exact (ho.set y (hmem y hy)).trans (hin.alarms x hx)
  · exact fun y hy => ho.msecs y (hmem y hy)
  · intro y hy hne
    have hyx : x.h ≠ y.h := fun heq => hother (heq ▸ List.mem_map_of_mem hy)
    rw [hrings, if_neg hyx, Nat.add_zero]
    exact ho.next y (hmem y hy) hne
  · intro r hr hne
    obtain rfl : x.h = r := Option.some.inj hr
    rw [hrings, if_pos rfl]
    exact ho.next x hx hne

/-- Each timer that sets itself has been called once for every interval counted. -/
theorem OnSchedule.rings_le (ho : a.OnSchedule active running) (hin : a.InOrder)
    (hne : h ≠ .tcpipTcpTimer) :
    a.rings h * h.interval.toNat ≤ a.now ∧ a.now ≤ (a.rings h + 1) * h.interval.toNat := by
  have hmem : h ∈ TmrHandler.wanted active :=
    List.mem_append_left _ (TmrHandler.mem_initial hne)
  rcases List.mem_append.mp (ho.timers.symm.subset hmem) with halarm | hrun
  · obtain ⟨x, hx, rfl⟩ := List.mem_map.mp halarm
    have hdue := ho.next x hx hne
    have hset := ho.set x hx
    have hle := hin.alarms x hx
    rw [Alarm.due, ho.msecs x hx] at hdue hle
    rw [Nat.add_mul, Nat.one_mul] at hdue ⊢
    omega
  · have hlast := ho.last h (Option.mem_toList.mp hrun) hne
    rw [hlast, Nat.add_mul]
    omega

end AlarmClock

/-! ### The thread follows the clock -/

namespace TcpipThread

variable {s t : TcpipThread} {a : AlarmClock TmrHandler} {h : TmrHandler}

structure Follows (s : TcpipThread) (a : AlarmClock TmrHandler) : Prop where
  refines : Timeouts.Refines s.timeouts a
  order : a.InOrder
  now : a.now = s.counted
  schedule : a.OnSchedule s.tcpipTcpTimerActive s.handler

/-- The thread keeps its timers on schedule. -/
def Sound (s : TcpipThread) : Prop := ∃ a, s.Follows a

theorem Follows.calls_eq (hf : s.Follows a) (h : TmrHandler) : s.calls h = a.rings h := by
  rw [calls, AlarmClock.rings, hf.refines.called, List.map_map]
  rfl

theorem Follows.length_lt (hf : s.Follows a) :
    s.timeouts.nextTimeout.length < Timeouts.poolSize := by
  rw [hf.refines.length_eq]
  exact Nat.lt_of_le_of_lt hf.schedule.length_le (by decide)

theorem Follows.arm_timeouts (hf : s.Follows a) (h : TmrHandler) :
    Timeouts.Refines (s.timeouts.sysTimeout h.interval h 0) (a.setAlarm h) := by
  rw [Timeouts.sysTimeout, if_pos hf.length_lt]
  exact hf.refines.sysTimeout h.interval h 0

theorem Follows.setAlarm_inOrder (hf : s.Follows a) (h : TmrHandler) :
    (a.setAlarm h).InOrder :=
  hf.order.sysTimeout _ rfl rfl

theorem Follows.handled (hf : s.Follows a) (hrun : s.handler = some h) (pcbs : Bool) :
    (s.handled pcbs h).Sound := by
  have hschedule := hf.schedule
  rw [hrun] at hschedule
  have hagain : Follows ({ s with handler := none }.arm h) (a.setAlarm h) :=
    ⟨hf.arm_timeouts h, hf.setAlarm_inOrder h, hf.now, hschedule.again⟩
  cases h with
  | tcpipTcpTimer =>
      rw [TcpipThread.handled]
      split_ifs
      · exact ⟨_, hagain⟩
      · exact ⟨a, hf.refines, hf.order, hf.now, hschedule.stop⟩
  | _ => exact ⟨_, hagain⟩

theorem Follows.tcpTimerNeeded (hf : s.Follows a) (pcbs : Bool) :
    (s.tcpTimerNeeded pcbs).Sound := by
  unfold TcpipThread.tcpTimerNeeded
  split_ifs with hneeded
  · have hschedule := hf.schedule
    rw [Bool.eq_false_iff.mpr hneeded.1] at hschedule
    exact ⟨_, hf.arm_timeouts .tcpipTcpTimer, hf.setAlarm_inOrder .tcpipTcpTimer, hf.now,
      hschedule.needed⟩
  · exact ⟨a, hf⟩

/-- What is left of the first timeout is no more than its interval. -/
theorem Follows.time_le {t : SysTimeo TmrHandler} {rest : List (SysTimeo TmrHandler)}
    (hf : s.Follows a) (hlist : s.timeouts.nextTimeout = t :: rest) : t.time.toNat ≤ 60000 := by
  obtain ⟨x, xs, halarms, htime, -, -⟩ := hf.refines.cons hlist
  have hx : x ∈ a.alarms := halarms ▸ List.mem_cons_self
  have hset := hf.schedule.set x hx
  have hmsecs := hf.schedule.msecs x hx
  have hle := x.h.interval_le
  rw [Alarm.due] at htime
  omega

theorem Follows.fetched (hf : s.Follows a) (hrun : s.handler = none) (n : ℕ) :
    (s.fetched n).Sound := by
  have hschedule := hf.schedule
  rw [hrun] at hschedule
  cases hlist : s.timeouts.nextTimeout with
  | nil =>
      have hsame : s.timeouts.message (fetchTime s.osTime (s.pass n).osTime) = s.timeouts := by
        rw [Timeouts.message, hlist]
      refine ⟨a, ?_, hf.order, ?_, hf.schedule⟩
      · simp only [TcpipThread.fetched, hsame]
        exact hf.refines
      · simp only [TcpipThread.fetched, Timeouts.elapsed, hlist]
        exact hf.now
  | cons t rest =>
      obtain ⟨x, xs, halarms, htime, -, -⟩ := hf.refines.cons hlist
      have hnow := hf.now
      refine ⟨_, hf.refines.message halarms _, hf.order.advance halarms _, ?_, ?_⟩
      · simp only [TcpipThread.fetched, Timeouts.elapsed, hlist]
        omega
      · have hle : a.now ≤ min (a.now + (fetchTime s.osTime (s.pass n).osTime).toNat) x.due := by
          omega
        have hafter := hschedule.advance hle
        rw [← hrun] at hafter
        exact hafter

theorem Follows.timeout {t : SysTimeo TmrHandler} {rest : List (SysTimeo TmrHandler)}
    (hf : s.Follows a) (hrun : s.handler = none) (hlist : s.timeouts.nextTimeout = t :: rest)
    (n : ℕ) :
    Sound { s.pass n with
      timeouts := ⟨rest, s.timeouts.called ++ [(t.h, t.arg)]⟩
      handler := some t.h
      counted := s.counted + t.time.toNat } := by
  have hschedule := hf.schedule
  rw [hrun] at hschedule
  obtain ⟨x, xs, halarms, htime, hcallback, hrest⟩ := hf.refines.cons hlist
  have hth : t.h = x.h := congrArg Prod.fst hcallback
  have hring := hschedule.ring hf.order halarms
  rw [← hth] at hring
  refine ⟨_, ⟨hrest, ?_, ?_⟩, hf.order.timeout halarms, ?_, hring⟩
  · rw [hf.refines.called, List.map_append, hcallback]
    rfl
  · have htotal := hf.refines.total
    rw [hlist] at htotal
    exact (Nat.le_add_left _ t.time.toNat).trans_lt htotal
  · rw [← hf.now]
    exact htime.symm

theorem Sound.step {op : ThreadOp} (hs : s.Sound) (hstep : step op s = some t) : t.Sound := by
  obtain ⟨a, hf⟩ := hs
  cases op with
  | message n =>
      obtain ⟨⟨hrun, -⟩, ⟨⟩⟩ := Option.ite_none_right_eq_some.mp hstep
      exact hf.fetched hrun n
  | timeout n =>
      simp only [TcpipThread.step] at hstep
      split at hstep
      · cases hstep
      · rename_i e rest hlist
        obtain ⟨⟨hrun, -⟩, ⟨⟩⟩ := Option.ite_none_right_eq_some.mp hstep
        exact hf.timeout hrun hlist n
  | handled pcbs =>
      obtain ⟨h, hrun, rfl⟩ := Option.map_eq_some_iff.mp hstep
      exact hf.handled hrun pcbs
  | tcpTimerNeeded pcbs =>
      cases hstep
      exact hf.tcpTimerNeeded pcbs
  | busy n =>
      cases hstep
      exact ⟨a, hf.refines, hf.order, hf.now, hf.schedule⟩

/-- The clock on which the timers of `sys_timeouts_init` are set. -/
def startClock : AlarmClock TmrHandler :=
  TmrHandler.initial.foldl (fun a h => a.setAlarm h) AlarmClock.empty

theorem sound_start (osTime : UInt32) : (start osTime).Sound := by
  have htotal : DeltaQueue.total (Timeouts.deltas (start 0).timeouts.nextTimeout) < 2 ^ 32 := by
    decide +kernel
  have htimers : (startClock.alarms.map Alarm.h ++ []).Perm (TmrHandler.wanted false) := by
    decide +kernel
  refine ⟨startClock, ⟨rfl, rfl, htotal⟩, ?_, rfl, htimers, by decide +kernel, by decide +kernel,
    by decide +kernel, fun r hr => absurd hr (Option.not_mem_none r)⟩
  have hip := AlarmClock.inOrder_empty.sysTimeout ⟨TmrHandler.ipReassTimer, 0, 0, 1000, 0⟩ rfl rfl
  have harp := hip.sysTimeout ⟨.arpTimer, 0, 0, 5000, 1⟩ rfl rfl
  have hcoarse := harp.sysTimeout ⟨.dhcpTimerCoarse, 0, 0, 60000, 2⟩ rfl rfl
  exact hcoarse.sysTimeout ⟨.dhcpTimerFine, 0, 0, 500, 3⟩ rfl rfl

theorem Sound.run {ops : List ThreadOp} (hs : s.Sound)
    (hrun : Runs.run TcpipThread.step s ops = some t) : t.Sound :=
  Runs.invariant (I := Sound) (fun _ _ _ hs hstep => hs.step hstep) hs hrun

/-! ### Counted time and ticks -/

/-- No message is there in the tick in which the wait for it begins. -/
def Ticked : ThreadOp → Prop
  | .message n => 0 < n
  | _ => True

instance (op : ThreadOp) : Decidable (Ticked op) := by
  unfold Ticked
  split <;> infer_instance

/-- The time counted is not ahead of the ticks by more than a millisecond for each
message and four for each timeout. -/
def NotAhead (s : TcpipThread) : Prop :=
  s.counted ≤ 5 * s.ticks + s.messages + 4 * s.timeouts.called.length

theorem elapsed_le (timeNeeded : UInt32) (x : Timeouts TmrHandler) :
    x.elapsed timeNeeded ≤ timeNeeded.toNat := by
  unfold Timeouts.elapsed
  split
  · exact Nat.zero_le _
  · exact Nat.min_le_left _ _

theorem called_arm (h : TmrHandler) (s : TcpipThread) :
    (s.arm h).timeouts.called = s.timeouts.called := by
  simp only [arm, Timeouts.sysTimeout]
  split_ifs <;> rfl

theorem handler_handled (pcbs : Bool) (h : TmrHandler) (s : TcpipThread) :
    (s.handled pcbs h).handler = none := by
  cases h with
  | tcpipTcpTimer =>
      rw [handled]
      split_ifs <;> rfl
  | _ => rfl

theorem called_handled (pcbs : Bool) (h : TmrHandler) (s : TcpipThread) :
    (s.handled pcbs h).timeouts.called = s.timeouts.called := by
  cases h with
  | tcpipTcpTimer =>
      rw [handled]
      split_ifs
      · exact called_arm _ _
      · rfl
  | _ => exact called_arm _ _

theorem time_handled (pcbs : Bool) (h : TmrHandler) (s : TcpipThread) :
    (s.handled pcbs h).counted = s.counted ∧ (s.handled pcbs h).ticks = s.ticks ∧
      (s.handled pcbs h).messages = s.messages := by
  cases h with
  | tcpipTcpTimer =>
      rw [handled]
      split_ifs <;> exact ⟨rfl, rfl, rfl⟩
  | _ => exact ⟨rfl, rfl, rfl⟩

theorem NotAhead.arm (hn : s.NotAhead) (h : TmrHandler) : (s.arm h).NotAhead := by
  rw [NotAhead, called_arm]
  exact hn

theorem NotAhead.step {op : ThreadOp} (hs : s.Sound) (hn : s.NotAhead) (hop : Ticked op)
    (hstep : step op s = some t) : t.NotAhead := by
  have hbound : s.counted ≤ 5 * s.ticks + s.messages + 4 * s.timeouts.called.length := hn
  obtain ⟨a, hf⟩ := hs
  cases op with
  | message n =>
      obtain ⟨-, ⟨⟩⟩ := Option.ite_none_right_eq_some.mp hstep
      have helapsed := elapsed_le (fetchTime s.osTime (s.pass n).osTime) s.timeouts
      have hfetch : (fetchTime s.osTime (s.pass n).osTime).toNat ≤ 5 * n + 1 :=
        fetchTime_le s.osTime hop
      have hcalled : (s.timeouts.message (fetchTime s.osTime (s.pass n).osTime)).called =
          s.timeouts.called := by
        unfold Timeouts.message
        split <;> rfl
      simp only [NotAhead, fetched, hcalled]
      simp only [pass] at helapsed hfetch ⊢
      omega
  | timeout n =>
      simp only [TcpipThread.step] at hstep
      split at hstep
      · cases hstep
      · rename_i e rest hlist
        obtain ⟨⟨-, hexpires⟩, ⟨⟩⟩ := Option.ite_none_right_eq_some.mp hstep
        have hle : e.time.toNat ≤ 5 * n + 4 := by
          rw [Expires] at hexpires
          split_ifs at hexpires with hzero
          · rw [hzero]
            exact Nat.zero_le _
          · have hticks := le_ucosTimeout (hf.time_le hlist) hzero
            omega
        simp only [NotAhead, pass, List.length_append, List.length_singleton]
        omega
  | handled pcbs =>
      obtain ⟨h, -, rfl⟩ := Option.map_eq_some_iff.mp hstep
      obtain ⟨hcounted, hticks, hmessages⟩ := time_handled pcbs h s
      rw [NotAhead, hcounted, hticks, hmessages, called_handled]
      exact hn
  | tcpTimerNeeded pcbs =>
      cases hstep
      rw [tcpTimerNeeded]
      split_ifs
      · have hactive : NotAhead { s with tcpipTcpTimerActive := true } := hn
        exact hactive.arm _
      · exact hn
  | busy n =>
      cases hstep
      simp only [NotAhead, pass]
      omega

end TcpipThread

/-- In every run of the thread each timer that sets itself is there exactly once, or its
handler is running, and the timer of TCP while its flag is set; so the pool never runs
out; and the handlers have been called once for every interval counted. -/
theorem timers_on_schedule (osTime : UInt32) {ops : List ThreadOp} {t : TcpipThread}
    (hrun : Runs.run TcpipThread.step (TcpipThread.start osTime) ops = some t) :
    (t.timeouts.nextTimeout.map SysTimeo.h ++ t.handler.toList).Perm
        (TmrHandler.wanted t.tcpipTcpTimerActive) ∧
      t.timeouts.nextTimeout.length < Timeouts.poolSize ∧
      ∀ h, h ≠ .tcpipTcpTimer → t.calls h * h.interval.toNat ≤ t.counted ∧
        t.counted ≤ (t.calls h + 1) * h.interval.toNat := by
  have hstart : (TcpipThread.start osTime).Sound := TcpipThread.sound_start osTime
  obtain ⟨a, hf⟩ := hstart.run hrun
  refine ⟨?_, hf.length_lt, fun h hne => ?_⟩
  · rw [hf.refines.handlers]
    exact hf.schedule.timers
  · rw [hf.calls_eq, ← hf.now]
    exact hf.schedule.rings_le hf.order hne

/-- A message, the timeout of the connection's timer and that of the fine timer of DHCP. -/
def firstHalfSecond : List ThreadOp :=
  [.busy 3, .message 10, .tcpTimerNeeded true, .timeout 50, .handled true, .timeout 39,
    .handled false]

theorem timers_on_schedule_half :
    ∃ t, Runs.run TcpipThread.step (TcpipThread.start 0) firstHalfSecond = some t ∧
      t.timeouts.nextTimeout.length < Timeouts.poolSize ∧
      t.counted ≤ (t.calls .dhcpTimerFine + 1) * 500 := by
  obtain ⟨t, hrun⟩ := Option.isSome_iff_exists.mp
    (show (Runs.run TcpipThread.step (TcpipThread.start 0) firstHalfSecond).isSome by
      decide +kernel)
  obtain ⟨-, hlength, hcalls⟩ := timers_on_schedule 0 hrun
  exact ⟨t, hrun, hlength, (hcalls .dhcpTimerFine (by decide)).2⟩

/-- Where no message is there in the tick in which the wait for it begins, no handler is
called too early: `n` calls take `n` intervals in ticks of 5 ms, up to a millisecond for
each message and four for each timeout. -/
theorem calls_not_early (osTime : UInt32) {ops : List ThreadOp} {t : TcpipThread}
    (hrun : Runs.run TcpipThread.step (TcpipThread.start osTime) ops = some t)
    (hticked : Runs.AllSteps TcpipThread.step (fun _ op => TcpipThread.Ticked op)
      (TcpipThread.start osTime) ops) {h : TmrHandler} (hne : h ≠ .tcpipTcpTimer) :
    t.calls h * h.interval.toNat ≤
      5 * t.ticks + t.messages + 4 * t.timeouts.called.length := by
  obtain ⟨⟨a, hf⟩, hbound⟩ := Runs.invariant_of_allSteps
    (I := fun s : TcpipThread => s.Sound ∧ s.NotAhead)
    (fun _ _ _ hs hop hstep => ⟨hs.1.step hstep, hs.2.step hs.1 hop hstep⟩)
    ⟨TcpipThread.sound_start osTime, Nat.zero_le _⟩ hticked hrun
  have hcalls := (hf.schedule.rings_le hf.order hne).1
  rw [hf.calls_eq]
  rw [hf.now] at hcalls
  exact hcalls.trans hbound

theorem calls_not_early_half :
    ∃ t, Runs.run TcpipThread.step (TcpipThread.start 0) firstHalfSecond = some t ∧
      t.calls .dhcpTimerFine * 500 ≤
        5 * t.ticks + t.messages + 4 * t.timeouts.called.length := by
  obtain ⟨t, hrun⟩ := Option.isSome_iff_exists.mp
    (show (Runs.run TcpipThread.step (TcpipThread.start 0) firstHalfSecond).isSome by
      decide +kernel)
  exact ⟨t, hrun, calls_not_early 0 hrun (by decide +kernel)
    (h := .dhcpTimerFine) (by decide)⟩

/-! ### Messages within a tick -/

namespace TcpipThread

variable {s : TcpipThread}

/-- Nothing takes a tick. -/
def Instant : ThreadOp → Prop
  | .message n | .timeout n | .busy n => n = 0
  | _ => True

theorem Sound.first (hs : s.Sound) (hrun : s.handler = none) :
    ∃ e rest, s.timeouts.nextTimeout = e :: rest ∧ e.time.toNat ≤ 60000 := by
  obtain ⟨a, hf⟩ := hs
  cases hlist : s.timeouts.nextTimeout with
  | nil =>
      have htimers := hf.schedule.timers
      have hnone : TmrHandler.arpTimer ∉ a.alarms.map Alarm.h ++ s.handler.toList := by
        rw [← hf.refines.handlers, hlist, hrun]
        exact List.not_mem_nil
      have harp : TmrHandler.arpTimer ∈ TmrHandler.wanted s.tcpipTcpTimerActive :=
        List.mem_append_left _ (TmrHandler.mem_initial (by decide))
      exact absurd (htimers.symm.subset harp) hnone
  | cons e rest => exact ⟨e, rest, rfl, hf.time_le hlist⟩

/-- The first handler is called without a tick, for a message that is there at once, or
because its time is over. -/
structure Round (s t : TcpipThread) (ops : List ThreadOp) : Prop where
  run : Runs.run step s ops = some t
  instant : ∀ op ∈ ops, Instant op
  handler : t.handler = none
  ticks : t.ticks = s.ticks
  messages : t.messages ≤ s.messages + 1
  called : t.timeouts.called.length = s.timeouts.called.length + 1

theorem round_of_time_eq_zero {e : SysTimeo TmrHandler} {rest : List (SysTimeo TmrHandler)}
    (hrun : s.handler = none) (hlist : s.timeouts.nextTimeout = e :: rest) (hzero : e.time = 0) :
    ∃ t, Round s t [.timeout 0, .handled false] ∧ t.messages = s.messages := by
  let u : TcpipThread := { s.pass 0 with
    timeouts := ⟨rest, s.timeouts.called ++ [(e.h, e.arg)]⟩
    handler := some e.h
    counted := s.counted + e.time.toNat }
  have htimeout : step (.timeout 0) s = some u := by
    simp only [step, hlist]
    rw [if_pos ⟨hrun, by rw [Expires, if_pos hzero]⟩]
  have hhandled : step (.handled false) u = some (u.handled false e.h) := rfl
  obtain ⟨-, hticks, hmessages⟩ := time_handled false e.h u
  refine ⟨u.handled false e.h, ⟨?_, ?_, handler_handled false e.h u, hticks, ?_, ?_⟩, hmessages⟩
  · rw [Runs.run_cons, htimeout]
    exact hhandled
  · intro op hop
    rcases List.mem_cons.mp hop with rfl | hop
    · rfl
    · obtain rfl := List.mem_singleton.mp hop
      trivial
  · rw [hmessages]
    exact Nat.le_succ _
  · rw [called_handled]
    exact List.length_append

/-- A message that is there at once takes all the time off the first entry. -/
theorem time_fetched {e : SysTimeo TmrHandler} {rest : List (SysTimeo TmrHandler)}
    (hlist : s.timeouts.nextTimeout = e :: rest) (hle : e.time.toNat ≤ 60000) :
    (s.fetched 0).timeouts.nextTimeout = { e with time := 0 } :: rest := by
  have htime : (s.pass 0).osTime = s.osTime := UInt32.add_zero _
  have hnot : ¬ (21474832 : UInt32) < e.time := by
    intro hlt
    have hlt' : (21474832 : UInt32).toNat < e.time.toNat := UInt32.lt_iff_toNat_lt.mp hlt
    have hvalue : (21474832 : UInt32).toNat = 21474832 := rfl
    omega
  simp only [fetched, Timeouts.message, hlist, htime, fetchTime_self, if_neg hnot]

theorem Sound.round (hs : s.Sound) (hrun : s.handler = none) : ∃ t ops, Round s t ops := by
  obtain ⟨e, rest, hlist, hle⟩ := hs.first hrun
  by_cases hzero : e.time = 0
  · obtain ⟨t, hround, -⟩ := round_of_time_eq_zero hrun hlist hzero
    exact ⟨t, _, hround⟩
  · have hmessage : TcpipThread.step (.message 0) s = some (s.fetched 0) := by
      rw [TcpipThread.step, if_pos]
      refine ⟨hrun, fun x hx => ?_⟩
      rw [hlist] at hx
      obtain rfl : e = x := Option.some.inj hx
      exact hzero
    obtain ⟨t, hround, hmessages⟩ := round_of_time_eq_zero (s := s.fetched 0) hrun
      (time_fetched hlist hle) rfl
    have hcalled : (s.fetched 0).timeouts.called = s.timeouts.called := by
      simp only [fetched, Timeouts.message, hlist]
    refine ⟨t, .message 0 :: [.timeout 0, .handled false], ?_, ?_, hround.handler, hround.ticks,
      hmessages.le, ?_⟩
    · rw [Runs.run_cons, hmessage]
      exact hround.run
    · intro op hop
      rcases List.mem_cons.mp hop with rfl | hop
      · rfl
      · exact hround.instant op hop
    · rw [hround.called, hcalled]

end TcpipThread

/-- After any run, and however many calls are asked for: messages that are each there in
the tick in which the thread begins to wait let it call that many handlers of timers
without a tick having passed. -/
theorem calls_within_tick (osTime : UInt32) {ops : List ThreadOp} {s : TcpipThread}
    (hrun : Runs.run TcpipThread.step (TcpipThread.start osTime) ops = some s)
    (hhandler : s.handler = none) (k : ℕ) :
    ∃ more t, Runs.run TcpipThread.step s more = some t ∧
      (∀ op ∈ more, TcpipThread.Instant op) ∧ t.ticks = s.ticks ∧
      t.messages ≤ s.messages + k ∧
      t.timeouts.called.length = s.timeouts.called.length + k := by
  have hstart : (TcpipThread.start osTime).Sound := TcpipThread.sound_start osTime
  have hsound := hstart.run hrun
  clear hrun hstart
  induction k generalizing s with
  | zero => exact ⟨[], s, rfl, fun op hop => absurd hop List.not_mem_nil, rfl, Nat.le_refl _, rfl⟩
  | succ k ih =>
      obtain ⟨u, first, hround⟩ := hsound.round hhandler
      obtain ⟨more, t, hmore, hinstant, hticks, hmessages, hcalled⟩ :=
        ih hround.handler (hsound.run hround.run)
      refine ⟨first ++ more, t, ?_, ?_, hticks.trans hround.ticks, ?_, ?_⟩
      · rw [Runs.run_append, hround.run]
        exact hmore
      · intro op hop
        rcases List.mem_append.mp hop with hop | hop
        · exact hround.instant op hop
        · exact hinstant op hop
      · have hone := hround.messages
        omega
      · rw [hcalled, hround.called]
        omega

/-- A thousand calls more in the tick in which the first half second ends. -/
theorem calls_within_tick_half :
    ∃ s more t, Runs.run TcpipThread.step (TcpipThread.start 0) firstHalfSecond = some s ∧
      (s.ticks, s.timeouts.called.length) = (102, 2) ∧
      Runs.run TcpipThread.step s more = some t ∧ (∀ op ∈ more, TcpipThread.Instant op) ∧
      t.ticks = 102 ∧ t.messages ≤ s.messages + 1000 ∧ t.timeouts.called.length = 1002 := by
  obtain ⟨s, hs, hstate⟩ := Option.map_eq_some_iff.mp (show (Runs.run TcpipThread.step
    (TcpipThread.start 0) firstHalfSecond).map
      (fun s => ((s.ticks, s.timeouts.called.length), s.handler)) = some ((102, 2), none) by
        decide +kernel)
  obtain ⟨hsofar, hhandler⟩ := Prod.mk.inj hstate
  obtain ⟨hticked, hcount⟩ := Prod.mk.inj hsofar
  obtain ⟨more, t, hmore, hinstant, hticks, hmessages, hcalled⟩ :=
    calls_within_tick 0 hs hhandler 1000
  exact ⟨s, more, t, hs, hsofar, hmore, hinstant, hticks.trans hticked, hmessages,
    by rw [hcalled, hcount]⟩

end YckjAcu
