import YckjAcu.Lib.DeltaQueue
import YckjAcu.Lib.Runs
import YckjAcu.Common

/-!
# The timeouts of the TCP/IP thread

`sys_timeout` keeps the timeouts in a list in which each entry has only the time from
the entry before it.  `sys_timeouts_mbox_fetch` counts the first one down while it
waits for messages, and calls its handler when the wait times out.
-/

namespace YckjAcu

/-- `struct sys_timeo`. -/
structure SysTimeo (η : Type) where
  time : UInt32
  h : η
  arg : UInt32
deriving DecidableEq

/-- The thread's timeouts; the callbacks made so far are kept for comparison. -/
structure Timeouts (η : Type) where
  nextTimeout : List (SysTimeo η)
  called : List (η × UInt32)

/-- The calls of the module, and the two ways in which a wait for a message ends. -/
inductive TimerOp (η : Type)
  | sysTimeout (msecs : UInt32) (handler : η) (arg : UInt32)
  | sysUntimeout (handler : η) (arg : UInt32)
  | message (timeNeeded : UInt32)
  | timeout

namespace Timeouts

variable {η : Type}

/-- `MEMP_NUM_SYS_TIMEOUT`. -/
def poolSize : ℕ := 8

/-- The loop of `sys_timeout`: `t` and what follows it. -/
def insertLoop (timeout : SysTimeo η) : List (SysTimeo η) → List (SysTimeo η)
  | [] => []
  | [t] => [t, { timeout with time := timeout.time - t.time }]
  | t :: n :: rest =>
      let timeout := { timeout with time := timeout.time - t.time }
      if n.time > timeout.time then
        t :: timeout :: { n with time := n.time - timeout.time } :: rest
      else t :: insertLoop timeout (n :: rest)

/-- `sys_timeout` with an entry at hand. -/
def link (timeout : SysTimeo η) : List (SysTimeo η) → List (SysTimeo η)
  | [] => [timeout]
  | t :: rest =>
      if t.time > timeout.time then timeout :: { t with time := t.time - timeout.time } :: rest
      else insertLoop timeout (t :: rest)

/-- Without an entry in the pool the call is dropped. -/
def sysTimeout (msecs : UInt32) (handler : η) (arg : UInt32) (s : Timeouts η) : Timeouts η :=
  if s.nextTimeout.length < poolSize then
    { s with nextTimeout := link ⟨msecs, handler, arg⟩ s.nextTimeout }
  else s

def addBack (time : UInt32) : List (SysTimeo η) → List (SysTimeo η)
  | [] => []
  | n :: rest => { n with time := n.time + time } :: rest

/-- The loop of `sys_untimeout`. -/
def unlink [DecidableEq η] (handler : η) (arg : UInt32) : List (SysTimeo η) → List (SysTimeo η)
  | [] => []
  | t :: rest =>
      if t.h = handler ∧ t.arg = arg then addBack t.time rest else t :: unlink handler arg rest

def sysUntimeout [DecidableEq η] (handler : η) (arg : UInt32) (s : Timeouts η) : Timeouts η :=
  { s with nextTimeout := unlink handler arg s.nextTimeout }

/-- The end of `sys_timeouts_mbox_fetch` with a message. -/
def message (timeNeeded : UInt32) (s : Timeouts η) : Timeouts η :=
  match s.nextTimeout with
  | [] => s
  | t :: rest =>
      { s with
        nextTimeout :=
          { t with time := if timeNeeded < t.time then t.time - timeNeeded else 0 } :: rest }

/-- The wait has timed out, or there was nothing to wait for: the first entry goes and
its handler is called. -/
def timeout (s : Timeouts η) : Option (Timeouts η) :=
  match s.nextTimeout with
  | [] => none
  | t :: rest => some ⟨rest, s.called ++ [(t.h, t.arg)]⟩

def step [DecidableEq η] : TimerOp η → Timeouts η → Option (Timeouts η)
  | .sysTimeout msecs handler arg, s => some (s.sysTimeout msecs handler arg)
  | .sysUntimeout handler arg, s => some (s.sysUntimeout handler arg)
  | .message timeNeeded, s => some (s.message timeNeeded)
  | .timeout, s => s.timeout

def empty : Timeouts η := ⟨[], []⟩

end Timeouts

/-! ### Alarms with due times -/

/-- An alarm: what to call, when it was set and for how long, and its number. -/
structure Alarm (η : Type) where
  h : η
  arg : UInt32
  set : ℕ
  msecs : ℕ
  number : ℕ
deriving DecidableEq

namespace Alarm

variable {η : Type}

def due (x : Alarm η) : ℕ := x.set + x.msecs

def callback (x : Alarm η) : η × UInt32 := (x.h, x.arg)

/-- Which of two alarms comes first: the one due first, or the one set first. -/
def Before (x y : Alarm η) : Prop := x.due < y.due ∨ x.due = y.due ∧ x.number < y.number

end Alarm

/-- What the timeouts are for: a clock and the alarms that are set, in their order. -/
structure AlarmClock (η : Type) where
  now : ℕ
  alarms : List (Alarm η)
  rung : List (Alarm η)
  numbered : ℕ

namespace AlarmClock

variable {η : Type} [DecidableEq η]

/-- At most `Timeouts.poolSize` alarms are set at a time; the clock never passes one. -/
def step : TimerOp η → AlarmClock η → Option (AlarmClock η)
  | .sysTimeout msecs handler arg, s =>
      if s.alarms.length < Timeouts.poolSize then
        some { s with
          alarms := s.alarms.orderedInsert (fun x y => x.due < y.due)
            ⟨handler, arg, s.now, msecs.toNat, s.numbered⟩
          numbered := s.numbered + 1 }
      else some s
  | .sysUntimeout handler arg, s =>
      some { s with alarms := s.alarms.eraseP fun x => x.callback = (handler, arg) }
  | .message timeNeeded, s =>
      match s.alarms with
      | [] => some s
      | x :: _ => some { s with now := min (s.now + timeNeeded.toNat) x.due }
  | .timeout, s =>
      match s.alarms with
      | [] => none
      | x :: rest => some { s with now := x.due, alarms := rest, rung := s.rung ++ [x] }

def empty : AlarmClock η := ⟨0, [], [], 0⟩

/-- The alarms that have rung and those that are set are in their order, one side of
the clock each. -/
structure InOrder (s : AlarmClock η) : Prop where
  order : (s.rung ++ s.alarms).Pairwise Alarm.Before
  rung : ∀ x ∈ s.rung, x.due ≤ s.now
  alarms : ∀ x ∈ s.alarms, s.now ≤ x.due
  number : ∀ x ∈ s.rung ++ s.alarms, x.number < s.numbered

end AlarmClock

/-! ### The list as a delta queue -/

namespace Timeouts

variable {η : Type} {s t : Timeouts η} {handler : η} {arg : UInt32}

def delta (t : SysTimeo η) : ℕ × (η × UInt32) := (t.time.toNat, (t.h, t.arg))

def deltas (ts : List (SysTimeo η)) : List (ℕ × (η × UInt32)) := ts.map delta

theorem toNat_time_sub {a b : UInt32} (h : b ≤ a) : (a - b).toNat = a.toNat - b.toNat :=
  UInt32.toNat_sub_of_le a b h

theorem deltas_insertLoop {timeout t : SysTimeo η} {rest : List (SysTimeo η)}
    (h : t.time ≤ timeout.time) :
    deltas (insertLoop timeout (t :: rest)) =
      DeltaQueue.insert timeout.time.toNat (timeout.h, timeout.arg) (deltas (t :: rest)) := by
  induction rest generalizing t timeout with
  | nil =>
      have hnot : ¬ timeout.time.toNat < t.time.toNat := UInt32.le_iff_toNat_le.mp h |>.not_gt
      simp [insertLoop, deltas, delta, DeltaQueue.insert, hnot, toNat_time_sub h]
  | cons n rest ih =>
      have hnot : ¬ timeout.time.toNat < t.time.toNat := UInt32.le_iff_toNat_le.mp h |>.not_gt
      have hfirst : DeltaQueue.insert timeout.time.toNat (timeout.h, timeout.arg)
          (deltas (t :: n :: rest)) = delta t ::
            DeltaQueue.insert (timeout.time - t.time).toNat (timeout.h, timeout.arg)
              (deltas (n :: rest)) := by
        rw [toNat_time_sub h]
        exact if_neg hnot
      rw [hfirst, insertLoop]
      dsimp only
      by_cases hlt : n.time > timeout.time - t.time
      · have hlt' : (timeout.time - t.time).toNat < n.time.toNat := UInt32.lt_iff_toNat_lt.mp hlt
        rw [if_pos hlt]
        have hinsert : DeltaQueue.insert (timeout.time - t.time).toNat (timeout.h, timeout.arg)
            (deltas (n :: rest)) = ((timeout.time - t.time).toNat, (timeout.h, timeout.arg)) ::
              (n.time.toNat - (timeout.time - t.time).toNat, (n.h, n.arg)) :: deltas rest :=
          if_pos hlt'
        rw [hinsert, ← toNat_time_sub (UInt32.le_of_lt hlt)]
        rfl
      · rw [if_neg hlt]
        exact congrArg (delta t :: ·) (ih (UInt32.not_lt.mp hlt))

theorem deltas_link (timeout : SysTimeo η) (ts : List (SysTimeo η)) :
    deltas (link timeout ts) =
      DeltaQueue.insert timeout.time.toNat (timeout.h, timeout.arg) (deltas ts) := by
  cases ts with
  | nil => rfl
  | cons t rest =>
      rw [link]
      by_cases hlt : t.time > timeout.time
      · have hinsert : DeltaQueue.insert timeout.time.toNat (timeout.h, timeout.arg)
            (deltas (t :: rest)) = delta timeout ::
              (t.time.toNat - timeout.time.toNat, (t.h, t.arg)) :: deltas rest :=
          if_pos (UInt32.lt_iff_toNat_lt.mp hlt)
        rw [if_pos hlt, hinsert, ← toNat_time_sub (UInt32.le_of_lt hlt)]
        rfl
      · rw [if_neg hlt]
        exact deltas_insertLoop (UInt32.not_lt.mp hlt)

/-- The times add up to less than `2 ^ 32`, so that the addition cannot overflow. -/
theorem deltas_unlink [DecidableEq η] {ts : List (SysTimeo η)}
    (htotal : DeltaQueue.total (deltas ts) < 2 ^ 32) :
    deltas (unlink handler arg ts) =
      DeltaQueue.erase (fun x => x = (handler, arg)) (deltas ts) := by
  induction ts with
  | nil => rfl
  | cons t rest ih =>
      have hcons : DeltaQueue.total (deltas (t :: rest)) =
          t.time.toNat + DeltaQueue.total (deltas rest) := DeltaQueue.total_cons
      rw [hcons] at htotal
      have herase : DeltaQueue.erase (fun x => x = (handler, arg)) (deltas (t :: rest)) =
          if (t.h, t.arg) = (handler, arg) then DeltaQueue.delay t.time.toNat (deltas rest)
          else delta t :: DeltaQueue.erase (fun x => x = (handler, arg)) (deltas rest) := by
        simp only [deltas, List.map_cons, delta, DeltaQueue.erase, decide_eq_true_eq]
      rw [herase, unlink]
      by_cases hmatch : t.h = handler ∧ t.arg = arg
      · rw [if_pos hmatch, if_pos (Prod.ext hmatch.1 hmatch.2)]
        cases rest with
        | nil => rfl
        | cons n rest =>
            have hrest : DeltaQueue.total (deltas (n :: rest)) =
                n.time.toNat + DeltaQueue.total (deltas rest) := DeltaQueue.total_cons
            have hsum : (n.time + t.time).toNat = n.time.toNat + t.time.toNat := by
              rw [UInt32.toNat_add]
              exact Nat.mod_eq_of_lt (by omega)
            simp only [addBack, deltas, List.map_cons, delta, DeltaQueue.delay, hsum]
      · rw [if_neg hmatch, if_neg (fun h => hmatch ⟨congrArg Prod.fst h, congrArg Prod.snd h⟩)]
        exact congrArg (delta t :: ·) (ih (by omega))

def elapsed (timeNeeded : UInt32) (s : Timeouts η) : ℕ :=
  match s.nextTimeout with
  | [] => 0
  | t :: _ => min timeNeeded.toNat t.time.toNat

theorem deltas_message (timeNeeded : UInt32) (s : Timeouts η) :
    deltas (s.message timeNeeded).nextTimeout =
      DeltaQueue.pass (s.elapsed timeNeeded) (deltas s.nextTimeout) := by
  unfold message elapsed
  cases hlist : s.nextTimeout with
  | nil =>
      dsimp only
      rw [hlist]
      rfl
  | cons t rest =>
      have htime : (if timeNeeded < t.time then t.time - timeNeeded else 0).toNat =
          t.time.toNat - min timeNeeded.toNat t.time.toNat := by
        split_ifs with hlt
        · rw [toNat_time_sub (UInt32.le_of_lt hlt),
            Nat.min_eq_left (UInt32.lt_iff_toNat_lt.mp hlt).le]
        · rw [Nat.min_eq_right (UInt32.le_iff_toNat_le.mp (UInt32.not_lt.mp hlt)), Nat.sub_self]
          rfl
      simp only [deltas, List.map_cons, delta, DeltaQueue.pass, htime]

end Timeouts

/-! ### The order of the alarms -/

namespace AlarmClock

variable {η : Type} {s t : AlarmClock η} {x y : Alarm η} {xs : List (Alarm η)}

theorem due_le_of_before (h : x.Before y) : x.due ≤ y.due := by
  rcases h with hlt | ⟨heq, -⟩
  · exact hlt.le
  · exact heq.le

theorem before_of_le (hdue : x.due ≤ y.due) (hnumber : x.number < y.number) : x.Before y := by
  rcases hdue.lt_or_eq with hlt | heq
  · exact Or.inl hlt
  · exact Or.inr ⟨heq, hnumber⟩

theorem pairwise_orderedInsert (hxs : xs.Pairwise Alarm.Before)
    (hnumber : ∀ y ∈ xs, y.number < x.number) :
    (xs.orderedInsert (fun x y => x.due < y.due) x).Pairwise Alarm.Before := by
  induction xs with
  | nil => exact List.pairwise_singleton _ _
  | cons b xs ih =>
      obtain ⟨hb, hxs'⟩ := List.pairwise_cons.mp hxs
      rw [List.orderedInsert_cons]
      split_ifs with hlt
      · refine List.pairwise_cons.mpr ⟨fun y hy => Or.inl ?_, hxs⟩
        rcases List.mem_cons.mp hy with rfl | hy
        · exact hlt
        · exact hlt.trans_le (due_le_of_before (hb y hy))
      · refine List.pairwise_cons.mpr ⟨fun y hy => ?_,
          ih hxs' fun y hy => hnumber y (List.mem_cons_of_mem b hy)⟩
        rcases (List.mem_orderedInsert _).mp hy with rfl | hy
        · exact before_of_le (Nat.le_of_not_lt hlt) (hnumber b List.mem_cons_self)
        · exact hb y hy

theorem InOrder.sysTimeout (h : s.InOrder) (x : Alarm η) (hset : x.set = s.now)
    (hnumber : x.number = s.numbered) :
    InOrder { s with
      alarms := s.alarms.orderedInsert (fun x y => x.due < y.due) x
      numbered := s.numbered + 1 } := by
  obtain ⟨hrung, halarms, hcross⟩ := List.pairwise_append.mp h.order
  have hnow : s.now ≤ x.due := by
    rw [Alarm.due, hset]
    exact Nat.le_add_right _ _
  constructor
  · refine List.pairwise_append.mpr ⟨hrung, pairwise_orderedInsert halarms ?_, ?_⟩
    · intro y hy
      rw [hnumber]
      exact h.number y (List.mem_append_right _ hy)
    · intro a ha b hb
      rcases (List.mem_orderedInsert _).mp hb with rfl | hb
      · refine before_of_le ((h.rung a ha).trans hnow) ?_
        rw [hnumber]
        exact h.number a (List.mem_append_left _ ha)
      · exact hcross a ha b hb
  · exact h.rung
  · intro y hy
    rcases (List.mem_orderedInsert _).mp hy with rfl | hy
    · exact hnow
    · exact h.alarms y hy
  · intro y hy
    refine Nat.lt_succ_iff.mpr ?_
    rcases List.mem_append.mp hy with hy | hy
    · exact (h.number y (List.mem_append_left _ hy)).le
    · rcases (List.mem_orderedInsert _).mp hy with rfl | hy
      · exact hnumber.le
      · exact (h.number y (List.mem_append_right _ hy)).le

theorem InOrder.sublist (h : s.InOrder) (hsub : xs.Sublist s.alarms) :
    InOrder { s with alarms := xs } where
  order := h.order.sublist (hsub.append_left s.rung)
  rung := h.rung
  alarms := fun x hx => h.alarms x (hsub.subset hx)
  number := fun x hx => h.number x ((hsub.append_left s.rung).subset hx)

theorem InOrder.first_le (h : s.InOrder) (hxs : s.alarms = x :: xs) :
    ∀ y ∈ s.alarms, x.due ≤ y.due := by
  intro y hy
  have halarms := (List.pairwise_append.mp h.order).2.1
  rw [hxs] at hy halarms
  rcases List.mem_cons.mp hy with rfl | hy
  · exact Nat.le_refl _
  · exact due_le_of_before (List.rel_of_pairwise_cons halarms hy)

theorem InOrder.advance (h : s.InOrder) (hxs : s.alarms = x :: xs) (n : ℕ) :
    InOrder { s with now := min (s.now + n) x.due } where
  order := h.order
  rung := fun y hy => by
    have hx := h.alarms x (hxs ▸ List.mem_cons_self)
    have hle := h.rung y hy
    exact le_min (hle.trans (Nat.le_add_right _ _)) (hle.trans hx)
  alarms := fun y hy => (Nat.min_le_right _ _).trans (h.first_le hxs y hy)
  number := h.number

theorem InOrder.timeout (h : s.InOrder) (hxs : s.alarms = x :: xs) :
    InOrder { s with now := x.due, alarms := xs, rung := s.rung ++ [x] } := by
  have hsplit : s.rung ++ [x] ++ xs = s.rung ++ s.alarms := by
    rw [hxs, List.append_assoc, List.singleton_append]
  constructor
  · rw [hsplit]
    exact h.order
  · intro y hy
    rcases List.mem_append.mp hy with hy | hy
    · exact (h.rung y hy).trans (h.alarms x (hxs ▸ List.mem_cons_self))
    · exact (congrArg Alarm.due (List.mem_singleton.mp hy)).le
  · intro y hy
    exact h.first_le hxs y (hxs ▸ List.mem_cons_of_mem x hy)
  · rw [hsplit]
    exact h.number

theorem InOrder.step [DecidableEq η] {op : TimerOp η} (h : s.InOrder) (hstep : step op s = some t) :
    t.InOrder := by
  cases op with
  | sysTimeout msecs handler arg =>
      simp only [AlarmClock.step] at hstep
      split_ifs at hstep with hpool
      · cases hstep
        exact h.sysTimeout _ rfl rfl
      · cases hstep
        exact h
  | sysUntimeout handler arg =>
      cases hstep
      exact h.sublist List.eraseP_sublist
  | message timeNeeded =>
      simp only [AlarmClock.step] at hstep
      split at hstep
      · cases hstep
        exact h
      · rename_i x xs hxs
        cases hstep
        exact h.advance hxs _
  | timeout =>
      simp only [AlarmClock.step] at hstep
      split at hstep
      · cases hstep
      · rename_i x xs hxs
        cases hstep
        exact h.timeout hxs

theorem inOrder_empty : (empty : AlarmClock η).InOrder where
  order := List.Pairwise.nil
  rung := fun _ hx => absurd hx List.not_mem_nil
  alarms := fun _ hx => absurd hx List.not_mem_nil
  number := fun _ hx => absurd hx List.not_mem_nil

end AlarmClock

/-! ### Refinement -/

namespace Timeouts

variable {η : Type} {s t : Timeouts η} {a : AlarmClock η}

def dueCallback (x : Alarm η) : ℕ × (η × UInt32) := (x.due, x.callback)

/-- The list is that of the alarms, and the handlers called are those of the alarms that
have rung. -/
structure Refines (s : Timeouts η) (a : AlarmClock η) : Prop where
  due : DeltaQueue.due a.now (deltas s.nextTimeout) = a.alarms.map dueCallback
  called : s.called = a.rung.map Alarm.callback
  total : DeltaQueue.total (deltas s.nextTimeout) < 2 ^ 32

theorem Refines.length_eq (h : Refines s a) : s.nextTimeout.length = a.alarms.length := by
  have hlength := congrArg List.length h.due
  rwa [DeltaQueue.length_due, deltas, List.length_map, List.length_map] at hlength

theorem Refines.handlers (h : Refines s a) :
    s.nextTimeout.map SysTimeo.h = a.alarms.map Alarm.h := by
  have hcallbacks := congrArg (List.map Prod.snd) h.due
  rw [DeltaQueue.map_snd_due] at hcallbacks
  have hhandlers := congrArg (List.map Prod.fst) hcallbacks
  simp only [deltas, List.map_map] at hhandlers
  exact hhandlers

theorem Refines.sysTimeout (h : Refines s a) (msecs : UInt32) (handler : η) (arg : UInt32) :
    Refines { s with nextTimeout := link ⟨msecs, handler, arg⟩ s.nextTimeout }
      { a with
        alarms := a.alarms.orderedInsert (fun x y => x.due < y.due)
          ⟨handler, arg, a.now, msecs.toNat, a.numbered⟩
        numbered := a.numbered + 1 } := by
  refine ⟨?_, h.called, ?_⟩
  · have hmap := List.map_orderedInsert (fun x y : Alarm η => x.due < y.due)
      (fun x y : ℕ × (η × UInt32) => x.1 < y.1) dueCallback a.alarms
      ⟨handler, arg, a.now, msecs.toNat, a.numbered⟩ (fun _ _ => Iff.rfl) (fun _ _ => Iff.rfl)
    rw [deltas_link, DeltaQueue.due_insert, h.due]
    exact hmap.symm
  · rw [deltas_link, DeltaQueue.total_insert]
    exact max_lt msecs.toNat_lt h.total

theorem Refines.sysUntimeout [DecidableEq η] (h : Refines s a) (handler : η) (arg : UInt32) :
    Refines (s.sysUntimeout handler arg)
      { a with alarms := a.alarms.eraseP fun x => x.callback = (handler, arg) } := by
  refine ⟨?_, h.called, ?_⟩
  · rw [Timeouts.sysUntimeout, deltas_unlink h.total, DeltaQueue.due_erase, h.due,
      List.eraseP_map]
    rfl
  · rw [Timeouts.sysUntimeout, deltas_unlink h.total]
    exact DeltaQueue.total_erase_le.trans_lt h.total

theorem Refines.cons {t : SysTimeo η} {rest : List (SysTimeo η)} (h : Refines s a)
    (hlist : s.nextTimeout = t :: rest) :
    ∃ x xs, a.alarms = x :: xs ∧ a.now + t.time.toNat = x.due ∧ (t.h, t.arg) = x.callback ∧
      DeltaQueue.due x.due (deltas rest) = xs.map dueCallback := by
  have hdue := h.due
  rw [hlist] at hdue
  cases halarms : a.alarms with
  | nil =>
      rw [halarms] at hdue
      cases hdue
  | cons x xs =>
      rw [halarms] at hdue
      obtain ⟨hfirst, hrest⟩ := List.cons.inj hdue
      obtain ⟨htime, hcallback⟩ := Prod.ext_iff.mp hfirst
      have htime' : a.now + t.time.toNat = x.due := htime
      refine ⟨x, xs, rfl, htime', hcallback, ?_⟩
      rw [← htime']
      exact hrest

theorem Refines.alarms_eq_nil (h : Refines s a) (hlist : s.nextTimeout = []) :
    a.alarms = [] := by
  rw [← List.length_eq_zero_iff, ← h.length_eq, hlist]
  rfl

theorem Refines.message {x : Alarm η} {xs : List (Alarm η)} (h : Refines s a)
    (halarms : a.alarms = x :: xs) (timeNeeded : UInt32) :
    Refines (s.message timeNeeded) { a with now := min (a.now + timeNeeded.toNat) x.due } := by
  have hdeltas := deltas_message timeNeeded s
  refine ⟨?_, ?_, ?_⟩
  · cases hlist : s.nextTimeout with
    | nil =>
        rw [h.alarms_eq_nil hlist] at halarms
        cases halarms
    | cons t rest =>
        obtain ⟨y, ys, halarms', htime, -, -⟩ := h.cons hlist
        obtain ⟨rfl, -⟩ := List.cons.inj (halarms.symm.trans halarms')
        have helapsed : s.elapsed timeNeeded = min timeNeeded.toNat t.time.toNat := by
          rw [elapsed, hlist]
        have hnow : min (a.now + timeNeeded.toNat) x.due = a.now + s.elapsed timeNeeded := by
          rw [helapsed, ← htime]
          omega
        rw [hdeltas, ← h.due]
        dsimp only
        rw [hnow, DeltaQueue.due_pass]
        intro z hz
        rw [hlist] at hz
        obtain rfl : delta t = z := Option.some.inj hz
        rw [helapsed]
        exact Nat.min_le_right _ _
  · have hcalled : (s.message timeNeeded).called = s.called := by
      unfold Timeouts.message
      split <;> rfl
    exact hcalled.trans h.called
  · rw [hdeltas]
    exact DeltaQueue.total_pass_le.trans_lt h.total

theorem Refines.step [DecidableEq η] {op : TimerOp η} (h : Refines s a)
    (hstep : Timeouts.step op s = some t) :
    ∃ b, AlarmClock.step op a = some b ∧ Refines t b := by
  cases op with
  | sysTimeout msecs handler arg =>
      cases hstep
      simp only [AlarmClock.step, Timeouts.sysTimeout, h.length_eq]
      split_ifs with hpool
      · exact ⟨_, rfl, h.sysTimeout msecs handler arg⟩
      · exact ⟨_, rfl, h⟩
  | sysUntimeout handler arg =>
      cases hstep
      exact ⟨_, rfl, h.sysUntimeout handler arg⟩
  | message timeNeeded =>
      cases hstep
      simp only [AlarmClock.step]
      split
      · rename_i halarms
        have hlist : s.nextTimeout = [] := by
          rw [← List.length_eq_zero_iff, h.length_eq, halarms]
          rfl
        refine ⟨_, rfl, ?_⟩
        rw [Timeouts.message, hlist]
        exact h
      · rename_i x xs halarms
        exact ⟨_, rfl, h.message halarms timeNeeded⟩
  | timeout =>
      simp only [Timeouts.step, Timeouts.timeout] at hstep
      split at hstep
      · cases hstep
      · rename_i t rest hlist
        cases hstep
        obtain ⟨x, xs, halarms, -, hcallback, hrest⟩ := h.cons hlist
        simp only [AlarmClock.step, halarms]
        refine ⟨_, rfl, hrest, ?_, ?_⟩
        · simp only [h.called, List.map_append, List.map_cons, List.map_nil, hcallback]
        · have htotal := h.total
          rw [hlist] at htotal
          have hcons : DeltaQueue.total (deltas (t :: rest)) =
              t.time.toNat + DeltaQueue.total (deltas rest) := DeltaQueue.total_cons
          change DeltaQueue.total (deltas rest) < 2 ^ 32
          omega

theorem refines_empty : Refines (empty : Timeouts η) AlarmClock.empty :=
  ⟨rfl, rfl, Nat.two_pow_pos 32⟩

theorem Refines.run [DecidableEq η] {ops : List (TimerOp η)} (h : Refines s a)
    (hrun : Runs.run Timeouts.step s ops = some t) :
    ∃ b, Runs.run AlarmClock.step a ops = some b ∧ Refines t b := by
  induction ops generalizing s a with
  | nil =>
      cases hrun
      exact ⟨a, rfl, h⟩
  | cons op ops ih =>
      obtain ⟨u, hstep, hrest⟩ := Runs.run_cons_eq_some.mp hrun
      obtain ⟨b, hb, hub⟩ := h.step hstep
      obtain ⟨c, hc, htc⟩ := ih hub hrest
      exact ⟨c, Runs.run_cons_eq_some.mpr ⟨b, hb, hc⟩, htc⟩

end Timeouts

/-- Over every run the list behaves as alarms on a clock do: the handlers are called when
the clock comes to their times and in the order of these, where two are due at the same
time in the order in which they were set, and each entry's time is what is missing from
the one before it; no addition or subtraction of times overflows. -/
theorem timeouts_refine {η : Type} [DecidableEq η] {ops : List (TimerOp η)} {t : Timeouts η}
    (hrun : Runs.run Timeouts.step Timeouts.empty ops = some t) :
    ∃ a, Runs.run AlarmClock.step AlarmClock.empty ops = some a ∧ a.InOrder ∧
      t.called = a.rung.map Alarm.callback ∧
      DeltaQueue.due a.now (Timeouts.deltas t.nextTimeout) =
        a.alarms.map Timeouts.dueCallback := by
  obtain ⟨a, ha, hrefines⟩ := Timeouts.refines_empty.run hrun
  have horder : a.InOrder :=
    Runs.invariant (I := AlarmClock.InOrder) (fun _ _ _ h hstep => h.step hstep)
      AlarmClock.inOrder_empty ha
  exact ⟨a, ha, horder, hrefines.called, hrefines.due⟩

/-- Of two timeouts for the same time the first one set is called first. -/
def twoTimeouts : List (TimerOp Bool) :=
  [.sysTimeout 500 true 0, .message 100, .sysTimeout 400 false 0, .sysTimeout 250 false 1,
    .timeout, .timeout]

theorem timeouts_refine_two :
    ∃ (t : Timeouts Bool) (a : AlarmClock Bool),
      Runs.run Timeouts.step Timeouts.empty twoTimeouts = some t ∧
      t.called = [(false, 1), (true, 0)] ∧ a.InOrder ∧
      t.called = a.rung.map Alarm.callback := by
  obtain ⟨t, hrun, hcalled⟩ := Option.map_eq_some_iff.mp
    (show (Runs.run Timeouts.step Timeouts.empty twoTimeouts).map Timeouts.called =
      some [(false, 1), (true, 0)] by decide +kernel)
  obtain ⟨a, -, horder, hrung, -⟩ := timeouts_refine hrun
  exact ⟨t, a, hrun, hcalled, horder, hrung⟩

end YckjAcu
