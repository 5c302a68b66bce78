import YckjAcu.UcosSystem

/-!
# Every interleaving of tasks and interrupts

What the tables say about a task and what has happened to the messages, as one
invariant of the steps, and from it the scheduler's choice and the order and
the number of the messages in every run.
-/

namespace YckjAcu.Ucos

open PriorityTable

variable {ι μ : Type} [DecidableEq ι]

/-! ### What an event stores -/

/-- The ring of a queue holds the messages, and a semaphore counts null ones. -/
def Stores (ev : OsEvent μ) (xs : List (Option μ)) : Prop :=
  match ev.type with
  | .q => Ring.Holds ev.q.size ev.q.cells ev.q.out ev.q.inn xs ∧ ev.q.entries = xs.length
  | .sem => xs = List.replicate ev.cnt none

/-- How a post ends. -/
inductive Posts (k : Kernel ι μ) (e : ι) (m : Option μ) : OsErr × Option ℕ × Kernel ι μ → Prop
  | refused (err : OsErr) (herr : err ≠ .none) : Posts k e m (err, none, k)
  | handed (hne : (k.event e).waiters.grp ≠ 0) (hm : (k.event e).type = .sem → m = none) :
      Posts k e m (.none, some (highest (k.event e).waiters),
        (k.osEventTaskRdy e m (k.event e).type.stat .ok).2)
  | stored (hgrp : (k.event e).waiters.grp = 0) (ev : OsEvent μ)
      (hwaiters : ev.waiters = (k.event e).waiters) (htype : ev.type = (k.event e).type)
      (hstores : ∀ xs, Stores (k.event e) xs → Stores ev (xs ++ [m])) :
      Posts k e m (.none, none, k.setEvent e ev)

/-- How a pend call begins. -/
inductive Pends (k : Kernel ι μ) (e : ι) : PendStart μ × Kernel ι μ → Prop
  | refused (err : OsErr) (herr : err ≠ .none) : Pends k e (.returns err none, k)
  | taken (m : Option μ) (ev : OsEvent μ) (hwaiters : ev.waiters = (k.event e).waiters)
      (htype : ev.type = (k.event e).type)
      (hstores : ∀ xs, Stores (k.event e) xs → ∃ ys, xs = m :: ys ∧ Stores ev ys) :
      Pends k e (.returns .none m, k.setEvent e ev)
  | waits (timeout : ℕ) (hlock : k.lockNesting = 0)
      (hempty : ∀ xs, Stores (k.event e) xs → xs = []) :
      Pends k e (.waits, k.pendWait e (k.event e).type.stat timeout)

section Calls

variable (k : Kernel ι μ) (e : ι)

theorem osQPost_posts (m : Option μ) : Posts k e m (k.osQPost e m) := by
  simp only [Kernel.osQPost]
  split_ifs with htype hgrp hfull
  · exact .refused _ (by decide)
  · have htype' : (k.event e).type = .q := not_not.mp htype
    have hstat : osStatQ = (k.event e).type.stat := by rw [htype']; rfl
    rw [hstat]
    exact .handed hgrp (by simp [htype'])
  · exact .refused _ (by decide)
  · have htype' : (k.event e).type = .q := not_not.mp htype
    refine .stored (not_not.mp hgrp) _ rfl rfl fun xs h => ?_
    simp only [Stores, htype'] at h ⊢
    refine ⟨h.1.push (by omega) m, ?_⟩
    rw [h.2, List.length_append, List.length_singleton]

theorem osSemPost_posts : Posts k e none (k.osSemPost e) := by
  simp only [Kernel.osSemPost]
  split_ifs with htype hgrp hcnt
  · exact .refused _ (by decide)
  · have htype' : (k.event e).type = .sem := not_not.mp htype
    have hstat : osStatSem = (k.event e).type.stat := by rw [htype']; rfl
    rw [hstat]
    exact .handed hgrp fun _ => rfl
  · have htype' : (k.event e).type = .sem := not_not.mp htype
    refine .stored (not_not.mp hgrp) _ rfl rfl fun xs h => ?_
    simp only [Stores, htype'] at h ⊢
    rw [h, List.replicate_succ']
  · exact .refused _ (by decide)

theorem osQPend_pends (timeout : ℕ) : Pends k e (k.osQPend e timeout) := by
  simp only [Kernel.osQPend]
  split_ifs with htype hint hlock hentries
  · exact .refused _ (by decide)
  · exact .refused _ (by decide)
  · exact .refused _ (by decide)
  · have htype' : (k.event e).type = .q := not_not.mp htype
    refine .taken _ _ rfl rfl fun xs h => ?_
    simp only [Stores, htype'] at h ⊢
    cases xs with
    | nil => exact absurd (h.2 ▸ hentries) (by simp)
    | cons x ys =>
        obtain ⟨hcell, hpop⟩ := h.1.pop
        rw [hcell]
        refine ⟨ys, rfl, hpop, ?_⟩
        rw [h.2]
        rfl
  · have htype' : (k.event e).type = .q := not_not.mp htype
    have hstat : osStatQ = (k.event e).type.stat := by rw [htype']; rfl
    rw [hstat]
    refine .waits _ (by omega) fun xs h => ?_
    simp only [Stores, htype'] at h
    exact List.eq_nil_of_length_eq_zero (by omega)

theorem osSemPend_pends (timeout : ℕ) : Pends k e (k.osSemPend e timeout) := by
  simp only [Kernel.osSemPend]
  split_ifs with htype hint hlock hcnt
  · exact .refused _ (by decide)
  · exact .refused _ (by decide)
  · exact .refused _ (by decide)
  · have htype' : (k.event e).type = .sem := not_not.mp htype
    refine .taken _ _ rfl rfl fun xs h => ?_
    simp only [Stores, htype'] at h ⊢
    refine ⟨_, ?_, rfl⟩
    rw [h, ← List.replicate_succ, Nat.sub_add_cancel hcnt]
  · have htype' : (k.event e).type = .sem := not_not.mp htype
    have hstat : osStatSem = (k.event e).type.stat := by rw [htype']; rfl
    rw [hstat]
    refine .waits _ (by omega) fun xs h => ?_
    simp only [Stores, htype'] at h
    rw [h, show (k.event e).cnt = 0 by omega]
    rfl

end Calls

/-! ### The message in a control block -/

/-- What has been handed to a task by a post and not been returned yet. -/
def Kernel.inHand (k : Kernel ι μ) (p : ℕ) (e : ι) : List (Option μ) :=
  let t := k.tcb p
  if t.eventPtr = some e ∧ t.stat &&& osStatPendAny = osStatRdy ∧ t.statPend = .ok then
    [match (k.event e).type with
      | .q => t.msg
      | .sem => none]
  else []

section InHand

variable {k k' : Kernel ι μ} {p : ℕ} {e f : ι} {w : Option OsEventType} {s : Bool}

theorem inHand_congr (htcb : k'.tcb p = k.tcb p) (htype : (k'.event e).type = (k.event e).type) :
    k'.inHand p e = k.inHand p e := by
  rw [Kernel.inHand, htcb, htype]
  rfl

theorem inHand_of_eventPtr (h : (k.tcb p).eventPtr = none) : k.inHand p e = [] :=
  if_neg fun hno => by simp [h] at hno

/-- A task in a wait list has nothing in hand. -/
theorem TaskOk.inHand_of_mem (h : TaskOk k p w s) (hmem : (k.event f).waiters.Mem p) :
    k.inHand p e = [] := by
  refine if_neg fun hno => ?_
  obtain ⟨-, -, hw⟩ := (h.waits f).mp hmem
  obtain ⟨-, hstat, hpend⟩ := hno
  rw [h.stat, statOf_and_pendAny] at hstat
  rcases hw with hw | hw
  · exact hw hstat
  · simp [hpend] at hw

/-- The parts that matter of a control block. -/
theorem inHand_eq_of (hevent : (k'.tcb p).eventPtr = (k.tcb p).eventPtr)
    (hstat : (k'.tcb p).stat &&& osStatPendAny = (k.tcb p).stat &&& osStatPendAny)
    (hpend : (k'.tcb p).statPend = (k.tcb p).statPend) (hmsg : (k'.tcb p).msg = (k.tcb p).msg)
    (htype : (k'.event e).type = (k.event e).type) : k'.inHand p e = k.inHand p e := by
  simp only [Kernel.inHand, hevent, hstat, hpend, hmsg, htype]

end InHand

/-! ### What the calls leave alone -/

section Quiet

variable {k : Kernel ι μ} {p : ℕ}

/-- A call that changes neither events nor what tasks have in hand. -/
structure Quiet (k k' : Kernel ι μ) : Prop where
  event : k'.event = k.event
  eventPtr (q : ℕ) : (k'.tcb q).eventPtr = (k.tcb q).eventPtr
  inHand (q : ℕ) (e : ι) : k'.inHand q e = k.inHand q e

theorem Quiet.refl (k : Kernel ι μ) : Quiet k k := ⟨rfl, fun _ => rfl, fun _ _ => rfl⟩

theorem quiet_setTcb {t : OsTcb ι μ} {r : OsPrioTbl} (hevent : t.eventPtr = (k.tcb p).eventPtr)
    (hinHand : ∀ e : ι, (k.setTcb p t).inHand p e = k.inHand p e) :
    Quiet k { k.setTcb p t with rdy := r } := by
  have hself : ({ k.setTcb p t with rdy := r } : Kernel ι μ).tcb p = t := Function.update_self _ _ _
  have hne : ∀ q, q ≠ p → ({ k.setTcb p t with rdy := r } : Kernel ι μ).tcb q = k.tcb q :=
    fun q hq => Function.update_of_ne hq _ _
  refine ⟨rfl, fun q => ?_, fun q e => ?_⟩ <;> by_cases hq : q = p
  · rw [hq, hself, hevent]
  · rw [hne q hq]
  · rw [hq]
    exact hinHand e
  · exact inHand_congr (hne q hq) rfl

theorem quiet_timeDly (ticks : ℕ) : Quiet k (k.osTimeDly ticks).2 := by
  unfold Kernel.osTimeDly
  split_ifs
  · exact Quiet.refl k
  · exact quiet_setTcb rfl fun e => inHand_eq_of (by simp) (by simp) (by simp) (by simp) rfl
  · exact Quiet.refl k

/-- The suspension bit is none of the bits of the events. -/
theorem suspend_pendAny (st : OsStat) :
    (st ||| osStatSuspend) &&& osStatPendAny = st &&& osStatPendAny ∧
      (st &&& ~~~osStatSuspend) &&& osStatPendAny = st &&& osStatPendAny := by
  revert st
  decide

theorem quiet_taskSuspend (p : ℕ) : Quiet k (k.osTaskSuspend p).2.2 := by
  unfold Kernel.osTaskSuspend
  split_ifs
  · exact Quiet.refl k
  · exact quiet_setTcb rfl fun e =>
      inHand_eq_of (by simp) (by simp [suspend_pendAny]) (by simp) (by simp) rfl

theorem quiet_taskResume (p : ℕ) : Quiet k (k.osTaskResume p).2.2 := by
  have hquiet : ∀ r, Quiet k
      { k.setTcb p { k.tcb p with stat := (k.tcb p).stat &&& ~~~osStatSuspend } with rdy := r } :=
    fun r => quiet_setTcb rfl fun e =>
      inHand_eq_of (by simp) (by simp [suspend_pendAny]) (by simp) (by simp) rfl
  simp only [Kernel.osTaskResume]
  split_ifs
  · exact Quiet.refl k
  · exact hquiet _
  · exact hquiet k.rdy
  · exact Quiet.refl k

/-- A task whose time is over has nothing in hand, before and after. -/
theorem quiet_timeTick (h : TablesOk k) (p : ℕ) : Quiet k (k.osTimeTick p) := by
  obtain ⟨w, s, hok⟩ := h.tasks p
  unfold Kernel.osTimeTick
  by_cases hdly : (k.tcb p).dly = 0
  · rw [if_neg (not_not.mpr hdly)]
    exact Quiet.refl k
  rw [if_pos hdly]
  by_cases hpend : (k.tcb p).stat &&& osStatPendAny ≠ osStatRdy
  · have hover : ∀ r, Quiet k
        { k.setTcb p { k.tcb p with
            dly := 0, stat := (k.tcb p).stat &&& ~~~osStatPendAny, statPend := .timeout } with
          rdy := r } := fun r => quiet_setTcb rfl fun e => by
      rw [Kernel.inHand, Kernel.inHand, if_neg (by simp), if_neg fun hno => hpend hno.2.1]
    simp only [if_pos hpend]
    split_ifs
    · exact hover _
    · exact hover k.rdy
    · exact quiet_setTcb rfl fun e => inHand_eq_of (by simp) (by simp) (by simp) (by simp) rfl
  · have hnone : (k.tcb p).eventPtr = none := by
      rw [hok.stat, not_not, statOf_and_pendAny] at hpend
      subst hpend
      exact hok.eventPtr_of_dly hdly
    have hover : ∀ r, Quiet k
        { k.setTcb p { k.tcb p with dly := 0, statPend := .ok } with rdy := r } := fun r =>
      quiet_setTcb rfl fun e => by
        rw [inHand_of_eventPtr (by simpa using hnone), inHand_of_eventPtr hnone]
    simp only [if_neg hpend]
    split_ifs
    · exact hover _
    · exact hover k.rdy
    · exact quiet_setTcb rfl fun e => inHand_eq_of (by simp) (by simp) (by simp) (by simp) rfl

end Quiet

end YckjAcu.Ucos
