import YckjAcu.UcosDelivery

/-!
# Delays and timeouts

What the steps of other tasks and of interrupts do to the wait of a task, and from
it the number of ticks after which the wait ends.
-/

namespace YckjAcu.Ucos

open PriorityTable

variable {ι μ : Type} [DecidableEq ι]

/-! ### One task in the steps of the others -/

/-- Two control blocks that differ at most in the message and in the suspension. -/
structure SameWait (t t' : OsTcb ι μ) : Prop where
  stat : t'.stat &&& osStatPendAny = t.stat &&& osStatPendAny
  statPend : t'.statPend = t.statPend
  dly : t'.dly = t.dly
  eventPtr : t'.eventPtr = t.eventPtr

/-- A message has been handed to the task. -/
structure Handed (t t' : OsTcb ι μ) : Prop where
  stat : t'.stat &&& osStatPendAny = osStatRdy
  statPend : t'.statPend = .ok
  dly : t'.dly = 0
  eventPtr : t'.eventPtr = t.eventPtr
  waited : t.eventPtr ≠ none

omit [DecidableEq ι] in
theorem SameWait.of_eq {t t' : OsTcb ι μ} (h : t' = t) : SameWait t t' := by
  subst h
  exact ⟨rfl, rfl, rfl, rfl⟩

/-- The calls that begin or end a wait of the current task. -/
def Label.isWait : Label ι μ → Bool
  | .qPend _ _ | .semPend _ _ | .timeDly _ | .finish => true
  | _ => false

omit [DecidableEq ι] in
theorem Label.isWait_of_pendsOn {l : Label ι μ} {e : ι} (hl : l.pendsOn = some e) :
    l.isWait = true := by
  cases l with
  | qPend | semPend => rfl
  | _ => cases hl

section Step

variable {initial : ι → List (Option μ)} {s t : System ι μ} {e : ι} {p : ℕ}

theorem posted_wait (h : TablesOk s.kernel) {m : Option μ} {r : OsErr × Option ℕ × Kernel ι μ}
    (hr : Posts s.kernel e m r) (p : ℕ) :
    SameWait (s.kernel.tcb p) ((s.posted e m r).kernel.tcb p) ∨
      Handed (s.kernel.tcb p) ((s.posted e m r).kernel.tcb p) := by
  cases hr with
  | refused err herr => exact Or.inl (.of_eq (by simp [System.posted, herr]))
  | stored hgrp ev hwaiters htype hstores => exact Or.inl (.of_eq rfl)
  | handed hne hm =>
      simp only [System.posted, beforeSched_kernel, if_true]
      change SameWait _ ((s.kernel.osEventTaskRdy e m (s.kernel.event e).type.stat .ok).2.tcb p) ∨
        Handed _ ((s.kernel.osEventTaskRdy e m (s.kernel.event e).type.stat .ok).2.tcb p)
      by_cases hp : p = highest (s.kernel.event e).waiters
      · obtain ⟨w, v, hok⟩ := h.tasks p
        obtain ⟨-, hevent, -⟩ := (hok.waits e).mp (hp ▸ (h.highest_isLeast hne).1)
        have hself := osEventTaskRdy_tcb_self (k := s.kernel) (e := e) m (s.kernel.event e).type.stat
        simp only [← hp] at hself
        rw [hself]
        refine Or.inr ⟨?_, rfl, rfl, rfl, by simp [hevent]⟩
        change (s.kernel.tcb p).stat &&& ~~~(s.kernel.event e).type.stat &&& osStatPendAny = _
        rw [hok.stat]
        rcases hok.eq_none_or hevent with rfl | rfl
        · rw [statOf_clear_none]
          exact (statOf_and_pendAny none v).mpr rfl
        · rw [statOf_clear]
          exact (statOf_and_pendAny none v).mpr rfl
      · exact Or.inl (.of_eq (osEventTaskRdy_tcb_of_ne m _ hp))

theorem pended_wait {r : PendStart μ × Kernel ι μ} (hr : Pends s.kernel e r)
    (hp : p ≠ s.kernel.cur) : (s.pended e r).kernel.tcb p = s.kernel.tcb p := by
  cases hr with
  | refused err herr => cases err <;> rfl
  | taken m ev hwaiters htype hstores => rfl
  | waits timeout hlock hempty => exact pendWait_tcb_of_ne _ _ hp

omit [DecidableEq ι] in
theorem timeDly_wait {k : Kernel ι μ} (ticks : ℕ) (hp : p ≠ k.cur) :
    (k.osTimeDly ticks).2.tcb p = k.tcb p := by
  unfold Kernel.osTimeDly
  split_ifs
  · rfl
  · exact Kernel.setTcb_tcb_of_ne _ _ hp
  · rfl

omit [DecidableEq ι] in
theorem setTcb_wait {k : Kernel ι μ} {q : ℕ} {t : OsTcb ι μ} (h : SameWait (k.tcb q) t) (p : ℕ) :
    SameWait (k.tcb p) ((k.setTcb q t).tcb p) := by
  by_cases hp : p = q
  · subst hp
    rwa [Kernel.setTcb_tcb_self]
  · exact .of_eq (Kernel.setTcb_tcb_of_ne _ _ hp)

omit [DecidableEq ι] in
theorem taskSuspend_wait {k : Kernel ι μ} (q p : ℕ) :
    SameWait (k.tcb p) ((k.osTaskSuspend q).2.2.tcb p) := by
  unfold Kernel.osTaskSuspend
  split_ifs
  · exact .of_eq rfl
  · have hset : SameWait (k.tcb q) { k.tcb q with stat := (k.tcb q).stat ||| osStatSuspend } :=
      ⟨(suspend_pendAny _).1, rfl, rfl, rfl⟩
    exact setTcb_wait (k := { k with rdy := k.rdy.erase q }) hset p

omit [DecidableEq ι] in
theorem taskResume_wait {k : Kernel ι μ} (q p : ℕ) :
    SameWait (k.tcb p) ((k.osTaskResume q).2.2.tcb p) := by
  have hset : SameWait (k.tcb q) { k.tcb q with stat := (k.tcb q).stat &&& ~~~osStatSuspend } :=
    ⟨(suspend_pendAny _).2, rfl, rfl, rfl⟩
  simp only [Kernel.osTaskResume]
  split_ifs
  · exact .of_eq rfl
  · exact setTcb_wait hset p
  · exact setTcb_wait hset p
  · exact .of_eq rfl

omit [DecidableEq ι] in
theorem timeTick_tcb_of_ne {k : Kernel ι μ} {q : ℕ} (hp : p ≠ q) :
    (k.osTimeTick q).tcb p = k.tcb p := by
  simp only [Kernel.osTimeTick]
  split_ifs <;> first | rfl | exact Kernel.setTcb_tcb_of_ne _ _ hp

omit [DecidableEq ι] in
theorem osSched_tcb (k : Kernel ι μ) : k.osSched.tcb = k.tcb := by
  unfold Kernel.osSched
  split_ifs <;> rfl

/-- A step which is not a tick of the task, nor a call of its own that begins or ends a
wait, at most hands a message to it. -/
theorem Sound.step_wait (h : Sound initial s) (l : Label ι μ) (hstep : System.step l s = some t)
    (hown : l.isWait = true → p ≠ s.kernel.cur) (htick : l ≠ .tick p) :
    SameWait (s.kernel.tcb p) (t.kernel.tcb p) ∨ Handed (s.kernel.tcb p) (t.kernel.tcb p) := by
  cases h.does hstep with
  | post hcan hr => exact posted_wait h.tables hr p
  | pend htask hl hr =>
      exact Or.inl (.of_eq (pended_wait hr (hown (Label.isWait_of_pendsOn hl))))
  | timeDly htask =>
      rw [beforeSched_kernel]
      exact Or.inl (.of_eq (timeDly_wait _ (hown rfl)))
  | suspend htask hp =>
      rw [beforeSched_kernel]
      exact Or.inl (taskSuspend_wait _ p)
  | resume htask =>
      rw [beforeSched_kernel]
      exact Or.inl (taskResume_wait _ p)
  | schedLock htask =>
      refine Or.inl (.of_eq ?_)
      unfold Kernel.osSchedLock
      split_ifs <;> rfl
  | schedUnlock htask =>
      refine Or.inl (.of_eq ?_)
      rw [beforeSched_kernel, Kernel.osSchedUnlock]
      split_ifs <;> rfl
  | sched hc => exact Or.inl (.of_eq (congrFun (osSched_tcb _) p))
  | finish hint hpc hends =>
      rw [finished_kernel]
      exact Or.inl (.of_eq (hends.others p (hown rfl)))
  | intEnter =>
      refine Or.inl (.of_eq ?_)
      change s.kernel.osIntEnter.tcb p = _
      unfold Kernel.osIntEnter
      split_ifs <;> rfl
  | tick hint hpresent =>
      exact Or.inl (.of_eq (timeTick_tcb_of_ne fun heq => htick (heq ▸ rfl)))
  | intExit => exact Or.inl (.of_eq (congrFun (osSched_tcb _) p))

theorem posted_frame {m : Option μ} {r : OsErr × Option ℕ × Kernel ι μ}
    (hr : Posts s.kernel e m r) : (s.posted e m r).kernel.present = s.kernel.present ∧
      (s.posted e m r).kernel.lockNesting = s.kernel.lockNesting := by
  cases hr with
  | refused err herr => simp [System.posted, herr]
  | handed hne hm =>
      simp only [System.posted, beforeSched_kernel]
      exact ⟨(osEventTaskRdy_frame m _).1, (osEventTaskRdy_frame m _).2.2.2⟩
  | stored hgrp ev hwaiters htype hstores => exact ⟨rfl, rfl⟩

theorem pended_present {r : PendStart μ × Kernel ι μ} (hr : Pends s.kernel e r) :
    (s.pended e r).kernel.present = s.kernel.present := by
  cases hr with
  | refused err herr => cases err <;> rfl
  | taken m ev hwaiters htype hstores => rfl
  | waits timeout hlock hempty => rfl

omit [DecidableEq ι] in
theorem osSched_frame (k : Kernel ι μ) :
    k.osSched.present = k.present ∧ k.osSched.lockNesting = k.lockNesting := by
  unfold Kernel.osSched
  split_ifs <;> exact ⟨rfl, rfl⟩

/-- No step creates or deletes a task. -/
theorem Sound.step_present (h : Sound initial s) (l : Label ι μ)
    (hstep : System.step l s = some t) : t.kernel.present = s.kernel.present := by
  cases h.does hstep with
  | post hcan hr => exact (posted_frame hr).1
  | pend htask hl hr => exact pended_present hr
  | timeDly | suspend | resume | schedUnlock =>
      rw [beforeSched_kernel]
      simp only [Kernel.osTimeDly, Kernel.osTaskSuspend, Kernel.osTaskResume,
        Kernel.osSchedUnlock]
      split_ifs <;> rfl
  | schedLock | tick | intEnter =>
      simp only [Kernel.osSchedLock, Kernel.osTimeTick, Kernel.osIntEnter]
      split_ifs <;> rfl
  | sched | intExit => exact (osSched_frame _).1
  | finish hint hpc hends => rw [finished_kernel, hends.present]

end Step

/-! ### Ticks -/

/-- A tick of this task. -/
def Label.isTick (p : ℕ) : Label ι μ → Bool
  | .tick q => q = p
  | _ => false

omit [DecidableEq ι] in
theorem timeTick_tcb_self (k : Kernel ι μ) (p : ℕ) :
    let t := k.tcb p
    (k.osTimeTick p).tcb p =
      if t.dly = 0 then t
      else if t.dly = 1 then
        if t.stat &&& osStatPendAny ≠ osStatRdy then
          { t with dly := 0, stat := t.stat &&& ~~~osStatPendAny, statPend := .timeout }
        else { t with dly := 0, statPend := .ok }
      else { t with dly := t.dly - 1 } := by
  simp only [Kernel.osTimeTick]
  split_ifs <;> first | rfl | omega | exact Kernel.setTcb_tcb_self _ _ _

/-- The wait of a pend call with timeout `n`, after `c` ticks. -/
inductive PendWait (n c : ℕ) (t : OsTcb ι μ) : Prop
  | waiting (hstat : t.stat &&& osStatPendAny ≠ osStatRdy) (hdly : t.dly = n - c)
      (hc : n = 0 ∨ c < n)
  | handed (hstat : t.stat &&& osStatPendAny = osStatRdy) (hpend : t.statPend = .ok)
      (hdly : t.dly = 0)
  | timedOut (hstat : t.stat &&& osStatPendAny = osStatRdy) (hpend : t.statPend = .timeout)
      (hdly : t.dly = 0) (hc : 0 < n ∧ n ≤ c)

section PendWait

variable {n c p : ℕ} {t t' : OsTcb ι μ} {k : Kernel ι μ}

omit [DecidableEq ι] in
theorem PendWait.same (h : PendWait n c t) (hsame : SameWait t t') : PendWait n c t' := by
  cases h with
  | waiting hstat hdly hc =>
      exact .waiting (hsame.stat ▸ hstat) (hsame.dly.trans hdly) hc
  | handed hstat hpend hdly =>
      exact .handed (hsame.stat.trans hstat) (hsame.statPend.trans hpend) (hsame.dly.trans hdly)
  | timedOut hstat hpend hdly hc =>
      exact .timedOut (hsame.stat.trans hstat) (hsame.statPend.trans hpend)
        (hsame.dly.trans hdly) hc

omit [DecidableEq ι] in
/-- The last tick ends the wait, and no other. -/
theorem PendWait.tick (h : PendWait n c (k.tcb p)) :
    PendWait n (c + 1) ((k.osTimeTick p).tcb p) := by
  rw [timeTick_tcb_self]
  cases h with
  | handed hstat hpend hdly =>
      rw [if_pos hdly]
      exact .handed hstat hpend hdly
  | timedOut hstat hpend hdly hc =>
      rw [if_pos hdly]
      exact .timedOut hstat hpend hdly (by omega)
  | waiting hstat hdly hc =>
      split_ifs with hzero hone
      · exact .waiting hstat (by omega) (by omega)
      · refine .timedOut ?_ rfl rfl (by omega)
        change (k.tcb p).stat &&& ~~~osStatPendAny &&& osStatPendAny = osStatRdy
        rw [BitVec.and_assoc]
        exact (congrArg _ (by decide)).trans (BitVec.and_zero)
      · exact .waiting hstat (show (k.tcb p).dly - 1 = _ by omega) (by omega)

end PendWait

section Runs

variable {initial : ι → List (Option μ)} {s t : System ι μ} {e : ι} {n c p : ℕ}

/-- The task does not return from its pend call. -/
def StaysIn (p : ℕ) (s : System ι μ) (l : Label ι μ) : Prop :=
  l = .finish → s.kernel.cur ≠ p

/-- A task in a pend call makes no other call. -/
theorem Sound.not_own (h : Sound initial s) (l : Label ι μ) (hstep : System.step l s = some t)
    (hp : (s.kernel.tcb p).eventPtr = some e) (hstay : StaysIn p s l) (hl : l.isWait = true) :
    p ≠ s.kernel.cur := by
  rintro rfl
  have htask : ¬ s.AtTask := fun htask => by simp [h.cur_event htask] at hp
  cases l with
  | qPend | semPend | timeDly =>
      exact htask (Option.ite_none_right_eq_some.mp hstep).1
  | finish => exact hstay rfl rfl
  | _ => cases hl

theorem Sound.pendWait_step (h : Sound initial s) (l : Label ι μ)
    (hstep : System.step l s = some t) (hp : (s.kernel.tcb p).eventPtr = some e)
    (hwait : PendWait n c (s.kernel.tcb p)) (hstay : StaysIn p s l) :
    (t.kernel.tcb p).eventPtr = some e ∧
      PendWait n (c + if l.isTick p then 1 else 0) (t.kernel.tcb p) := by
  by_cases htick : l = .tick p
  · subst htick
    obtain ⟨-, ⟨⟩⟩ := Option.ite_none_right_eq_some.mp hstep
    refine ⟨((quiet_timeTick h.tables p).eventPtr p).trans hp, ?_⟩
    simpa [Label.isTick] using hwait.tick
  · have hno : l.isTick p = false := by
      cases l with
      | tick q =>
          have hq : q ≠ p := fun heq => htick (heq ▸ rfl)
          simpa [Label.isTick] using hq
      | _ => rfl
    rw [hno]
    rcases h.step_wait l hstep (fun hl => h.not_own l hstep hp hstay hl) htick with hsame | hhand
    · exact ⟨hsame.eventPtr.trans hp, hwait.same hsame⟩
    · exact ⟨hhand.eventPtr.trans hp, .handed hhand.stat hhand.statPend hhand.dly⟩

theorem Sound.pendWait_run (h : Sound initial s) {ls : List (Label ι μ)}
    (hrun : Runs.run System.step s ls = some t) (hp : (s.kernel.tcb p).eventPtr = some e)
    (hwait : PendWait n c (s.kernel.tcb p)) (hstay : Runs.AllSteps System.step (StaysIn p) s ls) :
    (t.kernel.tcb p).eventPtr = some e ∧
      PendWait n (c + ls.countP (Label.isTick p)) (t.kernel.tcb p) ∧
      t.kernel.present = s.kernel.present := by
  induction ls generalizing s c with
  | nil =>
      obtain rfl := Option.some.inj hrun
      exact ⟨hp, hwait, rfl⟩
  | cons l ls ih =>
      obtain ⟨u, hu, hrest⟩ := Runs.run_cons_eq_some.mp hrun
      obtain ⟨hp', hwait'⟩ := h.pendWait_step l hu hp hwait hstay.1
      obtain ⟨hevent, hend, hpresent⟩ := ih (h.step l hu) hrest hp' hwait' (hstay.2 u hu)
      rw [List.countP_cons, Nat.add_comm (List.countP _ _), ← Nat.add_assoc]
      exact ⟨hevent, hend, hpresent.trans (h.step_present l hu)⟩

end Runs

/-! ### How a wait ends -/

/-- A task is ready, or it would be if it were not suspended. -/
def Kernel.IsUp (k : Kernel ι μ) (p : ℕ) : Prop :=
  k.Runnable p ∨ k.present p = true ∧ (k.tcb p).stat = osStatSuspend ∧ (k.tcb p).dly = 0

/-- A task in a pend call with timeout `n`, after `c` ticks.  When its time is over it
stays in the wait list until it runs. -/
inductive PendState (k : Kernel ι μ) (e : ι) (p n c : ℕ) : Prop
  | waiting (hmem : (k.event e).waiters.Mem p) (hrun : ¬ k.Runnable p)
      (hdly : (k.tcb p).dly = n - c) (hc : n = 0 ∨ c < n)
  | handed (m : Option μ) (hm : k.inHand p e = [m]) (hup : k.IsUp p)
  | timedOut (hmem : (k.event e).waiters.Mem p) (hpend : (k.tcb p).statPend = .timeout)
      (hup : k.IsUp p) (hc : 0 < n ∧ n ≤ c)

section PendState

variable {k : Kernel ι μ} {e : ι} {p n c : ℕ}

omit [DecidableEq ι] in
theorem TablesOk.isUp (h : TablesOk k) (hpresent : k.present p = true)
    (hstat : (k.tcb p).stat &&& osStatPendAny = osStatRdy) (hdly : (k.tcb p).dly = 0) :
    k.IsUp p := by
  obtain ⟨w, v, hok⟩ := h.tasks p
  rw [hok.stat, statOf_and_pendAny] at hstat
  subst hstat
  cases v with
  | false => exact Or.inl ⟨hpresent, hok.stat, hdly⟩
  | true => exact Or.inr ⟨hpresent, hok.stat, hdly⟩

theorem TablesOk.pendState (h : TablesOk k) (hevent : (k.tcb p).eventPtr = some e)
    (hpresent : k.present p = true) (hwait : PendWait n c (k.tcb p)) : PendState k e p n c := by
  obtain ⟨w, v, hok⟩ := h.tasks p
  cases hwait with
  | waiting hstat hdly hc =>
      refine .waiting ((hok.waits e).mpr ⟨hpresent, hevent, Or.inl ?_⟩) ?_ hdly hc
      · rwa [hok.stat, ne_eq, statOf_and_pendAny] at hstat
      · exact fun hrun => hstat (by rw [hrun.2.1]; decide)
  | handed hstat hpend hdly =>
      exact .handed _ (if_pos ⟨hevent, hstat, hpend⟩) (h.isUp hpresent hstat hdly)
  | timedOut hstat hpend hdly hc =>
      exact .timedOut ((hok.waits e).mpr ⟨hpresent, hevent, Or.inr hpend⟩) hpend
        (h.isUp hpresent hstat hdly) hc

end PendState

section Delay

variable {initial : ι → List (Option μ)} {s t : System ι μ} {n c p : ℕ}

theorem Sound.step_lock (h : Sound initial s) (l : Label ι μ)
    (hstep : System.step l s = some t) :
    t.kernel.lockNesting = s.kernel.lockNesting ∨ s.AtTask := by
  cases h.does hstep with
  | post hcan hr => exact Or.inl (posted_frame hr).2
  | pend htask | timeDly htask | suspend htask | resume htask | schedLock htask
  | schedUnlock htask => exact Or.inr htask
  | sched | intExit => exact Or.inl (osSched_frame _).2
  | finish hint hpc hends =>
      rw [finished_kernel]
      exact Or.inl hends.lock
  | intEnter =>
      left
      simp only [Kernel.osIntEnter]
      split_ifs <;> rfl
  | tick hint hpresent => exact Or.inl (osTimeTick_frame _ _).2.1

/-- A delay of the task, with `m` ticks to go. -/
structure Delayed (p m : ℕ) (s : System ι μ) : Prop where
  dly : (s.kernel.tcb p).dly = m
  eventPtr : (s.kernel.tcb p).eventPtr = none
  lock : s.kernel.cur = p → s.kernel.lockNesting = 0

/-- The task does nothing until its time is over. -/
theorem Delayed.not_atTask (hd : Delayed p n s) (h : Sound initial s) (hn : 0 < n)
    (htask : s.AtTask) : p ≠ s.kernel.cur := by
  rintro rfl
  obtain ⟨w, v, hok⟩ := h.tables.tasks s.kernel.cur
  have hready := (h.cur_isLeast htask (hd.lock rfl)).1
  have hdly := hd.dly
  rw [(hok.ready.mp hready).2.2.2] at hdly
  omega

theorem Delayed.step (hd : Delayed p n s) (h : Sound initial s) (hn : 0 < n) (l : Label ι μ)
    (hstep : System.step l s = some t) (htick : l ≠ .tick p) : Delayed p n t := by
  have hown : l.isWait = true → p ≠ s.kernel.cur := by
    intro hl
    cases l with
    | qPend | semPend | timeDly =>
        exact hd.not_atTask h hn (Option.ite_none_right_eq_some.mp hstep).1
    | finish =>
        rintro rfl
        obtain ⟨-, hmatch⟩ := Option.ite_none_right_eq_some.mp hstep
        split at hmatch
        · next f hpc =>
            have hevent := h.scheduled.pcs s.kernel.cur
            rw [hd.eventPtr, hpc] at hevent
            cases hevent
        · cases hmatch
    | _ => cases hl
  have hsame : SameWait (s.kernel.tcb p) (t.kernel.tcb p) :=
    (h.step_wait l hstep hown htick).resolve_right fun hhand => hhand.waited hd.eventPtr
  refine ⟨hsame.dly.trans hd.dly, hsame.eventPtr.trans hd.eventPtr, fun hcur => ?_⟩
  by_cases hne : t.kernel.cur = s.kernel.cur
  · rcases h.step_lock l hstep with hlock | htask
    · rw [hlock]
      exact hd.lock (hne ▸ hcur)
    · exact absurd (hne ▸ hcur).symm (hd.not_atTask h hn htask)
  · obtain ⟨-, -, hrun, -⟩ := h.switch l hstep hne
    have hdly := hsame.dly.trans hd.dly
    rw [← hcur, hrun.2.2] at hdly
    omega

theorem Delayed.tick (hd : Delayed p n s) (h : Sound initial s) (hn : 1 < n)
    (hstep : System.step (.tick p) s = some t) : Delayed p (n - 1) t := by
  obtain ⟨-, ⟨⟩⟩ := Option.ite_none_right_eq_some.mp hstep
  have hdly := hd.dly
  have hself := timeTick_tcb_self s.kernel p
  simp only [hdly, if_neg (show n ≠ 0 by omega), if_neg (show n ≠ 1 by omega)] at hself
  obtain ⟨-, hlock, hcur, -⟩ := osTimeTick_frame s.kernel p
  refine ⟨congrArg OsTcb.dly hself, ((quiet_timeTick h.tables p).eventPtr p).trans hd.eventPtr, ?_⟩
  intro heq
  exact hlock.trans (hd.lock (hcur ▸ heq))

/-- As long as there are ticks to go. -/
theorem Delayed.run (h : Sound initial s) {ls : List (Label ι μ)}
    (hrun : Runs.run System.step s ls = some t) (hd : Delayed p n s)
    (hc : ls.countP (Label.isTick p) < n) :
    Delayed p (n - ls.countP (Label.isTick p)) t ∧ t.kernel.present = s.kernel.present := by
  induction ls generalizing s n with
  | nil =>
      obtain rfl := Option.some.inj hrun
      exact ⟨hd, rfl⟩
  | cons l ls ih =>
      obtain ⟨u, hu, hrest⟩ := Runs.run_cons_eq_some.mp hrun
      have hpresent := h.step_present l hu
      by_cases htick : l.isTick p = true
      · rw [List.countP_cons_of_pos htick] at hc ⊢
        obtain rfl : l = .tick p := by
          cases l with
          | tick q => simpa [Label.isTick] using htick
          | _ => cases htick
        obtain ⟨hend, heq⟩ := ih (h.step _ hu) hrest (hd.tick h (by omega) hu) (by omega)
        rw [Nat.sub_sub, Nat.add_comm] at hend
        exact ⟨hend, heq.trans hpresent⟩
      · rw [List.countP_cons_of_neg htick] at hc ⊢
        have hne : l ≠ .tick p := by
          rintro rfl
          simp [Label.isTick] at htick
        obtain ⟨hend, heq⟩ := ih (h.step _ hu) hrest (hd.step h (by omega) l hu hne) hc
        exact ⟨hend, heq.trans hpresent⟩

end Delay

section Exact

variable (ts : TaskSet) (cs : ι → Creation) {ls₀ ls : List (Label ι μ)} {s t u : System ι μ}
  {e : ι} {n : ℕ}

theorem osQPend_dly (k : Kernel ι μ) (e : ι) (n : ℕ) (h : (k.osQPend e n).1 = .waits) :
    ((k.osQPend e n).2.tcb k.cur).dly = n := by
  simp only [Kernel.osQPend] at h ⊢
  split_ifs at h ⊢
  exact congrArg OsTcb.dly (pendWait_tcb_self _ _)

theorem osSemPend_dly (k : Kernel ι μ) (e : ι) (n : ℕ) (h : (k.osSemPend e n).1 = .waits) :
    ((k.osSemPend e n).2.tcb k.cur).dly = n := by
  simp only [Kernel.osSemPend] at h ⊢
  split_ifs at h ⊢
  exact congrArg OsTcb.dly (pendWait_tcb_self _ _)

theorem Sound.pended_begins {initial : ι → List (Option μ)} (h : Sound initial s) (htask : s.AtTask)
    {r : PendStart μ × Kernel ι μ} (hr : Pends s.kernel e r) (hn : r.1 = .waits →
      (r.2.tcb s.kernel.cur).dly = n) (hwait : (s.pended e r).pc s.kernel.cur = .blocked e false) :
    s.kernel.present s.kernel.cur = true ∧
      ((s.pended e r).kernel.tcb s.kernel.cur).eventPtr = some e ∧
      PendWait n 0 ((s.pended e r).kernel.tcb s.kernel.cur) := by
  have hrun : s.pc s.kernel.cur ≠ .blocked e false := by
    rw [htask.2.1]
    exact fun hno => by cases hno
  cases hr with
  | refused err herr => cases err <;> exact absurd hwait hrun
  | taken m ev hwaiters htype hstores => exact absurd hwait hrun
  | waits timeout hlock hempty =>
      obtain ⟨w, v, hok⟩ := h.tables.tasks s.kernel.cur
      obtain ⟨hpresent, rfl, rfl, -⟩ := hok.ready.mp (h.cur_isLeast htask hlock).1
      have hself := pendWait_tcb_self (k := s.kernel) (e := e) (s.kernel.event e).type.stat timeout
      refine ⟨hpresent, congrArg OsTcb.eventPtr hself, .waiting ?_ (hn rfl) (by omega)⟩
      refine fun hno => ?_
      have hstat := (congrArg (fun t => OsTcb.stat t &&& osStatPendAny) hself).symm.trans hno
      simp only [hok.stat, statOf_wait, statOf_and_pendAny] at hstat
      cases hstat

/-- A pend call that has to wait, with timeout `n`, after `c` ticks of its task: it
waits as long as `n = 0` or `c < n` and nothing has been handed to it, it has a message
or else it times out when `n` ticks are over, in every order of the steps. -/
theorem pend_timeout_exact (h : Runs.run System.step (ts.start cs) ls₀ = some s)
    {l : Label ι μ} (hl : l = .qPend e n ∨ l = .semPend e n)
    (hbegin : System.step l s = some u) (hwait : u.pc s.kernel.cur = .blocked e false)
    (hrun : Runs.run System.step u ls = some t)
    (hstay : Runs.AllSteps System.step (StaysIn s.kernel.cur) u ls) :
    PendState t.kernel e s.kernel.cur n (ls.countP (Label.isTick s.kernel.cur)) := by
  have hs := ts.sound_of_run cs h
  have hu := hs.step l hbegin
  have ht := Runs.invariant (fun _ l _ hs hstep => hs.step l hstep) hu hrun
  have hpresent := hs.step_present l hbegin
  have hstart : s.kernel.present s.kernel.cur = true ∧
      (u.kernel.tcb s.kernel.cur).eventPtr = some e ∧
      PendWait n 0 (u.kernel.tcb s.kernel.cur) := by
    rcases hl with rfl | rfl
    · obtain ⟨htask, ⟨⟩⟩ := Option.ite_none_right_eq_some.mp hbegin
      exact hs.pended_begins htask (osQPend_pends _ e n) (osQPend_dly _ e n) hwait
    · obtain ⟨htask, ⟨⟩⟩ := Option.ite_none_right_eq_some.mp hbegin
      exact hs.pended_begins htask (osSemPend_pends _ e n) (osSemPend_dly _ e n) hwait
  obtain ⟨hself, hevent, hpend⟩ := hstart
  obtain ⟨hevent', hpend', hpresent'⟩ := hu.pendWait_run hrun hevent hpend hstay
  rw [Nat.zero_add] at hpend'
  exact ht.tables.pendState hevent' (by rw [hpresent', hpresent, hself]) hpend'

theorem pend_timeout_exact_two : ∃ t, Runs.run System.step twoTasks
    [.qPend () 2, .sched, .intEnter, .tick 8, .tick 8, .intExit] = some t ∧
      PendState t.kernel () 8 2 2 := by
  obtain ⟨t, ht⟩ := Option.isSome_iff_exists.mp (show (Runs.run System.step twoTasks
    [.qPend () 2, .sched, .intEnter, .tick 8, .tick 8, .intExit]).isSome by decide +kernel)
  obtain ⟨u, hu, hrest⟩ := Runs.run_cons_eq_some.mp ht
  have hpc : (System.step (.qPend () 2) twoTasks).map (fun u => u.pc 8) =
      some (.blocked () false) := by decide +kernel
  rw [hu] at hpc
  have hstay : Runs.AllSteps System.step (fun s (l : Label Unit ℕ) =>
      l = .finish → s.kernel.cur ≠ 8) twoTasks
      [.qPend () 2, .sched, .intEnter, .tick 8, .tick 8, .intExit] := by decide +kernel
  have hcur : twoTasks.kernel.cur = 8 := by decide +kernel
  have hstate := pend_timeout_exact _ _ (Runs.run_nil System.step twoTasks) (Or.inl rfl) hu
    (by rw [hcur]; exact Option.some.inj hpc) hrest (by rw [hcur]; exact hstay.2 u hu)
  rw [hcur] at hstate
  exact ⟨t, ht, hstate⟩

/-- `OSTimeDly` with `n` ticks, outside a lock: whatever the other tasks and the
interrupts do, the task does not run for `n - 1` of its ticks, and the next one
makes it ready. -/
theorem timeDly_exact (h : Runs.run System.step (ts.start cs) ls₀ = some s)
    (hlock : s.kernel.lockNesting = 0) (hbegin : System.step (.timeDly n) s = some u)
    (hrun : Runs.run System.step u ls = some t)
    (hc : ls.countP (Label.isTick s.kernel.cur) < n) :
    (t.kernel.tcb s.kernel.cur).dly = n - ls.countP (Label.isTick s.kernel.cur) ∧
      ¬ t.kernel.Runnable s.kernel.cur ∧
      ∀ v, System.step (.tick s.kernel.cur) t = some v →
        ls.countP (Label.isTick s.kernel.cur) + 1 = n → v.kernel.IsUp s.kernel.cur := by
  have hs := ts.sound_of_run cs h
  have hu := hs.step _ hbegin
  have ht := Runs.invariant (fun _ l _ hs hstep => hs.step l hstep) hu hrun
  have hpresent := hs.step_present _ hbegin
  set p := s.kernel.cur with hp
  obtain ⟨htask, ⟨⟩⟩ := Option.ite_none_right_eq_some.mp hbegin
  have hself : s.kernel.present p = true := by
    obtain ⟨w, v, hok⟩ := hs.tables.tasks p
    exact (hok.ready.mp (hs.cur_isLeast htask hlock).1).1
  have heq : s.kernel.osTimeDly n = (true, ({ s.kernel with rdy := s.kernel.rdy.erase p } :
      Kernel ι μ).setTcb p { s.kernel.tcb p with dly := n }) := by
    rw [Kernel.osTimeDly, if_neg (by have := htask.1; omega), if_pos (by omega)]
  have hd : Delayed p n (({ s with kernel := (s.kernel.osTimeDly n).2 } :
      System ι μ).beforeSched (s.kernel.osTimeDly n).1) := by
    constructor <;> rw [beforeSched_kernel, heq]
    · exact congrArg OsTcb.dly (Kernel.setTcb_tcb_self _ _ _)
    · exact (congrArg OsTcb.eventPtr (Kernel.setTcb_tcb_self _ _ _)).trans (hs.cur_event htask)
    · exact fun _ => hlock
  obtain ⟨hend, hpresent'⟩ := hd.run hu hrun hc
  refine ⟨hend.dly, fun hrunnable => ?_, fun v hv hone => ?_⟩
  · have hdly := hend.dly
    rw [hrunnable.2.2] at hdly
    omega
  · obtain ⟨w, b, hok⟩ := ht.tables.tasks p
    have hv' := ht.step _ hv
    obtain ⟨-, ⟨⟩⟩ := Option.ite_none_right_eq_some.mp hv
    have hstat : (t.kernel.tcb p).stat &&& osStatPendAny = osStatRdy := by
      rw [hok.stat, statOf_and_pendAny]
      rcases w with _ | ty
      · rfl
      · obtain ⟨e, he, -⟩ := hok.type ty rfl
        rw [hend.eventPtr] at he
        cases he
    have htick := timeTick_tcb_self t.kernel p
    have hdly : (t.kernel.tcb p).dly = 1 := by rw [hend.dly]; omega
    simp only [hdly, one_ne_zero, if_true, if_false, hstat, ne_eq, not_true_eq_false] at htick
    refine hv'.tables.isUp ?_ ?_ (congrArg OsTcb.dly htick)
    · rw [ht.step_present _ hv, hpresent', hpresent, hself]
    · exact (congrArg (fun t => OsTcb.stat t &&& osStatPendAny) htick).trans hstat

theorem timeDly_exact_two : ∃ t, Runs.run System.step twoTasks
    [.timeDly 2, .sched, .intEnter, .tick 8] = some t ∧
      (t.kernel.tcb 8).dly = 1 ∧ ¬ t.kernel.Runnable 8 := by
  obtain ⟨t, ht⟩ := Option.isSome_iff_exists.mp (show (Runs.run System.step twoTasks
    [.timeDly 2, .sched, .intEnter, .tick 8]).isSome by decide +kernel)
  obtain ⟨u, hu, hrest⟩ := Runs.run_cons_eq_some.mp ht
  have hcur : twoTasks.kernel.cur = 8 := by decide +kernel
  obtain ⟨hdly, hrun, -⟩ := timeDly_exact _ _ (Runs.run_nil System.step twoTasks)
    (by decide +kernel) hu hrest (by rw [hcur]; decide)
  rw [hcur] at hdly hrun
  exact ⟨t, ht, hdly, hrun⟩

end Exact

end YckjAcu.Ucos
