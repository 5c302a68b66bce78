import YckjAcu.Ucos

/-!
# The control blocks and the tables

For every task the ready list and the wait lists say the same as its control
block, and every call keeps this.
-/

namespace YckjAcu.Ucos

open PriorityTable

variable {ι μ : Type}

/-! ### The status byte -/

/-- The status of a task that waits for an event of type `w`, if any, and that is
suspended or not. -/
def statOf (w : Option OsEventType) (s : Bool) : OsStat :=
  w.elim osStatRdy OsEventType.stat ||| if s then osStatSuspend else osStatRdy

section Status

variable (w : Option OsEventType) (s : Bool) (t : OsEventType)

theorem statOf_eq_rdy : statOf w s = osStatRdy ↔ w = none ∧ s = false := by
  rcases w with _ | t <;> cases s <;> first | decide | (cases t <;> decide)

theorem statOf_and_suspend : statOf w s &&& osStatSuspend = osStatRdy ↔ s = false := by
  rcases w with _ | t <;> cases s <;> first | decide | (cases t <;> decide)

theorem statOf_and_pendAny : statOf w s &&& osStatPendAny = osStatRdy ↔ w = none := by
  rcases w with _ | t <;> cases s <;> first | decide | (cases t <;> decide)

theorem statOf_clear : statOf (some t) s &&& ~~~t.stat = statOf none s := by
  cases t <;> cases s <;> decide

theorem statOf_clear_none : statOf none s &&& ~~~t.stat = statOf none s := by
  cases t <;> cases s <;> decide

theorem statOf_clear_any : statOf w s &&& ~~~osStatPendAny = statOf none s := by
  rcases w with _ | t <;> cases s <;> first | decide | (cases t <;> decide)

theorem statOf_wait : statOf none s ||| t.stat = statOf (some t) s := by
  cases t <;> cases s <;> decide

theorem statOf_suspend : statOf w s ||| osStatSuspend = statOf w true := by
  rcases w with _ | t <;> cases s <;> first | decide | (cases t <;> decide)

theorem statOf_resume : statOf w s &&& ~~~osStatSuspend = statOf w false := by
  rcases w with _ | t <;> cases s <;> first | decide | (cases t <;> decide)

end Status

/-! ### Fields after an update -/

namespace Kernel

section Fields

variable (k : Kernel ι μ) (p q : ℕ) (t : OsTcb ι μ)

@[simp] theorem setTcb_tcb_self : (k.setTcb p t).tcb p = t := Function.update_self _ _ _
@[simp] theorem setTcb_rdy : (k.setTcb p t).rdy = k.rdy := rfl
@[simp] theorem setTcb_event : (k.setTcb p t).event = k.event := rfl
@[simp] theorem setTcb_present : (k.setTcb p t).present = k.present := rfl
@[simp] theorem setTcb_cur : (k.setTcb p t).cur = k.cur := rfl
@[simp] theorem setTcb_intNesting : (k.setTcb p t).intNesting = k.intNesting := rfl
@[simp] theorem setTcb_lockNesting : (k.setTcb p t).lockNesting = k.lockNesting := rfl

theorem setTcb_tcb_of_ne {p q : ℕ} (h : q ≠ p) : (k.setTcb p t).tcb q = k.tcb q :=
  Function.update_of_ne h _ _

variable [DecidableEq ι] (e f : ι) (ev : OsEvent μ) (w : OsPrioTbl)

@[simp] theorem setEvent_event_self : (k.setEvent e ev).event e = ev := Function.update_self _ _ _
@[simp] theorem setEvent_rdy : (k.setEvent e ev).rdy = k.rdy := rfl
@[simp] theorem setEvent_tcb : (k.setEvent e ev).tcb = k.tcb := rfl
@[simp] theorem setEvent_present : (k.setEvent e ev).present = k.present := rfl
@[simp] theorem setEvent_cur : (k.setEvent e ev).cur = k.cur := rfl
@[simp] theorem setEvent_intNesting : (k.setEvent e ev).intNesting = k.intNesting := rfl
@[simp] theorem setEvent_lockNesting : (k.setEvent e ev).lockNesting = k.lockNesting := rfl
@[simp] theorem setWaiters_rdy : (k.setWaiters e w).rdy = k.rdy := rfl
@[simp] theorem setWaiters_tcb : (k.setWaiters e w).tcb = k.tcb := rfl
@[simp] theorem setWaiters_present : (k.setWaiters e w).present = k.present := rfl
@[simp] theorem setWaiters_cur : (k.setWaiters e w).cur = k.cur := rfl
@[simp] theorem setWaiters_intNesting : (k.setWaiters e w).intNesting = k.intNesting := rfl
@[simp] theorem setWaiters_lockNesting : (k.setWaiters e w).lockNesting = k.lockNesting := rfl

variable {e f}

theorem setEvent_event_of_ne (h : f ≠ e) : (k.setEvent e ev).event f = k.event f :=
  Function.update_of_ne h _ _

theorem setWaiters_event_self :
    (k.setWaiters e w).event e = { k.event e with waiters := w } := Function.update_self _ _ _

theorem setWaiters_event_of_ne (h : f ≠ e) : (k.setWaiters e w).event f = k.event f :=
  Function.update_of_ne h _ _

/-- Wait lists have no part in the rest of an event. -/
theorem setWaiters_type : ((k.setWaiters e w).event f).type = (k.event f).type := by
  by_cases h : f = e
  · subst h
    rw [setWaiters_event_self]
  · rw [setWaiters_event_of_ne _ _ h]

end Fields

end Kernel

/-! ### What holds of a task -/

/-- The control block of a task that waits for an event of type `w`, if any, and
is suspended or not, agrees with the tables.  A task whose time is over stays in
the wait list until it runs again. -/
structure TaskOk (k : Kernel ι μ) (p : ℕ) (w : Option OsEventType) (s : Bool) : Prop where
  stat : (k.tcb p).stat = statOf w s
  ready : k.rdy.Mem p ↔ k.present p = true ∧ w = none ∧ s = false ∧ (k.tcb p).dly = 0
  waits (e : ι) : (k.event e).waiters.Mem p ↔
    k.present p = true ∧ (k.tcb p).eventPtr = some e ∧ (w ≠ none ∨ (k.tcb p).statPend = .timeout)
  type (t : OsEventType) : w = some t →
    ∃ e, (k.tcb p).eventPtr = some e ∧ (k.event e).type = t
  statPend : (k.tcb p).statPend ≠ .abort
  idle : (k.tcb p).eventPtr = none → (k.tcb p).statPend = .ok
  dly : (k.tcb p).eventPtr ≠ none → w = none → (k.tcb p).dly = 0

structure TablesOk (k : Kernel ι μ) : Prop where
  rdy : k.rdy.Coherent
  waiters (e : ι) : (k.event e).waiters.Coherent
  present (p : ℕ) : k.present p = true → p < 64
  tasks (p : ℕ) : ∃ w s, TaskOk k p w s

section Frame

variable {k k' : Kernel ι μ} {p : ℕ} {w : Option OsEventType} {s : Bool}

theorem TaskOk.congr (h : TaskOk k p w s) (htcb : k'.tcb p = k.tcb p)
    (hpresent : k'.present = k.present) (hrdy : k'.rdy.Mem p ↔ k.rdy.Mem p)
    (hwaits : ∀ e, (k'.event e).waiters.Mem p ↔ (k.event e).waiters.Mem p)
    (htype : ∀ e, (k'.event e).type = (k.event e).type) : TaskOk k' p w s where
  stat := by rw [htcb, h.stat]
  ready := by rw [hrdy, h.ready, hpresent, htcb]
  waits e := by rw [hwaits, h.waits, hpresent, htcb]
  type t ht := by
    obtain ⟨e, he, htypee⟩ := h.type t ht
    exact ⟨e, by rw [htcb, he], by rw [htype, htypee]⟩
  statPend := by rw [htcb]; exact h.statPend
  idle := by rw [htcb]; exact h.idle
  dly := by rw [htcb]; exact h.dly

/-- A waiting task waits for one event only, and the status is of its type. -/
theorem TaskOk.eq_none_or (h : TaskOk k p w s) {e : ι} (he : (k.tcb p).eventPtr = some e) :
    w = none ∨ w = some (k.event e).type := by
  rcases w with _ | t
  · exact Or.inl rfl
  · obtain ⟨f, hf, ht⟩ := h.type t rfl
    obtain rfl : f = e := Option.some.inj (hf.symm.trans he)
    exact Or.inr (congrArg some ht.symm)

/-- A call that changes one task and its places in the tables. -/
theorem TablesOk.change (h : TablesOk k) (hpresent : k'.present = k.present)
    (hrdy : k'.rdy.Coherent) (hwaiters : ∀ e, (k'.event e).waiters.Coherent)
    (htype : ∀ e, (k'.event e).type = (k.event e).type)
    (hothers : ∀ q, q ≠ p → k'.tcb q = k.tcb q ∧ (k'.rdy.Mem q ↔ k.rdy.Mem q) ∧
      ∀ e, (k'.event e).waiters.Mem q ↔ (k.event e).waiters.Mem q)
    (hself : TaskOk k' p w s) : TablesOk k' where
  rdy := hrdy
  waiters := hwaiters
  present q hq := h.present q (by rwa [← hpresent])
  tasks q := by
    by_cases hqp : q = p
    · subst hqp
      exact ⟨w, s, hself⟩
    · obtain ⟨w', s', hq⟩ := h.tasks q
      obtain ⟨htcb, hready, hwaits⟩ := hothers q hqp
      exact ⟨w', s', hq.congr htcb hpresent hready hwaits htype⟩

end Frame

section Tables

variable [DecidableEq ι] {k : Kernel ι μ} {e : ι} {p : ℕ}

omit [DecidableEq ι] in
theorem TablesOk.highest_isLeast (h : TablesOk k) (hne : (k.event e).waiters.grp ≠ 0) :
    IsLeast {q | (k.event e).waiters.Mem q} (highest (k.event e).waiters) :=
  (h.waiters e).first_isLeast unMap_findsLowest unMap_findsLowest hne

theorem mem_setWaiters_erase {f : ι} {q : ℕ} (k : Kernel ι μ) :
    ((k.osEventTaskRemove p e).event f).waiters.Mem q ↔
      (f = e → q ≠ p) ∧ (k.event f).waiters.Mem q := by
  by_cases hf : f = e
  · subst hf
    rw [Kernel.osEventTaskRemove, Kernel.setWaiters_event_self, mem_erase (by decide)]
    simp
  · rw [Kernel.osEventTaskRemove, Kernel.setWaiters_event_of_ne _ _ hf]
    simp [hf]

theorem coherent_setWaiters {w : OsPrioTbl} (hw : w.Coherent)
    (h : ∀ f, (k.event f).waiters.Coherent) (f : ι) :
    ((k.setWaiters e w).event f).waiters.Coherent := by
  by_cases hf : f = e
  · subst hf
    rwa [Kernel.setWaiters_event_self]
  · rw [Kernel.setWaiters_event_of_ne _ _ hf]
    exact h f

theorem osEventTaskRdy_tcb_self (m : Option μ) (msk : OsStat) :
    let p := highest (k.event e).waiters
    (k.osEventTaskRdy e m msk .ok).2.tcb p =
      { k.tcb p with dly := 0, msg := m, stat := (k.tcb p).stat &&& ~~~msk, statPend := .ok } := by
  simp only [Kernel.osEventTaskRdy, Kernel.osEventTaskRemove]
  split_ifs <;> simp

theorem osEventTaskRdy_tcb_of_ne (m : Option μ) (msk : OsStat) {q : ℕ}
    (hq : q ≠ highest (k.event e).waiters) :
    (k.osEventTaskRdy e m msk .ok).2.tcb q = k.tcb q := by
  simp only [Kernel.osEventTaskRdy, Kernel.osEventTaskRemove]
  split_ifs <;> simp [Kernel.setTcb_tcb_of_ne _ _ hq]

theorem osEventTaskRdy_event (m : Option μ) (msk : OsStat) (f : ι) :
    (k.osEventTaskRdy e m msk .ok).2.event f =
      (k.osEventTaskRemove (highest (k.event e).waiters) e).event f := by
  simp only [Kernel.osEventTaskRdy]
  split_ifs <;> rfl

theorem osEventTaskRdy_rdy (m : Option μ) (msk : OsStat) :
    let p := highest (k.event e).waiters
    (k.osEventTaskRdy e m msk .ok).2.rdy =
      if (k.tcb p).stat &&& ~~~msk &&& osStatSuspend = osStatRdy then k.rdy.insert p
      else k.rdy := by
  simp only [Kernel.osEventTaskRdy, Kernel.osEventTaskRemove]
  split_ifs <;> rfl

theorem osEventTaskRdy_frame (m : Option μ) (msk : OsStat) :
    let k' := (k.osEventTaskRdy e m msk .ok).2
    k'.present = k.present ∧ k'.cur = k.cur ∧ k'.intNesting = k.intNesting ∧
      k'.lockNesting = k.lockNesting := by
  simp only [Kernel.osEventTaskRdy, Kernel.osEventTaskRemove]
  split_ifs <;> exact ⟨rfl, rfl, rfl, rfl⟩

theorem TablesOk.eventTaskRdy (h : TablesOk k) (hne : (k.event e).waiters.grp ≠ 0)
    (m : Option μ) : TablesOk (k.osEventTaskRdy e m (k.event e).type.stat .ok).2 := by
  obtain ⟨hmem, -⟩ := h.highest_isLeast hne
  set p := highest (k.event e).waiters with hp
  obtain ⟨w, s, hok⟩ := h.tasks p
  obtain ⟨hpresent, hevent, -⟩ := (hok.waits e).mp hmem
  have hstat : (k.tcb p).stat &&& ~~~(k.event e).type.stat = statOf none s := by
    rw [hok.stat]
    rcases hok.eq_none_or hevent with rfl | rfl
    · exact statOf_clear_none s _
    · exact statOf_clear s _
  have hrdy : (k.osEventTaskRdy e m (k.event e).type.stat .ok).2.rdy =
      if s = false then k.rdy.insert p else k.rdy := by
    rw [osEventTaskRdy_rdy, ← hp, hstat]
    simp only [statOf_and_suspend]
  have hlt : p / 8 < 8 := by have := h.present p hpresent; omega
  have htype : ∀ f, ((k.osEventTaskRdy e m (k.event e).type.stat .ok).2.event f).type =
      (k.event f).type := by
    intro f
    rw [osEventTaskRdy_event, Kernel.osEventTaskRemove, Kernel.setWaiters_type]
  have hwaits : ∀ f q, ((k.osEventTaskRdy e m (k.event e).type.stat .ok).2.event f).waiters.Mem q ↔
      (f = e → q ≠ p) ∧ (k.event f).waiters.Mem q := by
    intro f q
    rw [osEventTaskRdy_event, mem_setWaiters_erase]
  refine h.change (osEventTaskRdy_frame m _).1 ?_ ?_ htype ?_ (w := none) (s := s) (p := p) ?_
  · rw [hrdy]
    split_ifs
    · exact h.rdy.insert (by decide) hlt
    · exact h.rdy
  · intro f
    rw [osEventTaskRdy_event]
    exact coherent_setWaiters (h.waiters e).erase h.waiters f
  · intro q hq
    refine ⟨osEventTaskRdy_tcb_of_ne m _ hq, ?_, fun f => ?_⟩
    · rw [hrdy]
      split_ifs
      · rw [mem_insert (by decide), or_iff_right hq]
      · exact Iff.rfl
    · rw [hwaits, and_iff_right fun _ => hq]
  · have htcb : (k.osEventTaskRdy e m (k.event e).type.stat .ok).2.tcb p =
        { k.tcb p with dly := 0, msg := m, stat := statOf none s, statPend := .ok } := by
      rw [← hstat]
      exact osEventTaskRdy_tcb_self m _
    constructor
    · rw [htcb]
    · rw [hrdy, htcb, (osEventTaskRdy_frame m _).1]
      cases s with
      | false => simp [mem_insert, hpresent]
      | true => simp [hok.ready]
    · intro f
      rw [hwaits, htcb, hok.waits]
      simp only [hevent, Option.some.injEq]
      constructor
      · rintro ⟨hne', -, rfl, -⟩
        exact absurd rfl (hne' rfl)
      · rintro ⟨-, -, hno | hno⟩ <;> simp at hno
    · simp
    · simp [htcb]
    · simp [htcb]
    · simp [htcb]

theorem osEventTaskWait_event (f : ι) :
    (k.osEventTaskWait e).event f =
      if f = e then { k.event e with waiters := (k.event e).waiters.insert k.cur }
      else k.event f := by
  split_ifs with hf
  · subst hf
    exact Kernel.setWaiters_event_self _ _
  · exact Kernel.setWaiters_event_of_ne _ _ hf

theorem pendWait_event (msk : OsStat) (timeout : ℕ) (f : ι) :
    (k.pendWait e msk timeout).event f =
      if f = e then { k.event e with waiters := (k.event e).waiters.insert k.cur }
      else k.event f := osEventTaskWait_event f

theorem pendWait_tcb_self (msk : OsStat) (timeout : ℕ) :
    (k.pendWait e msk timeout).tcb k.cur = { k.tcb k.cur with
      stat := (k.tcb k.cur).stat ||| msk, statPend := .ok, dly := timeout, eventPtr := some e } := by
  simp [Kernel.pendWait, Kernel.osEventTaskWait]

theorem pendWait_tcb_of_ne (msk : OsStat) (timeout : ℕ) {q : ℕ} (hq : q ≠ k.cur) :
    (k.pendWait e msk timeout).tcb q = k.tcb q := by
  simp [Kernel.pendWait, Kernel.osEventTaskWait, Kernel.setTcb_tcb_of_ne, hq]

/-- The current task, which is ready and in no call, starts to wait. -/
theorem TablesOk.pendWait (h : TablesOk k) (hready : k.rdy.Mem k.cur)
    (hidle : (k.tcb k.cur).eventPtr = none) (timeout : ℕ) :
    TablesOk (k.pendWait e (k.event e).type.stat timeout) := by
  obtain ⟨w, s, hok⟩ := h.tasks k.cur
  obtain ⟨hpresent, rfl, rfl, hdly⟩ := hok.ready.mp hready
  have hlt : k.cur / 8 < 8 := by have := h.present k.cur hpresent; omega
  have hevent := fun f => pendWait_event (k := k) (e := e) (k.event e).type.stat timeout f
  have htype : ∀ f, ((k.pendWait e (k.event e).type.stat timeout).event f).type =
      (k.event f).type := by
    intro f
    rw [hevent]
    split_ifs with hf
    · rw [hf]
    · rfl
  have hwaits : ∀ f q, ((k.pendWait e (k.event e).type.stat timeout).event f).waiters.Mem q ↔
      (f = e ∧ q = k.cur) ∨ (k.event f).waiters.Mem q := by
    intro f q
    rw [hevent]
    split_ifs with hf
    · subst hf
      rw [mem_insert (by decide)]
      simp
    · simp [hf]
  refine h.change rfl h.rdy.erase ?_ htype ?_ (w := some (k.event e).type) (s := false)
    (p := k.cur) ?_
  · intro f
    rw [hevent]
    split_ifs
    · exact (h.waiters e).insert (by decide) hlt
    · exact h.waiters f
  · intro q hq
    refine ⟨?_, ?_, fun f => ?_⟩
    · exact pendWait_tcb_of_ne _ _ hq
    · exact (mem_erase (by decide)).trans (and_iff_right hq)
    · rw [hwaits]
      simp [hq]
  · have htcb : (k.pendWait e (k.event e).type.stat timeout).tcb k.cur =
        { k.tcb k.cur with
          stat := statOf (some (k.event e).type) false, statPend := .ok, dly := timeout
          eventPtr := some e } := by
      rw [← statOf_wait, ← hok.stat]
      exact pendWait_tcb_self _ _
    constructor
    · rw [htcb]
    · refine iff_of_false (fun hmem => ?_) (by simp)
      exact ((mem_erase (by decide)).mp hmem).1 rfl
    · intro f
      rw [hwaits, htcb, hok.waits]
      simp only [hidle, reduceCtorEq, false_and, and_false, or_false, and_true, Option.some.injEq]
      constructor
      · rintro rfl
        exact ⟨hpresent, rfl, Option.some_ne_none _⟩
      · rintro ⟨-, rfl, -⟩
        rfl
    · intro t ht
      refine ⟨e, by rw [htcb], ?_⟩
      rw [htype]
      exact Option.some.inj ht
    · simp [htcb]
    · simp [htcb]
    · simp

omit [DecidableEq ι] in
/-- A call that changes the control block of one task and its place in the ready
list. -/
theorem TablesOk.changeReady {k' : Kernel ι μ} {w : Option OsEventType} {s : Bool}
    (h : TablesOk k) (hpresent : k'.present = k.present) (hevent : k'.event = k.event)
    (hrdy : k'.rdy.Coherent)
    (hothers : ∀ q, q ≠ p → k'.tcb q = k.tcb q ∧ (k'.rdy.Mem q ↔ k.rdy.Mem q))
    (hself : TaskOk k' p w s) : TablesOk k' :=
  h.change hpresent hrdy (by rw [hevent]; exact h.waiters) (by simp [hevent])
    (fun q hq => ⟨(hothers q hq).1, (hothers q hq).2, by simp [hevent]⟩) hself

omit [DecidableEq ι] in
/-- What a task waits for and its place in the wait lists do not change. -/
theorem TaskOk.setTcb {w : Option OsEventType} {s s' : Bool} {t : OsTcb ι μ} {r : OsPrioTbl}
    (h : TaskOk k p w s) (hstat : t.stat = statOf w s') (hstatPend : t.statPend = (k.tcb p).statPend)
    (hevent : t.eventPtr = (k.tcb p).eventPtr)
    (hdly : t.eventPtr ≠ none → w = none → t.dly = 0)
    (hready : r.Mem p ↔ k.present p = true ∧ w = none ∧ s' = false ∧ t.dly = 0) :
    TaskOk { k.setTcb p t with rdy := r } p w s' := by
  have htcb : ({ k.setTcb p t with rdy := r } : Kernel ι μ).tcb p = t := Function.update_self _ _ _
  constructor
  · rw [htcb, hstat]
  · rw [htcb]
    exact hready
  · intro e
    rw [htcb, hevent, hstatPend]
    exact h.waits e
  · rw [htcb, hevent]
    exact h.type
  · rw [htcb, hstatPend]
    exact h.statPend
  · rw [htcb, hevent, hstatPend]
    exact h.idle
  · rw [htcb]
    exact hdly

omit [DecidableEq ι] in
theorem TablesOk.setTcbRdy {w : Option OsEventType} {s : Bool} {t : OsTcb ι μ} {r : OsPrioTbl}
    (h : TablesOk k) (hr : r.Coherent) (hothers : ∀ q, q ≠ p → (r.Mem q ↔ k.rdy.Mem q))
    (hself : TaskOk { k.setTcb p t with rdy := r } p w s) :
    TablesOk { k.setTcb p t with rdy := r } := by
  refine h.changeReady ?_ ?_ hr (fun q hq => ⟨Function.update_of_ne hq _ _, hothers q hq⟩) hself
  · rfl
  · rfl

omit [DecidableEq ι] in
/-- The current task, which is ready and in no call, is delayed. -/
theorem TablesOk.timeDly (h : TablesOk k) (hready : k.rdy.Mem k.cur)
    (hidle : (k.tcb k.cur).eventPtr = none) (ticks : ℕ) : TablesOk (k.osTimeDly ticks).2 := by
  unfold Kernel.osTimeDly
  split_ifs with hnest hticks
  · exact h
  · obtain ⟨w, s, hok⟩ := h.tasks k.cur
    obtain ⟨-, rfl, rfl, -⟩ := hok.ready.mp hready
    refine h.setTcbRdy h.rdy.erase (fun q hq => (mem_erase (by decide)).trans (and_iff_right hq))
      (w := none) (s := false) (hok.setTcb hok.stat rfl rfl (fun hne => absurd hidle hne) ?_)
    refine iff_of_false (fun hmem => ((mem_erase (by decide)).mp hmem).1 rfl) ?_
    rintro ⟨-, -, -, hzero⟩
    exact absurd hzero hticks.ne'
  · exact h

omit [DecidableEq ι] in
theorem TablesOk.taskSuspend (h : TablesOk k) (p : ℕ) : TablesOk (k.osTaskSuspend p).2.2 := by
  unfold Kernel.osTaskSuspend
  split_ifs with hpresent
  · exact h
  · obtain ⟨w, s, hok⟩ := h.tasks p
    refine h.setTcbRdy h.rdy.erase (fun q hq => (mem_erase (by decide)).trans (and_iff_right hq))
      (w := w) (s := true) (hok.setTcb ?_ rfl rfl hok.dly ?_)
    · rw [hok.stat]
      exact statOf_suspend w s
    · exact iff_of_false (fun hmem => ((mem_erase (by decide)).mp hmem).1 rfl) (by simp)

omit [DecidableEq ι] in
theorem TablesOk.taskResume (h : TablesOk k) (p : ℕ) : TablesOk (k.osTaskResume p).2.2 := by
  obtain ⟨w, s, hok⟩ := h.tasks p
  have hstat : (k.tcb p).stat &&& ~~~osStatSuspend = statOf w false := by
    rw [hok.stat, statOf_resume]
  simp only [Kernel.osTaskResume, hstat, statOf_eq_rdy, and_true]
  split_ifs with hpresent hsusp hrdy
  · exact h
  · have hlt : p / 8 < 8 := by have := h.present p (by simpa using hpresent); omega
    rw [Kernel.setTcb_tcb_self] at hrdy
    refine h.setTcbRdy (h.rdy.insert (by decide) hlt)
      (fun q hq => (mem_insert (by decide)).trans (or_iff_right hq)) (w := w) (s := false)
      (hok.setTcb rfl rfl rfl hok.dly ?_)
    exact iff_of_true ((mem_insert (by decide)).mpr (Or.inl rfl))
      ⟨by simpa using hpresent, hrdy.1, rfl, hrdy.2⟩
  · rw [hok.stat] at hsusp
    have hs : s = true := by
      by_contra hs
      exact hsusp ((statOf_and_suspend w s).mpr (by simpa using hs))
    rw [Kernel.setTcb_tcb_self] at hrdy
    refine h.setTcbRdy h.rdy (fun q _ => Iff.rfl) (w := w) (s := false)
      (hok.setTcb rfl rfl rfl hok.dly ?_)
    refine iff_of_false (fun hmem => ?_) fun hno => hrdy ⟨hno.2.1, hno.2.2.2⟩
    simp [hs] at hok
    exact absurd (hok.ready.mp hmem).2.2.1 (by simp)
  · exact h

omit [DecidableEq ι] in
theorem TaskOk.eventPtr_of_dly {s : Bool} (h : TaskOk k p none s) (hdly : (k.tcb p).dly ≠ 0) :
    (k.tcb p).eventPtr = none := by
  by_contra hne
  exact hdly (h.dly hne rfl)

omit [DecidableEq ι] in
/-- The time of a task is over: it no longer waits, but it stays in the wait list. -/
theorem TaskOk.timeUp {w : Option OsEventType} {s : Bool} {r : OsPrioTbl} (h : TaskOk k p w s)
    (hpresent : k.present p = true) (hdly : (k.tcb p).dly ≠ 0) (hr : r.Mem p ↔ s = false) :
    TaskOk
      { k.setTcb p { k.tcb p with
          dly := 0, stat := statOf none s, statPend := if w = none then .ok else .timeout } with
        rdy := r } p none s := by
  set t : OsTcb ι μ := { k.tcb p with
    dly := 0, stat := statOf none s, statPend := if w = none then .ok else .timeout } with ht
  have htcb : ({ k.setTcb p t with rdy := r } : Kernel ι μ).tcb p = t := Function.update_self _ _ _
  have hr' : ({ k.setTcb p t with rdy := r } : Kernel ι μ).rdy.Mem p ↔ s = false := hr
  constructor
  · rw [htcb]
  · rw [hr', htcb]
    simp [ht, hpresent]
  · intro e
    rw [htcb]
    refine (h.waits e).trans ?_
    rcases w with _ | ty
    · simp [ht, h.eventPtr_of_dly hdly]
    · simp [ht]
  · simp
  · rw [htcb, ht]
    dsimp only
    split_ifs <;> simp
  · rw [htcb, ht]
    intro hnone
    rcases w with _ | ty
    · rfl
    · obtain ⟨e, he, -⟩ := h.type ty rfl
      exact absurd (he.symm.trans hnone) (by simp)
  · rw [htcb, ht]
    intro _ _
    rfl

omit [DecidableEq ι] in
/-- One task in a tick: its time runs, or is over. -/
theorem TablesOk.timeTick (h : TablesOk k) (hpresent : k.present p = true) :
    TablesOk (k.osTimeTick p) := by
  obtain ⟨w, s, hok⟩ := h.tasks p
  have hlt : p / 8 < 8 := by have := h.present p hpresent; omega
  unfold Kernel.osTimeTick
  by_cases hdly : (k.tcb p).dly = 0
  · rw [if_neg (not_not.mpr hdly)]
    exact h
  rw [if_pos hdly]
  have hnot : ¬ k.rdy.Mem p := fun hmem => hdly (hok.ready.mp hmem).2.2.2
  by_cases hlast : (k.tcb p).dly - 1 = 0
  · have hover : (if (k.tcb p).stat &&& osStatPendAny ≠ osStatRdy then
          { k.tcb p with dly := 0, stat := (k.tcb p).stat &&& ~~~osStatPendAny, statPend := .timeout }
        else { k.tcb p with dly := 0, statPend := .ok } : OsTcb ι μ) =
        { k.tcb p with
          dly := 0, stat := statOf none s, statPend := if w = none then .ok else .timeout } := by
      rw [hok.stat, statOf_clear_any]
      rcases w with _ | ty
      · rw [if_neg (not_not.mpr ((statOf_and_pendAny none s).mpr rfl)), if_pos rfl, ← hok.stat]
      · rw [if_pos (mt (statOf_and_pendAny _ s).mp (by simp)), if_neg (by simp)]
    rw [if_pos hlast, hover]
    simp only [statOf_and_suspend]
    cases s with
    | false =>
        rw [if_pos rfl]
        exact h.setTcbRdy (h.rdy.insert (by decide) hlt)
          (fun q hq => (mem_insert (by decide)).trans (or_iff_right hq))
          (hok.timeUp hpresent hdly (iff_of_true ((mem_insert (by decide)).mpr (Or.inl rfl)) rfl))
    | true =>
        rw [if_neg (by simp)]
        exact h.setTcbRdy h.rdy (fun q _ => Iff.rfl)
          (hok.timeUp hpresent hdly (iff_of_false hnot (by simp)))
  · rw [if_neg hlast]
    refine h.setTcbRdy h.rdy (fun q _ => Iff.rfl) (w := w) (s := s)
      (hok.setTcb hok.stat rfl rfl ?_ (iff_of_false hnot fun hno => hlast hno.2.2.2))
    intro hne hw
    exact absurd (hok.dly hne hw) hdly

/-- The current task, which is ready again, ends its wait for `e`. -/
theorem TablesOk.pendReturn (h : TablesOk k) (hready : k.rdy.Mem k.cur)
    (hevent : (k.tcb k.cur).eventPtr = some e) : TablesOk (k.pendReturn e).2 := by
  obtain ⟨w, s, hok⟩ := h.tasks k.cur
  obtain ⟨hpresent, rfl, rfl, hdly⟩ := hok.ready.mp hready
  set t : OsTcb ι μ := { k.tcb k.cur with stat := osStatRdy, statPend := .ok, eventPtr := none }
    with ht
  -- In the wait list only when the time is over.
  have hself : ∀ k' : Kernel ι μ, k'.tcb k.cur = t → k'.present = k.present → k'.rdy = k.rdy →
      (∀ f, ¬ (k'.event f).waiters.Mem k.cur) → TaskOk k' k.cur none false := by
    intro k' htcb hpresent' hrdy hno
    constructor
    · rw [htcb]
      rfl
    · rw [hrdy, htcb, hpresent']
      exact hok.ready
    · intro f
      rw [htcb]
      exact iff_of_false (hno f) (by simp [ht])
    · simp
    · simp [htcb, ht]
    · simp [htcb, ht]
    · simp [htcb, ht]
  cases hpend : (k.tcb k.cur).statPend with
  | abort => exact absurd hpend hok.statPend
  | ok =>
      have heq : (k.pendReturn e).2 = k.setTcb k.cur t := by simp [Kernel.pendReturn, hpend, ht]
      rw [heq]
      refine h.changeReady rfl rfl h.rdy
        (fun q hq => ⟨Kernel.setTcb_tcb_of_ne _ _ hq, Iff.rfl⟩)
        (hself _ (Kernel.setTcb_tcb_self _ _ _) rfl rfl fun f hmem => ?_)
      obtain ⟨-, -, hno | hno⟩ := (hok.waits f).mp hmem
      · exact hno rfl
      · simp [hpend] at hno
  | timeout =>
      have heq : (k.pendReturn e).2 = (k.osEventTaskRemove k.cur e).setTcb k.cur t := by
        simp [Kernel.pendReturn, hpend, ht]
      rw [heq]
      refine h.change (p := k.cur) rfl h.rdy (fun f => ?_) (fun f => ?_) (fun q hq => ?_)
        (hself _ (Kernel.setTcb_tcb_self _ _ _) rfl rfl fun f hmem => ?_)
      · exact coherent_setWaiters (h.waiters e).erase h.waiters f
      · exact Kernel.setWaiters_type _ _
      · refine ⟨Kernel.setTcb_tcb_of_ne _ _ hq, Iff.rfl, fun f => ?_⟩
        exact (mem_setWaiters_erase k).trans (and_iff_right fun _ => hq)
      · obtain ⟨hne, hmem⟩ := (mem_setWaiters_erase k).mp hmem
        obtain ⟨-, hf, -⟩ := (hok.waits f).mp hmem
        exact hne (Option.some.inj (hf.symm.trans hevent)) rfl

omit [DecidableEq ι] in
/-- The message has no part in this. -/
theorem TablesOk.setMsg (h : TablesOk k) (p : ℕ) (m : Option μ) :
    TablesOk (k.setTcb p { k.tcb p with msg := m }) := by
  obtain ⟨w, s, hok⟩ := h.tasks p
  exact h.setTcbRdy h.rdy (fun q _ => Iff.rfl) (w := w) (s := s)
    (hok.setTcb hok.stat rfl rfl hok.dly hok.ready)

/-- What an event stores has no part in this. -/
theorem TablesOk.setEvent (h : TablesOk k) {ev : OsEvent μ}
    (hwaiters : ev.waiters = (k.event e).waiters) (htype : ev.type = (k.event e).type) :
    TablesOk (k.setEvent e ev) := by
  have hevent : ∀ f, ((k.setEvent e ev).event f).waiters = (k.event f).waiters ∧
      ((k.setEvent e ev).event f).type = (k.event f).type := by
    intro f
    by_cases hf : f = e
    · subst hf
      rw [Kernel.setEvent_event_self]
      exact ⟨hwaiters, htype⟩
    · rw [Kernel.setEvent_event_of_ne _ _ hf]
      exact ⟨rfl, rfl⟩
  obtain ⟨w, s, hok⟩ := h.tasks 0
  refine h.change rfl h.rdy (fun f => ?_) (fun f => (hevent f).2) (fun q _ => ?_)
    (hok.congr rfl rfl Iff.rfl (fun f => ?_) fun f => (hevent f).2)
  · rw [(hevent f).1]
    exact h.waiters f
  · exact ⟨rfl, Iff.rfl, fun f => by rw [(hevent f).1]⟩
  · rw [(hevent f).1]

end Tables

end YckjAcu.Ucos
