import YckjAcu.UcosRuns

/-!
# Scheduling and delivery

The invariant of the steps: a task that is in its own code is the ready task of
the highest priority, and every message accepted is in the store, in the control
block of one task, or returned to one task.
-/

namespace YckjAcu.Ucos

open PriorityTable

variable {ι μ : Type} [DecidableEq ι]

namespace Pc

/-- The event of the pend call that the task is in. -/
def event : Pc ι → Option ι
  | blocked e _ => some e
  | _ => none

/-- The task is not in front of `OS_Sched`. -/
def Works : Pc ι → Prop
  | run => True
  | sched => False
  | blocked _ behind => behind = true

end Pc

structure Scheduled (s : System ι μ) : Prop where
  idle : s.kernel.rdy.Mem osTaskIdlePrio
  idleEvent : (s.kernel.tcb osTaskIdlePrio).eventPtr = none
  pcs (p : ℕ) : (s.kernel.tcb p).eventPtr = (s.pc p).event
  locked : 0 < s.kernel.lockNesting → (s.pc s.kernel.cur).event = none
  working : s.kernel.intNesting = 0 → s.kernel.lockNesting = 0 → (s.pc s.kernel.cur).Works →
    IsLeast {p | s.kernel.rdy.Mem p} s.kernel.cur

/-- The account of an event: what it held at the start and what was accepted has
been handed out in this order, up to what it stores, and nothing is stored while
a task waits. -/
structure StoredOk (initial : List (Option μ)) (s : System ι μ) (e : ι) (xs : List (Option μ)) :
    Prop where
  stores : Stores (s.kernel.event e) xs
  order : initial ++ s.accepted e = (s.handed e).map Prod.snd ++ xs
  waiting (p : ℕ) : (s.kernel.event e).waiters.Mem p → xs = []

/-- The messages handed to a task, in their order. -/
def System.handedTo (s : System ι μ) (p : ℕ) (e : ι) : List (Option μ) :=
  ((s.handed e).filter fun h => h.1 = p).map Prod.snd

structure Sound (initial : ι → List (Option μ)) (s : System ι μ) : Prop where
  tables : TablesOk s.kernel
  scheduled : Scheduled s
  stored (e : ι) : ∃ xs, StoredOk (initial e) s e xs
  hands (p : ℕ) (e : ι) : s.handedTo p e = s.received p e ++ s.kernel.inHand p e

section Steps

variable {initial : ι → List (Option μ)} {s t : System ι μ} {e : ι}

/-- A step that leaves the events and the histories alone. -/
theorem Sound.quiet (h : Sound initial s) (hquiet : Quiet s.kernel t.kernel)
    (haccepted : t.accepted = s.accepted) (hhanded : t.handed = s.handed)
    (hreceived : t.received = s.received) (htables : TablesOk t.kernel)
    (hscheduled : Scheduled t) : Sound initial t where
  tables := htables
  scheduled := hscheduled
  stored e := by
    obtain ⟨xs, hxs⟩ := h.stored e
    refine ⟨xs, ?_, ?_, ?_⟩
    · rw [hquiet.event]
      exact hxs.stores
    · rw [haccepted, hhanded]
      exact hxs.order
    · rw [hquiet.event]
      exact hxs.waiting
  hands p e := by
    rw [System.handedTo, hhanded, hreceived, hquiet.inHand]
    exact h.hands p e

theorem Sound.cur_event (h : Sound initial s) (htask : s.AtTask) :
    (s.kernel.tcb s.kernel.cur).eventPtr = none := by
  rw [h.scheduled.pcs, htask.2.1]
  rfl

omit [DecidableEq ι] in
theorem TablesOk.cur_isLeast {k : Kernel ι μ} (h : TablesOk k) (hidle : k.rdy.Mem osTaskIdlePrio) :
    IsLeast {p | k.rdy.Mem p} (highest k.rdy) :=
  h.rdy.first_isLeast unMap_findsLowest unMap_findsLowest
    ((h.rdy.grp_ne_zero (by decide)).mpr ⟨_, hidle⟩)

/-! #### Scheduling -/

omit [DecidableEq ι] in
/-- A call that leaves the current task and the nesting alone. -/
theorem Scheduled.call {k : Kernel ι μ} (h : Scheduled s) (htask : s.AtTask) (follows : Bool)
    (hcur : k.cur = s.kernel.cur) (hint : k.intNesting = s.kernel.intNesting)
    (hidle : k.rdy.Mem osTaskIdlePrio) (hevent : ∀ q, (k.tcb q).eventPtr = (s.kernel.tcb q).eventPtr)
    (hkeep : follows = false → k.intNesting = 0 → k.lockNesting = 0 →
      IsLeast {p | k.rdy.Mem p} s.kernel.cur) :
    Scheduled (({ s with kernel := k } : System ι μ).beforeSched follows) := by
  obtain ⟨hnest, hrun, -⟩ := htask
  cases follows with
  | false =>
      have heq : ({ s with kernel := k } : System ι μ).beforeSched false = { s with kernel := k } :=
        if_neg (by simp)
      rw [heq]
      constructor
      · exact hidle
      · exact (hevent _).trans h.idleEvent
      · intro p
        exact (hevent p).trans (h.pcs p)
      · intro _
        simp [hcur, hrun, Pc.event]
      · intro hint' hlock _
        simpa [hcur] using hkeep rfl hint' hlock
  | true =>
      have heq : ({ s with kernel := k } : System ι μ).beforeSched true =
          { s with kernel := k, pc := Function.update s.pc s.kernel.cur .sched } := by
        rw [System.beforeSched, if_pos ⟨rfl, hint.trans hnest⟩, System.goto, hcur]
      rw [heq]
      constructor
      · exact hidle
      · exact (hevent _).trans h.idleEvent
      · intro p
        rw [(hevent p).trans (h.pcs p)]
        by_cases hp : p = s.kernel.cur
        · subst hp
          simp [hrun, Pc.event]
        · simp [Function.update_of_ne hp]
      · intro _
        simp [hcur, Pc.event]
      · intro _ _ hworks
        simp [hcur, Pc.Works] at hworks

omit [DecidableEq ι] in
theorem osSched_of_locked {k : Kernel ι μ} (h : ¬ (k.intNesting = 0 ∧ k.lockNesting = 0)) :
    k.osSched = k := if_neg h

omit [DecidableEq ι] in
theorem osSched_of_free {k : Kernel ι μ} (h : k.intNesting = 0 ∧ k.lockNesting = 0) :
    k.osSched = { k with cur := highest k.rdy } := if_pos h

omit [DecidableEq ι] in
/-- Only the current task can change. -/
theorem TablesOk.sched {k : Kernel ι μ} (h : TablesOk k) : TablesOk k.osSched := by
  by_cases hfree : k.intNesting = 0 ∧ k.lockNesting = 0
  · rw [osSched_of_free hfree]
    exact ⟨h.rdy, h.waiters, h.present, fun p => by
      obtain ⟨w, v, hok⟩ := h.tasks p
      exact ⟨w, v, hok.congr rfl rfl Iff.rfl (fun _ => Iff.rfl) fun _ => rfl⟩⟩
  · rw [osSched_of_locked hfree]
    exact h

theorem quiet_sched (k : Kernel ι μ) : Quiet k k.osSched := by
  by_cases hfree : k.intNesting = 0 ∧ k.lockNesting = 0
  · rw [osSched_of_free hfree]
    exact ⟨rfl, fun _ => rfl, fun _ _ => inHand_congr rfl rfl⟩
  · rw [osSched_of_locked hfree]
    exact Quiet.refl k

omit [DecidableEq ι] in
/-- With free nesting a rescheduling picks the ready task of the highest priority. -/
theorem scheduled_osSched {k : Kernel ι μ} {pc : ℕ → Pc ι} {a : ι → List (Option μ)}
    {d : ι → List (ℕ × Option μ)} {r : ℕ → ι → List (Option μ)} (h : TablesOk k)
    (hidle : k.rdy.Mem osTaskIdlePrio) (hidleEvent : (k.tcb osTaskIdlePrio).eventPtr = none)
    (hpcs : ∀ p, (k.tcb p).eventPtr = (pc p).event)
    (hlocked : 0 < k.lockNesting → (pc k.cur).event = none) :
    Scheduled ⟨k.osSched, pc, a, d, r⟩ := by
  by_cases hfree : k.intNesting = 0 ∧ k.lockNesting = 0
  · rw [osSched_of_free hfree]
    exact ⟨hidle, hidleEvent, hpcs, fun hlock => absurd hfree.2 hlock.ne',
      fun _ _ _ => h.cur_isLeast hidle⟩
  · rw [osSched_of_locked hfree]
    exact ⟨hidle, hidleEvent, hpcs, hlocked, fun hint hlock _ => absurd ⟨hint, hlock⟩ hfree⟩

section BeforeSched

variable (s) (b : Bool)

omit [DecidableEq ι] in
theorem beforeSched_kernel : (s.beforeSched b).kernel = s.kernel := by
  unfold System.beforeSched
  split_ifs <;> rfl

omit [DecidableEq ι] in
theorem beforeSched_history : (s.beforeSched b).accepted = s.accepted ∧
    (s.beforeSched b).handed = s.handed ∧ (s.beforeSched b).received = s.received := by
  unfold System.beforeSched
  split_ifs <;> exact ⟨rfl, rfl, rfl⟩

end BeforeSched

section Frames

variable (k : Kernel ι μ) (p : ℕ)

omit [DecidableEq ι] in
theorem osTimeDly_frame (ticks : ℕ) : (k.osTimeDly ticks).2.cur = k.cur ∧
    (k.osTimeDly ticks).2.intNesting = k.intNesting := by
  unfold Kernel.osTimeDly
  split_ifs <;> exact ⟨rfl, rfl⟩

omit [DecidableEq ι] in
theorem osTaskSuspend_frame : (k.osTaskSuspend p).2.2.cur = k.cur ∧
    (k.osTaskSuspend p).2.2.intNesting = k.intNesting := by
  unfold Kernel.osTaskSuspend
  split_ifs <;> exact ⟨rfl, rfl⟩

omit [DecidableEq ι] in
theorem osTaskResume_frame : (k.osTaskResume p).2.2.cur = k.cur ∧
    (k.osTaskResume p).2.2.intNesting = k.intNesting := by
  simp only [Kernel.osTaskResume]
  split_ifs <;> exact ⟨rfl, rfl⟩

end Frames

theorem Sound.call {k : Kernel ι μ} {follows : Bool} (h : Sound initial s) (htask : s.AtTask)
    (hquiet : Quiet s.kernel k) (htables : TablesOk k) (hcur : k.cur = s.kernel.cur)
    (hint : k.intNesting = s.kernel.intNesting) (hidle : k.rdy.Mem osTaskIdlePrio)
    (hkeep : follows = false → k.intNesting = 0 → k.lockNesting = 0 →
      IsLeast {p | k.rdy.Mem p} s.kernel.cur) :
    Sound initial (({ s with kernel := k } : System ι μ).beforeSched follows) := by
  obtain ⟨haccepted, hhanded, hreceived⟩ :=
    beforeSched_history ({ s with kernel := k } : System ι μ) follows
  refine h.quiet ?_ haccepted hhanded hreceived ?_
    (h.scheduled.call htask follows hcur hint hidle hquiet.eventPtr hkeep)
  · rw [beforeSched_kernel]
    exact hquiet
  · rw [beforeSched_kernel]
    exact htables

/-- The current task works, so it is the ready task of the highest priority. -/
theorem Sound.cur_isLeast (h : Sound initial s) (htask : s.AtTask)
    (hlock : s.kernel.lockNesting = 0) : IsLeast {p | s.kernel.rdy.Mem p} s.kernel.cur :=
  h.scheduled.working htask.1 hlock (by rw [htask.2.1]; trivial)

theorem Sound.timeDly (h : Sound initial s) (htask : s.AtTask) (ticks : ℕ) :
    Sound initial (({ s with kernel := (s.kernel.osTimeDly ticks).2 } : System ι μ).beforeSched
      (s.kernel.osTimeDly ticks).1) := by
  by_cases hlock : s.kernel.lockNesting = 0
  · have hready := (h.cur_isLeast htask hlock).1
    obtain ⟨hcur, hint⟩ := osTimeDly_frame s.kernel ticks
    refine h.call htask (quiet_timeDly ticks)
      (h.tables.timeDly hready (h.cur_event htask) ticks) hcur hint ?_ ?_ <;>
      simp only [Kernel.osTimeDly] <;> split_ifs with hnest hticks
    · exact h.scheduled.idle
    · exact (mem_erase (by decide)).mpr ⟨fun heq => htask.2.2 heq.symm, h.scheduled.idle⟩
    · exact h.scheduled.idle
    · exact fun _ _ _ => h.cur_isLeast htask hlock
    · intro hno
      exact absurd hno (by simp)
    · exact fun _ _ _ => h.cur_isLeast htask hlock
  · have heq : s.kernel.osTimeDly ticks = (false, s.kernel) := if_pos (by omega)
    rw [heq]
    exact h.call htask (Quiet.refl _) h.tables rfl rfl h.scheduled.idle
      fun _ _ hlock' => absurd hlock' hlock

theorem Sound.taskSuspend (h : Sound initial s) (htask : s.AtTask) {p : ℕ}
    (hp : p ≠ osTaskIdlePrio) :
    Sound initial (({ s with kernel := (s.kernel.osTaskSuspend p).2.2 } : System ι μ).beforeSched
      (s.kernel.osTaskSuspend p).2.1) := by
  obtain ⟨hcur, hint⟩ := osTaskSuspend_frame s.kernel p
  refine h.call htask (quiet_taskSuspend p) (h.tables.taskSuspend p) hcur hint ?_ ?_ <;>
    simp only [Kernel.osTaskSuspend] <;> split_ifs with hpresent
  · exact h.scheduled.idle
  · exact (mem_erase (by decide)).mpr ⟨hp.symm, h.scheduled.idle⟩
  · exact fun _ _ hlock => h.cur_isLeast htask hlock
  · intro hself _ hlock
    obtain ⟨hmem, hleast⟩ := h.cur_isLeast htask hlock
    have hne : s.kernel.cur ≠ p := fun heq => by simp [heq] at hself
    exact ⟨(mem_erase (by decide)).mpr ⟨hne, hmem⟩,
      fun q hq => hleast ((mem_erase (by decide)).mp hq).2⟩

theorem Sound.taskResume (h : Sound initial s) (htask : s.AtTask) (p : ℕ) :
    Sound initial (({ s with kernel := (s.kernel.osTaskResume p).2.2 } : System ι μ).beforeSched
      (s.kernel.osTaskResume p).2.1) := by
  obtain ⟨hcur, hint⟩ := osTaskResume_frame s.kernel p
  refine h.call htask (quiet_taskResume p) (h.tables.taskResume p) hcur hint ?_ ?_ <;>
    simp only [Kernel.osTaskResume] <;> split_ifs
  · exact h.scheduled.idle
  · exact (mem_insert (by decide)).mpr (Or.inr h.scheduled.idle)
  · exact h.scheduled.idle
  · exact h.scheduled.idle
  · exact fun _ _ hlock => h.cur_isLeast htask hlock
  · intro hno
    exact absurd hno (by simp)
  · exact fun _ _ hlock => h.cur_isLeast htask hlock
  · exact fun _ _ hlock => h.cur_isLeast htask hlock

/-- The tables do not depend on the current task and the nesting. -/
theorem Sound.nesting {k : Kernel ι μ} (h : Sound initial s) (htcb : k.tcb = s.kernel.tcb)
    (hrdy : k.rdy = s.kernel.rdy) (hevent : k.event = s.kernel.event)
    (hpresent : k.present = s.kernel.present) : TablesOk k ∧ Quiet s.kernel k := by
  refine ⟨⟨?_, ?_, ?_, fun p => ?_⟩, hevent, fun q => by rw [htcb], fun q e => ?_⟩
  · rw [hrdy]
    exact h.tables.rdy
  · rw [hevent]
    exact h.tables.waiters
  · rw [hpresent]
    exact h.tables.present
  · obtain ⟨w, v, hok⟩ := h.tables.tasks p
    exact ⟨w, v, hok.congr (by rw [htcb]) hpresent (by rw [hrdy]) (by simp [hevent])
      (by simp [hevent])⟩
  · exact inHand_congr (by rw [htcb]) (by rw [hevent])

theorem Sound.schedLock (h : Sound initial s) (htask : s.AtTask) :
    Sound initial { s with kernel := s.kernel.osSchedLock } := by
  unfold Kernel.osSchedLock
  split_ifs with hlt
  · obtain ⟨htables, hquiet⟩ := h.nesting (k := { s.kernel with
      lockNesting := s.kernel.lockNesting + 1 }) rfl rfl rfl rfl
    refine h.quiet hquiet rfl rfl rfl htables ⟨h.scheduled.idle, h.scheduled.idleEvent,
      h.scheduled.pcs, fun _ => ?_, fun _ hlock => absurd hlock (Nat.succ_ne_zero _)⟩
    rw [htask.2.1]
    rfl
  · exact h

theorem Sound.schedUnlock (h : Sound initial s) (htask : s.AtTask) :
    Sound initial (({ s with kernel := s.kernel.osSchedUnlock.2 } : System ι μ).beforeSched
      s.kernel.osSchedUnlock.1) := by
  unfold Kernel.osSchedUnlock
  split_ifs with hlock
  · obtain ⟨htables, hquiet⟩ := h.nesting (k := { s.kernel with
      lockNesting := s.kernel.lockNesting - 1 }) rfl rfl rfl rfl
    refine h.call htask hquiet htables rfl rfl h.scheduled.idle fun hno _ hzero => ?_
    simp [show s.kernel.lockNesting - 1 = 0 from hzero, htask.1] at hno
  · exact h.call htask (Quiet.refl _) h.tables rfl rfl h.scheduled.idle
      fun _ _ hzero => h.cur_isLeast htask hzero

theorem Sound.intEnter (h : Sound initial s) :
    Sound initial { s with kernel := s.kernel.osIntEnter } := by
  unfold Kernel.osIntEnter
  split_ifs with hlt
  · obtain ⟨htables, hquiet⟩ := h.nesting (k := { s.kernel with
      intNesting := s.kernel.intNesting + 1 }) rfl rfl rfl rfl
    exact h.quiet hquiet rfl rfl rfl htables ⟨h.scheduled.idle, h.scheduled.idleEvent,
      h.scheduled.pcs, h.scheduled.locked, fun hint => absurd hint (Nat.succ_ne_zero _)⟩
  · exact h

theorem Sound.intExit (h : Sound initial s) :
    Sound initial { s with kernel := s.kernel.osIntExit } := by
  obtain ⟨htables, hquiet⟩ := h.nesting (k := { s.kernel with
    intNesting := s.kernel.intNesting - 1 }) rfl rfl rfl rfl
  have hsched := quiet_sched { s.kernel with intNesting := s.kernel.intNesting - 1 }
  refine h.quiet ⟨hsched.event.trans hquiet.event,
    fun q => (hsched.eventPtr q).trans (hquiet.eventPtr q),
    fun q e => (hsched.inHand q e).trans (hquiet.inHand q e)⟩ rfl rfl rfl htables.sched
    (scheduled_osSched htables h.scheduled.idle h.scheduled.idleEvent h.scheduled.pcs
      h.scheduled.locked)

omit [DecidableEq ι] in
theorem osTimeTick_frame (k : Kernel ι μ) (p : ℕ) :
    (k.osTimeTick p).intNesting = k.intNesting ∧ (k.osTimeTick p).lockNesting = k.lockNesting ∧
      (k.osTimeTick p).cur = k.cur ∧
      ((k.osTimeTick p).rdy = k.rdy ∨ (k.osTimeTick p).rdy = k.rdy.insert p) := by
  simp only [Kernel.osTimeTick]
  split_ifs <;> simp

theorem Sound.tick (h : Sound initial s) {p : ℕ} (hint : 0 < s.kernel.intNesting)
    (hpresent : s.kernel.present p = true) :
    Sound initial { s with kernel := s.kernel.osTimeTick p } := by
  have hquiet := quiet_timeTick h.tables p
  obtain ⟨hint', hlock', hcur', hrdy'⟩ := osTimeTick_frame s.kernel p
  refine h.quiet hquiet rfl rfl rfl (h.tables.timeTick hpresent) ⟨?_, ?_, ?_, ?_, ?_⟩
  · rcases hrdy' with hrdy' | hrdy'
    · rw [hrdy']
      exact h.scheduled.idle
    · rw [hrdy']
      exact (mem_insert (by decide)).mpr (Or.inr h.scheduled.idle)
  · exact (hquiet.eventPtr _).trans h.scheduled.idleEvent
  · exact fun q => (hquiet.eventPtr q).trans (h.scheduled.pcs q)
  · intro hlock
    rw [hlock'] at hlock
    rw [hcur']
    exact h.scheduled.locked hlock
  · intro hzero
    rw [hint'] at hzero
    omega

theorem Sound.sched (h : Sound initial s) {c : Pc ι}
    (hevent : c.event = (s.pc s.kernel.cur).event) :
    Sound initial { s.goto c with kernel := s.kernel.osSched } := by
  refine h.quiet (quiet_sched s.kernel) rfl rfl rfl h.tables.sched
    (scheduled_osSched h.tables h.scheduled.idle h.scheduled.idleEvent (fun p => ?_) fun hlock => ?_)
  · rw [h.scheduled.pcs]
    by_cases hp : p = s.kernel.cur
    · subst hp
      simp [System.goto, hevent]
    · simp [System.goto, Function.update_of_ne hp]
  · simp [System.goto, hevent, h.scheduled.locked hlock]

/-! #### Histories -/

section Histories

variable (s) (e f : ι) (p q : ℕ) (m : Option μ)

theorem accept_accepted : (s.accept e m).accepted f =
    s.accepted f ++ if f = e then [m] else [] := by
  by_cases hf : f = e
  · subst hf
    simp [System.accept]
  · simp [System.accept, hf]

theorem hand_handed : (s.hand e p m).handed f =
    s.handed f ++ if f = e then [(p, m)] else [] := by
  by_cases hf : f = e
  · subst hf
    simp [System.hand]
  · simp [System.hand, hf]

theorem hand_handedTo : (s.hand e p m).handedTo q f =
    s.handedTo q f ++ if f = e ∧ p = q then [m] else [] := by
  rw [System.handedTo, hand_handed, List.filter_append, List.map_append]
  by_cases hf : f = e
  · by_cases hp : p = q <;> simp [hf, hp, System.handedTo]
  · simp [hf, System.handedTo]

theorem receive_received : (s.receive e m).received q f =
    s.received q f ++ if q = s.kernel.cur ∧ f = e then [m] else [] := by
  by_cases hq : q = s.kernel.cur
  · subst hq
    by_cases hf : f = e
    · subst hf
      simp [System.receive]
    · simp [System.receive, hf]
  · simp [System.receive, hq]

end Histories

omit [DecidableEq ι] in
theorem Scheduled.congr (h : Scheduled s) (hkernel : t.kernel = s.kernel) (hpc : t.pc = s.pc) :
    Scheduled t := by
  obtain ⟨h1, h2, h3, h4, h5⟩ := h
  constructor <;> rw [hkernel] <;> first | assumption | skip
  all_goals rw [hpc]; assumption

omit [DecidableEq ι] in
/-- During an interrupt only the tables matter. -/
theorem Scheduled.interrupt {k : Kernel ι μ} (h : Scheduled s) (hnest : 0 < s.kernel.intNesting)
    (hcur : k.cur = s.kernel.cur) (hint : k.intNesting = s.kernel.intNesting)
    (hlock : k.lockNesting = s.kernel.lockNesting) (hidle : k.rdy.Mem osTaskIdlePrio)
    (hevent : ∀ q, (k.tcb q).eventPtr = (s.kernel.tcb q).eventPtr) :
    Scheduled { s with kernel := k } := by
  constructor
  · exact hidle
  · exact (hevent _).trans h.idleEvent
  · exact fun p => (hevent p).trans (h.pcs p)
  · intro hpos
    change (s.pc k.cur).event = none
    rw [hcur]
    exact h.locked (hlock ▸ hpos)
  · intro hzero
    change k.intNesting = 0 at hzero
    omega

/-! #### Posts -/

theorem osEventTaskRdy_event_self {k : Kernel ι μ} (m : Option μ) (msk : OsStat) :
    (k.osEventTaskRdy e m msk .ok).2.event e = { k.event e with
      waiters := (k.event e).waiters.erase (highest (k.event e).waiters) } := by
  rw [osEventTaskRdy_event, Kernel.osEventTaskRemove, Kernel.setWaiters_event_self]

theorem osEventTaskRdy_event_of_ne {k : Kernel ι μ} {f : ι} (m : Option μ) (msk : OsStat)
    (hf : f ≠ e) : (k.osEventTaskRdy e m msk .ok).2.event f = k.event f := by
  rw [osEventTaskRdy_event, Kernel.osEventTaskRemove, Kernel.setWaiters_event_of_ne _ _ hf]

/-- After a hand-over the task has the message in hand, and nothing else has
changed in anyone's hands. -/
theorem inHand_eventTaskRdy {k : Kernel ι μ} {m : Option μ} (h : TablesOk k)
    (hne : (k.event e).waiters.grp ≠ 0) (hm : (k.event e).type = .sem → m = none) (q : ℕ) (f : ι) :
    (k.osEventTaskRdy e m (k.event e).type.stat .ok).2.inHand q f =
      k.inHand q f ++ if f = e ∧ highest (k.event e).waiters = q then [m] else [] := by
  obtain ⟨hmem, -⟩ := h.highest_isLeast hne
  set p := highest (k.event e).waiters with hp
  have htype : ∀ f, ((k.osEventTaskRdy e m (k.event e).type.stat .ok).2.event f).type =
      (k.event f).type := by
    intro f
    rw [osEventTaskRdy_event, Kernel.osEventTaskRemove, Kernel.setWaiters_type]
  by_cases hq : p = q
  · subst hq
    obtain ⟨w, v, hok⟩ := h.tasks p
    obtain ⟨hpresent, hevent, -⟩ := (hok.waits e).mp hmem
    have htcb : (k.osEventTaskRdy e m (k.event e).type.stat .ok).2.tcb p =
        { k.tcb p with
          dly := 0, msg := m, stat := (k.tcb p).stat &&& ~~~(k.event e).type.stat
          statPend := .ok } := osEventTaskRdy_tcb_self m _
    have hstat : (k.tcb p).stat &&& ~~~(k.event e).type.stat &&& osStatPendAny = osStatRdy := by
      rw [hok.stat]
      rcases hok.eq_none_or hevent with rfl | rfl
      · rw [statOf_clear_none]
        exact (statOf_and_pendAny none v).mpr rfl
      · rw [statOf_clear]
        exact (statOf_and_pendAny none v).mpr rfl
    rw [hok.inHand_of_mem hmem, List.nil_append]
    by_cases hf : f = e
    · subst hf
      rw [if_pos ⟨rfl, rfl⟩, Kernel.inHand, htcb, if_pos ⟨hevent, hstat, rfl⟩, htype]
      cases hty : (k.event f).type with
      | q => rfl
      | sem => rw [hm hty]
    · rw [if_neg fun hno => hf hno.1, Kernel.inHand, htcb]
      exact if_neg fun hno => hf (Option.some.inj (hno.1.symm.trans hevent))
  · have hq' : q ≠ p := fun heq => hq heq.symm
    rw [if_neg fun hno => hq hno.2, List.append_nil]
    exact inHand_congr (osEventTaskRdy_tcb_of_ne m _ hq') (htype f)

theorem Stores.congr {ev ev' : OsEvent μ} {xs : List (Option μ)} (h : Stores ev xs)
    (htype : ev'.type = ev.type) (hcnt : ev'.cnt = ev.cnt) (hq : ev'.q = ev.q) : Stores ev' xs := by
  unfold Stores at h ⊢
  rw [htype, hcnt, hq]
  exact h

omit [DecidableEq ι] in
theorem beforeSched_pc (hkernel : t.kernel = s.kernel) (hpc : t.pc = s.pc) (b : Bool) :
    (t.beforeSched b).pc = (s.beforeSched b).pc := by
  unfold System.beforeSched
  rw [hkernel]
  split_ifs
  · simp only [System.goto, hpc, hkernel]
  · exact hpc

/-- A message that is handed over. -/
theorem Sound.handOver (h : Sound initial s) (hcan : 0 < s.kernel.intNesting ∨ s.AtTask)
    {m : Option μ} (hne : (s.kernel.event e).waiters.grp ≠ 0)
    (hm : (s.kernel.event e).type = .sem → m = none) :
    Sound initial ((((({ s with
      kernel := (s.kernel.osEventTaskRdy e m (s.kernel.event e).type.stat .ok).2 } :
        System ι μ).accept e m).hand e (highest (s.kernel.event e).waiters) m)).beforeSched true) := by
  set p := highest (s.kernel.event e).waiters with hp
  set k := (s.kernel.osEventTaskRdy e m (s.kernel.event e).type.stat .ok).2 with hk
  obtain ⟨hpresent, hcur, hint, hlock⟩ :=
    osEventTaskRdy_frame (k := s.kernel) (e := e) m (s.kernel.event e).type.stat
  have hevent : ∀ q, (k.tcb q).eventPtr = (s.kernel.tcb q).eventPtr := by
    intro q
    by_cases hq : q = p
    · rw [hk, hq, hp, osEventTaskRdy_tcb_self]
    · rw [hk, osEventTaskRdy_tcb_of_ne m _ hq]
  have hidle : k.rdy.Mem osTaskIdlePrio := by
    rw [hk, osEventTaskRdy_rdy]
    split_ifs
    · exact (mem_insert (by decide)).mpr (Or.inr h.scheduled.idle)
    · exact h.scheduled.idle
  let u : System ι μ := { s with kernel := k }
  let v : System ι μ := (u.accept e m).hand e p m
  obtain ⟨haccepted, hhanded, hreceived⟩ := beforeSched_history v true
  have hpc : (v.beforeSched true).pc = (u.beforeSched true).pc := by
    refine beforeSched_pc ?_ ?_ true <;> rfl
  constructor
  · rw [beforeSched_kernel]
    exact h.tables.eventTaskRdy hne m
  · rcases hcan with hnest | htask
    · refine (h.scheduled.interrupt hnest hcur hint hlock hidle hevent).congr
        (beforeSched_kernel v true) ?_
      have hoff : u.beforeSched true = u := if_neg fun hno => by
        have hzero : k.intNesting = 0 := hno.2
        rw [hint] at hzero
        omega
      rw [hoff] at hpc
      exact hpc
    · refine (h.scheduled.call htask true hcur hint hidle hevent (by simp)).congr ?_ hpc
      exact (beforeSched_kernel v true).trans (beforeSched_kernel u true).symm
  · intro f
    obtain ⟨xs, hxs⟩ := h.stored f
    refine ⟨xs, ?_⟩
    by_cases hf : f = e
    · subst hf
      have hnil : xs = [] := hxs.waiting p (h.tables.highest_isLeast hne).1
      constructor
      · rw [beforeSched_kernel]
        change Stores (k.event f) xs
        rw [hk, osEventTaskRdy_event_self]
        exact hxs.stores.congr rfl rfl rfl
      · have horder := hxs.order
        rw [haccepted, hhanded, hand_handed]
        change initial f ++ (System.accept f m _).accepted f = _
        rw [accept_accepted]
        simp only [if_true, List.map_append, List.map_cons, List.map_nil]
        rw [← List.append_assoc, horder, hnil, List.append_nil, List.append_nil]
        rfl
      · exact fun _ _ => hnil
    · constructor
      · rw [beforeSched_kernel]
        change Stores (k.event f) xs
        rw [hk, osEventTaskRdy_event_of_ne m _ hf]
        exact hxs.stores
      · rw [haccepted, hhanded, hand_handed]
        change initial f ++ (System.accept e m _).accepted f = _
        rw [accept_accepted, if_neg hf, if_neg hf, List.append_nil, List.append_nil]
        exact hxs.order
      · rw [beforeSched_kernel]
        change ∀ q, (k.event f).waiters.Mem q → _
        rw [hk, osEventTaskRdy_event_of_ne m _ hf]
        exact hxs.waiting
  · intro q f
    rw [System.handedTo, hhanded, hreceived, beforeSched_kernel]
    change (System.hand e p m _).handedTo q f = _ ++ k.inHand q f
    rw [hand_handedTo, hk, inHand_eventTaskRdy h.tables hne hm, ← List.append_assoc]
    exact congrArg (· ++ _) (h.hands q f)

theorem inHand_setEvent {k : Kernel ι μ} {ev : OsEvent μ} (htype : ev.type = (k.event e).type)
    (q : ℕ) (f : ι) : (k.setEvent e ev).inHand q f = k.inHand q f := by
  refine inHand_congr rfl ?_
  by_cases hf : f = e
  · subst hf
    rw [Kernel.setEvent_event_self, htype]
  · rw [Kernel.setEvent_event_of_ne _ _ hf]

/-- What an event stores changes, and with it the histories of this event. -/
theorem Sound.setEvent (h : Sound initial s) {ev : OsEvent μ}
    (hwaiters : ev.waiters = (s.kernel.event e).waiters)
    (htype : ev.type = (s.kernel.event e).type) (hkernel : t.kernel = s.kernel.setEvent e ev)
    (hpc : t.pc = s.pc)
    (hself : ∀ xs, StoredOk (initial e) s e xs → ∃ ys, Stores ev ys ∧
      initial e ++ t.accepted e = (t.handed e).map Prod.snd ++ ys ∧ (xs = [] → ys = [] ∨
        (s.kernel.event e).waiters.grp = 0))
    (hothers : ∀ f, f ≠ e → t.accepted f = s.accepted f ∧ t.handed f = s.handed f)
    (hhands : ∀ p f, t.handedTo p f = t.received p f ++ s.kernel.inHand p f) :
    Sound initial t where
  tables := by
    rw [hkernel]
    exact h.tables.setEvent hwaiters htype
  scheduled := by
    obtain ⟨h1, h2, h3, h4, h5⟩ := h.scheduled
    constructor <;> rw [hkernel] <;> first | exact h1 | exact h2 | skip
    all_goals rw [hpc]
    · exact h3
    · exact h4
    · exact h5
  stored f := by
    obtain ⟨xs, hxs⟩ := h.stored f
    by_cases hf : f = e
    · subst hf
      obtain ⟨ys, hys, horder, hnil⟩ := hself xs hxs
      refine ⟨ys, ?_, horder, fun p hp => ?_⟩
      · rw [hkernel, Kernel.setEvent_event_self]
        exact hys
      · rw [hkernel, Kernel.setEvent_event_self, hwaiters] at hp
        refine (hnil (hxs.waiting p hp)).resolve_right fun hgrp => ?_
        exact absurd hgrp (((h.tables.waiters f).grp_ne_zero (by decide)).mpr ⟨p, hp⟩)
    · obtain ⟨haccepted, hhanded⟩ := hothers f hf
      refine ⟨xs, ?_, ?_, ?_⟩
      · rw [hkernel, Kernel.setEvent_event_of_ne _ _ hf]
        exact hxs.stores
      · rw [haccepted, hhanded]
        exact hxs.order
      · rw [hkernel, Kernel.setEvent_event_of_ne _ _ hf]
        exact hxs.waiting
  hands p f := by
    rw [hkernel, inHand_setEvent htype]
    exact hhands p f

theorem Sound.posted (h : Sound initial s) (hcan : 0 < s.kernel.intNesting ∨ s.AtTask)
    {m : Option μ} {r : OsErr × Option ℕ × Kernel ι μ} (hr : Posts s.kernel e m r) :
    Sound initial (s.posted e m r) := by
  cases hr with
  | refused err herr =>
      simpa only [System.posted, if_neg herr] using h
  | handed hne hm => exact h.handOver hcan hne hm
  | stored hgrp ev hwaiters htype hstores =>
      have hposted : s.posted e m (.none, none, s.kernel.setEvent e ev) =
          ({ s with kernel := s.kernel.setEvent e ev } : System ι μ).accept e m := rfl
      rw [hposted]
      refine h.setEvent hwaiters htype rfl rfl (fun xs hxs => ?_) (fun f hf => ?_) h.hands
      · refine ⟨xs ++ [m], hstores xs hxs.stores, ?_, fun _ => Or.inr hgrp⟩
        rw [accept_accepted, if_pos rfl, ← List.append_assoc, ← List.append_assoc]
        exact congrArg (· ++ [m]) hxs.order
      · rw [accept_accepted, if_neg hf, List.append_nil]
        exact ⟨rfl, rfl⟩

/-! #### Pend calls -/

/-- A message that is taken at once. -/
theorem Sound.taken (h : Sound initial s) (htask : s.AtTask) {m : Option μ} {ev : OsEvent μ}
    (hwaiters : ev.waiters = (s.kernel.event e).waiters)
    (htype : ev.type = (s.kernel.event e).type)
    (hstores : ∀ xs, Stores (s.kernel.event e) xs → ∃ ys, xs = m :: ys ∧ Stores ev ys) :
    Sound initial ((({ s with kernel := s.kernel.setEvent e ev } : System ι μ).hand e
      s.kernel.cur m).receive e m) := by
  refine h.setEvent hwaiters htype rfl rfl (fun xs hxs => ?_) (fun f hf => ?_) fun p f => ?_
  · obtain ⟨ys, rfl, hys⟩ := hstores xs hxs.stores
    refine ⟨ys, hys, ?_, fun hno => absurd hno (by simp)⟩
    have horder := hxs.order
    change initial e ++ s.accepted e = ((System.hand e s.kernel.cur m _).handed e).map Prod.snd ++ ys
    rw [hand_handed, if_pos rfl, List.map_append]
    simpa using horder
  · refine ⟨rfl, ?_⟩
    change (System.hand e s.kernel.cur m _).handed f = _
    rw [hand_handed, if_neg hf, List.append_nil]
  · rw [receive_received]
    change (System.hand e s.kernel.cur m _).handedTo p f = _
    rw [hand_handedTo]
    change s.handedTo p f ++ _ = s.received p f ++ (if p = s.kernel.cur ∧ f = e then [m] else []) ++ _
    rw [h.hands]
    by_cases hboth : p = s.kernel.cur ∧ f = e
    · obtain ⟨rfl, rfl⟩ := hboth
      rw [inHand_of_eventPtr (h.cur_event htask)]
      simp
    · rw [if_neg hboth, if_neg fun hno => hboth ⟨hno.2.symm, hno.1⟩]
      simp

theorem Sound.waits (h : Sound initial s) (htask : s.AtTask) {timeout : ℕ}
    (hlock : s.kernel.lockNesting = 0)
    (hempty : ∀ xs, Stores (s.kernel.event e) xs → xs = []) :
    Sound initial (({ s with
      kernel := s.kernel.pendWait e (s.kernel.event e).type.stat timeout } : System ι μ).goto
        (.blocked e false)) := by
  have hready := (h.cur_isLeast htask hlock).1
  have hevent := fun f => pendWait_event (k := s.kernel) (e := e) (s.kernel.event e).type.stat
    timeout f
  have hself := pendWait_tcb_self (k := s.kernel) (e := e) (s.kernel.event e).type.stat timeout
  have hother := fun q (hq : q ≠ s.kernel.cur) => pendWait_tcb_of_ne (k := s.kernel) (e := e)
    (s.kernel.event e).type.stat timeout hq
  set k := s.kernel.pendWait e (s.kernel.event e).type.stat timeout with hk
  have hcur : k.cur = s.kernel.cur := rfl
  constructor
  · exact h.tables.pendWait hready (h.cur_event htask) timeout
  · constructor
    · exact (mem_erase (by decide)).mpr ⟨fun heq => htask.2.2 heq.symm, h.scheduled.idle⟩
    · exact (congrArg OsTcb.eventPtr (hother _ fun heq => htask.2.2 heq.symm)).trans
        h.scheduled.idleEvent
    · intro p
      by_cases hp : p = s.kernel.cur
      · rw [hp]
        exact (congrArg OsTcb.eventPtr hself).trans (by simp [System.goto, hcur, Pc.event])
      · refine (congrArg OsTcb.eventPtr (hother p hp)).trans ((h.scheduled.pcs p).trans ?_)
        simp [System.goto, hcur, hp]
    · intro hpos
      exact absurd hlock (Nat.pos_iff_ne_zero.mp hpos)
    · intro _ _ hworks
      simp [System.goto, Pc.Works] at hworks
  · intro f
    obtain ⟨xs, hxs⟩ := h.stored f
    refine ⟨xs, ?_, hxs.order, ?_⟩
    · change Stores (k.event f) xs
      rw [hevent]
      split_ifs with hf
      · subst hf
        exact hxs.stores.congr rfl rfl rfl
      · exact hxs.stores
    · intro p hp
      change (k.event f).waiters.Mem p at hp
      rw [hevent] at hp
      split_ifs at hp with hf
      · subst hf
        exact hempty xs hxs.stores
      · exact hxs.waiting p hp
  · intro p f
    change s.handedTo p f = s.received p f ++ k.inHand p f
    rw [h.hands]
    have htype : (k.event f).type = (s.kernel.event f).type := by
      rw [hevent]
      split_ifs with hf
      · rw [hf]
      · rfl
    by_cases hp : p = s.kernel.cur
    · subst hp
      obtain ⟨w, v, hok⟩ := h.tables.tasks s.kernel.cur
      obtain ⟨-, rfl, rfl, -⟩ := hok.ready.mp hready
      have hwaits : ¬ (k.tcb s.kernel.cur).stat &&& osStatPendAny = osStatRdy := by
        rw [hself, hok.stat, statOf_wait, statOf_and_pendAny]
        simp
      rw [inHand_of_eventPtr (h.cur_event htask), Kernel.inHand, if_neg fun hno => hwaits hno.2.1]
    · rw [inHand_congr (hother p hp) htype]

theorem Sound.pended (h : Sound initial s) (htask : s.AtTask) {r : PendStart μ × Kernel ι μ}
    (hr : Pends s.kernel e r) : Sound initial (s.pended e r) := by
  cases hr with
  | refused err herr =>
      have heq : s.pended e (.returns err none, s.kernel) = s := by
        cases err <;> first | exact absurd rfl herr | rfl
      rw [heq]
      exact h
  | taken m ev hwaiters htype hstores => exact h.taken htask hwaiters htype hstores
  | waits timeout hlock hempty => exact h.waits htask hlock hempty

end Steps

end YckjAcu.Ucos
