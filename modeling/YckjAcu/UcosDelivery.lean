import YckjAcu.UcosSafety

/-!
# Runs of the kernel

The end of a pend call, every step, and what the invariant says after any run of
tasks and interrupts.
-/

namespace YckjAcu.Ucos

open PriorityTable

variable {ι μ : Type} [DecidableEq ι]

/-- The event on which the label pends. -/
def Label.pendsOn : Label ι μ → Option ι
  | .qPend e _ | .semPend e _ => some e
  | _ => none

/-! ### The end of a pend call -/

/-- How a pend call ends for the current task. -/
structure Ends (k : Kernel ι μ) (e : ι) (r : OsErr × Option μ × Kernel ι μ) : Prop where
  err : r.1 = .none ↔ (k.tcb k.cur).statPend = .ok
  message : r.1 = .none → k.inHand k.cur e = [r.2.1]
  tables : TablesOk r.2.2
  rdy : r.2.2.rdy = k.rdy
  cur : r.2.2.cur = k.cur
  present : r.2.2.present = k.present
  lock : r.2.2.lockNesting = k.lockNesting
  eventPtr : (r.2.2.tcb k.cur).eventPtr = none
  others (q : ℕ) : q ≠ k.cur → r.2.2.tcb q = k.tcb q
  type (f : ι) : (r.2.2.event f).type = (k.event f).type
  cnt (f : ι) : (r.2.2.event f).cnt = (k.event f).cnt
  q (f : ι) : (r.2.2.event f).q = (k.event f).q
  waiters (f : ι) (q : ℕ) : (r.2.2.event f).waiters.Mem q → (k.event f).waiters.Mem q

section PendReturn

variable {k : Kernel ι μ} {e : ι}

theorem pendReturn_err : (k.pendReturn e).1 = .none ↔ (k.tcb k.cur).statPend = .ok := by
  cases h : (k.tcb k.cur).statPend <;> simp [Kernel.pendReturn, h]

theorem pendReturn_tcb (q : ℕ) : (k.pendReturn e).2.tcb q =
    if q = k.cur then { k.tcb q with stat := osStatRdy, statPend := .ok, eventPtr := none }
    else k.tcb q := by
  by_cases hq : q = k.cur
  · subst hq
    cases h : (k.tcb k.cur).statPend <;> simp [Kernel.pendReturn, h]
  · cases h : (k.tcb k.cur).statPend <;>
      simp [Kernel.pendReturn, h, hq, Kernel.setTcb_tcb_of_ne, Kernel.osEventTaskRemove]

theorem pendReturn_frame : (k.pendReturn e).2.rdy = k.rdy ∧ (k.pendReturn e).2.cur = k.cur ∧
    (k.pendReturn e).2.present = k.present ∧
    (k.pendReturn e).2.lockNesting = k.lockNesting := by
  cases h : (k.tcb k.cur).statPend <;>
    simp [Kernel.pendReturn, h, Kernel.osEventTaskRemove]

theorem pendReturn_event (f : ι) : (k.pendReturn e).2.event f = k.event f ∨
    (k.pendReturn e).2.event f = (k.osEventTaskRemove k.cur e).event f := by
  cases h : (k.tcb k.cur).statPend <;> simp [Kernel.pendReturn, h]

theorem setWaiters_event (w : OsPrioTbl) (f : ι) :
    ((k.setWaiters e w).event f).cnt = (k.event f).cnt ∧
      ((k.setWaiters e w).event f).q = (k.event f).q := by
  by_cases hf : f = e
  · subst hf
    rw [Kernel.setWaiters_event_self]
    exact ⟨rfl, rfl⟩
  · rw [Kernel.setWaiters_event_of_ne _ _ hf]
    exact ⟨rfl, rfl⟩

/-- What both calls have in common, for the state that they leave. -/
theorem ends_of_pendReturn {m : Option μ} {k' : Kernel ι μ} (htables : TablesOk k')
    (hmessage : (k.tcb k.cur).statPend = .ok → k.inHand k.cur e = [m])
    (hrdy : k'.rdy = (k.pendReturn e).2.rdy) (hcur : k'.cur = (k.pendReturn e).2.cur)
    (hpresent : k'.present = (k.pendReturn e).2.present)
    (hlock : k'.lockNesting = (k.pendReturn e).2.lockNesting)
    (hevent : k'.event = (k.pendReturn e).2.event)
    (hself : (k'.tcb k.cur).eventPtr = none)
    (hothers : ∀ q, q ≠ k.cur → k'.tcb q = (k.pendReturn e).2.tcb q) :
    Ends k e ((k.pendReturn e).1, m, k') where
  err := pendReturn_err
  message h := hmessage (pendReturn_err.mp h)
  tables := htables
  rdy := hrdy.trans pendReturn_frame.1
  cur := hcur.trans pendReturn_frame.2.1
  present := hpresent.trans pendReturn_frame.2.2.1
  lock := hlock.trans pendReturn_frame.2.2.2
  eventPtr := hself
  others q hq := by
    rw [hothers q hq, pendReturn_tcb, if_neg hq]
  type f := by
    rw [hevent]
    rcases pendReturn_event (k := k) (e := e) f with h | h <;> rw [h]
    exact Kernel.setWaiters_type _ _
  cnt f := by
    rw [hevent]
    rcases pendReturn_event (k := k) (e := e) f with h | h <;> rw [h]
    exact (setWaiters_event _ f).1
  q f := by
    rw [hevent]
    rcases pendReturn_event (k := k) (e := e) f with h | h <;> rw [h]
    exact (setWaiters_event _ f).2
  waiters f q hmem := by
    rw [hevent] at hmem
    rcases pendReturn_event (k := k) (e := e) f with h | h <;> rw [h] at hmem
    · exact hmem
    · exact ((mem_setWaiters_erase k).mp hmem).2

/-- A task that runs again after a hand-over has the message in hand. -/
theorem TablesOk.inHand_cur (h : TablesOk k) (hready : k.rdy.Mem k.cur)
    (hevent : (k.tcb k.cur).eventPtr = some e) (hpend : (k.tcb k.cur).statPend = .ok) :
    k.inHand k.cur e = [match (k.event e).type with
      | .q => (k.tcb k.cur).msg
      | .sem => none] := by
  obtain ⟨w, v, hok⟩ := h.tasks k.cur
  obtain ⟨-, rfl, rfl, -⟩ := hok.ready.mp hready
  refine if_pos ⟨hevent, ?_, hpend⟩
  rw [hok.stat]
  exact (statOf_and_pendAny none false).mpr rfl

theorem osQPendReturn_ends (h : TablesOk k) (hready : k.rdy.Mem k.cur)
    (hevent : (k.tcb k.cur).eventPtr = some e) (htype : (k.event e).type = .q) :
    Ends k e (k.osQPendReturn e) := by
  refine ends_of_pendReturn ((h.pendReturn hready hevent).setMsg k.cur none) (fun hpend => ?_)
    rfl rfl rfl rfl rfl ?_ fun q hq => ?_
  · rw [h.inHand_cur hready hevent hpend, htype, if_pos hpend]
  · rw [Kernel.setTcb_tcb_self, pendReturn_tcb, if_pos rfl]
  · exact Kernel.setTcb_tcb_of_ne _ _ hq

theorem osSemPendReturn_ends (h : TablesOk k) (hready : k.rdy.Mem k.cur)
    (hevent : (k.tcb k.cur).eventPtr = some e) (htype : (k.event e).type = .sem) :
    Ends k e (k.osSemPendReturn e) := by
  refine ends_of_pendReturn (h.pendReturn hready hevent) (fun hpend => ?_) rfl rfl rfl rfl
    rfl ?_ fun q _ => rfl
  · rw [h.inHand_cur hready hevent hpend, htype]
  · rw [pendReturn_tcb, if_pos rfl]

end PendReturn

section Finish

variable {initial : ι → List (Option μ)} {s : System ι μ} {e : ι}

theorem finished_kernel (r : OsErr × Option μ × Kernel ι μ) :
    (s.finished e r).kernel = r.2.2 := by
  simp only [System.finished, System.goto]
  split_ifs <;> rfl

theorem finished_history (r : OsErr × Option μ × Kernel ι μ) :
    (s.finished e r).accepted = s.accepted ∧ (s.finished e r).handed = s.handed := by
  simp only [System.finished]
  split_ifs <;> exact ⟨rfl, rfl⟩

/-- The current task returns from the call with what it has in hand. -/
theorem Sound.finished (h : Sound initial s) (hcur : (s.pc s.kernel.cur).event = some e)
    (hready : IsLeast {p | s.kernel.rdy.Mem p} s.kernel.cur) {r : OsErr × Option μ × Kernel ι μ}
    (hr : Ends s.kernel e r) : Sound initial (s.finished e r) := by
  have hevent : (s.kernel.tcb s.kernel.cur).eventPtr = some e := by rw [h.scheduled.pcs, hcur]
  have hkernel : (s.finished e r).kernel = r.2.2 := finished_kernel r
  have hpc : (s.finished e r).pc = Function.update s.pc s.kernel.cur .run := by
    simp only [System.finished, System.goto]
    split_ifs <;> simp [System.receive, hr.cur]
  have hhistory := finished_history (s := s) (e := e) r
  have hreceived : ∀ p f, (s.finished e r).received p f =
      s.received p f ++ if p = s.kernel.cur ∧ f = e ∧ r.1 = .none then [r.2.1] else [] := by
    intro p f
    by_cases herr : r.1 = .none
    · simp only [System.finished, herr, and_true]
      exact (receive_received _ e f p r.2.1).trans (by rw [hr.cur])
    · simp [System.finished, System.goto, herr]
  constructor
  · rw [hkernel]
    exact hr.tables
  · constructor <;> rw [hkernel]
    · rw [hr.rdy]
      exact h.scheduled.idle
    · rw [hr.others _ fun heq => by simp [← heq, h.scheduled.idleEvent] at hevent]
      exact h.scheduled.idleEvent
    · intro p
      rw [hpc]
      by_cases hp : p = s.kernel.cur
      · subst hp
        rw [hr.eventPtr, Function.update_self]
        rfl
      · rw [hr.others p hp, Function.update_of_ne hp, h.scheduled.pcs]
    · intro _
      rw [hpc, hr.cur, Function.update_self]
      rfl
    · intro _ _ _
      rw [hr.cur, hr.rdy]
      exact hready
  · intro f
    obtain ⟨xs, hxs⟩ := h.stored f
    refine ⟨xs, ?_, ?_, ?_⟩
    · rw [hkernel]
      exact hxs.stores.congr (hr.type f) (hr.cnt f) (hr.q f)
    · rw [hhistory.1, hhistory.2]
      exact hxs.order
    · rw [hkernel]
      exact fun p hp => hxs.waiting p (hr.waiters f p hp)
  · intro p f
    rw [System.handedTo, hhistory.2, hreceived, hkernel]
    refine (h.hands p f).trans ?_
    by_cases hp : p = s.kernel.cur
    · subst hp
      rw [inHand_of_eventPtr hr.eventPtr, List.append_nil]
      congr 1
      by_cases hf : f = e ∧ r.1 = .none
      · rw [if_pos ⟨rfl, hf⟩, hf.1, hr.message hf.2]
      · rw [if_neg fun hno => hf hno.2]
        refine if_neg fun hno => hf ⟨?_, hr.err.mpr hno.2.2⟩
        exact Option.some.inj (hno.1.symm.trans hevent)
    · rw [if_neg fun hno => hp hno.1, List.append_nil, inHand_congr (hr.others p hp) (hr.type f)]

/-- A task behind `OS_Sched` in a pend call runs only when it is ready. -/
theorem Sound.back (h : Sound initial s) (hint : s.kernel.intNesting = 0)
    (hcur : s.pc s.kernel.cur = .blocked e true) :
    (s.kernel.tcb s.kernel.cur).eventPtr = some e ∧
      IsLeast {p | s.kernel.rdy.Mem p} s.kernel.cur := by
  have hevent : (s.pc s.kernel.cur).event = some e := by
    rw [hcur]
    rfl
  have hlock : s.kernel.lockNesting = 0 := by
    by_contra hne
    rw [h.scheduled.locked (Nat.pos_of_ne_zero hne)] at hevent
    cases hevent
  exact ⟨(h.scheduled.pcs _).trans hevent, h.scheduled.working hint hlock (by rw [hcur]; rfl)⟩

theorem Sound.ends (h : Sound initial s) (hint : s.kernel.intNesting = 0)
    (hcur : s.pc s.kernel.cur = .blocked e true) :
    Ends s.kernel e (match (s.kernel.event e).type with
      | .q => s.kernel.osQPendReturn e
      | .sem => s.kernel.osSemPendReturn e) := by
  obtain ⟨hptr, hready⟩ := h.back hint hcur
  cases htype : (s.kernel.event e).type with
  | q => exact osQPendReturn_ends h.tables hready.1 hptr htype
  | sem => exact osSemPendReturn_ends h.tables hready.1 hptr htype

/-- What a step does, by what is known of the kernel's calls. -/
inductive Does (s : System ι μ) : Label ι μ → System ι μ → Prop
  | post {l : Label ι μ} {e : ι} {m : Option μ} {r : OsErr × Option ℕ × Kernel ι μ}
      (hcan : 0 < s.kernel.intNesting ∨ s.AtTask) (hr : Posts s.kernel e m r) :
      Does s l (s.posted e m r)
  | pend {l : Label ι μ} {e : ι} {r : PendStart μ × Kernel ι μ} (htask : s.AtTask)
      (hl : l.pendsOn = some e) (hr : Pends s.kernel e r) : Does s l (s.pended e r)
  | timeDly {ticks : ℕ} (htask : s.AtTask) :
      Does s (.timeDly ticks) (({ s with kernel := (s.kernel.osTimeDly ticks).2 } :
        System ι μ).beforeSched (s.kernel.osTimeDly ticks).1)
  | suspend {p : ℕ} (htask : s.AtTask) (hp : p ≠ osTaskIdlePrio) :
      Does s (.suspend p) (({ s with kernel := (s.kernel.osTaskSuspend p).2.2 } :
        System ι μ).beforeSched (s.kernel.osTaskSuspend p).2.1)
  | resume {p : ℕ} (htask : s.AtTask) :
      Does s (.resume p) (({ s with kernel := (s.kernel.osTaskResume p).2.2 } :
        System ι μ).beforeSched (s.kernel.osTaskResume p).2.1)
  | schedLock (htask : s.AtTask) : Does s .schedLock { s with kernel := s.kernel.osSchedLock }
  | schedUnlock (htask : s.AtTask) :
      Does s .schedUnlock (({ s with kernel := s.kernel.osSchedUnlock.2 } :
        System ι μ).beforeSched s.kernel.osSchedUnlock.1)
  | sched {c : Pc ι} (hc : c.event = (s.pc s.kernel.cur).event) :
      Does s .sched { s.goto c with kernel := s.kernel.osSched }
  | finish {e : ι} {r : OsErr × Option μ × Kernel ι μ} (hint : s.kernel.intNesting = 0)
      (hpc : s.pc s.kernel.cur = .blocked e true) (hends : Ends s.kernel e r) :
      Does s .finish (s.finished e r)
  | intEnter : Does s .intEnter { s with kernel := s.kernel.osIntEnter }
  | tick {p : ℕ} (hint : 0 < s.kernel.intNesting) (hpresent : s.kernel.present p = true) :
      Does s (.tick p) { s with kernel := s.kernel.osTimeTick p }
  | intExit : Does s .intExit { s with kernel := s.kernel.osIntExit }

theorem Sound.does (h : Sound initial s) {l : Label ι μ} {t : System ι μ}
    (hstep : System.step l s = some t) : Does s l t := by
  cases l with
  | qPost e m =>
      obtain ⟨hcan, ⟨⟩⟩ := Option.ite_none_right_eq_some.mp hstep
      exact .post hcan (osQPost_posts _ e m)
  | semPost e =>
      obtain ⟨hcan, ⟨⟩⟩ := Option.ite_none_right_eq_some.mp hstep
      exact .post hcan (osSemPost_posts _ e)
  | qPend e timeout =>
      obtain ⟨htask, ⟨⟩⟩ := Option.ite_none_right_eq_some.mp hstep
      exact .pend htask rfl (osQPend_pends _ e timeout)
  | semPend e timeout =>
      obtain ⟨htask, ⟨⟩⟩ := Option.ite_none_right_eq_some.mp hstep
      exact .pend htask rfl (osSemPend_pends _ e timeout)
  | timeDly ticks =>
      obtain ⟨htask, ⟨⟩⟩ := Option.ite_none_right_eq_some.mp hstep
      exact .timeDly htask
  | suspend p =>
      obtain ⟨⟨htask, hp⟩, ⟨⟩⟩ := Option.ite_none_right_eq_some.mp hstep
      exact .suspend htask hp
  | resume p =>
      obtain ⟨htask, ⟨⟩⟩ := Option.ite_none_right_eq_some.mp hstep
      exact .resume htask
  | schedLock =>
      obtain ⟨htask, ⟨⟩⟩ := Option.ite_none_right_eq_some.mp hstep
      exact .schedLock htask
  | schedUnlock =>
      obtain ⟨htask, ⟨⟩⟩ := Option.ite_none_right_eq_some.mp hstep
      exact .schedUnlock htask
  | sched =>
      obtain ⟨-, hmatch⟩ := Option.ite_none_right_eq_some.mp hstep
      split at hmatch
      · next hpc =>
          obtain rfl := Option.some.inj hmatch
          exact .sched (by rw [hpc]; rfl)
      · next e hpc =>
          obtain rfl := Option.some.inj hmatch
          exact .sched (by rw [hpc]; rfl)
      · cases hmatch
  | finish =>
      obtain ⟨hint, hmatch⟩ := Option.ite_none_right_eq_some.mp hstep
      split at hmatch
      · next e hpc =>
          have hends := h.ends hint hpc
          split at hmatch <;> next htype =>
            obtain rfl := Option.some.inj hmatch
            simp only [htype] at hends
            exact .finish hint hpc hends
      · cases hmatch
  | intEnter =>
      obtain rfl := Option.some.inj hstep
      exact .intEnter
  | tick p =>
      obtain ⟨⟨hint, hpresent, -⟩, ⟨⟩⟩ := Option.ite_none_right_eq_some.mp hstep
      exact .tick hint hpresent
  | intExit =>
      obtain ⟨-, ⟨⟩⟩ := Option.ite_none_right_eq_some.mp hstep
      exact .intExit

/-- The invariant is kept by every step. -/
theorem Sound.step (h : Sound initial s) (l : Label ι μ) {t : System ι μ}
    (hstep : System.step l s = some t) : Sound initial t := by
  cases h.does hstep with
  | post hcan hr => exact h.posted hcan hr
  | pend htask hl hr => exact h.pended htask hr
  | timeDly htask => exact h.timeDly htask _
  | suspend htask hp => exact h.taskSuspend htask hp
  | resume htask => exact h.taskResume htask _
  | schedLock htask => exact h.schedLock htask
  | schedUnlock htask => exact h.schedUnlock htask
  | sched hc => exact h.sched hc
  | finish hint hpc hends => exact h.finished (by rw [hpc]; rfl) (h.back hint hpc).2 hends
  | intEnter => exact h.intEnter
  | tick hint hpresent => exact h.tick hint hpresent
  | intExit => exact h.intExit

end Finish

/-! ### The start -/

/-- The objects that are created before `OSStart`. -/
inductive Creation
  | q (size : ℕ) (hsize : 0 < size)
  | sem (cnt : ℕ)

/-- `OSQCreate` and `OSSemCreate`. -/
def Creation.event : Creation → OsEvent μ
  | q size _ => ⟨.q, 0, empty, ⟨fun _ => none, 0, 0, size, 0⟩⟩
  | sem cnt => ⟨.sem, cnt, empty, ⟨fun _ => none, 0, 0, 0, 0⟩⟩

/-- What the object stores at the start. -/
def Creation.initial : Creation → List (Option μ)
  | q _ _ => []
  | sem cnt => List.replicate cnt none

/-- A set of tasks besides the idle task, by their priorities. -/
structure TaskSet where
  prios : List ℕ
  lt_idle (p : ℕ) : p ∈ prios → p < osTaskIdlePrio

namespace TaskSet

variable (ts : TaskSet) (cs : ι → Creation)

def all : List ℕ := osTaskIdlePrio :: ts.prios

/-- The ready list after the creation of the tasks. -/
def rdy : OsPrioTbl := ts.all.foldr insert empty

/-- The state in which `OSStart` starts the first task. -/
def start : System ι μ where
  kernel :=
    { rdy := ts.rdy
      tcb := fun _ => ⟨osStatRdy, .ok, 0, none, none⟩
      present := fun p => p ∈ ts.all
      event := fun e => (cs e).event
      cur := highest ts.rdy
      intNesting := 0
      lockNesting := 0 }
  pc := fun _ => .run
  accepted := fun _ => []
  handed := fun _ => []
  received := fun _ _ => []

variable {p : ℕ}

theorem lt_of_mem_all (h : p ∈ ts.all) : p < 64 := by
  rcases List.mem_cons.mp h with rfl | h
  · decide
  · exact (ts.lt_idle p h).trans (by decide)

theorem coherent_foldr (ps : List ℕ) (h : ∀ p ∈ ps, p < 64) :
    (ps.foldr insert (empty : OsPrioTbl)).Coherent := by
  induction ps with
  | nil => exact coherent_empty
  | cons p ps ih =>
      have hp : p / 8 < 8 := by have := h p List.mem_cons_self; omega
      exact (ih fun q hq => h q (List.mem_cons_of_mem p hq)).insert (by decide) hp

theorem mem_foldr (ps : List ℕ) : (ps.foldr insert (empty : OsPrioTbl)).Mem p ↔ p ∈ ps := by
  induction ps with
  | nil => simp [not_mem_empty]
  | cons q ps ih => rw [List.foldr_cons, mem_insert (by decide), ih, List.mem_cons]

omit [DecidableEq ι] in
theorem start_event (e : ι) : ((cs e).event : OsEvent μ).waiters = empty ∧
    Stores ((cs e).event : OsEvent μ) (cs e).initial := by
  cases cs e with
  | q size hsize => exact ⟨rfl, Ring.holds_nil hsize, rfl⟩
  | sem cnt => exact ⟨rfl, rfl⟩

omit [DecidableEq ι] in
theorem start_tables : TablesOk (ts.start cs : System ι μ).kernel where
  rdy := coherent_foldr _ fun _ => ts.lt_of_mem_all
  waiters e := by
    change ((cs e).event : OsEvent μ).waiters.Coherent
    rw [(start_event cs e).1]
    exact coherent_empty
  present p h := ts.lt_of_mem_all (by simpa [start] using h)
  tasks p := by
    refine ⟨none, false, rfl, ?_, fun e => ?_, ?_, ?_, ?_, ?_⟩
    · simpa [start, rdy] using mem_foldr ts.all
    · refine iff_of_false (fun hmem => ?_) (by simp [start])
      change ((cs e).event : OsEvent μ).waiters.Mem p at hmem
      rw [(start_event cs e).1] at hmem
      exact not_mem_empty hmem
    · simp
    · simp [start]
    · simp [start]
    · simp [start]

theorem start_sound : Sound (fun e => (cs e).initial) (ts.start cs : System ι μ) where
  tables := ts.start_tables cs
  scheduled := by
    have hidle : ts.rdy.Mem osTaskIdlePrio := (mem_foldr _).mpr List.mem_cons_self
    exact ⟨hidle, rfl, fun _ => rfl, fun hno => absurd hno (lt_irrefl 0),
      fun _ _ _ => (ts.start_tables cs).cur_isLeast hidle⟩
  stored e := by
    refine ⟨_, (start_event cs e).2, by simp [start], fun p hmem => ?_⟩
    change ((cs e).event : OsEvent μ).waiters.Mem p at hmem
    rw [(start_event cs e).1] at hmem
    exact absurd hmem not_mem_empty
  hands p e := by simp [System.handedTo, start, Kernel.inHand]

theorem sound_of_run {ls : List (Label ι μ)} {s : System ι μ}
    (h : Runs.run System.step (ts.start cs) ls = some s) : Sound (fun e => (cs e).initial) s :=
  Runs.invariant (fun _ l _ hs hstep => hs.step l hstep) (ts.start_sound cs) h

end TaskSet

/-! ### After any run -/

/-- Ready by its control block. -/
def Kernel.Runnable (k : Kernel ι μ) (p : ℕ) : Prop :=
  k.present p = true ∧ (k.tcb p).stat = osStatRdy ∧ (k.tcb p).dly = 0

/-- The task to which the label hands a message of `e`: the waiting task of the highest
priority, or the current task that pends when none waits. -/
def Kernel.IsNext (k : Kernel ι μ) (l : Label ι μ) (e : ι) (p : ℕ) : Prop :=
  IsLeast {q | (k.event e).waiters.Mem q} p ∨
    l.pendsOn = some e ∧ (∀ q, ¬ (k.event e).waiters.Mem q) ∧ p = k.cur

section Reached

variable {initial : ι → List (Option μ)} {s t : System ι μ}

omit [DecidableEq ι] in
/-- The ready list holds exactly the tasks that are ready by their control blocks. -/
theorem TablesOk.mem_rdy {k : Kernel ι μ} (h : TablesOk k) (p : ℕ) : k.rdy.Mem p ↔ k.Runnable p := by
  obtain ⟨w, v, hok⟩ := h.tasks p
  rw [hok.ready, Kernel.Runnable, hok.stat, statOf_eq_rdy, and_assoc]

omit [DecidableEq ι] in
theorem TablesOk.setOf_rdy {k : Kernel ι μ} (h : TablesOk k) :
    {p | k.rdy.Mem p} = {p | k.Runnable p} := Set.ext h.mem_rdy

omit [DecidableEq ι] in
/-- A rescheduling is the only way to another task. -/
theorem osSched_cur {k : Kernel ι μ} (h : k.osSched.cur ≠ k.cur) :
    k.intNesting = 0 ∧ k.lockNesting = 0 ∧ k.osSched = { k with cur := highest k.rdy } := by
  by_cases hfree : k.intNesting = 0 ∧ k.lockNesting = 0
  · exact ⟨hfree.1, hfree.2, osSched_of_free hfree⟩
  · rw [osSched_of_locked hfree] at h
    exact absurd rfl h

theorem posted_cur {e : ι} {m : Option μ} {r : OsErr × Option ℕ × Kernel ι μ}
    (hr : Posts s.kernel e m r) : (s.posted e m r).kernel.cur = s.kernel.cur := by
  cases hr with
  | refused err herr => simp [System.posted, herr]
  | handed hne hm =>
      simp only [System.posted, beforeSched_kernel]
      exact (osEventTaskRdy_frame m _).2.1
  | stored hgrp ev hwaiters htype hstores => rfl

theorem pended_cur {e : ι} {r : PendStart μ × Kernel ι μ} (hr : Pends s.kernel e r) :
    (s.pended e r).kernel.cur = s.kernel.cur := by
  cases hr with
  | refused err herr => cases err <;> rfl
  | taken m ev hwaiters htype hstores => rfl
  | waits timeout hlock hempty => rfl

/-- Only a rescheduling changes the current task. -/
theorem Sound.step_cur (h : Sound initial s) (l : Label ι μ) (hstep : System.step l s = some t)
    (hne : t.kernel.cur ≠ s.kernel.cur) : ∃ k : Kernel ι μ, k.cur = s.kernel.cur ∧
      k.lockNesting = s.kernel.lockNesting ∧ t.kernel = k.osSched := by
  cases h.does hstep with
  | post hcan hr => exact absurd (posted_cur hr) hne
  | pend htask hl hr => exact absurd (pended_cur hr) hne
  | timeDly htask =>
      rw [beforeSched_kernel] at hne
      exact absurd (osTimeDly_frame _ _).1 hne
  | suspend htask hp =>
      rw [beforeSched_kernel] at hne
      exact absurd (osTaskSuspend_frame _ _).1 hne
  | resume htask =>
      rw [beforeSched_kernel] at hne
      exact absurd (osTaskResume_frame _ _).1 hne
  | schedLock htask =>
      refine absurd ?_ hne
      unfold Kernel.osSchedLock
      split_ifs <;> rfl
  | schedUnlock htask =>
      refine absurd ?_ hne
      rw [beforeSched_kernel, Kernel.osSchedUnlock]
      split_ifs <;> rfl
  | sched hc => exact ⟨s.kernel, rfl, rfl, rfl⟩
  | finish hint hpc hends =>
      rw [finished_kernel, hends.cur] at hne
      exact absurd rfl hne
  | intEnter =>
      refine absurd ?_ hne
      unfold System.kernel Kernel.osIntEnter
      split_ifs <;> rfl
  | tick hint hpresent => exact absurd (osTimeTick_frame _ _).2.2.1 hne
  | intExit => exact ⟨{ s.kernel with intNesting := s.kernel.intNesting - 1 }, rfl, rfl, rfl⟩

/-- Another task becomes the current one only outside interrupts, with the scheduler
not locked, and it is the runnable task of the highest priority. -/
theorem Sound.switch (h : Sound initial s) (l : Label ι μ) (hstep : System.step l s = some t)
    (hne : t.kernel.cur ≠ s.kernel.cur) : s.kernel.lockNesting = 0 ∧ t.kernel.intNesting = 0 ∧
      IsLeast {p | t.kernel.Runnable p} t.kernel.cur := by
  have ht := h.step l hstep
  obtain ⟨k, hcur, hlock, hkernel⟩ := h.step_cur l hstep hne
  rw [hkernel, ← hcur] at hne
  obtain ⟨hint, hlock', heq⟩ := osSched_cur hne
  have hrdy : t.kernel.rdy = k.rdy := by rw [hkernel, heq]
  refine ⟨hlock ▸ hlock', by rw [hkernel, heq]; exact hint, ?_⟩
  rw [← ht.tables.setOf_rdy]
  have hleast := ht.tables.cur_isLeast ht.scheduled.idle
  rw [show highest t.kernel.rdy = t.kernel.cur by rw [hrdy, hkernel, heq]] at hleast
  exact hleast

section Handed

variable {e : ι} {m : Option μ}

/-- A post hands its message to the waiting task of the highest priority. -/
theorem posted_handed {r : OsErr × Option ℕ × Kernel ι μ} (h : TablesOk s.kernel)
    (hr : Posts s.kernel e m r) (f : ι) : (s.posted e m r).handed f = s.handed f ∨
      ∃ p, (s.posted e m r).handed f = s.handed f ++ [(p, m)] ∧
        IsLeast {q | (s.kernel.event f).waiters.Mem q} p := by
  cases hr with
  | refused err herr => exact Or.inl (by simp [System.posted, herr])
  | handed hne hm =>
      simp only [System.posted, if_true, (beforeSched_history _ true).2.1]
      rw [hand_handed]
      by_cases hf : f = e
      · subst hf
        rw [if_pos rfl]
        exact Or.inr ⟨_, rfl, h.highest_isLeast hne⟩
      · rw [if_neg hf, List.append_nil]
        exact Or.inl rfl
  | stored hgrp ev hwaiters htype hstores => exact Or.inl rfl

/-- What a pend call takes at once, no task waits for. -/
theorem Sound.pended_handed {r : PendStart μ × Kernel ι μ} (h : Sound initial s)
    (hr : Pends s.kernel e r) (f : ι) : (s.pended e r).handed f = s.handed f ∨
      ∃ m, (s.pended e r).handed f = s.handed f ++ [(s.kernel.cur, m)] ∧ e = f ∧
        ∀ q, ¬ (s.kernel.event f).waiters.Mem q := by
  cases hr with
  | refused err herr => cases err <;> first | exact absurd rfl herr | exact Or.inl rfl
  | waits timeout hlock hempty => exact Or.inl rfl
  | taken m ev hwaiters htype hstores =>
      change (System.hand e s.kernel.cur m _).handed f = _ ∨
        ∃ m', (System.hand e s.kernel.cur m _).handed f = _ ∧ _
      rw [hand_handed]
      by_cases hf : f = e
      · subst hf
        rw [if_pos rfl]
        refine Or.inr ⟨m, rfl, rfl, fun q hq => ?_⟩
        obtain ⟨xs, hxs⟩ := h.stored f
        obtain ⟨ys, hcons, -⟩ := hstores xs hxs.stores
        rw [hxs.waiting q hq] at hcons
        cases hcons
      · rw [if_neg hf, List.append_nil]
        exact Or.inl rfl

end Handed

theorem Sound.hand_step (h : Sound initial s) (l : Label ι μ) (hstep : System.step l s = some t)
    (e : ι) : t.handed e = s.handed e ∨
      ∃ p m, t.handed e = s.handed e ++ [(p, m)] ∧ s.kernel.IsNext l e p := by
  cases h.does hstep with
  | post hcan hr =>
      exact (posted_handed h.tables hr e).imp_right fun ⟨p, hp, hleast⟩ =>
        ⟨p, _, hp, Or.inl hleast⟩
  | pend htask hl hr =>
      exact (h.pended_handed hr e).imp_right fun ⟨m, hm, hf, hno⟩ =>
        ⟨s.kernel.cur, m, hm, Or.inr ⟨hl.trans (congrArg some hf), hno, rfl⟩⟩
  | timeDly | suspend | resume | schedUnlock =>
      exact Or.inl (congrFun (beforeSched_history _ _).2.1 e)
  | schedLock | sched | intEnter | tick | intExit => exact Or.inl rfl
  | finish hint hpc hends => exact Or.inl (congrFun (finished_history _).2 e)

section Event

variable {e : ι}

omit [DecidableEq ι] in
theorem goto_pc_event {c : Pc ι} {q : ℕ} (hq : ((s.goto c).pc q).event = some e) :
    (s.pc q).event = some e ∨ c.event = some e ∧ q = s.kernel.cur := by
  by_cases hcur : q = s.kernel.cur
  · subst hcur
    exact Or.inr ⟨by simpa [System.goto] using hq, rfl⟩
  · exact Or.inl (by simpa [System.goto, hcur] using hq)

omit [DecidableEq ι] in
theorem beforeSched_pc_event {u : System ι μ} {b : Bool} {q : ℕ}
    (hq : ((u.beforeSched b).pc q).event = some e) (hpc : u.pc = s.pc) :
    (s.pc q).event = some e := by
  unfold System.beforeSched at hq
  split_ifs at hq
  · rcases goto_pc_event hq with hq | ⟨hno, -⟩
    · exact hpc ▸ hq
    · cases hno
  · rwa [hpc] at hq

theorem finished_pc_event {f : ι} {r : OsErr × Option μ × Kernel ι μ} {q : ℕ}
    (hq : ((s.finished f r).pc q).event = some e) : (s.pc q).event = some e := by
  simp only [System.finished] at hq
  rcases goto_pc_event hq with hq | ⟨hno, -⟩
  · split_ifs at hq <;> exact hq
  · cases hno

theorem posted_pc_event {f : ι} {m : Option μ} {r : OsErr × Option ℕ × Kernel ι μ} {q : ℕ}
    (hr : Posts s.kernel f m r) (hq : ((s.posted f m r).pc q).event = some e) :
    (s.pc q).event = some e := by
  cases hr with
  | refused err herr => simpa [System.posted, herr] using hq
  | handed hne hm =>
      simp only [System.posted, if_true] at hq
      exact beforeSched_pc_event hq rfl
  | stored hgrp ev hwaiters htype hstores => exact hq

theorem pended_pc_event {f : ι} {r : PendStart μ × Kernel ι μ} {q : ℕ}
    (hr : Pends s.kernel f r) (hq : ((s.pended f r).pc q).event = some e) :
    (s.pc q).event = some e ∨ some f = some e ∧ q = s.kernel.cur := by
  cases hr with
  | refused err herr => cases err <;> exact Or.inl hq
  | taken m ev hwaiters htype hstores => exact Or.inl hq
  | waits timeout hlock hempty => exact goto_pc_event hq

/-- Only its own pend call brings a task to an event. -/
theorem Sound.step_pc_event (h : Sound initial s) (l : Label ι μ)
    (hstep : System.step l s = some t) {q : ℕ} (hq : (t.pc q).event = some e) :
    (s.pc q).event = some e ∨ l.pendsOn = some e ∧ q = s.kernel.cur := by
  cases h.does hstep with
  | post hcan hr => exact Or.inl (posted_pc_event hr hq)
  | pend htask hl hr =>
      rw [hl]
      exact pended_pc_event hr hq
  | timeDly | suspend | resume | schedUnlock => exact Or.inl (beforeSched_pc_event hq rfl)
  | schedLock | intEnter | tick | intExit => exact Or.inl hq
  | sched hc =>
      rcases goto_pc_event hq with hq | ⟨hf, hcur⟩
      · exact Or.inl hq
      · rw [hcur, ← hc]
        exact Or.inl hf
  | finish hint hpc hends => exact Or.inl (finished_pc_event hq)

end Event

end Reached

/-! ### A single consumer -/

/-- No task but `p` has ever got a message of `e` or is in a call on it. -/
structure OnlyConsumer (e : ι) (p : ℕ) (s : System ι μ) : Prop where
  waits (q : ℕ) : (s.pc q).event = some e → q = p
  handed : ∀ h ∈ s.handed e, h.1 = p

section Consumer

variable {initial : ι → List (Option μ)} {s t : System ι μ} {e : ι} {p : ℕ}

theorem OnlyConsumer.step (ho : OnlyConsumer e p s) (h : Sound initial s) (l : Label ι μ)
    (hl : l.pendsOn = some e → s.kernel.cur = p) (hstep : System.step l s = some t) :
    OnlyConsumer e p t where
  waits q hq := by
    rcases h.step_pc_event l hstep hq with hq | ⟨hpend, rfl⟩
    · exact ho.waits q hq
    · exact hl hpend
  handed := by
    rcases h.hand_step l hstep e with heq | ⟨q, m, heq, hnext⟩
    · rw [heq]
      exact ho.handed
    · have hq : q = p := by
        rcases hnext with hleast | ⟨hpend, -, rfl⟩
        · obtain ⟨w, v, hok⟩ := h.tables.tasks q
          obtain ⟨-, hevent, -⟩ := (hok.waits e).mp hleast.1
          exact ho.waits q (by rw [← h.scheduled.pcs, hevent])
        · exact hl hpend
      rw [heq]
      intro x hx
      rcases List.mem_append.mp hx with hx | hx
      · exact ho.handed x hx
      · rw [List.mem_singleton.mp hx, hq]

omit [DecidableEq ι] in
theorem OnlyConsumer.handedTo (ho : OnlyConsumer e p s) :
    s.handedTo p e = (s.handed e).map Prod.snd := by
  rw [System.handedTo, List.filter_eq_self.mpr fun x hx => by simpa using ho.handed x hx]

end Consumer

/-- Two tasks and a queue of 64 entries at the start. -/
def twoTasks : System Unit ℕ :=
  TaskSet.start ⟨[8, 10], by decide⟩ fun _ => .q 64 (by decide)

/-- Task 8 waits for a message and task 10 posts one. -/
def handOver : Option (System Unit ℕ) :=
  Runs.run System.step twoTasks
    [.qPend () 0, .sched, .qPost () (some 7), .sched, .finish]

theorem handOver_eq_some : ∃ s, handOver = some s ∧ s.accepted () = [some 7] ∧
    s.kernel.intNesting = 0 ∧ s.kernel.lockNesting = 0 ∧ s.kernel.cur = 8 ∧ s.pc 8 = .run := by
  have hmap : handOver.map (fun s => (s.accepted (), s.kernel.intNesting, s.kernel.lockNesting,
      s.kernel.cur, s.pc 8)) = some ([some 7], 0, 0, 8, .run) := by decide +kernel
  obtain ⟨s, hs, heq⟩ := Option.map_eq_some_iff.mp hmap
  simp only [Prod.mk.injEq] at heq
  exact ⟨s, hs, heq⟩

section Runs

variable (ts : TaskSet) (cs : ι → Creation) {ls : List (Label ι μ)} {s : System ι μ}

/-- After every run of tasks and interrupts the task that works is the runnable task
of the highest priority, and so is every task that the next step switches to. -/
theorem dispatched_isLeast (h : Runs.run System.step (ts.start cs) ls = some s) :
    (s.kernel.intNesting = 0 → s.kernel.lockNesting = 0 → (s.pc s.kernel.cur).Works →
      IsLeast {p | s.kernel.Runnable p} s.kernel.cur) ∧
    ∀ (l : Label ι μ) (t : System ι μ), System.step l s = some t →
      t.kernel.cur ≠ s.kernel.cur → s.kernel.lockNesting = 0 ∧ t.kernel.intNesting = 0 ∧
        IsLeast {p | t.kernel.Runnable p} t.kernel.cur := by
  have hsound := ts.sound_of_run cs h
  refine ⟨fun hint hlock hworks => ?_, fun l t hstep hne => hsound.switch l hstep hne⟩
  rw [← hsound.tables.setOf_rdy]
  exact hsound.scheduled.working hint hlock hworks

theorem dispatched_isLeast_handOver :
    ∃ s, handOver = some s ∧ IsLeast {p | s.kernel.Runnable p} 8 := by
  obtain ⟨s, hs, -, hint, hlock, hcur, hpc⟩ := handOver_eq_some
  have hleast := (dispatched_isLeast _ _ hs).1 hint hlock (by rw [hcur, hpc]; trivial)
  exact ⟨s, hs, hcur ▸ hleast⟩

/-- After every run the messages accepted are those handed out, in the same order, and
then those stored, which are none while a task waits; and every task has received what
was handed to it, up to one message that it has in hand. -/
theorem messages_conserved (h : Runs.run System.step (ts.start cs) ls = some s) (e : ι) :
    ∃ stored, Stores (s.kernel.event e) stored ∧
      (cs e).initial ++ s.accepted e = (s.handed e).map Prod.snd ++ stored ∧
      (∀ p, (s.kernel.event e).waiters.Mem p → stored = []) ∧
      ∀ p, s.handedTo p e = s.received p e ++ s.kernel.inHand p e := by
  have hsound := ts.sound_of_run cs h
  obtain ⟨stored, hstored⟩ := hsound.stored e
  exact ⟨stored, hstored.stores, hstored.order, hstored.waiting, fun p => hsound.hands p e⟩

theorem messages_conserved_handOver : ∃ s, handOver = some s ∧ ∃ stored,
    Stores (s.kernel.event ()) stored ∧ [some 7] = (s.handed ()).map Prod.snd ++ stored := by
  obtain ⟨s, hs, haccepted, -⟩ := handOver_eq_some
  obtain ⟨stored, hstored, horder, -⟩ := messages_conserved _ _ hs ()
  rw [haccepted] at horder
  exact ⟨s, hs, stored, hstored, horder⟩

/-- Each message goes to one task: to the waiting task of the highest priority, or to the
task that pends. -/
theorem handed_isNext (h : Runs.run System.step (ts.start cs) ls = some s) (l : Label ι μ)
    {t : System ι μ} (hstep : System.step l s = some t) (e : ι) :
    t.handed e = s.handed e ∨
      ∃ p m, t.handed e = s.handed e ++ [(p, m)] ∧ s.kernel.IsNext l e p :=
  (ts.sound_of_run cs h).hand_step l hstep e

/-- The post of task 10 hands its message to task 8, which waits. -/
theorem handed_isNext_handOver : ∃ s t : System Unit ℕ,
    Runs.run System.step twoTasks [.qPend () 0, .sched] = some s ∧
    System.step (.qPost () (some 7)) s = some t ∧ t.handed () = s.handed () ++ [(8, some 7)] ∧
    s.kernel.IsNext (.qPost () (some 7)) () 8 := by
  have hmap : ((Runs.run System.step twoTasks [.qPend () 0, .sched]).bind fun s =>
      (System.step (.qPost () (some 7)) s).map fun t => (s.handed (), t.handed ())) =
        some ([], [(8, some 7)]) := by decide +kernel
  obtain ⟨s, hs, hpost⟩ := Option.bind_eq_some_iff.mp hmap
  obtain ⟨t, ht, hhanded⟩ := Option.map_eq_some_iff.mp hpost
  obtain ⟨hbefore, hafter⟩ := Prod.mk.inj hhanded
  refine ⟨s, t, hs, ht, by rw [hbefore, hafter]; rfl, ?_⟩
  rcases handed_isNext _ _ hs _ ht () with hsame | ⟨p, m, hmore, hnext⟩
  · rw [hbefore, hafter] at hsame
    cases hsame
  · rw [hbefore, hafter] at hmore
    obtain rfl : 8 = p := congrArg Prod.fst (List.singleton_inj.mp hmore)
    exact hnext

/-- Where one task only pends on an event, it receives what is accepted, in this
order: the rest is in its hand and in the store. -/
theorem received_in_order (h : Runs.run System.step (ts.start cs) ls = some s) {e : ι} {p : ℕ}
    (hone : Runs.AllSteps System.step (fun s (l : Label ι μ) => l.pendsOn = some e → s.kernel.cur = p)
      (ts.start cs) ls) :
    ∃ stored, Stores (s.kernel.event e) stored ∧
      (cs e).initial ++ s.accepted e = s.received p e ++ s.kernel.inHand p e ++ stored := by
  have hstart : OnlyConsumer e p (ts.start cs : System ι μ) :=
    ⟨fun q hq => (by cases hq), fun x hx => (by cases hx)⟩
  have hboth := Runs.invariant_of_allSteps
    (I := fun s => Sound (fun e => (cs e).initial) s ∧ OnlyConsumer e p s)
    (fun _ l _ hs hl hstep => ⟨hs.1.step l hstep, hs.2.step hs.1 l hl hstep⟩)
    ⟨ts.start_sound cs, hstart⟩ hone h
  obtain ⟨stored, hstored⟩ := hboth.1.stored e
  refine ⟨stored, hstored.stores, ?_⟩
  rw [hstored.order, ← hboth.2.handedTo, hboth.1.hands]

theorem received_in_order_handOver : ∃ s, handOver = some s ∧ ∃ stored,
    Stores (s.kernel.event ()) stored ∧
      [some 7] = s.received 8 () ++ s.kernel.inHand 8 () ++ stored := by
  obtain ⟨s, hs, haccepted, -⟩ := handOver_eq_some
  obtain ⟨stored, hstored, horder⟩ := received_in_order _ _ hs (e := ()) (p := 8)
    (by decide +kernel)
  rw [haccepted] at horder
  exact ⟨s, hs, stored, hstored, horder⟩

end Runs

end YckjAcu.Ucos
