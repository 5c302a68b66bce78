import YckjAcu.Lib.Runs
import YckjAcu.Tasks

/-!
# Messages between the tasks

A producer posts the same address again and again, so a message keeps its bytes
only as long as nobody writes to the buffer until the consumer has read it.  In
every run that does so at most one message of each task is unread, and it is
read as it was posted.
-/

namespace YckjAcu

def Pc.unread : Pc → List ℕ
  | .reading p => [p]
  | _ => []

namespace System

/-- The messages of a task that are in its queue or being read. -/
def unread (t : Task) (s : System) : List ℕ := (s.task t.other).pc.unread ++ (s.task t).queue

/-- The address that a step writes to. -/
def writeAddr : Label → System → Option ℕ
  | .fill t, s =>
      match (s.task t).pc, (s.task t).buf with
      | .fill (w :: _), some p => some (p + w.1)
      | _, _ => none
  | .otherWrite x _, _ => some x
  | _, _ => none

/-- The step writes to no buffer with an unread message. -/
def SparesUnread (s : System) (l : Label) : Prop :=
  ∀ x ∈ writeAddr l s, ∀ t, ∀ p ∈ s.unread t, ¬ (p ≤ x ∧ x < p + t.size)

/-- Messages are taken in the order of the posts, each once, and the message
being read holds the bytes it was posted with. -/
structure Intact (s : System) : Prop where
  order : ∀ t, (s.task t).posted.length = (s.task t).taken + (s.task t).queue.length
  read : ∀ t p, (s.task t.other).pc = .reading p → 0 < (s.task t).taken ∧
    (s.task t).posted[(s.task t).taken - 1]? = some (content t.size s.mem p)

end System

/-! ### The invariant of one queue -/

theorem content_update {size : ℕ} {mem : ℕ → UInt8} {p x : ℕ} (h : ¬ (p ≤ x ∧ x < p + size))
    (v : UInt8) : content size (Function.update mem x v) p = content size mem p := by
  apply List.map_congr_left
  intro j hj
  have hlt := List.mem_range.mp hj
  have hne : p + j ≠ x := by omega
  exact Function.update_of_ne hne v mem

/-- The state of a producer with its queue, beside the message `r` of it that
the consumer is reading. -/
structure ChannelOk (size : ℕ) (x : TaskState) (r : List ℕ) (mem : ℕ → UInt8) : Prop where
  order : x.posted.length = x.taken + x.queue.length
  single : (r ++ x.queue).length ≤ 1
  mine : ∀ p ∈ r ++ x.queue, x.buf = some p
  kept : ∀ p ∈ r ++ x.queue, x.posted.getLast? = some (content size mem p)
  filling : ∀ ws, x.pc = .fill ws → ws ≠ [] ∧ ∀ w ∈ ws, w.1 < size
  settled : x.pc = .start ∨ x.pc = .post → r ++ x.queue = []

namespace ChannelOk

variable {t : Task} {size : ℕ} {x : TaskState} {r : List ℕ} {mem : ℕ → UInt8}

theorem drop (h : ChannelOk size x r mem) : ChannelOk size x [] mem where
  order := h.order
  single := by
    have hlen := h.single
    rw [List.length_append] at hlen
    rw [List.nil_append]
    omega
  mine := fun p hp => h.mine p (List.mem_append_right r hp)
  kept := fun p hp => h.kept p (List.mem_append_right r hp)
  filling := h.filling
  settled := fun hpc => (List.append_eq_nil_iff.mp (h.settled hpc)).2

theorem write (h : ChannelOk size x r mem) {a : ℕ}
    (ha : ∀ p ∈ r ++ x.queue, ¬ (p ≤ a ∧ a < p + size)) (v : UInt8) :
    ChannelOk size x r (Function.update mem a v) where
  order := h.order
  single := h.single
  mine := h.mine
  kept := by
    intro p hp
    rw [content_update (ha p hp)]
    exact h.kept p hp
  filling := h.filling
  settled := h.settled

theorem move (h : ChannelOk t.size x r mem) {pc : Pc} (hm : System.Moves t x.pc pc) :
    ChannelOk t.size { x with pc } r mem where
  order := h.order
  single := h.single
  mine := h.mine
  kept := h.kept
  filling := by
    rintro ws (rfl : pc = .fill ws)
    generalize x.pc = pc₀ at hm
    cases hm with
    | filling _ _ hne hlt => exact ⟨hne, hlt⟩
  settled := by
    rintro (hpc : pc = .start ∨ pc = .post)
    generalize x.pc = pc₀ at hm
    cases hm <;> simp at hpc

theorem goto (h : ChannelOk size x r mem) (pc : Pc) (hfill : ∀ ws, pc ≠ .fill ws)
    (hsettled : pc = .start ∨ pc = .post → r ++ x.queue = []) :
    ChannelOk size { x with pc } r mem where
  order := h.order
  single := h.single
  mine := h.mine
  kept := h.kept
  filling := fun ws hpc => absurd hpc (hfill ws)
  settled := hsettled

theorem take (h : ChannelOk size x [] mem) {p : ℕ} {ps : List ℕ} (hqueue : x.queue = p :: ps) :
    ChannelOk size { x with queue := ps, taken := x.taken + 1 } [p] mem where
  order := by
    have horder := h.order
    rw [hqueue, List.length_cons] at horder
    simp only
    omega
  single := by
    have hsingle := h.single
    rwa [hqueue] at hsingle
  mine := by
    have hmine := h.mine
    rwa [hqueue] at hmine
  kept := by
    have hkept := h.kept
    rwa [hqueue] at hkept
  filling := h.filling
  settled := by
    intro hpc
    have hnil := h.settled hpc
    rw [hqueue] at hnil
    cases hnil

end ChannelOk

/-! ### Steps -/

namespace System

def MessagesOk (s : System) : Prop :=
  ∀ t, ChannelOk t.size (s.task t) (s.task t.other).pc.unread s.mem

theorem messagesOk_set {s : System} {t : Task} {x : TaskState} :
    (s.set t x).MessagesOk ↔ ChannelOk t.size x (s.task t.other).pc.unread s.mem ∧
      ChannelOk t.other.size (s.task t.other) x.pc.unread s.mem := by
  rw [MessagesOk, Task.forall_iff t]
  simp

variable {s u : System} {t : Task}

theorem Moves.unread_eq {pc pc' : Pc} (h : Moves t pc pc') : pc'.unread = [] := by
  cases h <;> rfl

theorem MessagesOk.move (h : s.MessagesOk) {pc : Pc} (hm : Moves t (s.task t).pc pc) :
    (s.goto t pc).MessagesOk := by
  refine messagesOk_set.mpr ⟨(h t).move hm, ?_⟩
  show ChannelOk _ _ pc.unread _
  rw [hm.unread_eq]
  exact (h t.other).drop

theorem MessagesOk.goto (h : s.MessagesOk) {pc : Pc} (hfill : ∀ ws, pc ≠ .fill ws)
    (hread : pc.unread = []) (hsettled : ¬ (pc = .start ∨ pc = .post)) :
    (s.goto t pc).MessagesOk := by
  refine messagesOk_set.mpr ⟨(h t).goto pc hfill fun hpc => absurd hpc hsettled, ?_⟩
  show ChannelOk _ _ pc.unread _
  rw [hread]
  exact (h t.other).drop

theorem MessagesOk.mallocStep (h : s.MessagesOk) (hstep : s.mallocStep t = some u) :
    u.MessagesOk := by
  have hfill : ∀ ws, t.first ≠ .fill ws := by cases t <;> simp [Task.first]
  have hread : t.first.unread = [] := by cases t <;> rfl
  have hsettled : ¬ (t.first = .start ∨ t.first = .post) := by cases t <;> simp [Task.first]
  obtain ⟨hpc, ⟨p, memmap, -, rfl⟩ | ⟨-, rfl⟩⟩ := mallocStep_eq_some hstep
  · have hnone := (h t).settled (Or.inl hpc)
    refine messagesOk_set.mpr ⟨?_, ?_⟩
    · exact {
        order := (h t).order
        single := (h t).single
        mine := fun p hp => by
          simp only [hnone] at hp
          cases hp
        kept := (h t).kept
        filling := fun ws hws => absurd hws (hfill ws)
        settled := fun hpc => absurd hpc hsettled }
    · show ChannelOk _ _ t.first.unread _
      rw [hread]
      exact (h t.other).drop
  · exact h.goto hfill hread hsettled

theorem MessagesOk.fillStep (h : s.MessagesOk) (hspare : s.SparesUnread (.fill t))
    (hstep : s.fillStep t = some u) : u.MessagesOk := by
  obtain ⟨w, ws, p, hpc, hbuf, rfl⟩ := fillStep_eq_some hstep
  have haddr : s.writeAddr (.fill t) = some (p + w.1) := by
    simp only [writeAddr, hpc, hbuf]
  have hspare := hspare (p + w.1) haddr
  obtain ⟨-, hlt⟩ := (h t).filling _ hpc
  -- the own buffer is written to, so nothing in it is unread
  have hnone : s.unread t = [] := by
    apply List.eq_nil_iff_forall_not_mem.mpr
    intro q hq
    have hqp : q = p := Option.some.inj (((h t).mine q hq).symm.trans hbuf)
    have hw := hlt w List.mem_cons_self
    exact hspare t q hq ⟨by omega, by omega⟩
  have hown := (h t).write (hspare t) w.2
  refine messagesOk_set.mpr ⟨?_, ?_⟩
  · exact {
      order := hown.order
      single := hown.single
      mine := hown.mine
      kept := hown.kept
      filling := by
        intro ws' hws
        cases ws with
        | nil => cases hws
        | cons v vs =>
            cases hws
            exact ⟨by simp, fun w' hw' => hlt w' (List.mem_cons_of_mem _ hw')⟩
      settled := fun _ => hnone }
  · have hread : (fillPc ws).unread = [] := by cases ws <;> rfl
    have hother := (h t.other).write (hspare t.other) w.2
    show ChannelOk _ _ (fillPc ws).unread _
    rw [hread]
    exact hother.drop

theorem MessagesOk.postStep (h : s.MessagesOk) (hstep : s.postStep t = some u) :
    u.MessagesOk := by
  obtain ⟨p, hpc, hbuf, hcases⟩ := postStep_eq_some hstep
  have hnone := (h t).settled (Or.inr hpc)
  obtain ⟨hreading, hqueue⟩ := List.append_eq_nil_iff.mp hnone
  rcases hcases with ⟨-, rfl⟩ | ⟨-, rfl⟩
  · refine messagesOk_set.mpr ⟨?_, (h t.other).drop⟩
    rw [hreading, hqueue]
    have horder := (h t).order
    rw [hqueue, List.length_nil] at horder
    exact {
      order := by simp [horder]
      single := by simp
      mine := by simpa using hbuf
      kept := by simp
      filling := by simp
      settled := by simp }
  · exact h.goto (by simp) rfl (by simp)

theorem MessagesOk.freeOwnStep (h : s.MessagesOk) (hstep : s.freeOwnStep t = some u) :
    u.MessagesOk := by
  obtain ⟨p, -, -, rfl⟩ := freeOwnStep_eq_some hstep
  refine messagesOk_set.mpr ⟨?_, (h t.other).drop⟩
  have hown := (h t).goto .pend (by simp) (by simp)
  exact ⟨hown.order, hown.single, hown.mine, hown.kept, hown.filling, hown.settled⟩

theorem MessagesOk.pendStep (h : s.MessagesOk) (hstep : s.pendStep t = some u) :
    u.MessagesOk := by
  obtain ⟨hpc, ⟨-, rfl⟩ | ⟨p, ps, hqueue, rfl⟩⟩ := pendStep_eq_some hstep
  · exact h.goto (by simp) rfl (by simp)
  · have hother := h t.other
    rw [Task.other_other, hpc] at hother
    refine messagesOk_set.mpr ⟨?_, ?_⟩
    · rw [set_other_task, set_task]
      exact (h t).goto _ (by simp) (by simp)
    · rw [set_task]
      exact hother.take hqueue

theorem MessagesOk.freeMessageStep (h : s.MessagesOk) (hstep : s.freeMessageStep t = some u) :
    u.MessagesOk := by
  obtain ⟨p, hpc, rfl⟩ := freeMessageStep_eq_some hstep
  have hother := h t.other
  rw [Task.other_other, hpc] at hother
  refine messagesOk_set.mpr ⟨?_, ?_⟩
  · rw [set_other_task, set_task]
    exact (h t).goto _ (by simp) (by simp)
  · rw [set_task]
    exact ⟨hother.order, hother.single, hother.mine, hother.kept, hother.filling, hother.settled⟩

theorem MessagesOk.step {l : Label} (h : s.MessagesOk) (hspare : s.SparesUnread l)
    (hstep : System.step l s = some u) : u.MessagesOk := by
  cases l with
  | mymalloc t => exact h.mallocStep hstep
  | fill t => exact h.fillStep hspare hstep
  | post t => exact h.postStep hstep
  | freeOwn t => exact h.freeOwnStep hstep
  | pend t => exact h.pendStep hstep
  | freeMessage t => exact h.freeMessageStep hstep
  | otherMalloc size => obtain ⟨p, memmap, -, rfl⟩ | rfl := otherMalloc_eq_some hstep <;> exact h
  | otherFree p =>
      obtain ⟨-, rfl⟩ := otherFree_eq_some hstep
      exact h
  | otherWrite x v =>
      obtain ⟨-, rfl⟩ := otherWrite_eq_some hstep
      exact fun t => (h t).write (hspare x rfl t) v
  | connect | forward | receive | closed | idle | processed =>
      obtain ⟨t, pc, -, hm, rfl, -⟩ := moves_of_step rfl hstep
      exact h.move hm

theorem MessagesOk.intact (h : s.MessagesOk) : s.Intact where
  order := fun t => (h t).order
  read := by
    intro t p hpc
    have ht := h t
    rw [hpc] at ht
    have hkept := ht.kept p List.mem_cons_self
    have hsingle := ht.single
    have hqueue : (s.task t).queue = [] := by
      apply List.eq_nil_of_length_eq_zero
      simp only [Pc.unread, List.length_append, List.length_singleton] at hsingle
      omega
    have horder := ht.order
    rw [hqueue, List.length_nil, Nat.add_zero] at horder
    have hne : (s.task t).posted ≠ [] := by
      intro hnil
      rw [hnil] at hkept
      cases hkept
    rw [← horder]
    exact ⟨List.length_pos_iff.mpr hne, by rw [← List.getLast?_eq_getElem?, hkept]⟩

/-! ### Runs -/

def AtStart (s : System) : Prop := ∀ t, s.task t = ⟨.start, none, [], [], 0, 0⟩

theorem AtStart.messagesOk (h : s.AtStart) : s.MessagesOk := by
  intro t
  rw [h t, h t.other]
  exact {
    order := rfl
    single := Nat.zero_le _
    mine := by simp [Pc.unread]
    kept := by simp [Pc.unread]
    filling := by simp
    settled := by simp [Pc.unread] }

/-- In a run that writes to no buffer with an unread message, every message is
read as it was posted. -/
theorem intact_run {ls : List Label} (hs : s.AtStart)
    (hspare : Runs.AllSteps System.step SparesUnread s ls) {v : System}
    (hv : Runs.Visits System.step s ls v) : v.Intact := by
  obtain ⟨n, hn⟩ := hv
  have hok := Runs.invariant_of_allSteps (I := MessagesOk)
    (fun _ _ _ h hl hstep => h.step hl hstep) hs.messagesOk (hspare.take n) hn
  exact hok.intact

end System

/-! ### Two events of two readers -/

def emptySystem : System where
  memmap _ := 0
  mem _ := 0
  allocs := []
  task _ := ⟨.start, none, [], [], 0, 0⟩

/-- A card inserted at the reader with the serial number `01 02 03 n`. -/
def insertedRow (n : UInt8) : Row :=
  #v[0x81, 1, 2, 3, n, 0xC1, 0xC2, 0xC3, 0xC4, 0, 0, 100, 0, 7]

/-- `led_task` forwards the event of reader `no`. -/
def eventLabels (no : ℕ) : List Label :=
  .forward no (insertedRow (UInt8.ofNat no)) :: List.replicate 16 (.fill .led) ++ [.post .led]

def startLabels : List Label := [.mymalloc .led, .mymalloc .tcp]

def oneEvent : List Label :=
  startLabels ++ eventLabels 1 ++ [.connect true, .pend .tcp]

instance (s : System) (l : Label) : Decidable (s.SparesUnread l) :=
  inferInstanceAs (Decidable (∀ x ∈ s.writeAddr l, ∀ t, ∀ p ∈ s.unread t, _))

theorem intact_run_oneEvent : ∃ v, Runs.run System.step emptySystem oneEvent = some v ∧
    v.Intact := by
  have hdef : (Runs.run System.step emptySystem oneEvent).isSome := by decide +kernel
  obtain ⟨v, hv⟩ := Option.isSome_iff_exists.mp hdef
  exact ⟨v, hv, System.intact_run (fun _ => rfl) (by decide +kernel) (Runs.visits_last hv)⟩

/-- The second event is forwarded while the connection is being made. -/
def twoEvents : List Label :=
  startLabels ++ eventLabels 1 ++ [.pend .led] ++ eventLabels 2 ++ [.connect true, .pend .tcp]

/-- `tcp_client_thread` reads the second event as its first message. -/
theorem second_event_overwrites_first : ∃ v,
    Runs.run System.step emptySystem twoEvents = some v ∧ ¬ v.Intact := by
  have hread : (Runs.run System.step emptySystem twoEvents).map (fun v =>
      ((v.task .tcp).pc, (v.task .led).taken, (v.task .led).posted[0]? ==
        some (content 16 v.mem 40928))) = some (.reading 40928, 1, false) := by decide +kernel
  obtain ⟨v, hv, heq⟩ := Option.map_eq_some_iff.mp hread
  obtain ⟨hpc, htaken, hlost⟩ : (v.task .tcp).pc = .reading 40928 ∧ (v.task .led).taken = 1 ∧
      ((v.task .led).posted[0]? == some (content 16 v.mem 40928)) = false := by
    simpa only [Prod.mk.injEq] using heq
  refine ⟨v, hv, fun hintact => ?_⟩
  obtain ⟨-, hposted⟩ := hintact.read .led 40928 hpc
  rw [htaken] at hposted
  exact ne_of_beq_false hlost hposted

end YckjAcu
