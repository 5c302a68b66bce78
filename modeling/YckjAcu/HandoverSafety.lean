import YckjAcu.Handover

/-!
# No event is lost in the hand-over

The events taken from the readers are counted against those flagged in the rows,
waiting for `tcp_client_thread` or accepted by `netconn_write`.  Each step that
meets `KeepsEvents` keeps the account.  Between `OSQPost` and the clearing of the
bits an event is in its row and in the queue; the invariant counts it in the queue.
-/

namespace YckjAcu

open Writes

/-! ### The polled row -/

section Row

variable {r r' : Row} {no : ℕ}

theorem rowEvents_of_idle (h : ¬ r.Pending) : rowEvents r = [] := by
  have hbits : r.get 0 &&& 0x03 = 0 := not_not.mp h
  simp [rowEvents, hbits]

theorem rowEvents_sameEvent (h : SameEvent r r') : rowEvents r' = rowEvents r := by
  have hcollected : ∀ mark, r'.collected mark = r.collected mark := by
    intro mark
    simp [Row.collected, h.bytes]
  rw [rowEvents, h.bits, hcollected, hcollected]
  rfl

theorem rowEvents_setStatus (r : Row) {status : UInt8}
    (h : status &&& (0x03 : UInt8) = r.get 0 &&& (0x03 : UInt8)) :
    rowEvents (r.setIfInBounds 0 status) = rowEvents r :=
  rowEvents_sameEvent ((SameEvent.setIfInBounds_iff r status).mpr h)

theorem rowEvents_eventRow {tempBuff : Vector UInt8 10} (h : ¬ r.Pending)
    (hkind : tempBuff.get 0 = 0x05 ∨ tempBuff.get 0 = 0x06) :
    rowEvents (eventRow tempBuff r) = [tempBuff] := by
  have hbits : r.get 0 &&& 0x03 = 0 := not_not.mp h
  have hdata : (eventRow tempBuff r).collected (tempBuff.get 0) = tempBuff := by
    refine Vector.ext fun i hi => ?_
    interval_cases i <;> rfl
  rcases hkind with hkind | hkind
  · have hmark : (eventRow tempBuff r).get 0 &&& 0x03 = 0x01 := by
      have hstatus := mark_status .insertion hbits
      simpa [eventRow, hkind, EventKind.mark, EventKind.bit] using hstatus
    rw [hkind] at hdata
    simp [rowEvents, hmark, hdata]
  · have hmark : (eventRow tempBuff r).get 0 &&& 0x03 = 0x02 := by
      have hstatus := mark_status .removal hbits
      simpa [eventRow, hkind, EventKind.mark, EventKind.bit] using hstatus
    rw [hkind] at hdata
    simp [rowEvents, hmark, hdata]

theorem rowEvents_dropUnnumbered {t : RunTable}
    (h : (t no).get 1 = 0 ∧ (t no).get 4 = 0 → ¬ (t no).Pending) :
    rowEvents (dropUnnumbered no t no) = rowEvents (t no) := by
  unfold dropUnnumbered
  split_ifs with hzero
  · have hbits : (t no).get 0 &&& 0x03 = 0 := not_not.mp (h hzero)
    rw [RunTable.setStatus_self]
    apply rowEvents_setStatus
    rw [hbits]
    rfl
  · rfl

/-- A poll whose outcome can be recorded takes an event into an empty row, or
leaves the row with what it flagged. -/
theorem rowEvents_readRunningData {tempBuff : Vector UInt8 10} {uBuff : Vector UInt8 8}
    {s t : PowerBus} (h : readRunningData no tempBuff uBuff s = some t)
    (hrec : ∀ o ∈ pollOutcome no tempBuff s, o.Recorded (s.g_RUNDate no)) :
    (ackedData no tempBuff s = [] ∧ rowEvents (t.g_RUNDate no) = rowEvents (s.g_RUNDate no)) ∨
      ∃ d, ackedData no tempBuff s = [d] ∧ rowEvents (s.g_RUNDate no) = [] ∧
        rowEvents (t.g_RUNDate no) = [d] := by
  rcases readRunningData_cases h with ⟨hidle, rfl⟩ | ⟨huse, ⟨uDat, temp, can⟩, hpoll, rfl⟩
  · exact Or.inl ⟨if_neg hidle, rfl⟩
  · have hout : pollOutcome no tempBuff s = some (outcomeOf (uDat, temp, can)) := by
      rw [pollOutcome, if_pos huse, hpoll, Option.map_some]
    have hacked : ackedData no tempBuff s = if uDat = 0x02 ∨ uDat = 0x00 then [] else [temp] := by
      rw [ackedData, if_pos huse, hpoll]
    have hrecorded := hrec _ hout
    rcases (pollTwice_cases hpoll).1 with h0 | h2 | hAA
    · -- no usable answer: the row may have been dropped, but not with an event
      obtain rfl : uDat = 0x00 := h0
      have hdrop : rowEvents (dropUnnumbered no s.g_RUNDate no) = rowEvents (s.g_RUNDate no) :=
        rowEvents_dropUnnumbered hrecorded
      refine Or.inl ⟨by simpa using hacked, ?_⟩
      show rowEvents ((dropUnnumbered no s.g_RUNDate).setStatus no _ no) = _
      rw [RunTable.setStatus_self, rowEvents_setStatus _ (status_lost _), hdrop]
    · -- no data: the event bits are cleared
      obtain rfl : uDat = 0x02 := h2
      refine Or.inl ⟨by simpa using hacked, ?_⟩
      show rowEvents ((dropUnnumbered no s.g_RUNDate).setStatus no _ no) = _
      rw [RunTable.setStatus_self, rowEvents_of_idle hrecorded]
      apply rowEvents_of_idle
      simp [Row.Pending, status_clear_answered]
    · obtain rfl : uDat = 0xAA := hAA
      obtain ⟨hkind, hidle⟩ :
          (temp.get 0 = 0x05 ∨ temp.get 0 = 0x06) ∧ ¬ (s.g_RUNDate no).Pending :=
        hrecorded
      refine Or.inr ⟨temp, by simpa using hacked, rowEvents_of_idle hidle, ?_⟩
      show rowEvents (Function.update (dropUnnumbered no s.g_RUNDate) no _ no) = _
      rw [Function.update_self]
      exact rowEvents_eventRow ((dropUnnumbered_self no s.g_RUNDate).2 hidle) hkind

theorem status_event_bits (status : UInt8) : status &&& 0x03 = 0x00 ∨ status &&& 0x03 = 0x01 ∨
    status &&& 0x03 = 0x02 ∨ status &&& 0x03 = 0x03 := by
  revert status
  decide +kernel

/-- The message that is made from a row with one event. -/
theorem messageEvent_of_written {n p : ℕ} {mem : ℕ → UInt8} {d : Vector UInt8 10} (hn : n ≤ 80)
    (hmem : ∀ w ∈ forwardWrites n r, mem (p + w.1) = w.2) (hd : rowEvents r = [d]) :
    messageEvent (readMem 16 mem p) = some ⟨n, d⟩ := by
  have hself : applyWrites (eventWrites n r) (readMem 16 mem p) = readMem 16 mem p := by
    apply applyWrites_eq_self
    intro w hw
    rw [readMem, Vector.getElem_ofFn]
    exact hmem (w.1.val, w.2) (List.mem_map_of_mem hw)
  have hreader : n % 256 = n := by omega
  rw [← hself, applyWrites_eventWrites]
  rcases status_event_bits (r.get 0) with h0 | h1 | h2 | h3
  · simp [rowEvents, h0] at hd
  · simp only [rowEvents, h1] at hd
    obtain rfl : r.collected 0x05 = d := by simpa using hd
    simp [messageEvent, h1, hreader, Row.collected]
  · simp only [rowEvents, h2] at hd
    obtain rfl : r.collected 0x06 = d := by simpa using hd
    simp [messageEvent, h2, hreader, Row.collected]
  · simp [rowEvents, h3] at hd

end Row

/-! ### The steps beside the table -/

namespace System

variable {s u : System} {l : Label} {t : Task}

theorem mem_of_step (h : System.step l s = some u) {y : ℕ} (hy : s.writeAddr l ≠ some y) :
    u.mem y = s.mem y := by
  cases l with
  | mymalloc t =>
      obtain ⟨-, ⟨p, memmap, -, rfl⟩ | ⟨-, rfl⟩⟩ := mallocStep_eq_some h <;> rfl
  | fill t =>
      obtain ⟨w, ws, p, hpc, hbuf, rfl⟩ := fillStep_eq_some h
      have hne : y ≠ p + w.1 := by
        rintro rfl
        exact hy (by simp only [writeAddr, hpc, hbuf])
      exact Function.update_of_ne hne _ _
  | post t => obtain ⟨p, -, -, ⟨-, rfl⟩ | ⟨-, rfl⟩⟩ := postStep_eq_some h <;> rfl
  | freeOwn t =>
      obtain ⟨p, -, -, rfl⟩ := freeOwnStep_eq_some h
      rfl
  | pend t => obtain ⟨-, ⟨-, rfl⟩ | ⟨p, ps, -, rfl⟩⟩ := pendStep_eq_some h <;> rfl
  | freeMessage t =>
      obtain ⟨p, -, rfl⟩ := freeMessageStep_eq_some h
      rfl
  | otherMalloc size => obtain ⟨p, memmap, -, rfl⟩ | rfl := otherMalloc_eq_some h <;> rfl
  | otherFree p =>
      obtain ⟨-, rfl⟩ := otherFree_eq_some h
      rfl
  | otherWrite x v =>
      obtain ⟨-, rfl⟩ := otherWrite_eq_some h
      have hne : y ≠ x := by
        rintro rfl
        exact hy rfl
      exact Function.update_of_ne hne _ _
  | connect | forward | receive | closed | idle | processed =>
      obtain ⟨t, pc, -, -, rfl, -⟩ := moves_of_step rfl h
      rfl

/-- A task that moves from one point to another, at neither of which it reads,
leaves the unread messages alone. -/
theorem unread_goto {t' : Task} {pc : Pc} (hold : (s.task t').pc.unread = [])
    (hnew : pc.unread = []) :
    (s.goto t' pc).unread t = s.unread t := by
  cases t <;> cases t' <;> simp_all [unread, goto, set, Task.other]

theorem unread_goto_led (s : System) (pc : Pc) : (s.goto .led pc).unread .led = s.unread .led := by
  simp [unread, goto, set, Task.other]

/-- The messages of `led_task` stay unread until they are processed. -/
theorem unread_of_step {phase : Phase} (ha : phase.allows l) (h : System.step l s = some u) :
    u.unread .led = s.unread .led := by
  cases l with
  | mymalloc t =>
      have hfirst : t.first.unread = [] := by cases t <;> rfl
      obtain ⟨hpc, ⟨p, memmap, -, rfl⟩ | ⟨-, rfl⟩⟩ := mallocStep_eq_some h
      · cases t <;> simp [unread, set, Task.other, Task.first, hpc, Pc.unread]
      · exact unread_goto (by rw [hpc]; rfl) hfirst
  | fill t =>
      obtain ⟨w, ws, p, hpc, hbuf, rfl⟩ := fillStep_eq_some h
      have hread : (fillPc ws).unread = [] := by cases ws <;> rfl
      exact unread_goto (s := { s with mem := _ }) (by simp only [hpc]; rfl) hread
  | post t =>
      obtain rfl : t = .tcp := by simpa [Phase.allows] using ha
      obtain ⟨p, hpc, -, ⟨-, rfl⟩ | ⟨-, rfl⟩⟩ := postStep_eq_some h
      · simp [unread, set, Task.other, hpc, Pc.unread]
      · exact unread_goto (by rw [hpc]; rfl) rfl
  | freeOwn t =>
      obtain rfl : t = .tcp := by simpa [Phase.allows] using ha
      obtain ⟨p, hpc, -, rfl⟩ := freeOwnStep_eq_some h
      simp [unread, set, Task.other, hpc, Pc.unread]
  | pend t =>
      obtain ⟨hpc, ⟨-, rfl⟩ | ⟨p, ps, hqueue, rfl⟩⟩ := pendStep_eq_some h
      · exact unread_goto (by rw [hpc]; rfl) rfl
      · cases t
        · simp [unread, goto, set, Task.other]
        · simp_all [unread, goto, set, Task.other, Pc.unread]
  | freeMessage t =>
      obtain ⟨p, hpc, rfl⟩ := freeMessageStep_eq_some h
      cases t <;> simp [unread, goto, set, Task.other, hpc, Pc.unread]
  | otherMalloc | otherFree | otherWrite => rw [unread, unread, task_of_other rfl h]
  | forward | processed => cases ha
  | connect ok =>
      obtain ⟨hpc, rfl⟩ := connect_eq_some h
      exact unread_goto (by rw [hpc]; rfl) (by cases ok <;> rfl)
  | receive b =>
      obtain ⟨hpc, bytes, -, rfl⟩ := receive_eq_some h
      have hread : (bytes.elim Pc.pend fun bs => fillPc (replyWrites bs)).unread = [] := by
        cases bytes with
        | none => rfl
        | some bs =>
            rw [Option.elim_some]
            cases replyWrites bs <;> rfl
      exact unread_goto (by rw [hpc]; rfl) hread
  | closed =>
      obtain ⟨hpc, rfl⟩ := closed_eq_some h
      exact unread_goto (by rw [hpc]; rfl) rfl
  | idle t =>
      obtain ⟨hpc, rfl⟩ := idle_eq_some h
      exact unread_goto (by rw [hpc]; rfl) rfl

/-- While `led_task` posts, the steps of others leave it where it is. -/
theorem led_of_step (ha : Phase.posting.allows l) (hfill : ∀ t, l = .fill t → t = .tcp)
    (h : System.step l s = some u) :
    (u.task .led).pc = (s.task .led).pc ∧ (u.task .led).buf = (s.task .led).buf := by
  refine place_of_step (fun hact => ?_) h
  cases l with
  | mymalloc t | idle t | post t | freeOwn t | pend t | freeMessage t =>
      obtain rfl : t = .led := Option.some.inj hact
      cases ha
  | fill t =>
      obtain rfl : t = .led := Option.some.inj hact
      cases hfill .led rfl
  | forward | processed => cases ha
  | connect | receive | closed | otherMalloc | otherFree | otherWrite => cases hact

end System

/-! ### The invariant -/

/-- The assignments to the own buffer that are still to come. -/
def Pc.remaining : Pc → Option (List (ℕ × UInt8))
  | .fill ws => some ws
  | .post => some []
  | _ => none

@[simp] theorem remaining_fillPc (ws : List (ℕ × UInt8)) : (fillPc ws).remaining = some ws := by
  cases ws <;> rfl

namespace Handover

/-- The event in its row, unless it was posted just now. -/
def toForward (e : Collected) (s : Handover) : ℕ :=
  if s.phase = .posted ∧ e.reader = s.count then 0 else s.inRow e

/-- The buffer of `led_task` holds the message of row `Led_TaskCount` once the
remaining assignments are done. -/
structure Drafting (s : Handover) : Prop where
  posts : s.ledPc ≠ .freeOwn
  draft : ∀ ws p, s.ledPc.remaining = some ws → (s.sys.task .led).buf = some p →
    ∀ w ∈ forwardWrites s.count (s.led.row s.count), writeMem p ws s.sys.mem (p + w.1) = w.2

/-- The invariant of the hand-over. -/
structure Sound (acuAdd : Vector UInt8 16) (s : Handover) : Prop where
  accounted : ∀ e : Collected, e.reader ∈ logicNos →
    s.acked.count e ≤ s.toForward e + s.waiting e + s.sent e
  readers : ∀ e ∈ s.acked, e.reader ∈ logicNos
  single : ∀ n ∈ logicNos, (rowEvents (s.led.row n)).length ≤ 1
  draft : s.phase = .posting → s.count ∈ logicNos → s.Drafting
  header : CardHeader acuAdd s.cardBuf

variable {s u : Handover} {acuAdd : Vector UInt8 16}

theorem toForward_of_ne {e : Collected} (h : s.phase ≠ .posted) : s.toForward e = s.inRow e :=
  if_neg fun hp => h hp.1

theorem toForward_le (e : Collected) (s : Handover) : s.toForward e ≤ s.inRow e := by
  unfold toForward
  split_ifs
  · exact Nat.zero_le _
  · exact le_rfl

theorem Sound.accounted_all (h : s.Sound acuAdd) : s.Accounted := by
  intro e
  by_cases he : e ∈ s.acked
  · have hle := h.accounted e (h.readers e he)
    have hrow := toForward_le e s
    omega
  · rw [List.count_eq_zero_of_not_mem he]
    exact Nat.zero_le _

theorem readMem_congr {k p : ℕ} {mem mem' : ℕ → UInt8}
    (h : ∀ y, p ≤ y → y < p + k → mem' y = mem y) : readMem k mem' p = readMem k mem p := by
  refine Vector.ext fun i hi => ?_
  simp only [readMem, Vector.getElem_ofFn]
  exact h (p + i) (by omega) (by omega)

theorem messageEvent_reader {m : Vector UInt8 16} {e : Collected} (h : messageEvent m = some e) :
    e.reader = (m.get 14).toNat := by
  unfold messageEvent at h
  dsimp only at h
  split_ifs at h
  · cases h
    rfl
  · cases h
    rfl

theorem fromReader_of_event {p : ℕ} {e : Collected} (he : e.reader ∈ logicNos)
    (h : messageEvent (readMem 16 s.sys.mem p) = some e) : s.FromReader p := by
  have hreader := messageEvent_reader h
  rw [readMem, Buffers.get_ofFn] at hreader
  rw [FromReader]
  show (s.sys.mem (p + (14 : Fin 16).val)).toNat ∈ logicNos
  rw [← hreader]
  exact he

theorem waiting_le {e : Collected} (he : e.reader ∈ logicNos)
    (hunread : u.sys.unread .led = s.sys.unread .led)
    (hmem : ∀ p ∈ s.sys.unread .led, s.FromReader p →
      ∀ y, p ≤ y → y < p + 16 → u.sys.mem y = s.sys.mem y) : s.waiting e ≤ u.waiting e := by
  rw [waiting, waiting, hunread]
  apply List.countP_mono_left
  intro p hp hevent
  have hevent' := of_decide_eq_true hevent
  have hsame := readMem_congr (k := 16) (hmem p hp (fromReader_of_event he hevent'))
  exact decide_eq_true (hsame.symm ▸ hevent')

theorem KeepsEvents.messages {l : Label} (h : s.KeepsEvents (.sys l)) :
    ∀ x ∈ s.sys.writeAddr l, s.SparesMessages x := by
  cases l with
  | fill t =>
      cases t with
      | led => exact h
      | tcp => exact fun x hx => (h x hx).1
  | _ => exact fun x hx => (h x hx).1

theorem KeepsEvents.draft {l : Label} (h : s.KeepsEvents (.sys l))
    (hfill : ∀ t, l = .fill t → t = .tcp) : ∀ x ∈ s.sys.writeAddr l, s.SparesDraft x := by
  cases l with
  | fill t =>
      obtain rfl := hfill t rfl
      exact fun x hx => (h x hx).2
  | _ => exact fun x hx => (h x hx).2

/-! ### Steps of the system -/

/-- A step of `led_task` that fills its buffer comes nearer to the message. -/
theorem Drafting.fill {sys : System} (h : s.Drafting)
    (hstep : System.step (.fill .led) s.sys = some sys) :
    Drafting { s with sys } := by
  obtain ⟨w, ws, p, hpc, hbuf, rfl⟩ := System.fillStep_eq_some hstep
  refine ⟨?_, ?_⟩
  · show ((System.goto .led (fillPc ws) _).task .led).pc ≠ .freeOwn
    rw [System.goto, System.set_task]
    cases ws <;> simp [fillPc]
  · intro ws' p' hws hbuf' v hv
    have hpc' : ((System.goto .led (fillPc ws)
        { s.sys with mem := Function.update s.sys.mem (p + w.1) w.2 }).task .led).pc =
          fillPc ws := by
      rw [System.goto, System.set_task]
    have hws' : ws = ws' := by
      have hrem : (fillPc ws).remaining = some ws' := hpc' ▸ hws
      rw [remaining_fillPc] at hrem
      exact Option.some.inj hrem
    have hp' : p = p' := by
      have hb : (s.sys.task .led).buf = some p' := by
        rw [← hbuf']
        simp only [System.goto, System.set_task]
      exact Option.some.inj (hbuf.symm.trans hb)
    subst hws' hp'
    exact h.draft (w :: ws) p (by rw [ledPc, hpc]; rfl) hbuf v hv

theorem Drafting.other {l : Label} {sys : System} (h : s.Drafting)
    (ha : Phase.posting.allows l) (hfill : ∀ t, l = .fill t → t = .tcp)
    (hspare : ∀ x ∈ s.sys.writeAddr l, ∀ p ∈ (s.sys.task .led).buf, ¬ (p ≤ x ∧ x < p + 16))
    (hstep : System.step l s.sys = some sys) : Drafting { s with sys } := by
  obtain ⟨hpc, hbuf⟩ := System.led_of_step ha hfill hstep
  refine ⟨?_, ?_⟩
  · show (sys.task .led).pc ≠ .freeOwn
    rw [hpc]
    exact h.posts
  · intro ws p hws hp w hw
    have hp' : (s.sys.task .led).buf = some p := by
      rw [← hbuf]
      exact hp
    have hlt : w.1 < 16 := forwardWrites_lt hw
    have hmem : sys.mem (p + w.1) = s.sys.mem (p + w.1) := by
      apply System.mem_of_step hstep
      intro hx
      exact hspare _ hx p hp' ⟨by omega, by omega⟩
    have hws' : s.ledPc.remaining = some ws := by
      rw [ledPc, ← hpc]
      exact hws
    show writeMem p ws sys.mem (p + w.1) = w.2
    rw [writeMem_congr p ws hmem]
    exact h.draft ws p hws' hp' w hw

theorem Sound.sysStep {l : Label} (h : s.Sound acuAdd) (hkeep : s.KeepsEvents (.sys l))
    (hstep : s.sysStep l = some u) : u.Sound acuAdd := by
  unfold Handover.sysStep at hstep
  split_ifs at hstep with ha
  obtain ⟨sys, hsys, rfl⟩ := Option.map_eq_some_iff.mp hstep
  have hwaiting : ∀ e : Collected, e.reader ∈ logicNos →
      s.waiting e ≤ Handover.waiting e { s with sys } := by
    intro e he
    apply waiting_le he (System.unread_of_step ha hsys)
    intro p hp hreader y hlow hhigh
    apply System.mem_of_step hsys
    intro hx
    exact hkeep.messages y hx p hp hreader ⟨hlow, hhigh⟩
  refine ⟨fun e he => ?_, h.readers, h.single, fun hphase hcount => ?_, h.header⟩
  · have hle := h.accounted e he
    have hmore := hwaiting e he
    show s.acked.count e ≤ s.toForward e + Handover.waiting e { s with sys } + s.sent e
    omega
  · have hdraft := h.draft hphase hcount
    have hphase' : s.phase = .posting := hphase
    by_cases hfill : ∀ t, l = .fill t → t = .tcp
    · rw [hphase'] at ha
      refine hdraft.other ha hfill (fun x hx => ?_) hsys
      exact hkeep.draft hfill x hx hphase hcount
    · obtain ⟨t, hfill⟩ := not_forall.mp hfill
      obtain ⟨rfl, ht⟩ := Classical.not_imp.mp hfill
      cases t with
      | led => exact hdraft.fill hsys
      | tcp => exact absurd rfl ht

/-! ### Steps of `led_task` -/

/-- The rows and the events taken, before and after a poll of row `no`. -/
structure PollTakes (no : ℕ) (s u : Handover) : Prop where
  others : ∀ n, n ≠ no → u.led.row n = s.led.row n
  polled : (u.acked = s.acked ∧ rowEvents (u.led.row no) = rowEvents (s.led.row no)) ∨
    ∃ d, u.acked = s.acked ++ [⟨no, d⟩] ∧ rowEvents (s.led.row no) = [] ∧
      rowEvents (u.led.row no) = [d]

theorem PollTakes.count_le {no : ℕ} (h : PollTakes no s u) (e : Collected) :
    u.acked.count e + s.inRow e ≤ s.acked.count e + u.inRow e := by
  obtain ⟨reader, data⟩ := e
  unfold inRow
  rcases h.polled with ⟨hacked, hrow⟩ | ⟨d, hacked, hempty, hfull⟩
  · rw [hacked]
    by_cases hno : reader = no
    · subst hno
      rw [hrow]
    · rw [h.others reader hno]
  · rw [hacked, List.count_append]
    by_cases hno : reader = no
    · subst hno
      have hone : [(⟨reader, d⟩ : Collected)].count ⟨reader, data⟩ = [d].count data := by
        simp [List.count_singleton]
      simp only [hempty, hfull, hone, List.count_nil]
      omega
    · have hzero : [(⟨no, d⟩ : Collected)].count ⟨reader, data⟩ = 0 := by
        simp [Ne.symm hno]
      rw [hzero, Nat.add_zero]
      show _ + (rowEvents (s.led.row reader)).count data ≤
        _ + (rowEvents (u.led.row reader)).count data
      rw [h.others reader hno]

theorem PollTakes.single {no : ℕ} (h : PollTakes no s u) {n : ℕ}
    (hn : (rowEvents (s.led.row n)).length ≤ 1) : (rowEvents (u.led.row n)).length ≤ 1 := by
  by_cases hno : n = no
  · subst hno
    rcases h.polled with ⟨-, hrow⟩ | ⟨d, -, -, hfull⟩
    · rw [hrow]
      exact hn
    · rw [hfull, List.length_singleton]
  · rw [h.others n hno]
    exact hn

theorem PollTakes.readers {no : ℕ} (h : PollTakes no s u) (hno : no ∈ logicNos)
    (hs : ∀ e ∈ s.acked, e.reader ∈ logicNos) : ∀ e ∈ u.acked, e.reader ∈ logicNos := by
  intro e he
  rcases h.polled with ⟨hacked, -⟩ | ⟨d, hacked, -, -⟩
  · rw [hacked] at he
    exact hs e he
  · rw [hacked] at he
    rcases List.mem_append.mp he with he | he
    · exact hs e he
    · rw [List.mem_singleton.mp he]
      exact hno

theorem Sound.of_poll (no : ℕ) (h : s.Sound acuAdd) (htakes : PollTakes no s u)
    (hno : no ∈ logicNos) (hphase : s.phase ≠ .posted) (hphase' : u.phase = .polled)
    (hsys : u.sys = s.sys) (hwritten : u.written = s.written) (hcard : u.cardBuf = s.cardBuf) :
    u.Sound acuAdd := by
  refine ⟨fun e he => ?_, htakes.readers hno h.readers, fun n hn => htakes.single (h.single n hn),
    fun hposting _ => ?_, ?_⟩
  · have hle := h.accounted e he
    have hmore := htakes.count_le e
    have hwaiting : u.waiting e = s.waiting e := by
      rw [waiting, waiting, hsys]
    have hsent : u.sent e = s.sent e := by
      rw [sent, sent, hwritten]
    rw [toForward_of_ne hphase] at hle
    rw [toForward_of_ne (by simp [hphase']), hwaiting, hsent]
    omega
  · rw [hphase'] at hposting
    cases hposting
  · rw [hcard]
    exact h.header

/-- The table and the histories stay, and `led_task` goes to another part of its loop. -/
theorem Sound.goto {pc : Pc} (h : s.Sound acuAdd) (phase : Phase) (hphase : phase ≠ .posted)
    (hdraft : phase = .posting → s.count ∈ logicNos →
      Drafting { s with sys := s.sys.goto .led pc, phase }) :
    Sound acuAdd { s with sys := s.sys.goto .led pc, phase } := by
  refine ⟨fun e he => ?_, h.readers, h.single, hdraft, h.header⟩
  have hle := h.accounted e he
  have hrow := toForward_le e s
  rw [toForward_of_ne hphase, waiting, System.unread_goto_led]
  show s.acked.count e ≤ s.inRow e + s.waiting e + s.sent e
  omega

/-- Nothing of the invariant depends on the parts of the loop that keep the events
in the rows. -/
theorem Sound.congr_led (h : s.Sound acuAdd) {led : LedState} (phase : Phase)
    (hrows : ∀ n ∈ logicNos, rowEvents (led.row n) = rowEvents (s.led.row n))
    (hphase : phase ≠ .posted) (hposting : phase ≠ .posting) :
    Sound acuAdd { s with led, phase } := by
  refine ⟨fun e he => ?_, h.readers, fun n hn => ?_, fun hp => absurd hp hposting, h.header⟩
  · have hle := h.accounted e he
    have hrow := toForward_le e s
    rw [toForward_of_ne hphase]
    show s.acked.count e ≤ (rowEvents (led.row e.reader)).count e.data + s.waiting e + s.sent e
    rw [hrows _ he]
    exact hle.trans (Nat.add_le_add_right (Nat.add_le_add_right hrow _) _)
  · show (rowEvents (led.row n)).length ≤ 1
    rw [hrows n hn]
    exact h.single n hn

theorem Sound.scanStep {a : LedInput} (h : s.Sound acuAdd) (hkeep : s.KeepsEvents (.scan a))
    (hstep : s.scanStep a = some u) : u.Sound acuAdd := by
  have hsame := LedState.sameScan_atPoll a s.led
  have hrow : ∀ n, (s.led.atPoll a).row n = s.led.row n := fun n => congrFun hsame.table n
  unfold Handover.scanStep at hstep
  dsimp only at hstep
  split_ifs at hstep with hpc hlt
  · obtain ⟨led, hled, rfl⟩ := Option.map_eq_some_iff.mp hstep
    obtain ⟨bus, hbus, rfl⟩ := Option.map_eq_some_iff.mp hled
    have hno : s.count + 1 ∈ logicNos := by
      rw [busnumSize] at hlt
      exact mem_logicNos.mpr ⟨by omega, by omega⟩
    have hpolled := rowEvents_readRunningData hbus (by
      intro o ho
      show o.Recorded ((s.led.atPoll a).row (s.count + 1))
      rw [hrow]
      exact hkeep hlt o ho)
    refine h.of_poll (s.count + 1) ⟨?_, ?_⟩ hno (by simp [hpc.1]) rfl rfl rfl rfl
    · intro n hn
      exact (readRunningData_of_ne hbus hn).trans (hrow n)
    · rw [← hrow]
      rcases hpolled with ⟨hnone, hsame⟩ | ⟨d, hd, hempty, hfull⟩
      · exact Or.inl ⟨by simp [hnone], hsame⟩
      · exact Or.inr ⟨d, by simp [hd], hempty, hfull⟩
  · obtain ⟨sys, hsys, rfl⟩ := Option.map_eq_some_iff.mp hstep
    obtain ⟨-, rfl⟩ := System.idle_eq_some hsys
    have hled := h.congr_led .serving (fun n _ => congrArg rowEvents (hrow n)) (by simp)
      (by simp)
    exact hled.goto .serving (by simp) (by simp)

theorem Sound.skipStep (h : s.Sound acuAdd) (hstep : s.skipStep = some u) : u.Sound acuAdd := by
  unfold Handover.skipStep at hstep
  split_ifs at hstep
  obtain ⟨sys, hsys, rfl⟩ := Option.map_eq_some_iff.mp hstep
  obtain ⟨-, rfl⟩ := System.idle_eq_some hsys
  exact h.goto .serving (by simp) (by simp)

theorem nodup_forwardWrites (no : ℕ) (r : Row) : ((forwardWrites no r).map Prod.fst).Nodup := by
  have hfst : (forwardWrites no r).map Prod.fst = (eventWrites no r).map fun w => w.1.val := by
    simp [forwardWrites]
  rw [hfst]
  simp only [eventWrites]
  split_ifs <;> simp

theorem Sound.forwardStep (h : s.Sound acuAdd) (hstep : s.forwardStep = some u) :
    u.Sound acuAdd := by
  unfold Handover.forwardStep at hstep
  split_ifs at hstep
  obtain ⟨sys, hsys, rfl⟩ := Option.map_eq_some_iff.mp hstep
  obtain ⟨-, rfl⟩ := System.forward_eq_some hsys
  have hne := forwardWrites_ne_nil s.count (s.led.row s.count)
  rw [fillPc_of_ne_nil hne]
  refine h.goto .posting (by simp) fun _ _ => ?_
  have hledPc :
      ((s.sys.goto .led (.fill (forwardWrites s.count (s.led.row s.count)))).task .led).pc =
      .fill (forwardWrites s.count (s.led.row s.count)) := by
    rw [System.goto, System.set_task]
  refine ⟨?_, ?_⟩
  · show ((s.sys.goto .led _).task .led).pc ≠ .freeOwn
    rw [hledPc]
    simp
  · intro ws p hws _ w hw
    have hws' : forwardWrites s.count (s.led.row s.count) = ws := by
      have hrem : (Pc.fill (forwardWrites s.count (s.led.row s.count))).remaining = some ws :=
        hledPc ▸ hws
      exact Option.some.inj hrem
    subst hws'
    exact writeMem_of_mem (nodup_forwardWrites _ _) hw _

/-- The finished message has the event of the row. -/
theorem Drafting.inRow_le {p : ℕ} (h : s.Drafting) (hpc : s.ledPc = .post)
    (hbuf : (s.sys.task .led).buf = some p) (hcount : s.count ∈ logicNos)
    (hsingle : (rowEvents (s.led.row s.count)).length ≤ 1)
    {e : Collected} (he : e.reader = s.count) :
    s.inRow e ≤ if messageEvent (readMem 16 s.sys.mem p) = some e then 1 else 0 := by
  have hwritten : ∀ w ∈ forwardWrites s.count (s.led.row s.count), s.sys.mem (p + w.1) = w.2 :=
    h.draft [] p (by rw [hpc]; rfl) hbuf
  obtain ⟨reader, data⟩ := e
  obtain rfl : reader = s.count := he
  unfold inRow
  dsimp only
  cases hrow : rowEvents (s.led.row s.count) with
  | nil => exact Nat.zero_le _
  | cons d ds =>
      rw [hrow, List.length_cons] at hsingle
      obtain rfl : ds = [] := List.eq_nil_of_length_eq_zero (by omega)
      rw [messageEvent_of_written (mem_logicNos.mp hcount).2 hwritten hrow]
      simp [List.count_singleton]

theorem Sound.postStep (h : s.Sound acuAdd) (hkeep : s.KeepsEvents .post)
    (hstep : s.postStep = some u) : u.Sound acuAdd := by
  unfold Handover.postStep at hstep
  split_ifs at hstep with hphase
  obtain ⟨sys, hsys, rfl⟩ := Option.map_eq_some_iff.mp hstep
  obtain ⟨p, hpc, hbuf, ⟨-, rfl⟩ | ⟨hfull, rfl⟩⟩ := System.postStep_eq_some hsys
  · rw [System.set_task, if_pos rfl]
    refine ⟨fun e he => ?_, h.readers, h.single, by simp, h.header⟩
    have hle := h.accounted e he
    rw [toForward_of_ne (by rw [hphase]; simp)] at hle
    have hunread : (s.sys.set .led { s.sys.task .led with
          pc := .pend
          queue := (s.sys.task .led).queue ++ [p]
          posted := (s.sys.task .led).posted ++ [content Task.led.size s.sys.mem p] }).unread .led =
        s.sys.unread .led ++ [p] := by
      simp [System.unread, System.set, Task.other]
    have hone : [p].countP (fun q => messageEvent (readMem 16 s.sys.mem q) = some e) =
        if messageEvent (readMem 16 s.sys.mem p) = some e then 1 else 0 := by
      simp [List.countP_singleton]
    rw [waiting, hunread, List.countP_append, System.set_mem, hone]
    unfold toForward
    by_cases hcount : e.reader = s.count
    · have hmoved := (h.draft hphase (hcount ▸ he)).inRow_le hpc hbuf (hcount ▸ he)
        (h.single _ (hcount ▸ he)) hcount
      rw [if_pos ⟨rfl, hcount⟩]
      show s.acked.count e ≤ 0 + (s.waiting e + _) + s.sent e
      omega
    · rw [if_neg fun hp => hcount hp.2]
      show s.acked.count e ≤ s.inRow e + (s.waiting e + _) + s.sent e
      omega
  · have hcount : s.count ∉ logicNos := fun hcount => hfull (hkeep hcount)
    have hledPc : ((s.sys.goto .led .freeOwn).task .led).pc = .freeOwn := by
      rw [System.goto, System.set_task]
    rw [hledPc, if_neg (by simp)]
    exact h.goto .posting (by simp) fun _ hcount' => absurd hcount' hcount

/-- After a failed post only the counter in row 0 goes on without a message. -/
theorem Sound.freeOwnStep (h : s.Sound acuAdd) (hstep : s.freeOwnStep = some u) :
    u.Sound acuAdd := by
  unfold Handover.freeOwnStep at hstep
  split_ifs at hstep with hphase
  obtain ⟨sys, hsys, rfl⟩ := Option.map_eq_some_iff.mp hstep
  obtain ⟨p, hpc, -, rfl⟩ := System.freeOwnStep_eq_some hsys
  have hcount : s.count ∉ logicNos := by
    intro hcount
    exact (h.draft hphase hcount).posts hpc
  refine ⟨fun e he => ?_, h.readers, h.single, by simp, h.header⟩
  have hle := h.accounted e he
  have hne : e.reader ≠ s.count := by
    rintro heq
    exact hcount (heq ▸ he)
  have hunread : ((s.sys.myfree p).set .led { s.sys.task .led with
      pc := .pend, freed := (s.sys.task .led).freed + 1 }).unread .led = s.sys.unread .led := by
    simp [System.unread, System.set, Task.other]
  rw [toForward_of_ne (by rw [hphase]; simp)] at hle
  rw [waiting, hunread, toForward, if_neg fun hp => hne hp.2]
  exact hle

theorem Sound.clearStep (h : s.Sound acuAdd) (hstep : s.clearStep = some u) : u.Sound acuAdd := by
  unfold Handover.clearStep at hstep
  split_ifs at hstep with hphase
  cases hstep
  have hrow : ∀ n, n ≠ s.count → (clearPending s.count s.led.bus.g_RUNDate) n = s.led.row n :=
    fun n hn => RunTable.setStatus_of_ne _ _ hn
  refine ⟨fun e he => ?_, h.readers, fun n hn => ?_, by simp, h.header⟩
  · have hle := h.accounted e he
    rw [toForward_of_ne (by simp)]
    unfold toForward at hle
    by_cases hcount : e.reader = s.count
    · rw [if_pos ⟨hphase, hcount⟩] at hle
      show s.acked.count e ≤ _ + s.waiting e + s.sent e
      omega
    · rw [if_neg fun hp => hcount hp.2] at hle
      show s.acked.count e ≤
        (rowEvents (clearPending s.count s.led.bus.g_RUNDate e.reader)).count e.data +
          s.waiting e + s.sent e
      rw [hrow _ hcount]
      exact hle
  · show (rowEvents (clearPending s.count s.led.bus.g_RUNDate n)).length ≤ 1
    by_cases hcount : n = s.count
    · subst hcount
      rw [clearPending, RunTable.setStatus_self, rowEvents_of_idle]
      · exact Nat.zero_le _
      · simp [Row.Pending, status_clear_pending]
    · rw [hrow n hcount]
      exact h.single n hn

theorem Sound.answerStep (h : s.Sound acuAdd) (hkeep : s.KeepsEvents .answer)
    (hstep : s.answerStep = some u) : u.Sound acuAdd := by
  unfold Handover.answerStep at hstep
  split at hstep
  · next p hphase hpc =>
      obtain ⟨led, hled, hstep⟩ := Option.bind_eq_some_iff.mp hstep
      obtain ⟨sys, hsys, hstep⟩ := Option.bind_eq_some_iff.mp hstep
      cases hstep
      obtain ⟨q, -, rfl⟩ := System.processed_eq_some hsys
      have hrows : ∀ n ∈ logicNos, rowEvents (led.row n) = rowEvents (s.led.row n) := by
        intro n hn
        apply rowEvents_sameEvent
        refine (answerServer_sameEvent hled n).mpr ?_
        rw [readMem, Buffers.get_ofFn, Buffers.get_ofFn]
        rintro h0 rfl
        exact hkeep p (by rw [hpc]; exact List.mem_singleton_self p) h0 hn
      have hled := h.congr_led s.phase hrows (by simp [hphase]) (by simp [hphase])
      exact hled.goto s.phase (by simp [hphase]) (by simp [hphase])
  · cases hstep

theorem Sound.nextStep (h : s.Sound acuAdd) (hstep : s.nextStep = some u) : u.Sound acuAdd := by
  unfold Handover.nextStep at hstep
  split_ifs at hstep
  cases hstep
  have hrows : ∀ n, s.led.advance.broadcastTimer.row n = s.led.row n := by
    intro n
    have htimer := LedState.sameScan_broadcastTimer s.led.advance
    have hadv : s.led.advance.bus = s.led.bus := by
      unfold LedState.advance
      split_ifs <;> rfl
    rw [LedState.row, htimer.table, hadv]
    rfl
  exact h.congr_led .scan (fun n _ => congrArg rowEvents (hrows n)) (by simp) (by simp)

theorem Drafting.congr (h : s.Drafting) (hled : u.led = s.led)
    (htask : u.sys.task .led = s.sys.task .led) (hmem : u.sys.mem = s.sys.mem) : u.Drafting := by
  refine ⟨?_, ?_⟩
  · rw [ledPc, htask]
    exact h.posts
  · intro ws p hws hp w hw
    rw [ledPc, htask] at hws
    rw [htask] at hp
    rw [count, hled] at hw
    rw [hmem]
    exact h.draft ws p hws hp w hw

/-- An event that leaves the hands of `tcp_client_thread` has been written. -/
theorem sent_writeCard (ok : Bool) {e : Collected} {m : Option Collected} {f : List UInt8}
    (written : List (List UInt8)) (hf : frameEvent f = m) (hok : m = some e → ok = true) :
    written.countP (fun f => frameEvent f = some e) + (if m = some e then 1 else 0) ≤
      (if ok then written ++ [f] else written).countP fun f => frameEvent f = some e := by
  subst hf
  by_cases hevent : frameEvent f = some e
  · rw [if_pos hevent, hok hevent, if_pos rfl, List.countP_append]
    simp [hevent]
  · rw [if_neg hevent, Nat.add_zero]
    split_ifs
    · rw [List.countP_append]
      exact Nat.le_add_right _ _
    · exact le_rfl

theorem frameEvent_cardFrame (acuAdd m : Vector UInt8 16) :
    frameEvent (cardFrame acuAdd m) = messageEvent m := rfl

theorem Sound.writeStep {ok : Bool} (h : s.Sound acuAdd) (hkeep : s.KeepsEvents (.write ok))
    (hstep : s.writeStep ok = some u) : u.Sound acuAdd := by
  unfold Handover.writeStep at hstep
  split at hstep
  · next p hpc =>
      obtain ⟨sys, hsys, rfl⟩ := Option.map_eq_some_iff.mp hstep
      obtain ⟨q, -, rfl⟩ := System.processed_eq_some hsys
      refine ⟨fun e he => ?_, h.readers, h.single, fun hphase hcount => ?_,
        cardHeader_fillCard h.header _⟩
      · have hle := h.accounted e he
        have hfirst : s.sys.unread .led = p :: (s.sys.task .led).queue := by
          simp [System.unread, Task.other, hpc, Pc.unread]
        have hrest : (s.sys.goto .tcp (.freeMessage q)).unread .led = (s.sys.task .led).queue := by
          simp [System.unread, System.goto, System.set, Task.other, Pc.unread]
        have hframe : frameEvent (writeCard (fillCard (readMem 16 s.sys.mem p) s.cardBuf)) =
            messageEvent (readMem 16 s.sys.mem p) := by
          rw [writeCard_fillCard h.header, frameEvent_cardFrame acuAdd]
        have hsent := sent_writeCard ok s.written hframe fun (hevent : _ = some e) =>
          hkeep p (by rw [hpc]; exact List.mem_singleton_self p) (fromReader_of_event he hevent)
        rw [waiting, hfirst, List.countP_cons] at hle
        rw [waiting, hrest]
        show s.acked.count e ≤ s.toForward e +
          (s.sys.task .led).queue.countP (fun q => messageEvent (readMem 16 s.sys.mem q) = some e) +
          List.countP _ (if ok then _ else s.written)
        simp only [decide_eq_true_eq] at hle
        rw [sent] at hle
        omega
      · exact (h.draft hphase hcount).congr rfl (System.set_task_other s.sys .tcp _) rfl
  · cases hstep

theorem Sound.step {op : HandoverOp} (h : s.Sound acuAdd) (hkeep : s.KeepsEvents op)
    (hstep : Handover.step op s = some u) : u.Sound acuAdd := by
  cases op with
  | sys l => exact h.sysStep hkeep hstep
  | scan a => exact h.scanStep hkeep hstep
  | forward => exact h.forwardStep hstep
  | skip => exact h.skipStep hstep
  | post => exact h.postStep hkeep hstep
  | freeOwn => exact h.freeOwnStep hstep
  | clear => exact h.clearStep hstep
  | answer => exact h.answerStep hkeep hstep
  | next => exact h.nextStep hstep
  | write ok => exact h.writeStep hkeep hstep

/-! ### Runs -/

theorem sound_start {led : LedState} (hled : ∀ n ∈ logicNos, ¬ (led.row n).Pending) (sys : System)
    (acuAdd : Vector UInt8 16) : Sound acuAdd (start led sys acuAdd) where
  accounted := fun _ _ => Nat.zero_le _
  readers := by simp [start]
  single := by
    intro n hn
    show (rowEvents (led.row n)).length ≤ 1
    rw [rowEvents_of_idle (hled n hn)]
    exact Nat.zero_le _
  draft := by simp [start]
  header := fun _ _ _ => rfl

/-- In every run from power-up whose steps all keep their events, every event that
was acknowledged to its reader is in its row, in the queue, in the hands of
`tcp_client_thread` or accepted by `netconn_write`, as often as it was acknowledged. -/
theorem accounted_run (hs : Handshakes) (e : Eeprom) (g_WaterCost g_CostNum : UInt8)
    (g_SendDate acuAdd : Vector UInt8 16) (sys : System) {ops : List HandoverOp}
    (hkeep : Runs.AllSteps step KeepsEvents
      (start (ledStart hs e g_WaterCost g_CostNum g_SendDate) sys acuAdd) ops) {v : Handover}
    (hv : Runs.Visits step
      (start (ledStart hs e g_WaterCost g_CostNum g_SendDate) sys acuAdd) ops v) :
    v.Accounted := by
  obtain ⟨n, hn⟩ := hv
  have hidle : ∀ n ∈ logicNos,
      ¬ ((ledStart hs e g_WaterCost g_CostNum g_SendDate).row n).Pending := by
    intro n hn
    rw [ledStart_row]
    exact noEvents_powerUp hs e n hn
  have hsound := Runs.invariant_of_allSteps (I := Sound acuAdd)
    (fun _ _ _ h hkeeps hstep => h.step hkeeps hstep) (sound_start hidle sys acuAdd)
    (hkeep.take n) hn
  exact hsound.accounted_all

/-! ### A card at a reader -/

instance (r : Row) : (o : PollOutcome) → Decidable (o.Recorded r)
  | .idle => inferInstanceAs (Decidable True)
  | .noData => inferInstanceAs (Decidable (¬ _))
  | .failed => inferInstanceAs (Decidable (_ → _))
  | .event _ => inferInstanceAs (Decidable (_ ∧ _))

instance (s : Handover) (p : ℕ) : Decidable (s.FromReader p) := inferInstanceAs (Decidable (_ ∈ _))

instance (s : Handover) (x : ℕ) : Decidable (s.SparesMessages x) :=
  inferInstanceAs (Decidable (∀ p ∈ _, _ → _))

instance (s : Handover) (x : ℕ) : Decidable (s.SparesDraft x) :=
  inferInstanceAs (Decidable (_ → _ → ∀ p ∈ _, _))

instance (s : Handover) : (op : HandoverOp) → Decidable (s.KeepsEvents op)
  | .scan _ => inferInstanceAs (Decidable (_ → ∀ o ∈ _, _))
  | .answer => inferInstanceAs (Decidable (∀ p ∈ _, _ → _ → _))
  | .post => inferInstanceAs (Decidable (_ → _))
  | .write _ => inferInstanceAs (Decidable (∀ p ∈ _, _ → _))
  | .sys (.fill .led) => inferInstanceAs (Decidable (∀ x ∈ _, _))
  | .sys (.fill .tcp) | .sys (.mymalloc _) | .sys (.connect _) | .sys (.forward _ _)
  | .sys (.receive _) | .sys .closed | .sys (.idle _) | .sys (.post _) | .sys (.freeOwn _)
  | .sys (.pend _) | .sys (.processed _) | .sys (.freeMessage _) | .sys (.otherMalloc _)
  | .sys (.otherFree _) | .sys (.otherWrite _ _) => inferInstanceAs (Decidable (∀ x ∈ _, _ ∧ _))
  | .forward | .skip | .freeOwn | .clear | .next => inferInstanceAs (Decidable True)

/-- `led_task` copies the event of its row and posts it. -/
def postOps : List HandoverOp :=
  .forward :: List.replicate 16 (.sys (.fill .led)) ++ [.post, .clear]

/-- Reader 1 reports a card; its event is forwarded in the next iteration, after
the counter in row 0, and `netconn_write` answers `ok` to it. -/
def cardOps (ok : Bool) : List HandoverOp :=
  [.sys (.mymalloc .led), .sys (.mymalloc .tcp), .scan (insertedCardInput 1)] ++ postOps ++
    [.sys (.pend .led), .next, .sys (.connect true), .sys (.pend .tcp), .write true,
      .sys (.freeMessage .tcp), .sys (.idle .tcp), .scan silentLedInput] ++ postOps ++
    [.sys (.pend .tcp), .write ok]

def cardStart : Handover :=
  start (ledStart (fun _ _ => 1) oneReader 5 29 (Vector.replicate 16 0)) emptySystem
    (Vector.replicate 16 0x30)

theorem accounted_run_card :
    ∃ v, Runs.run step cardStart (cardOps true) = some v ∧ v.Accounted := by
  have hdef : (Runs.run step cardStart (cardOps true)).isSome := by decide +kernel
  obtain ⟨v, hv⟩ := Option.isSome_iff_exists.mp hdef
  exact ⟨v, hv, accounted_run (fun _ _ => 1) oneReader 5 29 (Vector.replicate 16 0)
    (Vector.replicate 16 0x30) emptySystem (by decide +kernel) (Runs.visits_last hv)⟩

/-- When `netconn_write` fails, the event is nowhere any more. -/
theorem failed_write_loses_event : ∃ v, Runs.run step cardStart (cardOps false) = some v ∧
    ¬ v.Accounted := by
  have hread : (Runs.run step cardStart (cardOps false)).map (fun v =>
      (v.acked.count ⟨1, insertedCard.collected⟩, v.inRow ⟨1, insertedCard.collected⟩,
        v.waiting ⟨1, insertedCard.collected⟩, v.sent ⟨1, insertedCard.collected⟩)) =
      some (1, 0, 0, 0) := by
    decide +kernel
  obtain ⟨v, hv, heq⟩ := Option.map_eq_some_iff.mp hread
  obtain ⟨hacked, hrow, hwaiting, hsent⟩ : v.acked.count ⟨1, insertedCard.collected⟩ = 1 ∧
      v.inRow ⟨1, insertedCard.collected⟩ = 0 ∧ v.waiting ⟨1, insertedCard.collected⟩ = 0 ∧
      v.sent ⟨1, insertedCard.collected⟩ = 0 := by
    simpa only [Prod.mk.injEq] using heq
  refine ⟨v, hv, fun h => ?_⟩
  have hle := h ⟨1, insertedCard.collected⟩
  omega

end Handover

end YckjAcu
