import YckjAcu.BootRegistration
import YckjAcu.Uplink

/-!
# Which readers are polled

A row is polled while its in-use bit is set.  The power-up check takes an address
for empty when all four bytes are zero, the poll when the outer two are, so a
reader with such an address is dropped by its first poll.
-/

namespace YckjAcu

/-- `g_RUNDate[n][1]` and `[4]` are zero: the test of `ReadRunningData`. -/
def Row.Unnumbered (r : Row) : Prop := r.get 1 = 0x0 ∧ r.get 4 = 0x0

instance (r : Row) : Decidable r.Unnumbered := inferInstanceAs (Decidable (_ ∧ _))

/-! ### The in-use bit -/

theorem inUse_setIfInBounds (r : Row) (status : UInt8) :
    Row.InUse (r.setIfInBounds 0 status) ↔ status &&& 0x80 = 0x80 := by
  simp [Row.InUse]

theorem serial_setIfInBounds (r : Row) (status : UInt8) :
    Row.serial (r.setIfInBounds 0 status) = r.serial := by
  simp [Row.serial, Buffers.get_setIfInBounds_of_ne]

theorem unnumbered_congr {r r' : Row} (h : r'.serial = r.serial) :
    r'.Unnumbered ↔ r.Unnumbered := by
  have h1 : r'.get 1 = r.get 1 := congrArg (fun v : Vector UInt8 4 => v.get 0) h
  have h4 : r'.get 4 = r.get 4 := congrArg (fun v : Vector UInt8 4 => v.get 3) h
  rw [Row.Unnumbered, Row.Unnumbered, h1, h4]

theorem status_noData (s : UInt8) : (s &&& ~~~0x23) &&& 0x80 = 0x80 ↔ s &&& 0x80 = 0x80 := by
  revert s
  decide +kernel

theorem status_failed (s : UInt8) : (s ||| 0x20) &&& 0x80 = 0x80 ↔ s &&& 0x80 = 0x80 := by
  revert s
  decide +kernel

theorem status_inserted (s : UInt8) : (s ||| 0x01) &&& 0x80 = 0x80 ↔ s &&& 0x80 = 0x80 := by
  revert s
  decide +kernel

theorem status_removed (s : UInt8) : (s ||| 0x02) &&& 0x80 = 0x80 ↔ s &&& 0x80 = 0x80 := by
  revert s
  decide +kernel

theorem status_forwarded (s : UInt8) : (s &&& ~~~0x03) &&& 0x80 = 0x80 ↔ s &&& 0x80 = 0x80 := by
  revert s
  decide +kernel

theorem status_cardReply (s : UInt8) : ((s &&& 0x3F) ||| 0x80) &&& 0x80 = 0x80 := by
  revert s
  decide +kernel

theorem status_heartbeatError (s : UInt8) : ¬ ((s &&& 0x3F) ||| 0x40) &&& 0x80 = 0x80 := by
  revert s
  decide +kernel

/-- The row keeps its serial number, and its in-use bit is as `P` says. -/
structure UseEffect (P : Prop) (r r' : Row) : Prop where
  serial : r'.serial = r.serial
  inUse : r'.InUse ↔ P

theorem useEffect_eventRow (tempBuff : Vector UInt8 10) (r : Row) :
    UseEffect r.InUse r (eventRow tempBuff r) := by
  refine ⟨rfl, ?_⟩
  unfold eventRow
  dsimp only
  split_ifs
  · exact status_inserted _
  · exact status_removed _
  · exact Iff.rfl

theorem useEffect_dropUnnumbered (no : ℕ) (t : RunTable) :
    UseEffect ((t no).InUse ∧ ¬ (t no).Unnumbered) (t no) (dropUnnumbered no t no) := by
  unfold dropUnnumbered
  split_ifs with h
  · rw [RunTable.setStatus_self]
    refine ⟨serial_setIfInBounds _ _, ?_⟩
    rw [inUse_setIfInBounds]
    exact iff_of_false (by decide) fun hu => hu.2 h
  · exact ⟨rfl, ⟨fun hu => ⟨hu, h⟩, fun hu => hu.1⟩⟩

theorem useEffect_setStatus {P : Prop} {no : ℕ} {t : RunTable} {r : Row} {status : UInt8}
    (h : UseEffect P r (t no)) (hkeep : status &&& 0x80 = 0x80 ↔ (t no).get 0 &&& 0x80 = 0x80) :
    UseEffect P r (t.setStatus no status no) := by
  rw [RunTable.setStatus_self]
  refine ⟨(serial_setIfInBounds _ _).trans h.serial, ?_⟩
  rw [inUse_setIfInBounds]
  exact hkeep.trans h.inUse

theorem UseEffect.trans {P : Prop} {r r' r'' : Row} (h : UseEffect P r r')
    (h' : UseEffect r'.InUse r' r'') : UseEffect P r r'' :=
  ⟨h'.serial.trans h.serial, h'.inUse.trans h.inUse⟩

theorem useEffect_storeAnswer (no : ℕ) (uBuff : Vector UInt8 8) (s : PowerBus)
    (answer : UInt8 × Vector UInt8 10 × CanBus) :
    UseEffect (s.g_RUNDate no).InUse (s.g_RUNDate no)
      ((storeAnswer no uBuff s answer).g_RUNDate no) := by
  have hrefl : UseEffect (s.g_RUNDate no).InUse (s.g_RUNDate no) (s.g_RUNDate no) := ⟨rfl, Iff.rfl⟩
  unfold storeAnswer
  dsimp only
  split_ifs
  · exact useEffect_setStatus hrefl (status_noData _)
  · exact useEffect_setStatus hrefl (status_failed _)
  · show UseEffect _ _ (Function.update s.g_RUNDate no _ no)
    rw [Function.update_self]
    exact useEffect_eventRow _ _

/-- A poll keeps the in-use bit of a row that has a serial number. -/
theorem useEffect_readRunningData {no : ℕ} {tempBuff : Vector UInt8 10} {uBuff : Vector UInt8 8}
    {s t : PowerBus} (h : readRunningData no tempBuff uBuff s = some t) :
    UseEffect ((s.g_RUNDate no).InUse ∧ ¬ (s.g_RUNDate no).Unnumbered) (s.g_RUNDate no)
      (t.g_RUNDate no) := by
  rcases readRunningData_cases h with ⟨hidle, rfl⟩ | ⟨-, answer, -, rfl⟩
  · exact ⟨rfl, ⟨fun hu => absurd hu hidle, fun hu => hu.1⟩⟩
  · have hstore :=
      useEffect_storeAnswer no uBuff { s with g_RUNDate := dropUnnumbered no s.g_RUNDate } answer
    generalize (storeAnswer no uBuff { s with g_RUNDate := dropUnnumbered no s.g_RUNDate }
      answer).g_RUNDate no = r at hstore ⊢
    exact (useEffect_dropUnnumbered no s.g_RUNDate).trans hstore

theorem useEffect_forward (postOk : Bool) (s : LedState) (n : ℕ) :
    UseEffect (s.row n).InUse (s.row n) ((s.forward postOk).row n) := by
  have hrefl : UseEffect (s.row n).InUse (s.row n) (s.row n) := ⟨rfl, Iff.rfl⟩
  by_cases hn : n = s.vars.ledTaskCount
  · subst hn
    unfold LedState.forward
    dsimp only
    split
    · show UseEffect _ _ (clearPending s.vars.ledTaskCount s.bus.g_RUNDate s.vars.ledTaskCount)
      exact useEffect_setStatus hrefl (status_forwarded _)
    · exact hrefl
  · rw [(forwardEffect postOk s).others n hn]
    exact hrefl

/-- The in-use bit of row `n` after a message of the server. -/
def UseAfterMessage (m : Vector UInt8 11) (n : ℕ) (r : Row) : Prop :=
  if rowIndex m = some n then m.get 0 ≠ 0x55 else r.InUse

theorem useEffect_storeStatus {i n : ℕ} {status : UInt8} {s t : PowerBus}
    (h : s.storeStatus i status = some t) :
    UseEffect (if i = n then status &&& 0x80 = 0x80 else (s.g_RUNDate n).InUse) (s.g_RUNDate n)
      (t.g_RUNDate n) := by
  unfold PowerBus.storeStatus at h
  split_ifs at h
  cases h
  dsimp only
  split_ifs with hin
  · subst hin
    rw [RunTable.setStatus_self]
    exact ⟨serial_setIfInBounds _ _, inUse_setIfInBounds _ _⟩
  · rw [RunTable.setStatus_of_ne _ _ (Ne.symm hin)]
    exact ⟨rfl, Iff.rfl⟩

theorem useEffect_writeRFIDData {m : Vector UInt8 11} {s t : PowerBus}
    (h : writeRFIDData m s = some t) (n : ℕ) :
    UseEffect (UseAfterMessage m n (s.g_RUNDate n)) (s.g_RUNDate n) (t.g_RUNDate n) := by
  have hstored : ∀ {i status} {u : PowerBus}, s.storeStatus i status = some u →
      rowIndex m = some i → (status &&& 0x80 = 0x80 ↔ m.get 0 ≠ 0x55) →
      UseEffect (UseAfterMessage m n (s.g_RUNDate n)) (s.g_RUNDate n) (u.g_RUNDate n) := by
    intro i status u hu hrow hstatus
    have heffect := useEffect_storeStatus (n := n) hu
    refine ⟨heffect.serial, heffect.inUse.trans ?_⟩
    simp only [UseAfterMessage, hrow, Option.some.injEq]
    split_ifs
    · exact hstatus
    · exact Iff.rfl
  have hother : rowIndex m = none →
      UseEffect (UseAfterMessage m n (s.g_RUNDate n)) (s.g_RUNDate n) (s.g_RUNDate n) := by
    intro hrow
    refine ⟨rfl, ?_⟩
    simp [UseAfterMessage, hrow]
  obtain ⟨u, hu, rfl⟩ := Option.map_eq_some_iff.mp h
  unfold writeByKind at hu
  split_ifs at hu with hAA hBB h55 hCC
  · obtain ⟨v, hv, rfl⟩ := Option.map_eq_some_iff.mp hu
    show UseEffect _ _ (v.g_RUNDate n)
    apply hstored hv
    · rw [rowIndex, if_pos hAA]
    · exact iff_of_true (status_cardReply _) (by simp [hAA])
  · cases hu
    exact hother (by rw [rowIndex, if_neg hAA, if_pos hBB])
  · obtain ⟨v, hv, rfl⟩ := Option.map_eq_some_iff.mp hu
    show UseEffect _ _ (v.g_RUNDate n)
    apply hstored hv
    · rw [rowIndex, if_neg hAA, if_neg hBB, if_pos h55]
    · exact iff_of_false (status_heartbeatError _) (by simp [h55])
  · obtain ⟨v, hv, rfl⟩ := Option.map_eq_some_iff.mp hu
    show UseEffect _ _ (v.g_RUNDate n)
    apply hstored hv
    · rw [rowIndex, if_neg hAA, if_neg hBB, if_neg h55, if_pos hCC]
    · exact iff_of_true (by decide) h55
  · cases hu
    exact hother (by rw [rowIndex, if_neg hAA, if_neg hBB, if_neg h55, if_neg hCC])

/-! ### One iteration -/

/-- The iteration from `s` polls row `n`. -/
def PollsRow (n : ℕ) (s : LedState) : Prop :=
  s.vars.ledTaskCount < busnumSize ∧ s.vars.ledTaskCount + 1 = n ∧ (s.row n).InUse

instance (n : ℕ) (s : LedState) : Decidable (PollsRow n s) := inferInstanceAs (Decidable (_ ∧ _))

/-- The message of this iteration, if any, when it names row `n`. -/
def namedIn (n : ℕ) (a : LedInput) : Option (Vector UInt8 11) :=
  a.server.filter fun m => rowIndex m = some n

/-- The in-use bit of row `n` after an iteration. -/
def UseAfter (n : ℕ) (s : LedState) (a : LedInput) : Prop :=
  match namedIn n a with
  | some m => m.get 0 ≠ 0x55
  | none => (s.row n).InUse ∧ ¬ (PollsRow n s ∧ (s.row n).Unnumbered)

theorem useEffect_pollScan {a : LedInput} {s t : LedState} (h : s.pollScan a = some t) (n : ℕ) :
    UseEffect ((s.row n).InUse ∧ ¬ (PollsRow n s ∧ (s.row n).Unnumbered)) (s.row n) (t.row n) := by
  unfold LedState.pollScan at h
  split_ifs at h with hlt
  · obtain ⟨bus, hbus, rfl⟩ := Option.map_eq_some_iff.mp h
    refine UseEffect.trans ?_ (useEffect_forward a.postOk _ n)
    by_cases hn : s.vars.ledTaskCount + 1 = n
    · subst hn
      have hpoll := useEffect_readRunningData hbus
      refine ⟨hpoll.serial, hpoll.inUse.trans ?_⟩
      constructor
      · rintro ⟨huse, hnum⟩
        exact ⟨huse, fun hdrop => hnum hdrop.2⟩
      · rintro ⟨huse, hkeep⟩
        exact ⟨huse, fun hnum => hkeep ⟨⟨hlt, rfl, huse⟩, hnum⟩⟩
    · have hrow : bus.g_RUNDate n = s.row n := readRunningData_of_ne hbus (Ne.symm hn)
      show UseEffect _ _ (bus.g_RUNDate n)
      rw [hrow]
      exact ⟨rfl, ⟨fun huse => ⟨huse, fun hdrop => hn hdrop.1.2.1⟩, fun huse => huse.1⟩⟩
  · cases h
    exact ⟨rfl, ⟨fun huse => ⟨huse, fun hdrop => hlt hdrop.1.1⟩, fun huse => huse.1⟩⟩

theorem useEffect_answerServer {a : LedInput} {s t : LedState}
    (h : s.answerServer a.server = some t) (n : ℕ) :
    UseEffect (match namedIn n a with
      | some m => m.get 0 ≠ 0x55
      | none => (s.row n).InUse) (s.row n) (t.row n) := by
  cases hserver : a.server with
  | none =>
      rw [hserver] at h
      cases h
      simp only [namedIn, hserver, Option.filter_none]
      exact ⟨rfl, Iff.rfl⟩
  | some m =>
      rw [hserver] at h
      obtain ⟨bus, hbus, rfl⟩ := Option.map_eq_some_iff.mp h
      have heffect := useEffect_writeRFIDData hbus n
      refine ⟨heffect.serial, heffect.inUse.trans ?_⟩
      by_cases hname : rowIndex m = some n
      · have hnamed : namedIn n a = some m := by
          rw [namedIn, hserver, Option.filter_eq_some_iff]
          exact ⟨rfl, decide_eq_true hname⟩
        rw [UseAfterMessage, if_pos hname, hnamed]
      · have hnamed : namedIn n a = none := by
          rw [namedIn, hserver, Option.filter_eq_none_iff]
          intro m' hm hname'
          cases hm
          exact hname (of_decide_eq_true hname')
        rw [UseAfterMessage, if_neg hname, hnamed]
        exact Iff.rfl

theorem useEffect_ledIteration {a : LedInput} {s t : LedState} (h : ledIteration a s = some t)
    (n : ℕ) : UseEffect (UseAfter n s a) (s.row n) (t.row n) := by
  obtain ⟨u, v, hu, hv, hrows, -, -⟩ := ledIteration_parts h
  have hsame := LedState.sameScan_atPoll a s
  have hrow : (s.atPoll a).row n = s.row n := congrFun hsame.table n
  have hpoll := useEffect_pollScan hu n
  rw [PollsRow, hsame.count, hrow] at hpoll
  have hmsg := useEffect_answerServer hv n
  rw [hrows]
  refine ⟨hmsg.serial.trans hpoll.serial, hmsg.inUse.trans ?_⟩
  unfold UseAfter
  cases namedIn n a with
  | some m => exact Iff.rfl
  | none => exact hpoll.inUse

/-! ### Runs -/

/-- The messages of the server for row `n`, in the order of the iterations. -/
def named (n : ℕ) (as : List LedInput) : List (Vector UInt8 11) := as.filterMap (namedIn n)

/-- Row `n` is in use at every loop head at which the latest message for it, if
any, was not an error heartbeat. -/
def KeepsPolled (n : ℕ) (start : LedState) : Prop :=
  ∀ as t, Runs.run ledIteration start as = some t →
    (∀ m ∈ (named n as).getLast?, m.get 0 ≠ 0x55) → (t.row n).InUse

/-- The number of iterations that poll row `n`. -/
def polls (n : ℕ) : LedState → List LedInput → ℕ
  | _, [] => 0
  | s, a :: as =>
      (if PollsRow n s then 1 else 0) + (ledIteration a s).elim 0 fun t => polls n t as

/-- From any loop head on, a row `n` without any serial number is polled once at
most, up to the next message for it.  The message of the last iteration comes
after its poll. -/
def PolledOnce (n : ℕ) (start : LedState) : Prop :=
  ∀ as t bs u, Runs.run ledIteration start as = some t → (t.row n).serial = Vector.replicate 4 0 →
    Runs.run ledIteration t bs = some u → (∀ b ∈ bs.dropLast, namedIn n b = none) → polls n t bs ≤ 1

theorem unnumbered_iff {r : Row} {p : PhysicalNo} (h : r.serial = p) :
    r.Unnumbered ↔ p.get 0 = 0 ∧ p.get 3 = 0 := by
  subst h
  exact Iff.rfl

theorem run_serial {n : ℕ} {s t : LedState} {as : List LedInput}
    (h : Runs.run ledIteration s as = some t) : (t.row n).serial = (s.row n).serial :=
  Runs.invariant (I := fun u : LedState => (u.row n).serial = (s.row n).serial)
    (fun _ _ _ hu hstep => (useEffect_ledIteration hstep n).serial.trans hu) rfl h

theorem inUse_run {n : ℕ} {s t : LedState} {as : List LedInput} (huse : (s.row n).InUse)
    (hnum : ¬ (s.row n).Unnumbered) (h : Runs.run ledIteration s as = some t)
    (hlast : ∀ m ∈ (named n as).getLast?, m.get 0 ≠ 0x55) : (t.row n).InUse := by
  induction as using List.reverseRecOn generalizing t with
  | nil =>
      cases h
      exact huse
  | append_singleton as a ih =>
      rw [Runs.run_append] at h
      obtain ⟨r, hr, h⟩ := Option.bind_eq_some_iff.mp h
      obtain ⟨t', ht', h⟩ := Runs.run_cons_eq_some.mp h
      cases h
      rw [(useEffect_ledIteration ht' n).inUse, UseAfter]
      rw [named, List.filterMap_append] at hlast
      cases hname : namedIn n a with
      | some m =>
          apply hlast
          simp [hname]
      | none =>
          have hinit : ∀ m ∈ (named n as).getLast?, m.get 0 ≠ 0x55 := by
            simpa [hname, named] using hlast
          refine ⟨ih hr hinit, fun hdrop => hnum ?_⟩
          exact (unnumbered_congr (run_serial hr)).mp hdrop.2

/-- A row with outer zero bytes is polled at most once before the next message. -/
theorem polls_le {n : ℕ} {s : LedState} {bs : List LedInput} (hnum : (s.row n).Unnumbered)
    (hbs : ∀ b ∈ bs.dropLast, namedIn n b = none) :
    polls n s bs ≤ if (s.row n).InUse then 1 else 0 := by
  have hpolled : ∀ {s : LedState},
      (if PollsRow n s then 1 else 0) ≤ if (s.row n).InUse then 1 else 0 := by
    intro s
    split_ifs with hpoll huse
    · exact le_rfl
    · exact absurd hpoll.2.2 huse
    · exact Nat.zero_le _
    · exact le_rfl
  induction bs generalizing s with
  | nil => exact Nat.zero_le _
  | cons b bs ih =>
      rw [polls]
      cases ht : ledIteration b s with
      | none => exact hpolled
      | some t =>
          have heffect := useEffect_ledIteration ht n
          cases bs with
          | nil => exact hpolled
          | cons b' bs =>
              rw [List.dropLast_cons_cons] at hbs
              have hrest := ih ((unnumbered_congr heffect.serial).mpr hnum)
                fun c hc => hbs c (List.mem_cons_of_mem _ hc)
              have hafter : (t.row n).InUse ↔ (s.row n).InUse ∧ ¬ PollsRow n s := by
                rw [heffect.inUse, UseAfter, hbs b List.mem_cons_self, and_iff_left hnum]
              rw [Option.elim_some]
              by_cases hpoll : PollsRow n s
              · rw [if_neg fun huse => (hafter.mp huse).2 hpoll] at hrest
                rw [if_pos hpoll, if_pos hpoll.2.2]
                omega
              · rw [if_neg hpoll, Nat.zero_add]
                simpa [hafter, hpoll] using hrest

theorem polledOnce (n : ℕ) (start : LedState) : PolledOnce n start := by
  intro as t bs u _ hzero _ hbs
  have hnum : (t.row n).Unnumbered := (unnumbered_iff hzero).mpr ⟨rfl, rfl⟩
  refine (polls_le hnum hbs).trans ?_
  split_ifs
  · exact le_rfl
  · exact Nat.zero_le _

/-! ### A silent scan -/

theorem pollTwice_silent {no : ℕ} (hno : no ∈ logicNos) (tempBuff : Vector UInt8 10) {can : CanBus}
    (hrx : can.rx = []) : ∃ tx, pollTwice no tempBuff can = some (0x00, tempBuff, ⟨[], tx⟩) := by
  have hne : UInt8.ofNat no ≠ 0 := by
    intro h
    have hto := toNat_logicNo hno
    rw [h] at hto
    have h1 := (mem_logicNos.mp hno).1
    rw [← hto] at h1
    simp at h1
  have hrecv : receiveFor 1 (UInt8.ofNat no) [] 0 (Vector.replicate 8 0) 10 =
      some (0, Vector.replicate 8 0, []) := by
    simp [receiveFor, hne.symm]
  have honce : ∀ tx, canSendPBusCom (UInt8.ofNat no) tempBuff ⟨[], tx⟩ = some (0x00, tempBuff,
      ⟨[], tx ++ [canTxMsg #v[0x01, UInt8.ofNat no, 0, 0, 0, 0, 0, 0]]⟩) := by
    intro tx
    rw [canSendPBusCom_of_receive hrecv]
    simp [pollAnswer]
  obtain ⟨rx, tx⟩ := can
  obtain rfl : rx = [] := hrx
  rw [pollTwice, honce, Option.bind_eq_bind, Option.bind_some]
  exact ⟨_, honce _⟩

theorem readRunningData_silent {no : ℕ} (hno : no ∈ logicNos) (tempBuff : Vector UInt8 10)
    (uBuff : Vector UInt8 8) {s : PowerBus} (hrx : s.can.rx = []) :
    ∃ t, readRunningData no tempBuff uBuff s = some t ∧ t.can.rx = [] := by
  by_cases huse : (s.g_RUNDate no).InUse
  · obtain ⟨tx, hpoll⟩ := pollTwice_silent hno tempBuff hrx
    rw [readRunningData, if_pos huse, hpoll]
    exact ⟨_, rfl, rfl⟩
  · exact ⟨s, if_neg huse, hrx⟩

theorem advance_timer_rx (s : LedState) :
    s.advance.broadcastTimer.bus.can.rx = s.bus.can.rx := by
  unfold LedState.broadcastTimer LedState.advance
  split_ifs <;> rfl

theorem ledIteration_silent {s : LedState} (hrx : s.bus.can.rx = [])
    (hlt : s.vars.ledTaskCount < busnumSize) : ∃ t, ledIteration silentInput.val s = some t ∧
      t.bus.can.rx = [] ∧ t.vars.ledTaskCount = s.vars.ledTaskCount + 1 := by
  have hsame := LedState.sameScan_atPoll silentInput.val s
  have hrx' : (s.atPoll silentInput.val).bus.can.rx = [] := by
    rw [atPoll_rx, hrx]
    rfl
  have hlt80 : s.vars.ledTaskCount < 80 := hlt
  have hno : (s.atPoll silentInput.val).vars.ledTaskCount + 1 ∈ logicNos := by
    rw [hsame.count, mem_logicNos]
    omega
  obtain ⟨bus, hbus, hbusrx⟩ := readRunningData_silent hno silentInput.val.tempBuff
    silentInput.val.uBuff hrx'
  have hfwd := forwardEffect true { s.atPoll silentInput.val with bus := bus }
  have hpoll : (s.atPoll silentInput.val).pollScan silentInput.val =
      some (({ s.atPoll silentInput.val with bus := bus } : LedState).forward true) := by
    rw [LedState.pollScan, hsame.count, if_pos hlt, ← hsame.count, hbus]
    rfl
  refine ⟨_, by rw [ledIteration, hpoll]; rfl, ?_, ?_⟩
  · rw [advance_timer_rx, hfwd.can]
    exact hbusrx
  · rw [LedState.advance_timer, hfwd.vars, hsame.count, LedState.nextCount, if_neg (by omega)]

/-- From the start of a scan, the first `k` rows are polled in turn. -/
theorem run_silent {s : LedState} (hrx : s.bus.can.rx = []) (hcount : s.vars.ledTaskCount = 0)
    {k : ℕ} (hk : k ≤ busnumSize) :
    ∃ t, Runs.run ledIteration s (List.replicate k silentInput.val) = some t ∧
      t.bus.can.rx = [] ∧ t.vars.ledTaskCount = k := by
  induction k with
  | zero => exact ⟨s, rfl, hrx, hcount⟩
  | succ k ih =>
      obtain ⟨t, ht, htrx, htcount⟩ := ih (Nat.le_of_succ_le hk)
      obtain ⟨u, hu, hurx, hucount⟩ := ledIteration_silent htrx (by rw [htcount]; exact hk)
      refine ⟨u, ?_, hurx, by rw [hucount, htcount]⟩
      rw [List.replicate_succ', Runs.run_append, ht]
      simp [hu]

theorem named_silent (n k : ℕ) : named n (List.replicate k silentInput.val) = [] := by
  simp [named, namedIn, silentInput]

/-- A row that stays in use through a silent scan has a serial number. -/
theorem KeepsPolled.numbered {n : ℕ} {s : LedState} (h : KeepsPolled n s) (hn : n ∈ logicNos)
    (hrx : s.bus.can.rx = []) (hcount : s.vars.ledTaskCount = 0) : ¬ (s.row n).Unnumbered := by
  obtain ⟨h1, h80⟩ := mem_logicNos.mp hn
  have hlt : n - 1 < busnumSize := by
    rw [busnumSize]
    omega
  have hquiet : ∀ k, ∀ m ∈ (named n (List.replicate k silentInput.val)).getLast?,
      m.get 0 ≠ 0x55 := by
    intro k
    simp [named_silent]
  obtain ⟨t, ht, htrx, htcount⟩ := run_silent hrx hcount (Nat.le_of_lt hlt)
  obtain ⟨u, hu, -, -⟩ := ledIteration_silent htrx (by rw [htcount]; exact hlt)
  have huse : (t.row n).InUse := h _ _ ht (hquiet (n - 1))
  have hlast : (u.row n).InUse := by
    apply h (List.replicate (n - 1) silentInput.val ++ [silentInput.val])
    · rw [Runs.run_append, ht]
      simp [hu]
    · rw [← List.replicate_succ']
      exact hquiet (n - 1 + 1)
  rw [(useEffect_ledIteration hu n).inUse] at hlast
  intro hnum
  apply hlast.2
  refine ⟨⟨by rw [htcount]; exact hlt, by rw [htcount]; omega, huse⟩, ?_⟩
  exact (unnumbered_congr (run_serial ht)).mpr hnum

/-! ### From the power-up check on -/

section Start

variable {hs : Handshakes} {e : Eeprom} {n : ℕ} {p : PhysicalNo}

/-- A registered reader stays polled through every run exactly when the first and
the last byte of its address are not both zero; every row without an address is
polled once at most after each message for it. -/
theorem keepsPolled_iff (g_WaterCost g_CostNum : UInt8) (g_SendDate : Vector UInt8 16)
    (hp : regOf e n = some p) (ha : accepts hs n p = true) :
    (KeepsPolled n (ledStart hs e g_WaterCost g_CostNum g_SendDate) ∧
        ∀ i, PolledOnce i (ledStart hs e g_WaterCost g_CostNum g_SendDate)) ↔
      ¬ (p.get 0 = 0 ∧ p.get 3 = 0) := by
  have hent := readerEntered_powerUP hp ha
  have hrow := ledStart_row hs e g_WaterCost g_CostNum g_SendDate n
  have hserial : ((ledStart hs e g_WaterCost g_CostNum g_SendDate).row n).serial = p := by
    rw [hrow]
    exact hent.serial
  rw [← unnumbered_iff hserial]
  constructor
  · rintro ⟨hkeep, -⟩
    exact hkeep.numbered (regOf_eq_some.mp hp).1 rfl rfl
  · intro hnum
    refine ⟨fun as t hrun hlast => ?_, fun i => polledOnce i _⟩
    refine inUse_run ?_ hnum hrun hlast
    rw [hrow]
    exact hent.inUse

end Start

theorem keepsPolled_iff_oneReader :
    (KeepsPolled 1 (ledStart (fun _ _ => 1) oneReader 5 29 (Vector.replicate 16 0)) ∧
        ∀ i, PolledOnce i (ledStart (fun _ _ => 1) oneReader 5 29 (Vector.replicate 16 0))) ↔
      ¬ ((#v[1, 2, 3, 4] : PhysicalNo).get 0 = 0 ∧ (#v[1, 2, 3, 4] : PhysicalNo).get 3 = 0) :=
  keepsPolled_iff 5 29 (Vector.replicate 16 0) (by decide +kernel) (by decide +kernel)

/-- A memory image with the reader `00 05 06 00` at slot 1. -/
def outerZeroReader : Eeprom := fun a =>
  if a.val = 15 then 1 else if a.val = 17 then 5 else if a.val = 18 then 6
  else if a.val = 16 ∨ a.val = 19 then 0 else 0xFF

/-- It is registered at power-up and taken out of use by its first poll. -/
theorem outerZeroReader_dropped :
    regOf outerZeroReader 1 = some #v[0, 5, 6, 0] ∧
    accepts (fun _ _ => 1) 1 #v[0, 5, 6, 0] = true ∧
    ¬ KeepsPolled 1 (ledStart (fun _ _ => 1) outerZeroReader 5 29 (Vector.replicate 16 0)) := by
  refine ⟨by decide +kernel, by decide +kernel, fun h => ?_⟩
  have hrun : (Runs.run ledIteration (ledStart (fun _ _ => 1) outerZeroReader 5 29
      (Vector.replicate 16 0)) [silentInput.val]).map (fun t => decide (t.row 1).InUse) =
      some false := by
    decide +kernel
  obtain ⟨t, ht, hidle⟩ := Option.map_eq_some_iff.mp hrun
  exact of_decide_eq_false hidle (h _ _ ht (by simp [named, namedIn, silentInput]))

end YckjAcu
