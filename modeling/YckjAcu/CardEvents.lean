import YckjAcu.LedTask
import YckjAcu.Registration

/-!
# Accounting for card events

Collected events are acknowledged on the bus, forwarded events are posted to
`q_msg`; in between an event is a pending bit of its row.  The scan keeps the
account of every reader balanced exactly as long as no iteration takes one of
the bad branches: row 0 is forwarded, an event without a kind is acknowledged,
or reader 80, whose row is never forwarded, is polled with an event pending.
-/

namespace YckjAcu

open Writes

/-- The events of reader `n` acknowledged by the frames `tx`. -/
def acks (n : ℕ) (tx : List CanTxMsg) : ℕ :=
  tx.countP fun f => f.data.get 0 = 0x07 ∧ f.data.get 1 = UInt8.ofNat n

/-- The events of reader `n` among the messages. -/
def posts (n : ℕ) (posted : List (Vector UInt8 16)) : ℕ :=
  posted.countP fun p => p.get 14 = UInt8.ofNat n

/-- Every acknowledged event is posted or pending, and every post is for a
reader. -/
structure Balanced (s : LedState) : Prop where
  events : ∀ n ∈ logicNos,
    acks n s.bus.can.tx = posts n s.posted + if (s.row n).Pending then 1 else 0
  addressed : ∀ p ∈ s.posted, (p.get 14).toNat ∈ logicNos

/-- How a call of `ReadRunningData` ends; an event comes with the kind byte of
the receive buffer. -/
inductive PollOutcome
  | idle
  | noData
  | failed
  | event (kind : UInt8)
deriving DecidableEq

def outcomeOf (answer : UInt8 × Vector UInt8 10 × CanBus) : PollOutcome :=
  if answer.1 = 0x02 then .noData
  else if answer.1 = 0x00 then .failed
  else .event (answer.2.1.get 0)

def pollOutcome (no : ℕ) (tempBuff : Vector UInt8 10) (s : PowerBus) : Option PollOutcome :=
  if (s.g_RUNDate no).InUse then (pollTwice no tempBuff s.can).map outcomeOf else some .idle

/-- The outcome is entered without loss in a row `r`. -/
def PollOutcome.Recorded (r : Row) : PollOutcome → Prop
  | .idle => True
  | .noData => ¬ r.Pending
  | .failed => r.get 1 = 0 ∧ r.get 4 = 0 → ¬ r.Pending
  | .event kind => (kind = 0x05 ∨ kind = 0x06) ∧ ¬ r.Pending

/-- The iteration takes none of the bad branches. -/
def KeepsAccount (s : LedState) (a : LedInput) : Prop :=
  (s.vars.ledTaskCount = 0 → ¬ (s.row 0).Pending) ∧
    (s.vars.ledTaskCount < busnumSize →
      ∀ o ∈ pollOutcome (s.vars.ledTaskCount + 1) a.tempBuff (s.atPoll a).bus,
        o.Recorded (s.row (s.vars.ledTaskCount + 1)))

/-- Whether a row is pending after the outcome. -/
def PollOutcome.PendingAfter (r : Row) : PollOutcome → Prop
  | .idle => r.Pending
  | .noData => False
  | .failed => r.Pending ∧ ¬ (r.get 1 = 0 ∧ r.get 4 = 0)
  | .event kind => kind = 0x05 ∨ kind = 0x06 ∨ r.Pending ∧ ¬ (r.get 1 = 0 ∧ r.get 4 = 0)

instance (r : Row) : (o : PollOutcome) → Decidable (o.PendingAfter r)
  | .idle => inferInstanceAs (Decidable r.Pending)
  | .noData => inferInstanceAs (Decidable False)
  | .failed => inferInstanceAs (Decidable (_ ∧ _))
  | .event _ => inferInstanceAs (Decidable (_ ∨ _))

def PollOutcome.collected : PollOutcome → ℕ
  | .event _ => 1
  | _ => 0

/-- Recording an outcome is adding it to the pending events of its row. -/
theorem PollOutcome.recorded_iff (o : PollOutcome) (r : Row) :
    o.Recorded r ↔
      o.collected + (if r.Pending then 1 else 0) = if o.PendingAfter r then 1 else 0 := by
  cases o with
  | idle => by_cases hr : r.Pending <;> simp [Recorded, collected, PendingAfter, hr]
  | noData => by_cases hr : r.Pending <;> simp [Recorded, collected, PendingAfter, hr]
  | failed => by_cases hr : r.Pending <;> simp [Recorded, collected, PendingAfter, hr]
  | event kind =>
      by_cases hr : r.Pending
      · simp only [Recorded, collected, PendingAfter, hr]
        split_ifs <;> simp
      · simp [Recorded, collected, PendingAfter, hr, or_iff_not_imp_left]

/-! ### Counting -/

@[simp] theorem acks_append (n : ℕ) (xs ys : List CanTxMsg) :
    acks n (xs ++ ys) = acks n xs + acks n ys := List.countP_append

theorem acks_eq_zero {n : ℕ} {fs : List CanTxMsg} (h : ∀ f ∈ fs, f.data.get 0 ≠ 0x07) :
    acks n fs = 0 := by
  apply List.countP_eq_zero.mpr
  intro f hf
  simp [h f hf]

@[simp] theorem posts_append (n : ℕ) (xs ys : List (Vector UInt8 16)) :
    posts n (xs ++ ys) = posts n xs + posts n ys := List.countP_append

theorem posts_singleton {n m : ℕ} (hn : n ≤ 80) (hm : m ≤ 80) {p : Vector UInt8 16}
    (hp : p.get 14 = UInt8.ofNat m) : posts n [p] = if n = m then 1 else 0 := by
  have hiff : p.get 14 = UInt8.ofNat n ↔ n = m := by
    rw [hp, ofNat_inj_of_le hm hn, eq_comm]
  simp [posts, List.countP_cons, hiff]

theorem acks_succeed {n no : ℕ} (hn : n ≤ 80) (hno : no ≤ 80) (tempBuff : Vector UInt8 10)
    (uBuff : Vector UInt8 8) (r : Row) (can : CanBus) :
    acks n (canReadPBusSucceed (ackBuff no tempBuff uBuff r) can).tx =
      acks n can.tx + if n = no then 1 else 0 := by
  have hiff : UInt8.ofNat no = UInt8.ofNat n ↔ n = no := by
    rw [ofNat_inj_of_le hno hn, eq_comm]
  simp [canReadPBusSucceed, packageSendBuf, canTxMsg, ackBuff, acks, List.countP_cons, hiff]

/-! ### The polled row -/

theorem pending_dropUnnumbered (no : ℕ) (t : RunTable) :
    (dropUnnumbered no t no).Pending ↔
      (t no).Pending ∧ ¬ ((t no).get 1 = 0 ∧ (t no).get 4 = 0) := by
  unfold dropUnnumbered
  split_ifs with h
  · simp [Row.Pending, h]
  · simp [h]

theorem pending_eventRow (tempBuff : Vector UInt8 10) (r : Row) :
    (eventRow tempBuff r).Pending ↔ tempBuff.get 0 = 0x05 ∨ tempBuff.get 0 = 0x06 ∨ r.Pending := by
  by_cases h5 : tempBuff.get 0 = 0x05
  · simpa [Row.Pending, eventRow, h5] using status_set_insert (r.get 0)
  · by_cases h6 : tempBuff.get 0 = 0x06
    · simpa [Row.Pending, eventRow, h5, h6] using status_set_remove (r.get 0)
    · simp [Row.Pending, eventRow, h5, h6]

/-- What a call of `ReadRunningData` does to the account. -/
structure PollEffect (no : ℕ) (o : PollOutcome) (s t : PowerBus) : Prop where
  others : ∀ n, n ≠ no → t.g_RUNDate n = s.g_RUNDate n
  polled : (t.g_RUNDate no).Pending ↔ o.PendingAfter (s.g_RUNDate no)
  acked : ∀ n ≤ 80, acks n t.can.tx = acks n s.can.tx + if n = no then o.collected else 0

theorem pollEffect_storeAnswer {no : ℕ} (hno : no ≤ 80) {tempBuff : Vector UInt8 10}
    (uBuff : Vector UInt8 8) {s : PowerBus} {answer : UInt8 × Vector UInt8 10 × CanBus}
    (h : pollTwice no tempBuff s.can = some answer) :
    PollEffect no (outcomeOf answer) s
      (storeAnswer no uBuff { s with g_RUNDate := dropUnnumbered no s.g_RUNDate } answer) := by
  obtain ⟨hret, k, htx⟩ := pollTwice_cases h
  obtain ⟨uDat, temp, can⟩ := answer
  have hpoll : ∀ n, acks n can.tx = acks n s.can.tx := by
    intro n
    have hzero :
        acks n (List.replicate k (canTxMsg #v[1, UInt8.ofNat no, 0, 0, 0, 0, 0, 0])) = 0 := by
      apply acks_eq_zero
      intro f hf
      rw [List.eq_of_mem_replicate hf]
      simp [canTxMsg]
    simp only at htx
    rw [htx, acks_append, hzero, Nat.add_zero]
  have hset : ∀ n status, n ≠ no →
      (dropUnnumbered no s.g_RUNDate).setStatus no status n = s.g_RUNDate n := by
    intro n status hn
    rw [RunTable.setStatus_of_ne _ _ hn, dropUnnumbered_of_ne _ hn]
  rcases hret with rfl | rfl | rfl
  · refine ⟨fun n hn => hset n _ hn, ?_, fun n _ => ?_⟩
    · have hdrop := pending_dropUnnumbered no s.g_RUNDate
      simpa [storeAnswer, outcomeOf, PollOutcome.PendingAfter, Row.Pending, status_lost] using hdrop
    · simpa [storeAnswer, outcomeOf, PollOutcome.collected] using hpoll n
  · refine ⟨fun n hn => hset n _ hn, ?_, fun n _ => ?_⟩
    · simp [storeAnswer, outcomeOf, PollOutcome.PendingAfter, Row.Pending, status_clear_answered]
    · simpa [storeAnswer, outcomeOf, PollOutcome.collected] using hpoll n
  · refine ⟨fun n hn => ?_, ?_, fun n hn => ?_⟩
    · simp [storeAnswer, hn]
    · have hdrop := pending_dropUnnumbered no s.g_RUNDate
      simp only [storeAnswer, outcomeOf, PollOutcome.PendingAfter]
      simp [pending_eventRow, hdrop]
    · simp only [storeAnswer, outcomeOf, PollOutcome.collected]
      simp [acks_succeed hn hno, hpoll]

theorem readRunningData_spec {no : ℕ} (hno : no ≤ 80) {tempBuff : Vector UInt8 10}
    {uBuff : Vector UInt8 8} {s t : PowerBus}
    (h : readRunningData no tempBuff uBuff s = some t) :
    ∃ o, pollOutcome no tempBuff s = some o ∧ PollEffect no o s t := by
  unfold readRunningData at h
  split_ifs at h with huse
  · obtain ⟨answer, hanswer, h⟩ := Option.bind_eq_some_iff.mp h
    cases h
    exact ⟨outcomeOf answer, by simp [pollOutcome, huse, hanswer],
      pollEffect_storeAnswer hno uBuff hanswer⟩
  · cases h
    refine ⟨.idle, by simp [pollOutcome, huse], fun _ _ => rfl, Iff.rfl, fun n _ => ?_⟩
    simp [PollOutcome.collected]

/-! ### One iteration -/

/-- A pending event of row `n` has become the last message. -/
structure Forwarded (n : ℕ) (r : Row) (before after : List (Vector UInt8 16)) : Prop where
  pending : r.Pending → ∃ buf, after = before ++ [applyWrites (eventWrites n r) buf]
  idle : ¬ r.Pending → after = before

/-- The message names the row it is made from. -/
theorem Forwarded.exists_msgs {n : ℕ} {r : Row} {before after : List (Vector UInt8 16)}
    (h : Forwarded n r before after) : ∃ msgs, after = before ++ msgs ∧
      (r.Pending → ∃ msg, msgs = [msg] ∧ msg.get 14 = UInt8.ofNat n) ∧
      (¬ r.Pending → msgs = []) := by
  by_cases hp : r.Pending
  · obtain ⟨buf, hbuf⟩ := h.pending hp
    exact ⟨_, hbuf, fun _ => ⟨_, rfl, by simp [applyWrites_eventWrites]⟩,
      fun hno => absurd hp hno⟩
  · exact ⟨[], by simpa using h.idle hp, fun hyes => absurd hyes hp, fun _ => rfl⟩

/-- Forwarding clears the row and moves its event into the messages. -/
structure ForwardEffect (postOk : Bool) (s t : LedState) : Prop where
  others : ∀ n, n ≠ s.vars.ledTaskCount → t.row n = s.row n
  cleared : ¬ (t.row s.vars.ledTaskCount).Pending
  posted : postOk = true →
    Forwarded s.vars.ledTaskCount (s.row s.vars.ledTaskCount) s.posted t.posted
  can : t.bus.can = s.bus.can
  vars : t.vars = s.vars

theorem forwardEffect (postOk : Bool) (s : LedState) :
    ForwardEffect postOk s (s.forward postOk) := by
  unfold LedState.forward
  by_cases hp : (s.row s.vars.ledTaskCount).Pending
  · simp only [hp, if_true]
    refine ⟨fun n hn => ?_, ?_,
      fun hpost => ⟨fun _ => ⟨s.g_SendDate, ?_⟩, fun hno => absurd hp hno⟩, rfl, rfl⟩
    · simp [LedState.row, clearPending, RunTable.setStatus_of_ne _ _ hn]
    · simp [LedState.row, clearPending, Row.Pending, status_clear_pending]
    · rw [if_pos hpost]
  · simp only [hp, if_false]
    exact ⟨fun _ _ => rfl, hp, fun _ => ⟨fun hyes => absurd hyes hp, fun _ => rfl⟩, rfl, rfl⟩

/-- An iteration with `Led_TaskCount` below 80, without a message of the server. -/
structure ScanEffect (o : PollOutcome) (s t : LedState) : Prop where
  others : ∀ n, n ≠ s.vars.ledTaskCount → n ≠ s.vars.ledTaskCount + 1 → t.row n = s.row n
  cleared : ¬ (t.row s.vars.ledTaskCount).Pending
  polled : (t.row (s.vars.ledTaskCount + 1)).Pending ↔
    o.PendingAfter (s.row (s.vars.ledTaskCount + 1))
  posted : Forwarded s.vars.ledTaskCount (s.row s.vars.ledTaskCount) s.posted t.posted
  acked : ∀ n ≤ 80, acks n t.bus.can.tx =
    acks n s.bus.can.tx + if n = s.vars.ledTaskCount + 1 then o.collected else 0

theorem LedState.SameScan.acks_eq {s t : LedState} (h : LedState.SameScan s t) (n : ℕ) :
    acks n t.bus.can.tx = acks n s.bus.can.tx := by
  obtain ⟨fs, htx, hfs⟩ := h.tx
  rw [htx, acks_append, acks_eq_zero hfs, Nat.add_zero]

theorem pollScan_spec {a : LedInput} {s t : LedState} (hpost : a.postOk = true)
    (hlt : s.vars.ledTaskCount < busnumSize) (h : s.pollScan a = some t) :
    ∃ o, pollOutcome (s.vars.ledTaskCount + 1) a.tempBuff s.bus = some o ∧
      ScanEffect o s t ∧ t.vars = s.vars := by
  rw [LedState.pollScan, if_pos hlt, Option.map_eq_some_iff, hpost] at h
  obtain ⟨bus, hbus, rfl⟩ := h
  have hno : s.vars.ledTaskCount + 1 ≤ 80 := hlt
  obtain ⟨o, ho, hpoll⟩ := readRunningData_spec hno hbus
  have hfwd := forwardEffect true { s with bus := bus }
  -- the row that is forwarded is not the one that was polled
  have hrow : bus.g_RUNDate s.vars.ledTaskCount = s.row s.vars.ledTaskCount :=
    hpoll.others _ (by omega)
  refine ⟨o, ho, ⟨fun n hn hn' => ?_, hfwd.cleared, ?_, ?_, fun n hn => ?_⟩, hfwd.vars⟩
  · exact (hfwd.others n hn).trans (hpoll.others n hn')
  · rw [hfwd.others _ (by simp)]
    exact hpoll.polled
  · have hposted := hfwd.posted rfl
    rw [LedState.row, hrow] at hposted
    exact hposted
  · rw [hfwd.can]
    exact hpoll.acked n hn

/-- An iteration in which no message of the server arrives and `OSQPost` succeeds. -/
abbrev QuietInput := { a : LedInput // a.server = none ∧ a.postOk = true }

def quietIteration (a : QuietInput) (s : LedState) : Option LedState := ledIteration a.val s

/-- The scan does not see what the broadcasts and the index do before and after. -/
theorem ScanEffect.congr {o : PollOutcome} {s s' t t' : LedState}
    (hs : LedState.SameScan s s') (h : ScanEffect o s' t) (ht : t'.bus.g_RUNDate = t.bus.g_RUNDate)
    (hposted : t'.posted = t.posted) (hacks : ∀ n, acks n t'.bus.can.tx = acks n t.bus.can.tx) :
    ScanEffect o s t' := by
  have hrow : ∀ n, s'.row n = s.row n := fun n => congrFun hs.table n
  have hrow' : ∀ n, t'.row n = t.row n := fun n => congrFun ht n
  have hcount := hs.count
  refine ⟨fun n hn hn' => ?_, ?_, ?_, ?_, fun n hn => ?_⟩
  · rw [hrow', ← hrow]
    exact h.others n (hcount ▸ hn) (hcount ▸ hn')
  · rw [hrow', ← hcount]
    exact h.cleared
  · rw [hrow', ← hcount, ← hrow]
    exact h.polled
  · rw [hposted, ← hs.posted, ← hcount, ← hrow]
    exact h.posted
  · rw [hacks, ← hs.acks_eq, ← hcount]
    exact h.acked n hn

theorem quietIteration_spec {a : QuietInput} {s t : LedState} (h : quietIteration a s = some t) :
    t.vars.ledTaskCount = LedState.nextCount s.vars.ledTaskCount ∧
      if s.vars.ledTaskCount < busnumSize then
        ∃ o, pollOutcome (s.vars.ledTaskCount + 1) a.val.tempBuff (s.atPoll a.val).bus = some o ∧
          ScanEffect o s t
      else t.bus.g_RUNDate = s.bus.g_RUNDate ∧ t.posted = s.posted ∧
        ∀ n, acks n t.bus.can.tx = acks n s.bus.can.tx := by
  obtain ⟨a, hserver, hpost⟩ := a
  obtain ⟨u, hu, h⟩ := Option.bind_eq_some_iff.mp h
  simp only [hserver, LedState.answerServer, Option.bind_eq_bind, Option.bind_some] at h
  cases h
  have hsame := LedState.sameScan_atPoll a s
  have htimer := LedState.sameScan_broadcastTimer u.advance
  have hadv : u.advance.bus = u.bus ∧ u.advance.posted = u.posted := by
    unfold LedState.advance
    split_ifs <;> exact ⟨rfl, rfl⟩
  have htable : u.advance.broadcastTimer.bus.g_RUNDate = u.bus.g_RUNDate := by
    rw [htimer.table, hadv.1]
  have hposted : u.advance.broadcastTimer.posted = u.posted := by rw [htimer.posted, hadv.2]
  have hacks : ∀ n, acks n u.advance.broadcastTimer.bus.can.tx = acks n u.bus.can.tx := by
    intro n
    rw [htimer.acks_eq, hadv.1]
  rw [LedState.advance_timer]
  by_cases hlt : s.vars.ledTaskCount < busnumSize
  · obtain ⟨o, ho, hscan, hvars⟩ := pollScan_spec hpost (by rw [hsame.count]; exact hlt) hu
    rw [hvars, hsame.count, if_pos hlt]
    rw [hsame.count] at ho
    exact ⟨rfl, o, ho, hscan.congr hsame htable hposted hacks⟩
  · rw [LedState.pollScan, if_neg (by rw [hsame.count]; exact hlt)] at hu
    cases hu
    rw [hsame.count, if_neg hlt]
    refine ⟨rfl, htable.trans hsame.table, hposted.trans hsame.posted, fun n => ?_⟩
    rw [hacks, hsame.acks_eq]

namespace ScanEffect

variable {o : PollOutcome} {s t : LedState}

theorem posts_eq (h : ScanEffect o s t) (hlt : s.vars.ledTaskCount < busnumSize) {n : ℕ}
    (hn : n ≤ 80) : posts n t.posted = posts n s.posted +
      if n = s.vars.ledTaskCount ∧ (s.row n).Pending then 1 else 0 := by
  obtain ⟨msgs, hposted, hsome, hnone⟩ := h.posted.exists_msgs
  have hm : s.vars.ledTaskCount ≤ 80 := Nat.le_of_lt hlt
  rw [hposted, posts_append]
  by_cases hp : (s.row s.vars.ledTaskCount).Pending
  · obtain ⟨msg, rfl, hmsg⟩ := hsome hp
    rw [posts_singleton hn hm hmsg]
    by_cases hnm : n = s.vars.ledTaskCount
    · simp [hnm, hp]
    · simp [hnm]
  · rw [hnone hp, if_neg]
    · rfl
    · rintro ⟨rfl, hp'⟩
      exact hp hp'

/-- Only the forwarding of row 0 posts a message that is for no reader. -/
theorem addressed_iff (h : ScanEffect o s t) (hlt : s.vars.ledTaskCount < busnumSize)
    (hs : ∀ p ∈ s.posted, (p.get 14).toNat ∈ logicNos) :
    (∀ p ∈ t.posted, (p.get 14).toNat ∈ logicNos) ↔
      (s.vars.ledTaskCount = 0 → ¬ (s.row 0).Pending) := by
  obtain ⟨msgs, hposted, hsome, hnone⟩ := h.posted.exists_msgs
  have hm : s.vars.ledTaskCount < 80 := hlt
  rw [hposted]
  constructor
  · intro hall h0 hp
    obtain ⟨msg, rfl, hmsg⟩ := hsome (by rw [h0]; exact hp)
    have := hall msg (by simp)
    rw [hmsg, h0, mem_logicNos] at this
    simp at this
  · intro hzero p hp
    rcases List.mem_append.mp hp with hp | hp
    · exact hs p hp
    · by_cases hpend : (s.row s.vars.ledTaskCount).Pending
      · obtain ⟨msg, rfl, hmsg⟩ := hsome hpend
        have hpos : s.vars.ledTaskCount ≠ 0 := fun h0 => hzero h0 (by rwa [h0] at hpend)
        have hto : (UInt8.ofNat s.vars.ledTaskCount).toNat = s.vars.ledTaskCount := by
          rw [UInt8.toNat_ofNat']
          omega
        rw [List.mem_singleton.mp hp, hmsg, hto, mem_logicNos]
        omega
      · rw [hnone hpend] at hp
        simp at hp

theorem events_polled_iff (h : ScanEffect o s t) (hlt : s.vars.ledTaskCount < busnumSize)
    (hs : acks (s.vars.ledTaskCount + 1) s.bus.can.tx =
      posts (s.vars.ledTaskCount + 1) s.posted +
        if (s.row (s.vars.ledTaskCount + 1)).Pending then 1 else 0) :
    (acks (s.vars.ledTaskCount + 1) t.bus.can.tx =
      posts (s.vars.ledTaskCount + 1) t.posted +
        if (t.row (s.vars.ledTaskCount + 1)).Pending then 1 else 0) ↔
      o.Recorded (s.row (s.vars.ledTaskCount + 1)) := by
  have hn : s.vars.ledTaskCount + 1 ≤ 80 := hlt
  have hafter : (if (t.row (s.vars.ledTaskCount + 1)).Pending then 1 else 0) =
      if o.PendingAfter (s.row (s.vars.ledTaskCount + 1)) then 1 else 0 := by
    simp only [h.polled]
  have hposts := h.posts_eq hlt hn
  rw [if_neg (by rintro ⟨heq, _⟩; omega), Nat.add_zero] at hposts
  rw [o.recorded_iff, h.acked _ hn, hposts, hs, hafter, if_pos rfl]
  omega

theorem events_of_ne (h : ScanEffect o s t) (hlt : s.vars.ledTaskCount < busnumSize) {n : ℕ}
    (hn : n ≤ 80) (hne : n ≠ s.vars.ledTaskCount + 1)
    (hs : acks n s.bus.can.tx = posts n s.posted + if (s.row n).Pending then 1 else 0) :
    acks n t.bus.can.tx = posts n t.posted + if (t.row n).Pending then 1 else 0 := by
  rw [h.acked n hn, h.posts_eq hlt hn, hs, if_neg hne]
  by_cases hfwd : n = s.vars.ledTaskCount
  · subst hfwd
    simp [h.cleared]
  · rw [h.others n hfwd hne]
    simp [hfwd]

end ScanEffect

/-! ### Runs of the loop -/

/-- A row other than the one to be forwarded next has no pending bit; row 80 is
not covered, since it is never forwarded. -/
def RowsIdle (s : LedState) : Prop :=
  ∀ n, 1 ≤ n → n ≤ 79 → n ≠ s.vars.ledTaskCount → ¬ (s.row n).Pending

theorem rowsIdle_step {a : QuietInput} {s t : LedState} (hs : RowsIdle s)
    (h : quietIteration a s = some t) : RowsIdle t := by
  obtain ⟨hcount, hspec⟩ := quietIteration_spec h
  intro n h1 h79 hne
  by_cases hlt : s.vars.ledTaskCount < busnumSize
  · rw [if_pos hlt] at hspec
    obtain ⟨o, _, hscan⟩ := hspec
    have hlt' : s.vars.ledTaskCount < 80 := hlt
    rw [hcount, LedState.nextCount, if_neg (by omega)] at hne
    by_cases hn : n = s.vars.ledTaskCount
    · rw [hn]
      exact hscan.cleared
    · rw [hscan.others n hn hne]
      exact hs n h1 h79 hn
  · rw [if_neg hlt] at hspec
    have hge : 80 ≤ s.vars.ledTaskCount := Nat.le_of_not_lt hlt
    rw [LedState.row, hspec.1]
    exact hs n h1 h79 (by omega)

theorem balanced_step_iff {a : QuietInput} {s t : LedState} (hs : Balanced s)
    (h : quietIteration a s = some t) : Balanced t ↔ KeepsAccount s a.val := by
  obtain ⟨hcount, hspec⟩ := quietIteration_spec h
  by_cases hlt : s.vars.ledTaskCount < busnumSize
  · rw [if_pos hlt] at hspec
    obtain ⟨o, ho, hscan⟩ := hspec
    have hkeeps : KeepsAccount s a.val ↔ (s.vars.ledTaskCount = 0 → ¬ (s.row 0).Pending) ∧
        o.Recorded (s.row (s.vars.ledTaskCount + 1)) := by
      simp [KeepsAccount, hlt, ho]
    rw [hkeeps]
    constructor
    · intro ht
      have hno : s.vars.ledTaskCount + 1 ∈ logicNos := mem_logicNos.mpr ⟨by omega, hlt⟩
      exact ⟨(hscan.addressed_iff hlt hs.addressed).mp ht.addressed,
        (hscan.events_polled_iff hlt (hs.events _ hno)).mp (ht.events _ hno)⟩
    · rintro ⟨hzero, hrec⟩
      refine ⟨fun n hn => ?_, (hscan.addressed_iff hlt hs.addressed).mpr hzero⟩
      by_cases hpoll : n = s.vars.ledTaskCount + 1
      · subst hpoll
        exact (hscan.events_polled_iff hlt (hs.events _ hn)).mpr hrec
      · exact hscan.events_of_ne hlt (mem_logicNos.mp hn).2 hpoll (hs.events n hn)
  · rw [if_neg hlt] at hspec
    obtain ⟨htable, hposted, hacks⟩ := hspec
    have hge : 80 ≤ s.vars.ledTaskCount := Nat.le_of_not_lt hlt
    have hkeeps : KeepsAccount s a.val := ⟨fun h0 => by omega, fun hlt' => absurd hlt' hlt⟩
    refine iff_of_true ⟨fun n hn => ?_, ?_⟩ hkeeps
    · rw [hacks, hposted, LedState.row, htable]
      exact hs.events n hn
    · rw [hposted]
      exact hs.addressed

/-! ### From power-up on -/

/-- The tables as the C start-up code clears them. -/
def powerOn (e : Eeprom) : Device where
  eeprom := e
  g_RUNDate := fun _ => Vector.replicate 14 0
  kjVersions := fun _ => 0
  deleted := []

/-- The state in which `g_PowerUpFlag` is set: the power-up check has filled the
table, and the trace of the bus starts here. -/
def ledStart (hs : Handshakes) (e : Eeprom) (g_WaterCost g_CostNum : UInt8)
    (g_SendDate : Vector UInt8 16) : LedState where
  bus := ⟨(powerUPLogitADDCheck hs (powerOn e)).g_RUNDate, ⟨[], []⟩, g_WaterCost, g_CostNum⟩
  vars := ⟨g_CostNum, g_WaterCost, 0, 0, 0, 0, 0⟩
  g_SendDate := g_SendDate
  posted := []

def NoEvents (d : Device) : Prop := ∀ n ∈ logicNos, ¬ (d.g_RUNDate n).Pending

theorem noEvents_setStatus {d : Device} {t : RunTable} {i : ℕ} {status : UInt8}
    (h : NoEvents d) (ht : ∀ n ∈ logicNos, t n = d.g_RUNDate n) (hs : status &&& 0x03 = 0) :
    ∀ n ∈ logicNos, ¬ (t.setStatus i status n).Pending := by
  intro n hn
  by_cases hni : n = i
  · simp [hni, Row.Pending, hs]
  · rw [t.setStatus_of_ne _ hni, ht n hn]
    exact h n hn

theorem NoEvents.powerUPSlot {d : Device} (h : NoEvents d) (hs : Handshakes) (i : ℕ) :
    NoEvents (powerUPSlot hs d i) := by
  have hdelete : ∀ d' : Device, d'.g_RUNDate = d.g_RUNDate →
      NoEvents (deleteLogicADD (UInt8.ofNat i) d').2 := by
    intro d' hd' n hn
    exact noEvents_setStatus h (fun m _ => by rw [hd']) rfl n hn
  have henter : ∀ p ver, NoEvents (enterReader i p ver d) := by
    intro p ver n hn
    by_cases hni : n = i
    · have hmask : (0x80 : UInt8) &&& 0x03 = 0 := rfl
      simp [enterReader, hni, registeredRow, Row.Pending, hmask]
    · have hn0 : n ≠ 0 := by
        have := mem_logicNos.mp hn
        omega
      simp only [enterReader, Function.update_of_ne hni, RunTable.setStatus_of_ne _ _ hn0]
      exact h n hn
  unfold YckjAcu.powerUPSlot
  dsimp only
  split_ifs
  · exact hdelete d rfl
  · exact henter _ _
  · exact henter _ _
  · exact hdelete _ rfl
  · exact h

theorem noEvents_powerUp (hs : Handshakes) (e : Eeprom) :
    NoEvents (powerUPLogitADDCheck hs (powerOn e)) := by
  apply powerUPLogitADDCheck_induction hs fun d i _ hd => hd.powerUPSlot hs i
  intro n _
  simp [powerOn, Row.Pending]

section Run

variable (hs : Handshakes) (e : Eeprom) (g_WaterCost g_CostNum : UInt8)
  (g_SendDate : Vector UInt8 16)

theorem ledStart_row (n : ℕ) : (ledStart hs e g_WaterCost g_CostNum g_SendDate).row n =
    (powerUPLogitADDCheck hs (powerOn e)).g_RUNDate n := by
  simp only [ledStart, LedState.row]

theorem rowsIdle_ledStart : RowsIdle (ledStart hs e g_WaterCost g_CostNum g_SendDate) := by
  intro n h1 h79 _
  rw [ledStart_row]
  exact noEvents_powerUp hs e n (mem_logicNos.mpr ⟨h1, by omega⟩)

theorem balanced_ledStart : Balanced (ledStart hs e g_WaterCost g_CostNum g_SendDate) := by
  refine ⟨fun n hn => ?_, by simp [ledStart]⟩
  have hidle := noEvents_powerUp hs e n hn
  rw [ledStart_row, if_neg hidle]
  rfl

/-- The account of every reader is balanced at every loop head exactly when all
iterations keep it. -/
theorem balanced_run_iff {as : List QuietInput} {u : LedState}
    (hrun : Runs.run quietIteration (ledStart hs e g_WaterCost g_CostNum g_SendDate) as = some u) :
    (∀ t, Runs.Visits quietIteration (ledStart hs e g_WaterCost g_CostNum g_SendDate) as t →
      Balanced t) ↔
    Runs.AllSteps quietIteration (fun s a => KeepsAccount s a.val)
      (ledStart hs e g_WaterCost g_CostNum g_SendDate) as :=
  Runs.forall_visits_iff_allSteps (I := RowsIdle) (P := Balanced)
    (fun _ _ _ hs h => rowsIdle_step hs h) (fun _ _ _ _ hs h => balanced_step_iff hs h)
    (rowsIdle_ledStart hs e g_WaterCost g_CostNum g_SendDate)
    (balanced_ledStart hs e g_WaterCost g_CostNum g_SendDate) hrun

end Run

def silentInput : QuietInput :=
  ⟨⟨[], Vector.replicate 7 0, 0, Vector.replicate 10 0, Vector.replicate 8 0, true, none⟩,
    rfl, rfl⟩

def emptyStart : LedState :=
  ledStart (fun _ _ => 1) (fun _ => 0xFF) 5 29 (Vector.replicate 16 0)

/-- Four readers, in the slots 1 to 4: their number in row 0 has no event bit. -/
def fourReaders : Eeprom := fun a =>
  if 15 ≤ a.val ∧ a.val < 35 then
    if a.val % 5 = 0 then UInt8.ofNat (a.val / 5 - 2) else UInt8.ofNat a.val
  else 0xFF

def fourReadersStart : LedState :=
  ledStart (fun _ _ => 1) fourReaders 5 29 (Vector.replicate 16 0)

def insertionInput : QuietInput :=
  ⟨{ silentInput.val with
      rx := [some ⟨#v[0x03, 1, 0xC1, 0xC2, 0xC3, 0xC4, 0, 0], 8⟩,
        some ⟨#v[0x04, 1, 0, 0x27, 0x10, 9, 0x5A, 0], 8⟩] }, rfl, rfl⟩

/-- An insertion at reader 1 is collected and then posted. -/
theorem balanced_run_iff_insertion : ∃ u,
    Runs.run quietIteration fourReadersStart [insertionInput, silentInput] = some u ∧
    (acks 1 u.bus.can.tx, posts 1 u.posted) = (1, 1) ∧
    ((∀ t, Runs.Visits quietIteration fourReadersStart [insertionInput, silentInput] t →
        Balanced t) ↔
      Runs.AllSteps quietIteration (fun s a => KeepsAccount s a.val) fourReadersStart
        [insertionInput, silentInput]) := by
  obtain ⟨u, hu, hcounts⟩ := Option.map_eq_some_iff.mp (show (Runs.run quietIteration
    fourReadersStart [insertionInput, silentInput]).map
      (fun u => (acks 1 u.bus.can.tx, posts 1 u.posted)) = some (1, 1) by decide +kernel)
  exact ⟨u, hu, hcounts,
    balanced_run_iff (fun _ _ => 1) fourReaders 5 29 (Vector.replicate 16 0) hu⟩

/-- A memory image with one reader, `01 02 03 04` at slot 1. -/
def oneReader : Eeprom := fun a =>
  if a.val = 15 then 1 else if 16 ≤ a.val ∧ a.val ≤ 19 then UInt8.ofNat (a.val - 15) else 0xFF

/-- With one registered reader, the counter in row 0 is posted as an event of
reader 0 by the first iteration. -/
theorem counter_posted_as_event :
    ¬ ∀ t, Runs.Visits quietIteration
        (ledStart (fun _ _ => 1) oneReader 5 29 (Vector.replicate 16 0)) [silentInput] t →
      Balanced t := by
  intro h
  have hdef : (quietIteration silentInput
      (ledStart (fun _ _ => 1) oneReader 5 29 (Vector.replicate 16 0))).isSome := by
    decide +kernel
  obtain ⟨t, ht⟩ := Option.isSome_iff_exists.mp hdef
  have hbal : Balanced t := h t ⟨1, by simpa using ht⟩
  have hstart := balanced_ledStart (fun _ _ => 1) oneReader 5 29 (Vector.replicate 16 0)
  have hkeeps := (balanced_step_iff hstart ht).mp hbal
  have hcount :
      ((ledStart (fun _ _ => 1) oneReader 5 29 (Vector.replicate 16 0)).row 0).Pending := by
    decide +kernel
  exact hkeeps.1 rfl hcount

end YckjAcu
