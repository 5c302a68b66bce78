import YckjAcu.UartSend

/-!
# What becomes of a call

A call that fits into the FIFO comes to its end and its bytes go out, whoever has a
turn when; the interrupt is only enabled after the last byte, so a longer call waits
for ever.  The transceiver of an RS485 port may be switched back too soon, when the
end of one transmission meets the beginning of the next call.
-/

namespace YckjAcu

namespace SendSystem

variable {s t : SendSystem} {queue : List UInt8}

/-! ### The direction of the transceiver -/

/-- The interrupt finds that the transmission is over, and calls `RS485_SendOver`. -/
def SendsOver (s : SendSystem) : Prop :=
  s.usart.txeStatus = false ∧ s.usart.tcStatus = true ∧ s.tx.usTxCount = 0

instance (s : SendSystem) : Decidable s.SendsOver :=
  inferInstanceAs (Decidable (_ ∧ _ ∧ _))

/-- As long as there are bytes to send, the transceiver transmits. -/
def Driven (s : SendSystem) : Prop := s.line ≠ s.given → s.transmitMode = true

/-- The transmission is not over while a call has bytes in its hands. -/
def NotCutShort (s : SendSystem) : SendOp → Prop
  | .turn .irq => s.SendsOver → s.inHand = []
  | _ => True

instance (s : SendSystem) (op : SendOp) : Decidable (s.NotCutShort op) := by
  unfold NotCutShort
  split <;> infer_instance

theorem mode_uartIRQ (s : SendSystem) :
    s.uartIRQ.transmitMode = if s.SendsOver then false else s.transmitMode := by
  unfold SendSystem.uartIRQ SendsOver
  split_ifs <;> simp_all [sendFront]

/-- When the transmission is over, what is still to be sent is in the call's hands. -/
theorem Sound.line_eq_iff (h : s.Sound) (hover : s.SendsOver) :
    s.line = s.given ↔ s.inHand = [] := by
  obtain ⟨queue, h⟩ := h
  obtain ⟨-, htc, hzero⟩ := hover
  have hgiven := h.given
  rw [h.complete (tcStatus_iff.mp htc).2, h.tx.count_eq_zero_iff.mp hzero, List.nil_append,
    List.nil_append] at hgiven
  rw [hgiven, List.self_eq_append_right]

theorem Sound.sent_eq (h : s.Sound) (hall : s.line = s.given) : s.sent = s := by
  obtain ⟨queue, h⟩ := h
  have hgiven := h.given
  rw [← hall, List.self_eq_append_right, List.append_eq_nil_iff, inUsart,
    List.append_eq_nil_iff] at hgiven
  have hshift : s.usart.shift = none := Option.toList_eq_nil_iff.mp hgiven.1.1
  rw [SendSystem.sent, hshift]

theorem Driven.of_kept (hdriven : s.Driven) (hkept : Kept s t) : t.Driven := by
  intro hne
  rw [hkept.transmitMode]
  rw [hkept.line, hkept.given] at hne
  exact hdriven hne

theorem driven_turn_iff (t : SendTurn) (h : s.Sound) (hdriven : s.Driven) :
    (turn t s).Driven ↔ s.NotCutShort (.turn t) := by
  cases t with
  | go => exact iff_of_true (hdriven.of_kept (uartSend_kept s)) trivial
  | load => exact iff_of_true (hdriven.of_kept (load_kept s)) trivial
  | sent =>
      refine iff_of_true (fun hne => ?_) trivial
      by_cases hall : s.line = s.given
      · rw [turn, h.sent_eq hall] at hne
        exact absurd hall hne
      · exact (sent_kept s).2.2.trans (hdriven hall)
  | irq =>
      obtain ⟨hgiven, hsize, hline⟩ := uartIRQ_kept s
      by_cases hover : s.SendsOver
      · have hmode : s.uartIRQ.transmitMode = false := (mode_uartIRQ s).trans (if_pos hover)
        rw [turn, Driven, hmode, hline, hgiven, NotCutShort, ← h.line_eq_iff hover]
        simp [hover]
      · have hmode : s.uartIRQ.transmitMode = s.transmitMode :=
          (mode_uartIRQ s).trans (if_neg hover)
        exact iff_of_true (hdriven.of_kept ⟨hgiven, hsize, hline, hmode⟩)
          fun hover' => absurd hover' hover

theorem driven_step_iff {op : SendOp} (h : s.Sound) (hdriven : s.Driven)
    (hstep : step op s = some t) : t.Driven ↔ s.NotCutShort op := by
  cases op with
  | comSendBuf _ucaBuf =>
      rw [SendSystem.step] at hstep
      split at hstep
      · cases hstep
        exact iff_of_true (fun _ => rfl) trivial
      · cases hstep
  | turn t =>
      cases hstep
      exact driven_turn_iff t h hdriven

end SendSystem

/-- The transceiver transmits as long as there are bytes to send, in every state of a
run, exactly when no transmission ends while a call is still putting bytes into the
FIFO. -/
theorem driven_iff (pTxBuf : ℕ → UInt8) {usTxBufSize : UInt16} (hpos : 0 < usTxBufSize)
    {ops : List SendOp} {u : SendSystem}
    (hrun : Runs.run SendSystem.step (SendSystem.start pTxBuf usTxBufSize) ops = some u) :
    (∀ t, Runs.Visits SendSystem.step (SendSystem.start pTxBuf usTxBufSize) ops t → t.Driven) ↔
      Runs.AllSteps SendSystem.step SendSystem.NotCutShort
        (SendSystem.start pTxBuf usTxBufSize) ops :=
  Runs.forall_visits_iff_allSteps (I := SendSystem.Sound) (fun _ _ _ h hstep => h.step hstep)
    (fun _ _ _ h hdriven hstep => SendSystem.driven_step_iff h hdriven hstep)
    (SendSystem.sound_start pTxBuf hpos) (fun hne => absurd rfl hne) hrun

/-- The last byte of a message leaves the shift register, and its interrupt comes
right after `RS485_SendBefor` of the next. -/
def turnedAround : List SendOp :=
  [.comSendBuf [7], .turn .go, .turn .go, .turn .go, .turn .go, .turn .go, .turn .irq,
    .turn .load, .turn .irq, .turn .sent, .comSendBuf [9], .turn .irq]

theorem driven_iff_turnedAround :
    ¬ ∀ t, Runs.Visits SendSystem.step (SendSystem.start (fun _ => 0) 512) turnedAround t →
      t.Driven := by
  obtain ⟨u, hrun⟩ := Option.isSome_iff_exists.mp
    (show (Runs.run SendSystem.step (SendSystem.start (fun _ => 0) 512) turnedAround).isSome by
      decide +kernel)
  rw [driven_iff (fun _ => 0) (by decide) hrun]
  decide +kernel

namespace SendSystem

variable {s t : SendSystem} {queue : List UInt8} {byte : UInt8}

/-! ### Progress -/

def callWork : UartSend → ℕ
  | .idle => 0
  | .config _ => 4
  | .test rest => 5 + 6 * rest.length
  | .stored _ rest => 9 + 6 * rest.length
  | .store _ rest => 10 + 6 * rest.length

def usartWork (p : Usart) : ℕ :=
  p.shift.toList.length + 2 * p.dr.toList.length + (2 * p.cr1.txeie.toNat + p.cr1.tcie.toNat)

/-- What is left to do for all of the port. -/
def work (s : SendSystem) : ℕ := callWork s.call + usartWork s.usart + 3 * s.tx.usTxCount.toNat

theorem Holds.work_eq (h : s.Holds queue) :
    s.work = callWork s.call + usartWork s.usart + 3 * queue.length := by
  rw [work, h.tx.count]

theorem Holds.sendFront_work_lt (h : s.Holds (byte :: queue)) (hdr : s.usart.dr = none) :
    s.sendFront.work < s.work := by
  have hafter : s.sendFront.work = callWork s.call +
      (s.usart.shift.toList.length + 2 + (2 * s.usart.cr1.txeie.toNat + s.usart.cr1.tcie.toNat)) +
      3 * queue.length := (h.sendFront hdr).work_eq
  have hbefore : s.work = callWork s.call +
      (s.usart.shift.toList.length + 2 * s.usart.dr.toList.length +
        (2 * s.usart.cr1.txeie.toNat + s.usart.cr1.tcie.toNat)) +
      3 * (queue.length + 1) := h.work_eq
  rw [hafter, hbefore, hdr, Option.toList_none, List.length_nil]
  omega

theorem Holds.uartIRQ_work (h : s.Holds queue) : s.uartIRQ = s ∨ s.uartIRQ.work < s.work := by
  have hfront : s.tx.usTxCount ≠ 0 → s.usart.dr = none → s.sendFront.work < s.work := by
    intro hne hdr
    obtain ⟨byte, rest, rfl⟩ := List.exists_cons_of_ne_nil (mt h.tx.count_eq_zero_iff.mpr hne)
    exact h.sendFront_work_lt hdr
  unfold SendSystem.uartIRQ
  split_ifs with htxe hzero htc hzero
  · right
    have hon := (txeStatus_iff.mp htxe).1
    simp only [work, usartWork, hon, Bool.toNat_true, Bool.toNat_false]
    omega
  · exact Or.inr (hfront hzero (txeStatus_iff.mp htxe).2)
  · right
    have hon := (tcStatus_iff.mp htc).1
    simp only [work, usartWork, hon, Bool.toNat_true, Bool.toNat_false]
    omega
  · exact Or.inr (hfront hzero (h.dr_of_tc (tcStatus_iff.mp htc).2))
  · exact Or.inl rfl

theorem Holds.uartSend_work (h : s.Holds queue) : s.uartSend = s ∨ s.uartSend.work < s.work := by
  have hready := h.ready
  unfold SendSystem.uartSend
  cases hcall : s.call with
  | idle => exact Or.inl rfl
  | test rest =>
      cases rest with
      | nil =>
          right
          simp only [work, hcall, callWork, List.length_nil]
          omega
      | cons byte rest =>
          dsimp only
          split_ifs with hfull
          · exact Or.inl rfl
          · right
            simp only [work, hcall, callWork, List.length_cons]
            omega
  | store byte rest =>
      right
      simp only [work, hcall, callWork, UartTx.store]
      omega
  | stored byte rest =>
      right
      rw [hcall] at hready
      have hcount := (h.tx.advance hready.1 hready.2).count
      rw [List.length_append, List.length_singleton] at hcount
      simp only [work, hcall, callWork, hcount, h.tx.count]
      omega
  | config cr1 =>
      right
      have hle := cr1.tcie.toNat_le
      simp only [work, hcall, callWork, usartWork, Bool.toNat_true]
      omega

theorem load_work (s : SendSystem) : s.load = s ∨ s.load.work < s.work := by
  unfold SendSystem.load
  split
  · rename_i byte hshift hdr
    right
    simp only [work, usartWork, hshift, hdr, Option.toList_none, Option.toList_some,
      List.length_nil, List.length_singleton]
    omega
  · exact Or.inl rfl

theorem sent_work (s : SendSystem) : s.sent = s ∨ s.sent.work < s.work := by
  unfold SendSystem.sent
  split
  · exact Or.inl rfl
  · rename_i byte hshift
    right
    simp only [work, usartWork, hshift, Option.toList_none, Option.toList_some, List.length_nil,
      List.length_singleton]
    omega

theorem Sound.turn_work (h : s.Sound) (t : SendTurn) :
    SendSystem.turn t s = s ∨ (SendSystem.turn t s).work < s.work := by
  obtain ⟨queue, h⟩ := h
  cases t with
  | go => exact h.uartSend_work
  | load => exact load_work s
  | sent => exact sent_work s
  | irq => exact h.uartIRQ_work

/-! ### Where nothing is left to do -/

abbrev Still (s : SendSystem) : Prop := Turns.Still turn s

theorem Still.call (h : s.Still) :
    s.call = .idle ∨ ∃ byte rest, s.call = .test (byte :: rest) ∧ s.tx.full = true := by
  have hgo : s.uartSend = s := h .go
  unfold SendSystem.uartSend at hgo
  cases hcall : s.call with
  | idle => exact Or.inl rfl
  | test rest =>
      rw [hcall] at hgo
      cases rest with
      | nil => simpa [hcall] using congrArg SendSystem.call hgo
      | cons byte rest =>
          dsimp only at hgo
          split_ifs at hgo with hfull
          · exact Or.inr ⟨byte, rest, rfl, hfull⟩
          · simpa [hcall] using congrArg SendSystem.call hgo
  | store byte rest =>
      rw [hcall] at hgo
      simpa [hcall] using congrArg SendSystem.call hgo
  | stored byte rest =>
      rw [hcall] at hgo
      simpa [hcall] using congrArg SendSystem.call hgo
  | config cr1 =>
      rw [hcall] at hgo
      simpa [hcall] using congrArg SendSystem.call hgo

theorem Still.shift (h : s.Still) : s.usart.shift = none := by
  have hsent : s.sent = s := h .sent
  cases hshift : s.usart.shift with
  | none => rfl
  | some byte =>
      rw [SendSystem.sent, hshift] at hsent
      simpa using congrArg SendSystem.line hsent

theorem Still.dr (h : s.Still) : s.usart.dr = none := by
  have hload : s.load = s := h .load
  cases hdr : s.usart.dr with
  | none => rfl
  | some byte =>
      rw [SendSystem.load, h.shift, hdr] at hload
      simpa [hdr] using congrArg (fun u => u.usart.dr) hload

theorem Still.txeStatus (h : s.Still) : s.usart.txeStatus = false := by
  have hirq : s.uartIRQ = s := h .irq
  by_contra htxe
  rw [Bool.not_eq_false] at htxe
  rw [SendSystem.uartIRQ, if_pos htxe] at hirq
  split_ifs at hirq with hzero
  · have hoff := congrArg (fun u => u.usart.cr1.txeie) hirq
    rw [(txeStatus_iff.mp htxe).1] at hoff
    cases hoff
  · have hdr := congrArg (fun u => u.usart.dr) hirq
    rw [h.dr] at hdr
    cases hdr

theorem Still.tcStatus (h : s.Still) : s.usart.tcStatus = false := by
  have hirq : s.uartIRQ = s := h .irq
  by_contra htc
  rw [Bool.not_eq_false] at htc
  rw [SendSystem.uartIRQ, h.txeStatus, if_neg Bool.false_ne_true, if_pos htc] at hirq
  split_ifs at hirq with hzero
  · have hoff := congrArg (fun u => u.usart.cr1.tcie) hirq
    rw [(tcStatus_iff.mp htc).1] at hoff
    cases hoff
  · have hdr := congrArg (fun u => u.usart.dr) hirq
    rw [h.dr] at hdr
    cases hdr

theorem Still.txeie (h : s.Still) : s.usart.cr1.txeie = false := by
  have hoff := h.txeStatus
  rw [Usart.txeStatus, h.dr, Option.isNone_none, Bool.and_true] at hoff
  exact hoff

theorem Still.inUsart (h : s.Still) : s.inUsart = [] := by
  rw [SendSystem.inUsart, h.shift, h.dr]
  rfl

/-! ### A call that fits -/

/-- Once the interrupt is off, the FIFO has room for all that the call has in its
hands. -/
structure Fits (s : SendSystem) : Prop where
  hand : s.inHand.length ≤ s.tx.usTxBufSize.toNat
  room : s.usart.cr1.txeie = false →
    s.tx.usTxCount.toNat + s.inHand.length ≤ s.tx.usTxBufSize.toNat

theorem Sound.fits_comSendBuf (h : s.Sound) (hidle : s.call = .idle) {_ucaBuf : List UInt8}
    (hfits : _ucaBuf.length ≤ s.tx.usTxBufSize.toNat) : (s.comSendBuf _ucaBuf).Fits := by
  refine ⟨hfits, fun hoff => ?_⟩
  obtain ⟨queue, h⟩ := h
  have hready := h.ready
  rw [hidle] at hready
  have hcount : s.tx.usTxCount.toNat = 0 := by rw [h.tx.count, hready hoff, List.length_nil]
  change s.tx.usTxCount.toNat + _ucaBuf.length ≤ _
  rw [hcount, Nat.zero_add]
  exact hfits

theorem Fits.uartSend (h : s.Fits) (hs : s.Holds queue) : s.uartSend.Fits := by
  have hhand := h.hand
  have hroom := h.room
  have hready := hs.ready
  unfold SendSystem.uartSend
  cases hcall : s.call with
  | idle => exact ⟨hhand, hroom⟩
  | test rest =>
      rw [inHand, hcall] at hhand hroom
      cases rest with
      | nil => exact ⟨hhand, hroom⟩
      | cons byte rest =>
          dsimp only
          split_ifs with hfull
          · exact h
          · exact ⟨hhand, hroom⟩
  | store byte rest =>
      rw [inHand, hcall] at hhand hroom
      exact ⟨hhand, hroom⟩
  | stored byte rest =>
      rw [inHand, hcall] at hhand hroom
      rw [hcall] at hready
      have hcount := (hs.tx.advance hready.1 hready.2).count
      rw [List.length_append, List.length_singleton, ← hs.tx.count] at hcount
      refine ⟨(Nat.le_succ _).trans hhand, fun hoff => ?_⟩
      have hle := hroom hoff
      rw [List.length_cons] at hle
      change s.tx.advance.usTxCount.toNat + rest.length ≤ s.tx.usTxBufSize.toNat
      omega
  | config cr1 =>
      rw [inHand, hcall] at hhand hroom
      exact ⟨hhand, fun hoff => absurd hoff.symm Bool.false_ne_true⟩

theorem Fits.uartIRQ (h : s.Fits) (hs : s.Holds queue) : s.uartIRQ.Fits := by
  have hfront : s.tx.usTxCount ≠ 0 → s.sendFront.Fits := by
    intro hne
    obtain ⟨byte, rest, rfl⟩ := List.exists_cons_of_ne_nil (mt hs.tx.count_eq_zero_iff.mpr hne)
    refine ⟨h.hand, fun hoff => ?_⟩
    have hle := h.room hoff
    rw [hs.tx.count, List.length_cons] at hle
    have hcount : s.sendFront.tx.usTxCount.toNat = rest.length := hs.tx.drop.count
    rw [hcount]
    change rest.length + s.inHand.length ≤ s.tx.usTxBufSize.toNat
    omega
  unfold SendSystem.uartIRQ
  split_ifs with htxe hzero htc hzero
  · refine ⟨h.hand, fun _ => ?_⟩
    change s.tx.usTxCount.toNat + s.inHand.length ≤ _
    rw [hzero, UInt16.toNat_zero, Nat.zero_add]
    exact h.hand
  · exact hfront hzero
  · exact ⟨h.hand, h.room⟩
  · exact hfront hzero
  · exact h

theorem Fits.turn (h : s.Fits) (hs : s.Sound) (t : SendTurn) :
    (SendSystem.turn t s).Fits := by
  obtain ⟨queue, hs⟩ := hs
  cases t with
  | go => exact h.uartSend hs
  | load =>
      simp only [SendSystem.turn, SendSystem.load]
      split <;> exact ⟨h.hand, h.room⟩
  | sent =>
      simp only [SendSystem.turn, SendSystem.sent]
      split <;> exact ⟨h.hand, h.room⟩
  | irq => exact h.uartIRQ hs

/-- Where nothing is left to do, the call has ended and every byte is on the line. -/
theorem Fits.delivered (h : s.Fits) (hsound : s.Sound) (hstill : s.Still) :
    s.call = .idle ∧ s.line = s.given := by
  obtain ⟨queue, hs⟩ := hsound
  have hidle : s.call = .idle := by
    rcases hstill.call with hidle | ⟨byte, rest, hcall, hfull⟩
    · exact hidle
    · have hle := h.room hstill.txeie
      rw [hs.tx.count, hs.tx.full_iff.mp hfull, inHand, hcall, List.length_cons] at hle
      omega
  have hready := hs.ready
  have hgiven := hs.given
  rw [hidle] at hready
  rw [hstill.inUsart, hready hstill.txeie, inHand, hidle] at hgiven
  exact ⟨hidle, by rw [hgiven, List.nil_append, List.nil_append, List.append_nil]⟩

/-! ### A call that does not -/

/-- The interrupt is off, and the FIFO is too small for what is in it and what the call
has in its hands. -/
structure Stuck (s : SendSystem) : Prop where
  sound : s.Sound
  txeie : s.usart.cr1.txeie = false
  tcStatus : s.usart.tcStatus = false
  shift : s.usart.shift = none
  dr : s.usart.dr = none
  long : s.tx.usTxBufSize.toNat < s.tx.usTxCount.toNat + s.inHand.length

theorem Stuck.inHand_ne (h : s.Stuck) : s.inHand ≠ [] := by
  obtain ⟨queue, hs⟩ := h.sound
  have hlong := h.long
  have hle := hs.tx.length_le
  intro hnil
  rw [hnil, hs.tx.count, List.length_nil] at hlong
  omega

theorem Stuck.call_ne (h : s.Stuck) : s.call ≠ .idle := by
  intro hidle
  exact h.inHand_ne (by rw [inHand, hidle])

theorem Stuck.uartSend (h : s.Stuck) : s.uartSend.Stuck := by
  obtain ⟨queue, hs⟩ := h.sound
  have hhand := h.inHand_ne
  have hlong := h.long
  have hready := hs.ready
  have hsound := hs.uartSend
  unfold SendSystem.uartSend at hsound ⊢
  cases hcall : s.call with
  | idle => exact h
  | test rest =>
      rw [hcall] at hsound
      rw [inHand, hcall] at hhand hlong
      cases rest with
      | nil => exact absurd rfl hhand
      | cons byte rest =>
          dsimp only at hsound ⊢
          split_ifs at hsound ⊢ with hfull
          · exact h
          · exact ⟨hsound, h.txeie, h.tcStatus, h.shift, h.dr, hlong⟩
  | store byte rest =>
      rw [hcall] at hsound
      rw [inHand, hcall] at hlong
      exact ⟨hsound, h.txeie, h.tcStatus, h.shift, h.dr, hlong⟩
  | stored byte rest =>
      rw [hcall] at hsound hready
      rw [inHand, hcall, List.length_cons] at hlong
      have hcount := (hs.tx.advance hready.1 hready.2).count
      rw [List.length_append, List.length_singleton, ← hs.tx.count] at hcount
      refine ⟨hsound, h.txeie, h.tcStatus, h.shift, h.dr, ?_⟩
      change s.tx.usTxBufSize.toNat < s.tx.advance.usTxCount.toNat + rest.length
      omega
  | config cr1 =>
      rw [inHand, hcall] at hhand
      exact absurd rfl hhand

theorem Stuck.turn (h : s.Stuck) (t : SendTurn) :
    (SendSystem.turn t s).Stuck ∧ (SendSystem.turn t s).line = s.line := by
  cases t with
  | go => exact ⟨h.uartSend, (uartSend_kept s).line⟩
  | load =>
      have hload : s.load = s := by rw [SendSystem.load, h.shift, h.dr]
      rw [SendSystem.turn, hload]
      exact ⟨h, rfl⟩
  | sent =>
      have hsent : s.sent = s := by rw [SendSystem.sent, h.shift]
      rw [SendSystem.turn, hsent]
      exact ⟨h, rfl⟩
  | irq =>
      have hirq : s.uartIRQ = s := by
        rw [SendSystem.uartIRQ, Usart.txeStatus, h.txeie, h.tcStatus]
        rfl
      rw [SendSystem.turn, hirq]
      exact ⟨h, rfl⟩

theorem Sound.stuck_comSendBuf (h : s.Sound) (hidle : s.call = .idle) (hstill : s.Still)
    {_ucaBuf : List UInt8} (hlong : s.tx.usTxBufSize.toNat < _ucaBuf.length) :
    (s.comSendBuf _ucaBuf).Stuck :=
  ⟨h.comSendBuf hidle _ucaBuf, hstill.txeie, hstill.tcStatus, hstill.shift, hstill.dr,
    hlong.trans_le (Nat.le_add_left _ _)⟩

/-! ### Runs -/

theorem given_trace (sched : ℕ → SendTurn) (s : SendSystem) (n : ℕ) :
    (Turns.trace turn sched s n).given = s.given := by
  induction n with
  | zero => rfl
  | succ n ih => exact (kept_turn _ _).1.trans ih

theorem Stuck.trace (h : s.Stuck) (sched : ℕ → SendTurn) (n : ℕ) :
    (Turns.trace SendSystem.turn sched s n).Stuck ∧
      (Turns.trace SendSystem.turn sched s n).line = s.line := by
  induction n with
  | zero => exact ⟨h, rfl⟩
  | succ n ih =>
      obtain ⟨hstuck, hline⟩ := ih.1.turn (sched n)
      exact ⟨hstuck, hline.trans ih.2⟩

end SendSystem

/-- A call that fits into the FIFO ends and all its bytes reach the line, in whatever
order call, USART and interrupt have their turns; from a port at rest a longer one never
ends, and sends nothing. -/
theorem comSendBuf_delivers (pTxBuf : ℕ → UInt8) {usTxBufSize : UInt16} (hpos : 0 < usTxBufSize)
    {ops : List SendOp} {s : SendSystem}
    (hrun : Runs.run SendSystem.step (SendSystem.start pTxBuf usTxBufSize) ops = some s)
    (hidle : s.call = .idle) (_ucaBuf : List UInt8) :
    (_ucaBuf.length ≤ usTxBufSize.toNat → ∀ sched, Turns.Fair sched → ∃ N, ∀ n, N ≤ n →
      (Turns.trace SendSystem.turn sched (s.comSendBuf _ucaBuf) n).call = .idle ∧
        (Turns.trace SendSystem.turn sched (s.comSendBuf _ucaBuf) n).line =
          ops.flatMap SendSystem.bytesOf ++ _ucaBuf) ∧
    (usTxBufSize.toNat < _ucaBuf.length → s.Still → ∀ sched n,
      (Turns.trace SendSystem.turn sched (s.comSendBuf _ucaBuf) n).call ≠ .idle ∧
        (Turns.trace SendSystem.turn sched (s.comSendBuf _ucaBuf) n).line = s.line) := by
  have hstart : (SendSystem.start pTxBuf usTxBufSize).Sound := SendSystem.sound_start pTxBuf hpos
  have hsound := hstart.run hrun
  obtain ⟨hgiven, hsize⟩ : s.given = ops.flatMap SendSystem.bytesOf ∧
      s.tx.usTxBufSize = usTxBufSize := SendSystem.kept_run hrun
  rw [← hsize, ← hgiven]
  constructor
  · intro hfits sched hfair
    obtain ⟨t, ⟨ht, hroom⟩, hstill, N, hlast⟩ := Turns.exists_still
      (I := fun u : SendSystem => u.Sound ∧ u.Fits) (fun _ t h => ⟨h.1.turn t, h.2.turn h.1 t⟩)
      (fun _ t h => h.1.turn_work t)
      ⟨hsound.comSendBuf hidle _ucaBuf, hsound.fits_comSendBuf hidle hfits⟩ hfair
    obtain ⟨hdone, hline⟩ := hroom.delivered ht hstill
    refine ⟨N, fun n hn => ?_⟩
    have htrace := SendSystem.given_trace sched (s.comSendBuf _ucaBuf) n
    rw [hlast n hn] at htrace ⊢
    exact ⟨hdone, hline.trans htrace⟩
  · intro hlong hstill sched n
    obtain ⟨hstuck, hline⟩ := (hsound.stuck_comSendBuf hidle hstill hlong).trace sched n
    exact ⟨hstuck.call_ne, hline⟩

theorem comSendBuf_delivers_two :
    (∀ sched, Turns.Fair sched → ∃ N, ∀ n, N ≤ n →
      (Turns.trace SendSystem.turn sched
        ((SendSystem.start (fun _ => 0) 1).comSendBuf [7]) n).line = [7]) ∧
    ∀ sched n, (Turns.trace SendSystem.turn sched
      ((SendSystem.start (fun _ => 0) 1).comSendBuf [7, 9]) n).call ≠ .idle := by
  have hstill : (SendSystem.start (fun _ => 0) 1).Still := by
    intro t
    cases t <;> rfl
  have hrun : Runs.run SendSystem.step (SendSystem.start (fun _ => 0) 1) [] =
      some (SendSystem.start (fun _ => 0) 1) := rfl
  constructor
  · intro sched hfair
    obtain ⟨N, hN⟩ := (comSendBuf_delivers (fun _ => 0) (by decide) hrun rfl [7]).1
      (by decide) sched hfair
    exact ⟨N, fun n hn => (hN n hn).2⟩
  · intro sched n
    exact ((comSendBuf_delivers (fun _ => 0) (by decide) hrun rfl [7, 9]).2
      (by decide) hstill sched n).1

end YckjAcu
