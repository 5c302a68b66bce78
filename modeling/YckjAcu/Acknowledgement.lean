import YckjAcu.Collection
import YckjAcu.Polling
import YckjAcu.ServerReplies

/-!
# What is acknowledged

`ReadRunningData` acknowledges an event with the card number from its buffer and
a kind byte from the event bits of the row.  The kind byte is written only when
exactly one of the two bits is set.
-/

namespace YckjAcu

/-- Every acknowledgement that a call for reader `no` sends is for a first half
received during the call, whatever the local arrays held before. -/
def AcksFaithfully (no : ℕ) (s : PowerBus) : Prop :=
  ∀ tempBuff uBuff t, readRunningData no tempBuff uBuff s = some t →
    ∀ fs, t.can.tx = s.can.tx ++ fs → ∀ f ∈ fs, f.data.get 0 = 0x07 →
      ∃ (ev : CardEvent) (m1 : CanRxMsg) (c : List (Option CanRxMsg)),
        s.can.rx = c ++ t.can.rx ∧ m1 ∈ c.reduceOption ∧ ev.IsPart1 (UInt8.ofNat no) m1 ∧
        f = canTxMsg #v[0x07, UInt8.ofNat no, ev.card.get 0, ev.card.get 1, ev.card.get 2,
          ev.card.get 3, ev.kind.ack, 0]

/-- The event bits of a row leave room for an event of the kind. -/
def Row.Admits (r : Row) (kind : EventKind) : Prop :=
  r.get 0 &&& 0x03 = 0 ∨ r.get 0 &&& 0x03 = kind.bit

/-- What the polls collect has a first half, of a kind that the row admits. -/
def CollectsAdmitted (no : ℕ) (s : PowerBus) : Prop :=
  (s.g_RUNDate no).InUse → ∀ first second rest,
    Collects (UInt8.ofNat no) s.can.rx first second rest →
      ∃ kind m1, first = some (kind, m1) ∧ (dropUnnumbered no s.g_RUNDate no).Admits kind

theorem status_bit_iff (kind : EventKind) (status : UInt8) :
    (status &&& 0x03 = 0 ∨ status &&& 0x03 = kind.bit) ↔
      (status ||| kind.bit) &&& 0x03 = kind.bit := by
  cases kind <;> revert status <;> decide +kernel

theorem status_bit_cases (kind : EventKind) (status : UInt8) :
    (status ||| kind.bit) &&& 0x03 = kind.bit ∨
      (status ||| kind.bit) &&& 0x03 ≠ 0x01 ∧ (status ||| kind.bit) &&& 0x03 ≠ 0x02 := by
  cases kind <;> revert status <;> decide +kernel

/-! ### One call -/

/-- The frame that acknowledges what is in `tempBuff`. -/
def ackFrame (no : ℕ) (tempBuff : Vector UInt8 10) (uBuff : Vector UInt8 8) (r : Row) : CanTxMsg :=
  canTxMsg (packageSendBuf 0x06 (ackBuff no tempBuff uBuff r))

theorem poll_tx {no : ℕ} {tempBuff : Vector UInt8 10} {can : CanBus}
    {answer : UInt8 × Vector UInt8 10 × CanBus} (h : pollTwice no tempBuff can = some answer) :
    ∃ polls, answer.2.2.tx = can.tx ++ polls ∧ ∀ f ∈ polls, f.data.get 0 ≠ 0x07 := by
  obtain ⟨-, k, htx⟩ := pollTwice_cases h
  refine ⟨_, htx, fun f hf => ?_⟩
  rw [List.eq_of_mem_replicate hf]
  simp [canTxMsg]

/-- A call sends an acknowledgement only for an event it collects, and then the
one of the row it has stored. -/
theorem readRunningData_ack {no : ℕ} {tempBuff : Vector UInt8 10} {uBuff : Vector UInt8 8}
    {s t : PowerBus} (h : readRunningData no tempBuff uBuff s = some t) {fs : List CanTxMsg}
    (hfs : t.can.tx = s.can.tx ++ fs) {f : CanTxMsg} (hf : f ∈ fs) (h7 : f.data.get 0 = 0x07) :
    (s.g_RUNDate no).InUse ∧ ∃ first second,
      Collects (UInt8.ofNat no) s.can.rx first second t.can.rx ∧
      f = ackFrame no (fillHalves first second tempBuff) uBuff
        (eventRow (fillHalves first second tempBuff) (dropUnnumbered no s.g_RUNDate no)) := by
  rcases readRunningData_cases h with ⟨-, rfl⟩ | ⟨huse, answer, hpoll, rfl⟩
  · obtain rfl : fs = [] := by simpa using hfs
    exact absurd hf List.not_mem_nil
  · obtain ⟨polls, htx, hno⟩ := poll_tx hpoll
    obtain ⟨hret, -⟩ := pollTwice_cases hpoll
    obtain ⟨ret, temp, can⟩ := answer
    dsimp only at htx hret
    rcases hret with rfl | rfl | rfl
    · have hsent : can.tx = s.can.tx ++ fs := hfs
      rw [htx, List.append_cancel_left_eq] at hsent
      exact absurd h7 (hno f (hsent ▸ hf))
    · have hsent : can.tx = s.can.tx ++ fs := hfs
      rw [htx, List.append_cancel_left_eq] at hsent
      exact absurd h7 (hno f (hsent ▸ hf))
    · obtain ⟨first, second, hcollects, rfl⟩ := collects_of_pollTwice hpoll
      refine ⟨huse, first, second, hcollects, ?_⟩
      have hsent : can.tx ++ [ackFrame no (fillHalves first second tempBuff) uBuff
          (eventRow (fillHalves first second tempBuff) (dropUnnumbered no s.g_RUNDate no))] =
          s.can.tx ++ fs := hfs
      rw [htx, List.append_assoc, List.append_cancel_left_eq] at hsent
      rw [← hsent] at hf
      rcases List.mem_append.mp hf with hf | hf
      · exact absurd h7 (hno f hf)
      · exact List.mem_singleton.mp hf

theorem ack_of_collects {no : ℕ} {s : PowerBus} {first : Option (EventKind × CanRxMsg)}
    {second : EventKind × CanRxMsg} {rest : List (Option CanRxMsg)}
    (huse : (s.g_RUNDate no).InUse)
    (h : Collects (UInt8.ofNat no) s.can.rx first second rest) (tempBuff : Vector UInt8 10)
    (uBuff : Vector UInt8 8) : ∃ t fs, readRunningData no tempBuff uBuff s = some t ∧
      t.can.rx = rest ∧ t.can.tx = s.can.tx ++ fs ∧
      ackFrame no (fillHalves first second tempBuff) uBuff
        (eventRow (fillHalves first second tempBuff) (dropUnnumbered no s.g_RUNDate no)) ∈ fs := by
  obtain ⟨tx, hpoll⟩ := pollTwice_of_collects s.can tempBuff h
  obtain ⟨polls, htx, -⟩ := poll_tx hpoll
  dsimp only at htx
  refine ⟨_, polls ++ [_], readRunningData_of_poll huse hpoll uBuff, rfl, ?_,
    List.mem_append_right polls (List.mem_singleton_self _)⟩
  rw [← List.append_assoc, ← htx]
  rfl

instance (r : Row) (kind : EventKind) : Decidable (r.Admits kind) :=
  inferInstanceAs (Decidable (_ ∨ _))

theorem ackFrame_collected (no : ℕ) (ev : CardEvent) (uBuff : Vector UInt8 8) (r : Row) :
    ackFrame no ev.collected uBuff (ev.enter r) =
      canTxMsg #v[0x07, UInt8.ofNat no, ev.card.get 0, ev.card.get 1, ev.card.get 2,
        ev.card.get 3, if r.Admits ev.kind then ev.kind.ack else uBuff.get 5, 0] := by
  have hkind : (if (ev.enter r).get 0 &&& 0x03 = 0x01 then (0xAA : UInt8)
      else if (ev.enter r).get 0 &&& 0x03 = 0x02 then 0x55 else uBuff.get 5) =
      if r.Admits ev.kind then ev.kind.ack else uBuff.get 5 := by
    have hstatus : (ev.enter r).get 0 = r.get 0 ||| ev.kind.bit := rfl
    rw [hstatus]
    by_cases hadmits : r.Admits ev.kind
    · rw [if_pos hadmits, (status_bit_iff ev.kind (r.get 0)).mp hadmits]
      cases ev.kind <;> rfl
    · rcases status_bit_cases ev.kind (r.get 0) with hbit | ⟨h1, h2⟩
      · exact absurd ((status_bit_iff ev.kind (r.get 0)).mpr hbit) hadmits
      · rw [if_neg h1, if_neg h2, if_neg hadmits]
  rw [← hkind]
  rfl

theorem canTxMsg_injective {v w : Vector UInt8 8} (h : canTxMsg v = canTxMsg w) : v = w :=
  congrArg CanTxMsg.data h

/-- A call acknowledges faithfully exactly when what its polls collect has a first
half that the row admits. -/
theorem acksFaithfully_iff (no : ℕ) (s : PowerBus) :
    AcksFaithfully no s ↔ CollectsAdmitted no s := by
  constructor
  · intro hall huse first second rest hcollects
    -- a kind byte of 0 on the stack is none of the two that may be sent
    obtain ⟨t, fs, hread, rfl, hfs, hmem⟩ :=
      ack_of_collects huse hcollects (Vector.replicate 10 0) (Vector.replicate 8 0)
    obtain ⟨ev, m1, c, hrx, hm1, h1, hframe⟩ := hall _ _ t hread fs hfs _ hmem rfl
    obtain ⟨c', hrx', hhalves⟩ := hcollects.halves
    rw [hrx'] at hrx
    obtain rfl := List.append_cancel_right hrx
    have hm1' : m1 ∈ framesOf (UInt8.ofNat no) c' :=
      List.mem_filter.mpr ⟨hm1, by simpa using h1.answers.1⟩
    cases first with
    | none => exact absurd h1.answers.2 (hhalves.none rfl m1 hm1' ev.kind)
    | some half =>
        obtain ⟨kind, m1'⟩ := half
        refine ⟨kind, m1', rfl, ?_⟩
        by_contra hadmits
        have hkind : (CardEvent.ofHalves kind m1' second.2).kind = kind := rfl
        rw [CardEvent.fillHalves_eq _ second.1 _ second.2, CardEvent.eventRow_collected,
          ackFrame_collected, hkind, if_neg hadmits] at hframe
        have hack : (0x00 : UInt8) = ev.kind.ack :=
          congrArg (fun v : Vector UInt8 8 => v.get 6) (canTxMsg_injective hframe)
        cases hev : ev.kind <;> rw [hev] at hack <;> cases hack
  · intro hall tempBuff uBuff t hread fs hfs f hf h7
    obtain ⟨huse, first, ⟨kind', m2⟩, hcollects, rfl⟩ := readRunningData_ack hread hfs hf h7
    obtain ⟨kind, m1, rfl, hadmits⟩ := hall huse _ _ _ hcollects
    obtain ⟨c, hrx, hhalves⟩ := hcollects.halves
    obtain ⟨h1, hsub⟩ := hhalves.part1 _ rfl
    have hm1 : m1 ∈ framesOf (UInt8.ofNat no) c := hsub.subset (by simp)
    obtain ⟨hdlc, hn⟩ := answers_of_mem_framesOf hm1
    refine ⟨.ofHalves kind m1 m2, m1, c, hrx, (List.mem_filter.mp hm1).1,
      CardEvent.isPart1_ofHalves m2 hdlc h1 hn, ?_⟩
    have hkind : (CardEvent.ofHalves kind m1 m2).kind = kind := rfl
    rw [CardEvent.fillHalves_eq, CardEvent.eventRow_collected, ackFrame_collected, hkind,
      if_pos hadmits]

/-! ### Runs of the main loop -/

/-- The call of `ReadRunningData` in the iteration, if there is one, acknowledges
faithfully. -/
def AckStep (s : LedState) (a : LedInput) : Prop :=
  s.vars.ledTaskCount < busnumSize → AcksFaithfully (s.vars.ledTaskCount + 1) (s.atPoll a).bus

/-- What its polls collect has a first half, at reader 80 of a kind that the row
admits. -/
def CollectsStep (s : LedState) (a : LedInput) : Prop :=
  s.vars.ledTaskCount < busnumSize → (s.row (s.vars.ledTaskCount + 1)).InUse →
    ∀ first second rest,
      Collects (UInt8.ofNat (s.vars.ledTaskCount + 1)) (s.bus.can.rx ++ a.rx) first second rest →
      ∃ kind m1, first = some (kind, m1) ∧
        (s.vars.ledTaskCount + 1 = 80 → (dropUnnumbered 80 s.bus.g_RUNDate 80).Admits kind)

theorem admits_of_idle {no : ℕ} {t : RunTable} (h : ¬ (t no).Pending) (kind : EventKind) :
    (dropUnnumbered no t no).Admits kind :=
  Or.inl (not_not.mp fun hp => h ((pending_dropUnnumbered no t).mp hp).1)

theorem ackStep_iff {s : LedState} (hidle : RowsIdle s) (a : LedInput) :
    AckStep s a ↔ CollectsStep s a := by
  have htable := (LedState.sameScan_atPoll a s).table
  apply imp_congr_right
  intro hlt
  have hlt' : s.vars.ledTaskCount < 80 := hlt
  rw [acksFaithfully_iff, CollectsAdmitted, atPoll_rx, htable]
  refine imp_congr_right fun _ => forall_congr' fun first => forall_congr' fun second =>
    forall_congr' fun rest => imp_congr_right fun _ => exists_congr fun kind =>
    exists_congr fun m1 => and_congr_right fun _ => ?_
  by_cases h80 : s.vars.ledTaskCount + 1 = 80
  · rw [h80]
    exact ⟨fun h _ => h, fun h => h rfl⟩
  · have hrow := hidle (s.vars.ledTaskCount + 1) (by omega) (by omega) (by omega)
    exact iff_of_true (admits_of_idle hrow kind) fun h => absurd h h80

theorem pending_answerServer {a : LedInput} {s t : LedState}
    (h : s.answerServer a.server = some t) {n : ℕ} (hn : ¬ (s.row n).Pending) :
    ¬ (t.row n).Pending := by
  cases hserver : a.server with
  | none =>
      rw [hserver] at h
      cases h
      exact hn
  | some m =>
      rw [hserver] at h
      obtain ⟨bus, hbus, rfl⟩ := Option.map_eq_some_iff.mp h
      obtain ⟨status, hrow, hstatus⟩ := writeRFIDData_row hbus n
      have hrow' : ({ s with bus := bus } : LedState).row n =
          (s.row n).setIfInBounds 0 status := hrow
      rw [hrow', Row.Pending, Buffers.get_zero_setIfInBounds_zero, hstatus, not_not]
      split_ifs
      · rfl
      · exact not_not.mp hn

/-- The invariant of the scan also with messages of the server. -/
theorem rowsIdle_ledIteration {a : LedInput} {s t : LedState} (hs : RowsIdle s)
    (h : ledIteration a s = some t) : RowsIdle t := by
  obtain ⟨u, v, hu, hv, hrows, -, hcount⟩ := ledIteration_parts h
  have hsame := LedState.sameScan_atPoll a s
  have hrow : ∀ n, (s.atPoll a).row n = s.row n := fun n => congrFun hsame.table n
  intro n h1 h79 hne
  rw [hrows]
  apply pending_answerServer hv
  rw [LedState.pollScan, hsame.count] at hu
  split_ifs at hu with hlt
  · obtain ⟨bus, hbus, rfl⟩ := Option.map_eq_some_iff.mp hu
    have hfwd := forwardEffect a.postOk { s.atPoll a with bus := bus }
    rw [hfwd.vars, hsame.count, LedState.nextCount] at hcount
    by_cases hn : n = (s.atPoll a).vars.ledTaskCount
    · rw [hn]
      exact hfwd.cleared
    · rw [hfwd.others n hn]
      rw [hsame.count] at hn
      have hlt' : s.vars.ledTaskCount < 80 := hlt
      rw [if_neg (by omega)] at hcount
      have hbusrow : bus.g_RUNDate n = s.row n :=
        (readRunningData_of_ne hbus (by omega)).trans (hrow n)
      show ¬ Row.Pending (bus.g_RUNDate n)
      rw [hbusrow]
      exact hs n h1 h79 hn
  · cases hu
    have hge : 80 ≤ s.vars.ledTaskCount := Nat.le_of_not_lt hlt
    rw [hrow]
    exact hs n h1 h79 (by omega)

/-- Along every run from power-up the acknowledgements are faithful exactly when
every iteration collects whole events, at reader 80 of a kind its row admits. -/
theorem acks_faithful_run_iff (hs : Handshakes) (e : Eeprom) (g_WaterCost g_CostNum : UInt8)
    (g_SendDate : Vector UInt8 16) {as : List LedInput} {u : LedState}
    (hrun : Runs.run ledIteration (ledStart hs e g_WaterCost g_CostNum g_SendDate) as = some u) :
    Runs.AllSteps ledIteration AckStep (ledStart hs e g_WaterCost g_CostNum g_SendDate) as ↔
      Runs.AllSteps ledIteration CollectsStep
        (ledStart hs e g_WaterCost g_CostNum g_SendDate) as :=
  Runs.allSteps_congr_of_invariant (I := RowsIdle)
    (fun _ _ _ hidle h => rowsIdle_ledIteration hidle h)
    (fun _ a _ hidle _ => ackStep_iff hidle a)
    (rowsIdle_ledStart hs e g_WaterCost g_CostNum g_SendDate) hrun

/-- An iteration in which a lone second half arrives from reader 1. -/
def lonePart2Input : LedInput :=
  ⟨lonePart2, Vector.replicate 7 0, 0, Vector.replicate 10 0, Vector.replicate 8 0, true, none⟩

theorem acks_faithful_run_iff_oneReader : ∃ u,
    Runs.run ledIteration oneReaderStart [lonePart2Input] = some u ∧
      (Runs.AllSteps ledIteration AckStep oneReaderStart [lonePart2Input] ↔
        Runs.AllSteps ledIteration CollectsStep oneReaderStart [lonePart2Input]) := by
  have hdef : (Runs.run ledIteration oneReaderStart [lonePart2Input]).isSome := by decide +kernel
  obtain ⟨u, hu⟩ := Option.isSome_iff_exists.mp hdef
  exact ⟨u, hu, acks_faithful_run_iff (fun _ _ => 1) oneReader 5 29 (Vector.replicate 16 0) hu⟩

/-- The first poll after power-up acknowledges a card that was never received. -/
theorem lone_part2_acknowledged :
    ¬ Runs.AllSteps ledIteration AckStep oneReaderStart [lonePart2Input] := by
  rintro ⟨hstep, -⟩
  have hall := hstep (by decide +kernel)
  have hsent : (readRunningData 1 (Vector.replicate 10 0) (Vector.replicate 8 0)
      (oneReaderStart.atPoll lonePart2Input).bus).map (fun t => t.can.tx) =
      some [canTxMsg #v[0x01, 0x01, 0, 0, 0, 0, 0, 0], canTxMsg #v[0x07, 0x01, 0, 0, 0, 0, 0, 0]] :=
    by decide +kernel
  obtain ⟨t, hread, htx⟩ := Option.map_eq_some_iff.mp hsent
  obtain ⟨ev, m1, c, hrx, hm1, h1, -⟩ := hall _ _ t hread _ htx
    (canTxMsg #v[0x07, 0x01, 0, 0, 0, 0, 0, 0]) (by simp) rfl
  have hmem : some m1 ∈ lonePart2 := by
    have hsub := List.mem_append_left t.can.rx (List.reduceOption_mem_iff.mp hm1)
    rw [← hrx] at hsub
    exact hsub
  obtain ⟨-, h0⟩ := h1.answers
  rw [Option.some.inj (List.mem_singleton.mp hmem)] at h0
  cases hev : ev.kind <;> rw [hev] at h0 <;> exact absurd h0 (by decide)

end YckjAcu
