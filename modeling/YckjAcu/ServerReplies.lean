import YckjAcu.LedOps

/-!
# Server replies and collected events

`WriteRFIDData` rewrites the status byte of a row.  A normal card reply and an
error heartbeat mask it, a normal heartbeat overwrites it: only the latter can
take an event out of its row before it is forwarded.
-/

namespace YckjAcu

open Writes

/-- The rows hold the same event: the same event bits, and the same bytes after
the status byte. -/
structure SameEvent (r r' : Row) : Prop where
  bits : r'.get 0 &&& (0x03 : UInt8) = r.get 0 &&& (0x03 : UInt8)
  bytes : ∀ i : Fin 14, i ≠ 0 → r'.get i = r.get i

namespace SameEvent

variable {r r' r'' : Row}

theorem refl (r : Row) : SameEvent r r := ⟨rfl, fun _ _ => rfl⟩

theorem trans (h : SameEvent r r') (h' : SameEvent r' r'') : SameEvent r r'' := by
  refine ⟨h'.bits.trans h.bits, ?_⟩
  intro i hi
  exact (h'.bytes i hi).trans (h.bytes i hi)

theorem pending_iff (h : SameEvent r r') : r'.Pending ↔ r.Pending := by
  rw [Row.Pending, Row.Pending, h.bits]

theorem eventWrites_eq (h : SameEvent r r') (n : ℕ) : eventWrites n r' = eventWrites n r := by
  have hbytes : ∀ i : Fin 14, i ≠ 0 → r'.get i = r.get i := h.bytes
  simp [eventWrites, h.bits, hbytes]

/-- A new status byte keeps the event exactly when it keeps the event bits. -/
theorem setIfInBounds_iff (r : Row) (status : UInt8) :
    SameEvent r (r.setIfInBounds 0 status) ↔
      status &&& (0x03 : UInt8) = r.get 0 &&& (0x03 : UInt8) := by
  constructor
  · intro h
    simpa using h.bits
  · intro h
    refine ⟨by simpa using h, ?_⟩
    intro i hi
    apply Buffers.get_setIfInBounds_of_ne
    exact fun h0 => hi (Fin.ext h0.symm)

end SameEvent

/-- If the part answers a message of the server, all rows keep their events. -/
def LeavesEvents (s : LedState) (op : LedOp) : Prop :=
  ∀ m, op = .answer (some m) → ∀ t, op.step s = some t → ∀ n, SameEvent (s.row n) (t.row n)

/-- The part does not answer a normal heartbeat for a reader whose event still
has to be forwarded. -/
def KeepsEvents (s : LedState) : LedOp → Prop
  | .answer (some m) => m.get 0 = 0xCC → ¬ (s.row (m.get 7).toNat).Pending
  | _ => True

instance (s : LedState) : (op : LedOp) → Decidable (KeepsEvents s op)
  | .answer (some _) => inferInstanceAs (Decidable (_ → _))
  | .answer none | .receive _ | .broadcastCost | .broadcastKey _ _ | .poll _ _ _ | .forward _ _
  | .advance | .broadcastTimer => inferInstanceAs (Decidable True)

/-- The part polls row `n` or forwards it. -/
def LedOp.Uses (n : ℕ) : LedOp → Prop
  | .poll no _ _ => no = n
  | .forward n' _ => n' = n
  | _ => False

theorem answerServer_sameEvent {m : Vector UInt8 11} {s t : LedState}
    (h : s.answerServer (some m) = some t) (n : ℕ) :
    SameEvent (s.row n) (t.row n) ↔
      (m.get 0 = 0xCC → (m.get 7).toNat = n → ¬ (s.row n).Pending) := by
  obtain ⟨bus, hbus, rfl⟩ := Option.map_eq_some_iff.mp h
  obtain ⟨status, hrow, hstatus⟩ := writeRFIDData_row hbus n
  have hrow' : ({ s with bus := bus } : LedState).row n = (s.row n).setIfInBounds 0 status := hrow
  rw [hrow', SameEvent.setIfInBounds_iff]
  by_cases hw : m.get 0 = 0xCC ∧ (m.get 7).toNat = n
  · rw [if_pos hw] at hstatus
    rw [hstatus, eq_comm]
    constructor
    · intro hzero _ _ hp
      exact hp hzero
    · intro hidle
      exact not_not.mp (hidle hw.1 hw.2)
  · rw [if_neg hw] at hstatus
    constructor
    · intro _ h0 h7
      exact absurd ⟨h0, h7⟩ hw
    · intro _
      exact hstatus

theorem leavesEvents_iff {s t : LedState} {op : LedOp} (h : op.step s = some t) :
    LeavesEvents s op ↔ KeepsEvents s op := by
  have hother : (∀ m, op ≠ .answer (some m)) → LeavesEvents s op := by
    intro hne m hm
    exact absurd hm (hne m)
  cases op with
  | answer server =>
      cases server with
      | none => exact iff_of_true (hother (by simp)) trivial
      | some m =>
          have hrows := answerServer_sameEvent (m := m) (s := s) (t := t) h
          constructor
          · intro hleaves h0
            exact (hrows _).mp (hleaves m rfl t h _) h0 rfl
          · intro hkeeps m' hm' t' ht' n
            cases hm'
            obtain rfl := Option.some.inj (h.symm.trans ht')
            refine (hrows n).mpr ?_
            rintro h0 rfl
            exact hkeeps h0
  | receive | broadcastCost | broadcastKey | poll | forward | advance | broadcastTimer =>
      exact iff_of_true (hother (by simp)) trivial

theorem sameEvent_of_not_uses {s t : LedState} {op : LedOp} {n : ℕ} (h : op.step s = some t)
    (hkeeps : KeepsEvents s op) (huses : ¬ op.Uses n) : SameEvent (s.row n) (t.row n) := by
  have hrefl : t.row n = s.row n → SameEvent (s.row n) (t.row n) := by
    intro heq
    rw [heq]
    exact SameEvent.refl _
  cases op with
  | answer server =>
      cases server with
      | none =>
          cases h
          exact hrefl rfl
      | some m =>
          refine (answerServer_sameEvent (m := m) h n).mpr ?_
          rintro h0 rfl
          exact hkeeps h0
  | receive rx =>
      cases h
      exact hrefl rfl
  | broadcastCost =>
      cases h
      exact hrefl (congrFun (LedState.sameScan_broadcastCost s).table n)
  | broadcastKey key crc =>
      cases h
      exact hrefl (congrFun (LedState.sameScan_broadcastKey key crc s).table n)
  | poll no tempBuff uBuff =>
      obtain ⟨bus, hbus, rfl⟩ := Option.map_eq_some_iff.mp h
      have hne : n ≠ no := fun heq => huses heq.symm
      exact hrefl (readRunningData_of_ne hbus hne)
  | forward n' postOk =>
      cases h
      have hne : n ≠ n' := fun heq => huses heq.symm
      exact hrefl ((forwardEffect postOk { s with vars.ledTaskCount := n' }).others n hne)
  | advance =>
      cases h
      refine hrefl ?_
      unfold LedState.advance
      split_ifs <;> rfl
  | broadcastTimer =>
      cases h
      exact hrefl (congrFun (LedState.sameScan_broadcastTimer s).table n)

/-! ### Runs -/

/-- No message of the server changes the event of a row, and an event that is
pending in a row is what the next forwarding of the row posts. -/
structure ServerSparesEvents (s : LedState) (ops : List LedOp) : Prop where
  unchanged : Runs.AllSteps LedOp.step LeavesEvents s ops
  forwarded : ∀ before between after n t u, ops = before ++ (between ++ .forward n true :: after) →
    Runs.run LedOp.step s before = some t → Runs.run LedOp.step t between = some u →
    (t.row n).Pending → (∀ op ∈ between, ¬ op.Uses n) →
    ∃ buf, (u.forwardRow n true).posted =
      u.posted ++ [applyWrites (eventWrites n (t.row n)) buf]

theorem sameEvent_run {s t : LedState} {ops : List LedOp} {n : ℕ}
    (h : Runs.run LedOp.step s ops = some t) (hkeeps : Runs.AllSteps LedOp.step KeepsEvents s ops)
    (huses : ∀ op ∈ ops, ¬ op.Uses n) : SameEvent (s.row n) (t.row n) := by
  induction ops generalizing s with
  | nil =>
      cases h
      exact SameEvent.refl _
  | cons op ops ih =>
      obtain ⟨u, hu, hrest⟩ := Runs.run_cons_eq_some.mp h
      have hstep := sameEvent_of_not_uses hu hkeeps.1 (huses op List.mem_cons_self)
      refine hstep.trans (ih hrest (hkeeps.2 u hu) ?_)
      intro op' hop'
      exact huses op' (List.mem_cons_of_mem _ hop')

/-- In any run of the parts of the loop the server spares the events exactly
when no normal heartbeat is answered for a reader with an event pending. -/
theorem serverSparesEvents_iff {s u : LedState} {ops : List LedOp}
    (hrun : Runs.run LedOp.step s ops = some u) :
    ServerSparesEvents s ops ↔ Runs.AllSteps LedOp.step KeepsEvents s ops := by
  have hiff := Runs.allSteps_congr (fun _ _ _ hstep => leavesEvents_iff hstep) hrun
  constructor
  · intro h
    exact hiff.mp h.unchanged
  · intro h
    refine ⟨hiff.mpr h, ?_⟩
    rintro before between after n t v rfl ht hv hp huses
    have hafter := ((Runs.allSteps_append ht).mp h).2
    have hbetween := ((Runs.allSteps_append hv).mp hafter).1
    have hsame := sameEvent_run hv hbetween huses
    have hfwd := (forwardEffect true { v with vars.ledTaskCount := n }).posted rfl
    obtain ⟨buf, hposted⟩ := hfwd.pending (hsame.pending_iff.mpr hp)
    refine ⟨buf, hposted.trans ?_⟩
    show v.posted ++ [applyWrites (eventWrites n (v.row n)) buf] = _
    rw [hsame.eventWrites_eq]

def oneReaderStart : LedState :=
  ledStart (fun _ _ => 1) oneReader 5 29 (Vector.replicate 16 0)

theorem serverSparesEvents_iff_oneReader : ∃ u,
    Runs.run LedOp.step oneReaderStart (iterationOps (insertedCardInput 1) 0) = some u ∧
      (ServerSparesEvents oneReaderStart (iterationOps (insertedCardInput 1) 0) ↔
        Runs.AllSteps LedOp.step KeepsEvents oneReaderStart
          (iterationOps (insertedCardInput 1) 0)) := by
  have hdef :
      (Runs.run LedOp.step oneReaderStart (iterationOps (insertedCardInput 1) 0)).isSome := by
    decide +kernel
  obtain ⟨u, hu⟩ := Option.isSome_iff_exists.mp hdef
  exact ⟨u, hu, serverSparesEvents_iff hu⟩

/-- A card is inserted at reader 1, and a normal heartbeat for it is answered in
the same iteration. -/
def repliedInput : LedInput :=
  { insertedCardInput 1 with server := some #v[0xCC, 1, 2, 3, 4, 5, 29, 1, 0, 0, 0] }

/-- The event is acknowledged and then lost: the next iteration, which should
forward row 1, posts nothing for the reader. -/
theorem heartbeat_wipes_event :
    ¬ ServerSparesEvents oneReaderStart (iterationOps repliedInput 0) ∧
      (Runs.run ledIteration oneReaderStart [repliedInput, silentLedInput]).map
        (fun u => (acks 1 u.bus.can.tx, posts 1 u.posted)) = some (1, 0) := by
  constructor
  · intro h
    have hdef : (Runs.run LedOp.step oneReaderStart (iterationOps repliedInput 0)).isSome := by
      decide +kernel
    obtain ⟨u, hu⟩ := Option.isSome_iff_exists.mp hdef
    have hkeeps :=
      (Runs.allSteps_congr (fun _ _ _ hstep => leavesEvents_iff hstep) hu).mp h.unchanged
    have hnot : ¬ Runs.AllSteps LedOp.step KeepsEvents oneReaderStart
        (iterationOps repliedInput 0) := by
      decide +kernel
    exact hnot hkeeps
  · decide +kernel

end YckjAcu
