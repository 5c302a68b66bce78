import YckjAcu.CardEvents

/-!
# The heartbeat frames

`tcp_client_thread` answers a heartbeat request with a frame about the next row
of the table.  The frame is assembled in a static buffer.  For a reader in use
all of its fields are filled; for a row that is only marked as lost nothing but
the logic address is, so the other fields are those of the frame before.
-/

namespace YckjAcu

open Writes

/-- `tcp_client_heartbeatsendbuf`. -/
abbrev HeartbeatBuf := Vector UInt8 32

/-- The buffer as it is initialised. -/
def heartbeatBuf₀ : HeartbeatBuf :=
  ⟨#[0xF3, 0x1F, 0x01, 0x31, 0x30, 0x30, 0x30, 0x30, 0x30, 0x30, 0x2D, 0x62, 0x37, 0x36, 0x31, 0x63,
    0x32, 0x62, 0x30, 0xF1, 0xF2, 0xF3, 0xF4, 0xD1, 0xD2, 0xD3, 0xD4, 0x00, 0x00, 0xAA, 0x00,
    0x00], rfl⟩

/-- The same once the address and the serial number of the controller are entered. -/
def heartbeatBuf (acuAdd : Vector UInt8 16) (acuSN : Vector UInt8 4) : HeartbeatBuf :=
  Vector.ofFn fun i =>
    if h : 3 ≤ i.val ∧ i.val < 19 then acuAdd.get ⟨i.val - 3, by omega⟩
    else if h : 19 ≤ i.val ∧ i.val < 23 then acuSN.get ⟨i.val - 19, by omega⟩
    else heartbeatBuf₀.get i

/-- The assignments for row `i` when its reader is in use.  Byte 29 is first set
to `0xAA` in any case. -/
def heartbeatWrites (i : ℕ) (r : Row) (version : UInt8) : List (Fin 32 × UInt8) :=
  [(23, r.get 1), (24, r.get 2), (25, r.get 3), (26, r.get 4), (27, 0x01), (28, version),
    (29, if r.get 0 &&& 0x20 = 0x20 then 0x00 else 0xAA), (30, UInt8.ofNat i)]

/-- `netconn_write(conn, buf, buf[1])`. -/
def sentHeartbeat (buf : HeartbeatBuf) : List UInt8 := buf.toList.take (buf.get 1).toNat

structure HeartbeatSender where
  iSendCount : ℕ
  buf : HeartbeatBuf

def nextSendCount (iSendCount : ℕ) : ℕ := if iSendCount ≥ busnumSize then 1 else iSendCount + 1

/-- The block for a heartbeat request: the sender and `SendRecvCount` after it, and
the frame that it hands to `netconn_write`, if any. -/
def sendHeartbeat (g_RUNDate : RunTable) (kjVersions : ℕ → UInt8) (s : HeartbeatSender)
    (sendRecvCount : UInt8) : HeartbeatSender × UInt8 × Option (List UInt8) :=
  let i := nextSendCount s.iSendCount
  let r := g_RUNDate i
  if r.get 0 &&& 0xC0 ≠ 0x00 then
    let buf := applyWrites (heartbeatWrites i r (kjVersions i)) s.buf
    (⟨i, buf⟩, if sendRecvCount < 200 then sendRecvCount + 1 else sendRecvCount,
      some (sentHeartbeat buf))
  else if r.get 0 &&& 0x20 = 0x20 then
    let buf := applyWrites [(30, UInt8.ofNat i)] s.buf
    (⟨i, buf⟩, sendRecvCount, some (sentHeartbeat buf))
  else (⟨i, s.buf⟩, sendRecvCount, none)

/-! ### What a frame says -/

/-- The frame is about one reader `b`, with the data of the tables at this moment. -/
structure DescribesReader (g_RUNDate : RunTable) (kjVersions : ℕ → UInt8)
    (acuAdd : Vector UInt8 16) (acuSN : Vector UInt8 4) (frame : List UInt8) (b : ℕ) : Prop where
  length : frame.length = 31
  address : frame[30]? = some (UInt8.ofNat b)
  serial : ∀ k : Fin 4, frame[23 + k.val]? = some ((g_RUNDate b).serial.get k)
  version : frame[28]? = some (kjVersions b)
  status : frame[29]? = some (if (g_RUNDate b).get 0 &&& 0x20 = 0x20 then 0x00 else 0xAA)
  acuAdd : ∀ k : Fin 16, frame[3 + k.val]? = some (acuAdd.get k)
  acuSN : ∀ k : Fin 4, frame[19 + k.val]? = some (acuSN.get k)

/-- The fields that are never assigned again. -/
structure BufOfACU (acuAdd : Vector UInt8 16) (acuSN : Vector UInt8 4) (buf : HeartbeatBuf) :
    Prop where
  size : buf.get 1 = 0x1F
  acuAdd : ∀ k : Fin 16, buf[3 + k.val]? = some (acuAdd.get k)
  acuSN : ∀ k : Fin 4, buf[19 + k.val]? = some (acuSN.get k)

/-- The fields of reader `b`, apart from its address, are in the buffer. -/
structure HoldsReader (g_RUNDate : RunTable) (kjVersions : ℕ → UInt8) (buf : HeartbeatBuf)
    (b : ℕ) : Prop where
  serial : ∀ k : Fin 4, buf[23 + k.val]? = some ((g_RUNDate b).serial.get k)
  version : buf[28]? = some (kjVersions b)
  status : buf[29]? = some (if (g_RUNDate b).get 0 &&& 0x20 = 0x20 then 0x00 else 0xAA)

section Frame

variable {t : RunTable} {kjVersions : ℕ → UInt8} {acuAdd : Vector UInt8 16}
  {acuSN : Vector UInt8 4} {buf : HeartbeatBuf} {b : ℕ}

theorem sentHeartbeat_getElem? (h : buf.get 1 = 0x1F) {k : ℕ} (hk : k < 31) :
    (sentHeartbeat buf)[k]? = buf[k]? := by
  have hlen : k < (buf.get 1).toNat := by
    rw [h]
    exact hk
  rw [sentHeartbeat, List.getElem?_take_of_lt hlen, Vector.getElem?_toList]

theorem describesReader_iff (h : BufOfACU acuAdd acuSN buf) :
    DescribesReader t kjVersions acuAdd acuSN (sentHeartbeat buf) b ↔
      buf[30]? = some (UInt8.ofNat b) ∧ HoldsReader t kjVersions buf b := by
  have hread := fun {k : ℕ} (hk : k < 31) => sentHeartbeat_getElem? h.size hk
  constructor
  · intro hd
    refine ⟨?_, ?_, ?_, ?_⟩
    · rw [← hread (by omega)]
      exact hd.address
    · intro k
      rw [← hread (by omega)]
      exact hd.serial k
    · rw [← hread (by omega)]
      exact hd.version
    · rw [← hread (by omega)]
      exact hd.status
  · rintro ⟨haddr, hholds⟩
    refine ⟨?_, ?_, ?_, ?_, ?_, ?_, ?_⟩
    · simp [sentHeartbeat, h.size]
    · rw [hread (by omega)]
      exact haddr
    · intro k
      rw [hread (by omega)]
      exact hholds.serial k
    · rw [hread (by omega)]
      exact hholds.version
    · rw [hread (by omega)]
      exact hholds.status
    · intro k
      rw [hread (by omega)]
      exact h.acuAdd k
    · intro k
      rw [hread (by omega)]
      exact h.acuSN k

theorem applyWrites_getElem?_of_not_mem {ws : List (Fin 32 × UInt8)} {k : ℕ} (hk : k < 32)
    (h : ⟨k, hk⟩ ∉ ws.map Prod.fst) : (applyWrites ws buf)[k]? = buf[k]? := by
  rw [Vector.getElem?_eq_getElem hk, Vector.getElem?_eq_getElem hk,
    getElem_applyWrites_of_not_mem hk h]

/-- Assignments from byte 23 on leave the fields of the controller alone. -/
theorem BufOfACU.applyWrites (h : BufOfACU acuAdd acuSN buf) (ws : List (Fin 32 × UInt8))
    (hws : ∀ w ∈ ws, 23 ≤ w.1.val) : BufOfACU acuAdd acuSN (applyWrites ws buf) := by
  have hlow : ∀ {k : ℕ} (hk : k < 23), (⟨k, by omega⟩ : Fin 32) ∉ ws.map Prod.fst := by
    intro k hk hmem
    obtain ⟨w, hw, hwk⟩ := List.mem_map.mp hmem
    have hle := hws w hw
    rw [hwk] at hle
    exact absurd hk (Nat.not_lt.mpr hle)
  refine ⟨?_, ?_, ?_⟩
  · have hkeep := getElem_applyWrites_of_not_mem (by omega) (hlow (k := 1) (by omega)) buf
    exact hkeep.trans h.size
  · intro k
    rw [applyWrites_getElem?_of_not_mem (by omega) (hlow (by omega))]
    exact h.acuAdd k
  · intro k
    rw [applyWrites_getElem?_of_not_mem (by omega) (hlow (by omega))]
    exact h.acuSN k

theorem holdsReader_heartbeatWrites :
    (applyWrites (heartbeatWrites b (t b) (kjVersions b)) buf)[30]? = some (UInt8.ofNat b) ∧
      HoldsReader t kjVersions (applyWrites (heartbeatWrites b (t b) (kjVersions b)) buf) b := by
  have hnodup : ((heartbeatWrites b (t b) (kjVersions b)).map Prod.fst).Nodup := by
    simp [heartbeatWrites]
  have hfield : ∀ {k : ℕ} {v : UInt8} (hk : k < 32),
      (⟨k, hk⟩, v) ∈ heartbeatWrites b (t b) (kjVersions b) →
      (applyWrites (heartbeatWrites b (t b) (kjVersions b)) buf)[k]? = some v := by
    intro k v hk hv
    rw [Vector.getElem?_eq_getElem hk, getElem_applyWrites_of_mem hnodup hk hv]
  refine ⟨hfield (by omega) (by simp [heartbeatWrites]), ?_, ?_, ?_⟩
  · intro k
    apply hfield (by omega)
    fin_cases k
    all_goals simp [heartbeatWrites, Row.serial]
  · exact hfield (by omega) (by simp [heartbeatWrites])
  · exact hfield (by omega) (by simp [heartbeatWrites])

/-- The frame of a lost row keeps the other fields of the buffer. -/
theorem holdsReader_address_iff :
    HoldsReader t kjVersions (applyWrites [(30, UInt8.ofNat b)] buf) b ↔
      HoldsReader t kjVersions buf b := by
  have hkeep : ∀ {k : ℕ}, k < 30 → (applyWrites [(30, UInt8.ofNat b)] buf)[k]? = buf[k]? := by
    intro k hk
    apply applyWrites_getElem?_of_not_mem (by omega)
    simp only [List.map_cons, List.map_nil, List.mem_singleton, Fin.ext_iff]
    exact hk.ne
  constructor
  · intro h
    refine ⟨?_, ?_, ?_⟩
    · intro k
      rw [← hkeep (by omega)]
      exact h.serial k
    · rw [← hkeep (by omega)]
      exact h.version
    · rw [← hkeep (by omega)]
      exact h.status
  · intro h
    refine ⟨?_, ?_, ?_⟩
    · intro k
      rw [hkeep (by omega)]
      exact h.serial k
    · rw [hkeep (by omega)]
      exact h.version
    · rw [hkeep (by omega)]
      exact h.status

end Frame

/-! ### Runs -/

/-- The tables as `led_task` leaves them, and the sender. -/
structure HeartbeatSystem where
  led : LedState
  kjVersions : ℕ → UInt8
  sender : HeartbeatSender
  sendRecvCount : UInt8

inductive HeartbeatOp
  | led (a : LedInput)
  | request

namespace HeartbeatSystem

/-- The answer to a request in this state. -/
def answer (s : HeartbeatSystem) : HeartbeatSender × UInt8 × Option (List UInt8) :=
  sendHeartbeat s.led.bus.g_RUNDate s.kjVersions s.sender s.sendRecvCount

def step : HeartbeatOp → HeartbeatSystem → Option HeartbeatSystem
  | .led a, s => (ledIteration a s.led).map fun led => { s with led := led }
  | .request, s => some { s with sender := s.answer.1, sendRecvCount := s.answer.2.1 }

/-- The frame of the step, if it is an answer, describes a reader. -/
def SendsOne (acuAdd : Vector UInt8 16) (acuSN : Vector UInt8 4) (s : HeartbeatSystem) :
    HeartbeatOp → Prop
  | .led _ => True
  | .request => ∀ frame, s.answer.2.2 = some frame → ∃ b ∈ logicNos,
      DescribesReader s.led.bus.g_RUNDate s.kjVersions acuAdd acuSN frame b

/-- The request does not meet a row that is only marked as lost, unless the buffer
holds the fields of this row already. -/
def KeepsFields (s : HeartbeatSystem) : HeartbeatOp → Prop
  | .led _ => True
  | .request =>
      let i := nextSendCount s.sender.iSendCount
      (s.led.row i).get 0 &&& 0xC0 = 0x00 → (s.led.row i).get 0 &&& 0x20 = 0x20 →
        HoldsReader s.led.bus.g_RUNDate s.kjVersions s.sender.buf i

/-- The buffer is the controller's, and the counter is a logic address or 0. -/
structure Sound (acuAdd : Vector UInt8 16) (acuSN : Vector UInt8 4) (s : HeartbeatSystem) :
    Prop where
  buf : BufOfACU acuAdd acuSN s.sender.buf
  count : s.sender.iSendCount ≤ 80

/-- `tcp_client_thread` before its first request, beside any state of `led_task`. -/
def start (led : LedState) (kjVersions : ℕ → UInt8) (acuAdd : Vector UInt8 16)
    (acuSN : Vector UInt8 4) : HeartbeatSystem where
  led := led
  kjVersions := kjVersions
  sender := ⟨0, heartbeatBuf acuAdd acuSN⟩
  sendRecvCount := 0

variable {acuAdd : Vector UInt8 16} {acuSN : Vector UInt8 4}

theorem nextSendCount_mem {i : ℕ} (h : i ≤ 80) : nextSendCount i ∈ logicNos := by
  rw [mem_logicNos, nextSendCount, busnumSize]
  split <;> omega

theorem bufOfACU_heartbeatBuf (acuAdd : Vector UInt8 16) (acuSN : Vector UInt8 4) :
    BufOfACU acuAdd acuSN (heartbeatBuf acuAdd acuSN) := by
  refine ⟨?_, ?_, ?_⟩
  · simp [heartbeatBuf, heartbeatBuf₀]
  · intro k
    rw [Vector.getElem?_eq_getElem (by omega), heartbeatBuf, Vector.getElem_ofFn,
      dif_pos (show 3 ≤ 3 + k.val ∧ 3 + k.val < 19 by omega)]
    simp
  · intro k
    rw [Vector.getElem?_eq_getElem (by omega), heartbeatBuf, Vector.getElem_ofFn,
      dif_neg (show ¬ (3 ≤ 19 + k.val ∧ 19 + k.val < 19) by omega),
      dif_pos (show 19 ≤ 19 + k.val ∧ 19 + k.val < 23 by omega)]
    simp

theorem sound_start (led : LedState) (kjVersions : ℕ → UInt8) :
    Sound acuAdd acuSN (start led kjVersions acuAdd acuSN) :=
  ⟨bufOfACU_heartbeatBuf acuAdd acuSN, Nat.zero_le _⟩

theorem Sound.step {s t : HeartbeatSystem} {op : HeartbeatOp} (h : Sound acuAdd acuSN s)
    (hstep : HeartbeatSystem.step op s = some t) : Sound acuAdd acuSN t := by
  cases op with
  | led a =>
      obtain ⟨led, -, rfl⟩ := Option.map_eq_some_iff.mp hstep
      exact ⟨h.buf, h.count⟩
  | request =>
      cases hstep
      have hnext := (mem_logicNos.mp (nextSendCount_mem h.count)).2
      unfold answer sendHeartbeat
      dsimp only
      split_ifs
      all_goals refine ⟨?_, hnext⟩
      · exact h.buf.applyWrites _ (by simp [heartbeatWrites])
      · exact h.buf.applyWrites _ (by simp [heartbeatWrites])
      · exact h.buf.applyWrites _ (by simp)
      · exact h.buf

theorem sendsOne_request_iff {s : HeartbeatSystem} (h : Sound acuAdd acuSN s) :
    SendsOne acuAdd acuSN s .request ↔ KeepsFields s .request := by
  have hnext := nextSendCount_mem h.count
  unfold SendsOne KeepsFields answer sendHeartbeat
  dsimp only
  generalize nextSendCount s.sender.iSendCount = i at hnext ⊢
  by_cases huse : (s.led.bus.g_RUNDate i).get 0 &&& 0xC0 = 0x00
  · rw [if_neg (not_not.mpr huse)]
    by_cases hlost : (s.led.bus.g_RUNDate i).get 0 &&& 0x20 = 0x20
    · rw [if_pos hlost]
      have hbuf := h.buf.applyWrites [(30, UInt8.ofNat i)] (by simp)
      constructor
      · intro hsend _ _
        obtain ⟨b, hb, hframe⟩ := hsend _ rfl
        obtain ⟨haddr, hholds⟩ := (describesReader_iff hbuf).mp hframe
        -- the address in the frame is that of the row
        have hbi : UInt8.ofNat i = UInt8.ofNat b := by
          have hi : (applyWrites [(30, UInt8.ofNat i)] s.sender.buf)[30]? =
              some (UInt8.ofNat i) := by
            simp [applyWrites]
          exact Option.some.inj (hi.symm.trans haddr)
        have hib := (ofNat_inj_of_le (mem_logicNos.mp hnext).2 (mem_logicNos.mp hb).2).mp hbi
        subst hib
        exact holdsReader_address_iff.mp hholds
      · intro hkeep frame hframe
        cases hframe
        have haddr : (applyWrites [(30, UInt8.ofNat i)] s.sender.buf)[30]? =
            some (UInt8.ofNat i) := by
          simp [applyWrites]
        exact ⟨i, hnext, (describesReader_iff hbuf).mpr
          ⟨haddr, holdsReader_address_iff.mpr (hkeep huse hlost)⟩⟩
    · rw [if_neg hlost]
      refine iff_of_true ?_ fun _ hl => absurd hl hlost
      intro frame hframe
      cases hframe
  · rw [if_pos huse]
    refine iff_of_true ?_ fun hu => absurd hu huse
    intro frame hframe
    cases hframe
    have hbuf := h.buf.applyWrites
      (heartbeatWrites i (s.led.bus.g_RUNDate i) (s.kjVersions i)) (by simp [heartbeatWrites])
    exact ⟨i, hnext, (describesReader_iff hbuf).mpr holdsReader_heartbeatWrites⟩

/-- In any run of the loop and of heartbeat requests, beside any state of the
tables, all frames describe one reader exactly when no request meets a row that is
only marked as lost, with the fields of another one in the buffer. -/
theorem sendsOne_run_iff (led : LedState) (kjVersions : ℕ → UInt8) (acuAdd : Vector UInt8 16)
    (acuSN : Vector UInt8 4) {ops : List HeartbeatOp} {u : HeartbeatSystem}
    (hrun : Runs.run step (start led kjVersions acuAdd acuSN) ops = some u) :
    Runs.AllSteps step (SendsOne acuAdd acuSN) (start led kjVersions acuAdd acuSN) ops ↔
      Runs.AllSteps step KeepsFields (start led kjVersions acuAdd acuSN) ops := by
  refine Runs.allSteps_congr_of_invariant (I := Sound acuAdd acuSN) (fun _ _ _ hs h => hs.step h)
    ?_ (sound_start led kjVersions) hrun
  intro s op t hs _
  cases op with
  | led a => exact Iff.rfl
  | request => exact sendsOne_request_iff hs

/-! ### Two readers on a silent bus -/

/-- A memory image with the readers `01 02 03 04` at slot 1 and `00 05 06 00` at slot 2. -/
def twoReaders : Eeprom := fun a =>
  if a.val = 15 then 1 else if a.val = 16 then 1 else if a.val = 17 then 2 else if a.val = 18 then 3
  else if a.val = 19 then 4 else if a.val = 20 then 2 else if a.val = 21 then 0
  else if a.val = 22 then 5 else if a.val = 23 then 6 else if a.val = 24 then 0 else 0xFF

/-- The controller `30 .. 30` with serial number `F1 F1 F1 F1`, after the power-up
check. -/
def twoReadersStart : HeartbeatSystem :=
  start (ledStart (fun _ _ => 7) twoReaders 5 29 (Vector.replicate 16 0)) (fun _ => 7)
    (Vector.replicate 16 0x30) (Vector.replicate 4 0xF1)

/-- Both readers are polled without an answer, then two heartbeats are requested. -/
def twoReadersOps : List HeartbeatOp :=
  [.led silentInput.val, .led silentInput.val, .request, .request]

theorem sendsOne_run_iff_twoReaders : ∃ u, Runs.run step twoReadersStart twoReadersOps = some u ∧
    (Runs.AllSteps step (SendsOne (Vector.replicate 16 0x30) (Vector.replicate 4 0xF1))
      twoReadersStart twoReadersOps ↔
      Runs.AllSteps step KeepsFields twoReadersStart twoReadersOps) := by
  have hdef : (Runs.run step twoReadersStart twoReadersOps).isSome := by decide +kernel
  obtain ⟨u, hu⟩ := Option.isSome_iff_exists.mp hdef
  exact ⟨u, hu, sendsOne_run_iff _ _ _ _ hu⟩

/-- The second heartbeat names reader 2 and carries the serial number of reader 1. -/
theorem lost_heartbeat_names_other_reader :
    ¬ Runs.AllSteps step (SendsOne (Vector.replicate 16 0x30) (Vector.replicate 4 0xF1))
      twoReadersStart twoReadersOps := by
  intro h
  have hdef : (Runs.run step twoReadersStart (twoReadersOps.take 3)).isSome := by decide +kernel
  obtain ⟨u, hu⟩ := Option.isSome_iff_exists.mp hdef
  have hsplit : Runs.AllSteps step (SendsOne (Vector.replicate 16 0x30) (Vector.replicate 4 0xF1))
      twoReadersStart (twoReadersOps.take 3 ++ twoReadersOps.drop 3) := h
  have hsend := ((Runs.allSteps_append hu).mp hsplit).2.1
  have hstate : (Runs.run step twoReadersStart (twoReadersOps.take 3)).map (fun u =>
      (u.answer.2.2.map fun frame => (frame[30]?, frame[24]?), (u.led.row 2).get 2)) =
      some (some (some 2, some 2), 5) := by
    decide +kernel
  rw [hu, Option.map_some, Option.some.injEq] at hstate
  have hbytes : u.answer.2.2.map (fun frame => (frame[30]?, frame[24]?)) = some (some 2, some 2) :=
    congrArg (fun x => x.1) hstate
  have hrow : (u.led.row 2).get 2 = 5 := congrArg (fun x => x.2) hstate
  obtain ⟨frame, hframe, hread⟩ := Option.map_eq_some_iff.mp hbytes
  obtain ⟨b, hb, hd⟩ := hsend frame hframe
  have haddr : UInt8.ofNat 2 = UInt8.ofNat b :=
    Option.some.inj ((congrArg (fun x => x.1) hread).symm.trans hd.address)
  have hb2 : 2 = b := (ofNat_inj_of_le (by omega) (mem_logicNos.mp hb).2).mp haddr
  subst hb2
  have hserial : (2 : UInt8) = (u.led.row 2).get 2 :=
    Option.some.inj ((congrArg (fun x => x.2) hread).symm.trans (hd.serial 1))
  rw [hrow] at hserial
  exact absurd hserial (by decide)

end HeartbeatSystem

end YckjAcu
