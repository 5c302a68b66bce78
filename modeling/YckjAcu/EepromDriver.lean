import YckjAcu.Lib.TwoWire

/-!
# The driver of the parameter memory

`bsp_myiic.c` moves the two pins one after another, and `bsp_24cxx.c` builds its
transfers from that.  The waits between two edges are left out; the 10 ms after
a write are the rest in which the chip settles.
-/

namespace YckjAcu

open TwoWire

section Driver

variable {τ : Type*} (T : Target τ)

/-- `READ_SDA`. -/
def readSda (b : Bus τ) : Bool := level T b.pins b.target

def iicStart (b : Bus τ) : Bus τ :=
  let b := b.setOut T true
  let b := b.setSda T true
  let b := b.setScl T true
  let b := b.setSda T false
  b.setScl T false

def iicStop (b : Bus τ) : Bus τ :=
  let b := b.setOut T true
  let b := b.setScl T false
  let b := b.setSda T false
  let b := b.setScl T true
  b.setSda T true

/-- `while(READ_SDA)`; when `ucErrTime` exceeds 250 the transfer is stopped. -/
def waitAckLoop : ℕ → Bus τ → Bool × Bus τ
  | 0, b => (true, iicStop T b)
  | k + 1, b => if readSda T b then waitAckLoop k b else (false, b.setScl T false)

/-- Whether the answer failed to come. -/
def iicWaitAck (b : Bus τ) : Bool × Bus τ :=
  let b := b.setOut T false
  let b := b.setSda T true
  waitAckLoop T 251 (b.setScl T true)

def iicAnswer (v : Bool) (b : Bus τ) : Bus τ :=
  let b := b.setScl T false
  let b := b.setOut T true
  let b := b.setSda T v
  let b := b.setScl T true
  b.setScl T false

def iicAck (b : Bus τ) : Bus τ := iicAnswer T false b

def iicNAck (b : Bus τ) : Bus τ := iicAnswer T true b

/-- The loop of `IIC_Send_Byte`. -/
def sendLoop : ℕ → UInt8 → Bus τ → Bus τ
  | 0, _, b => b
  | k + 1, txd, b =>
      let b := b.setSda T ((txd &&& 0x80) >>> 7 ≠ 0)
      let b := b.setScl T true
      sendLoop k (txd <<< 1) (b.setScl T false)

def iicSendByte (txd : UInt8) (b : Bus τ) : Bus τ :=
  let b := b.setOut T true
  sendLoop T 8 txd (b.setScl T false)

/-- The loop of `IIC_Read_Byte`. -/
def readLoop : ℕ → UInt8 → Bus τ → UInt8 × Bus τ
  | 0, receive, b => (receive, b)
  | k + 1, receive, b =>
      let b := b.setScl T false
      let b := b.setScl T true
      readLoop k (if readSda T b then receive <<< 1 + 1 else receive <<< 1) b

def iicReadByte (ack : Bool) (b : Bus τ) : UInt8 × Bus τ :=
  let r := readLoop T 8 0 (b.setOut T false)
  (r.1, if ack then iicAck T r.2 else iicNAck T r.2)

/-- A byte and its answer, which the callers do not look at. -/
def iicSend (txd : UInt8) (b : Bus τ) : Bus τ := (iicWaitAck T (iicSendByte T txd b)).2

/-- `0XA0+((ReadAddr/256)<<1)`, cut to a byte. -/
def deviceByte (addr : ℕ) : UInt8 := UInt8.ofNat (0xA0 + (addr / 256) <<< 1)

namespace Bus

/-- With `EE_TYPE` at most `AT24C16`. -/
def at24cxxReadOneByte (readAddr : ℕ) (b : Bus τ) : UInt8 × Bus τ :=
  let b := iicStart T b
  let b := iicSend T (deviceByte readAddr) b
  let b := iicSend T (UInt8.ofNat (readAddr % 256)) b
  let b := iicStart T b
  let b := iicSend T 0xA1 b
  let temp := iicReadByte T false b
  (temp.1, iicStop T temp.2)

def at24cxxWriteOneByte (writeAddr : ℕ) (dataToWrite : UInt8) (b : Bus τ) : Bus τ :=
  let b := iicStart T b
  let b := iicSend T (deviceByte writeAddr) b
  let b := iicSend T (UInt8.ofNat (writeAddr % 256)) b
  let b := iicSend T dataToWrite b
  let b := iicStop T b
  { b with target := T.settle b.target }

end Bus

end Driver

/-! ### One byte and its answer -/

section Exchange

variable {τ : Type*} {T : Target τ} {t : τ} {s o c : Bool}

theorem sendLoop_eq (k : ℕ) (txd : UInt8) (b : Bus τ) :
    sendLoop T k txd b = (msbBits k txd).foldl (fun b v => Bus.clockOut T v b) b := by
  induction k generalizing txd b with
  | zero => rfl
  | succ k ih =>
      rw [sendLoop, ih, msbBits, List.foldl_cons]
      rfl

theorem iicSendByte_low {txd : UInt8}
    (h : ∀ ws v, ws ++ [v] <+: msbBits 8 txd →
      T.pulls (ws.foldl T.shift t) = false ∧
        T.pulls (T.react (.rise v) (ws.foldl T.shift t)) = false) :
    iicSendByte T txd ⟨⟨false, s, o⟩, t, c⟩ =
      ⟨⟨false, (msbBits 8 txd).getLastD s, true⟩, (msbBits 8 txd).foldl T.shift t, c⟩ := by
  simp only [iicSendByte, setOut_low, setScl_low_low, sendLoop_eq]
  exact foldl_clockOut h

theorem waitAckLoop_high {b : Bus τ} (h : readSda T b = true) (k : ℕ) :
    waitAckLoop T k b = (true, iicStop T b) := by
  induction k with
  | zero => rfl
  | succ k ih => rw [waitAckLoop, if_pos h, ih]

theorem waitAckLoop_low {b : Bus τ} (h : readSda T b = false) (k : ℕ) :
    waitAckLoop T (k + 1) b = (false, b.setScl T false) := by
  rw [waitAckLoop, if_neg (by simp [h])]

/-- A target that answers holds the line low until the clock falls. -/
theorem iicWaitAck_acked (h : T.pulls (T.react (.rise (!T.pulls t)) t) = true) :
    iicWaitAck T ⟨⟨false, s, o⟩, t, c⟩ =
      (false, ⟨⟨false, true, false⟩, T.react .fall (T.react (.rise (!T.pulls t)) t), c⟩) := by
  rw [iicWaitAck, setOut_low, setSda_low, setScl_rise_in, waitAckLoop_low (by simp [readSda, level, h]),
    setScl_fall]

theorem iicStop_low (h : T.pulls t = false) (h' : T.pulls (T.react (.rise false) t) = false)
    (h'' : T.pulls (T.react .stop (T.react (.rise false) t)) = false) :
    iicStop T ⟨⟨false, s, o⟩, t, c⟩ =
      ⟨⟨true, true, true⟩, T.react .stop (T.react (.rise false) t), c⟩ := by
  simp only [iicStop, setOut_low, setScl_low_low, setSda_low, setScl_rise_out h h']
  simp [Bus.setSda, Bus.put, edge, level, h', h'']

theorem iicStart_low (h : T.pulls t = false) (h' : T.pulls (T.react (.rise true) t) = false) :
    iicStart T ⟨⟨false, s, o⟩, t, c⟩ =
      ⟨⟨false, false, true⟩, T.react .fall (T.react .start (T.react (.rise true) t)), c⟩ := by
  simp only [iicStart, setOut_low, setSda_low, setScl_rise_out h h']
  simp [Bus.setSda, Bus.setScl, Bus.put, edge, level, h']

theorem iicStart_high (h : T.pulls t = false) :
    iicStart T ⟨⟨true, true, true⟩, t, c⟩ =
      ⟨⟨false, false, true⟩, T.react .fall (T.react .start t), c⟩ := by
  simp [iicStart, Bus.setSda, Bus.setScl, Bus.setOut, Bus.put, edge, level, h]

/-- A target that no longer follows the transfer. -/
structure Deaf (T : Target τ) (t : τ) : Prop where
  pulls : T.pulls t = false
  rise (v : Bool) : T.react (.rise v) t = t
  fall : T.react .fall t = t
  stop : T.react .stop t = t

theorem Deaf.foldl (h : Deaf T t) (vs : List Bool) : vs.foldl T.shift t = t := by
  induction vs with
  | nil => rfl
  | cons v vs ih => rw [List.foldl_cons, Target.shift, h.rise, h.fall, ih]

theorem iicStop_deaf (h : Deaf T t) :
    iicStop T ⟨⟨false, s, o⟩, t, c⟩ = ⟨⟨true, true, true⟩, t, c⟩ := by
  rw [iicStop_low h.pulls (by rw [h.rise, h.pulls]) (by rw [h.rise, h.stop, h.pulls]), h.rise,
    h.stop]

/-- With a high clock the transfer has been stopped already. -/
theorem iicStop_deaf_high (h : Deaf T t) :
    iicStop T ⟨⟨true, true, o⟩, t, c⟩ = ⟨⟨true, true, true⟩, t, c⟩ := by
  have hout : Bus.setOut T true ⟨⟨true, true, o⟩, t, c⟩ = ⟨⟨true, true, true⟩, t, c⟩ := by
    simp [Bus.setOut, Bus.put, edge, level, h.pulls]
  have hlow := iicStop_deaf (c := c) (s := true) (o := true) h
  rw [iicStop, setOut_low] at hlow
  rw [iicStop, hout, setScl_fall, h.fall]
  simpa only [setScl_low_low] using hlow

theorem iicWaitAck_deaf (h : Deaf T t) :
    iicWaitAck T ⟨⟨false, s, o⟩, t, c⟩ = (true, ⟨⟨true, true, true⟩, t, c⟩) := by
  rw [iicWaitAck, setOut_low, setSda_low, setScl_rise_in, h.rise,
    waitAckLoop_high (by simp [readSda, level, h.pulls]), iicStop_deaf_high h]

theorem iicSend_deaf (h : Deaf T t) (txd : UInt8) :
    iicSend T txd ⟨⟨false, s, o⟩, t, c⟩ = ⟨⟨true, true, true⟩, t, c⟩ := by
  rw [iicSend, iicSendByte_low, h.foldl, iicWaitAck_deaf h]
  intro ws v _
  rw [h.foldl, h.rise]
  exact ⟨h.pulls, h.pulls⟩

theorem iicSend_deaf_high (h : Deaf T t) (txd : UInt8) :
    iicSend T txd ⟨⟨true, true, true⟩, t, c⟩ = ⟨⟨true, true, true⟩, t, c⟩ := by
  have hout : Bus.setOut T true ⟨⟨true, true, true⟩, t, c⟩ = ⟨⟨true, true, true⟩, t, c⟩ := by
    simp [Bus.setOut, Bus.put, edge, level, h.pulls]
  have hlow := iicSend_deaf (c := c) (s := true) (o := true) h txd
  rw [iicSend, iicSendByte, setOut_low] at hlow
  rw [iicSend, iicSendByte, hout, setScl_fall, h.fall]
  simpa only [setScl_low_low] using hlow

/-- Nobody pulls the line low, and ones are read. -/
theorem readLoop_deaf (h : Deaf T t) (k : ℕ) (receive : UInt8) :
    readLoop T (k + 1) receive ⟨⟨s, true, false⟩, t, c⟩ =
      ((List.replicate (k + 1) true).foldl shiftIn receive, ⟨⟨true, true, false⟩, t, c⟩) := by
  have hread : readSda T ⟨⟨true, true, false⟩, t, c⟩ = true := by simp [readSda, level, h.pulls]
  have hclock : Bus.setScl T true (Bus.setScl T false ⟨⟨s, true, false⟩, t, c⟩) =
      ⟨⟨true, true, false⟩, t, c⟩ := by
    cases s with
    | true => rw [setScl_fall, h.fall, setScl_rise_in, h.rise]
    | false => rw [setScl_low_low, setScl_rise_in, h.rise]
  induction k generalizing receive s with
  | zero =>
      rw [readLoop, hclock, hread]
      rfl
  | succ k ih =>
      rw [readLoop, hclock, hread, ih _ (by rw [setScl_fall, h.fall, setScl_rise_in, h.rise])]
      rfl

theorem iicNAck_deaf (h : Deaf T t) :
    iicNAck T ⟨⟨true, true, false⟩, t, c⟩ = ⟨⟨false, true, true⟩, t, c⟩ := by
  rw [iicNAck, iicAnswer, setScl_fall, h.fall, setOut_low, setSda_low,
    setScl_rise_out h.pulls (by rw [h.rise, h.pulls]), setScl_fall, h.rise, h.fall]

theorem iicReadByte_deaf (h : Deaf T t) :
    iicReadByte T false ⟨⟨true, true, true⟩, t, c⟩ = (0xFF, ⟨⟨false, true, true⟩, t, c⟩) := by
  have hout : Bus.setOut T false ⟨⟨true, true, true⟩, t, c⟩ = ⟨⟨true, true, false⟩, t, c⟩ := by
    simp [Bus.setOut, Bus.put, edge, level, h.pulls]
  have hones : (List.replicate 8 true).foldl shiftIn 0 = 0xFF := by decide
  simp only [iicReadByte, hout, readLoop_deaf h 7 0, hones, Bool.false_eq_true,
    if_false, iicNAck_deaf h]

end Exchange

end YckjAcu
