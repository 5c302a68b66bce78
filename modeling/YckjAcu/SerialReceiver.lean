import YckjAcu.Lib.Runs
import YckjAcu.Crc8

/-!
# The frame receiver of the serial port

`ReceiveSerialDat` stores each byte first and checks it after: a start byte among the
first two bytes restarts the count, and the length byte, which may be left over from
an earlier frame, decides when the check byte is due.
-/

namespace YckjAcu

/-- `g_SerialDat` and `g_Serial_Count`. -/
structure SerialRx where
  serialDat : Vector UInt8 32
  serialCount : UInt8
  deriving DecidableEq

namespace SerialRx

/-- Reception is finished when bit 7 of the count is set. -/
def Complete (s : SerialRx) : Prop := s.serialCount &&& 0x80 ≠ 0

instance (s : SerialRx) : Decidable s.Complete := inferInstanceAs (Decidable (_ ≠ _))

/-- The byte is stored and counted, and the count wraps around. -/
def store (read : UInt8) (s : SerialRx) : SerialRx where
  serialDat := s.serialDat.setIfInBounds s.serialCount.toNat read
  serialCount := if s.serialCount + 1 > 32 then 0 else s.serialCount + 1

/-- `g_SerialDat[g_Serial_Count-1]`, for a count that is not 0. -/
def last (s : SerialRx) : UInt8 := s.serialDat.toList.getD (s.serialCount.toNat - 1) 0

def held (s : SerialRx) : List UInt8 := s.serialDat.toList.take (s.serialCount &&& 0x7F).toNat

end SerialRx

/-- `ReceiveSerialDat` with a byte from `comGetChar`, as long as its indices are inside
the array. -/
def receiveSerialDat (read : UInt8) (s : SerialRx) : SerialRx :=
  if s.Complete then s
  else
    let s := s.store read
    if s.last = 0xF3 ∧ s.serialCount < 3 then
      ⟨s.serialDat.setIfInBounds (s.serialCount.toNat - 1) 0xF3, 1⟩
    else if s.serialCount ≥ s.serialDat.get 1 then
      if crc8Table (s.serialDat.toList.take (s.serialCount - 1).toNat) = s.last then
        { s with serialCount := s.serialCount ||| 0x80 }
      else { s with serialCount := 0 }
    else s

/-- The indices it uses on `g_SerialDat`, in order; those of `CRC8_Table` are the run
from 0 on. -/
def serialIndices (read : UInt8) (s : SerialRx) : List ℤ :=
  if s.Complete then []
  else
    let t := s.store read
    let last : ℤ := t.serialCount.toNat - 1
    [(s.serialCount.toNat : ℤ), last] ++
      if t.last = 0xF3 ∧ t.serialCount < 3 then [last]
      else
        [1] ++ if t.serialCount ≥ t.serialDat.get 1 then
          (List.range (t.serialCount - 1).toNat).map Int.ofNat ++ [last]
        else []

/-- The receiver, with all the bytes it was given so far. -/
structure SerialSession where
  rx : SerialRx
  seen : List UInt8
  deriving DecidableEq

inductive SerialOp
  | byte (read : UInt8)
  | ack

namespace SerialSession

/-- A call whose indices leave the array has no outcome. -/
def step : SerialOp → SerialSession → Option SerialSession
  | .byte read, s =>
      if ∀ i ∈ serialIndices read s.rx, 0 ≤ i ∧ i < 32 then
        some ⟨receiveSerialDat read s.rx, s.seen ++ [read]⟩
      else none
  | .ack, s => some { s with rx := { s.rx with serialCount := 0 } }

def start (serialDat : Vector UInt8 32) : SerialSession := ⟨⟨serialDat, 0⟩, []⟩

end SerialSession

/-- A valid frame: start byte, length byte, payload and check byte. -/
structure SerialFrame where
  bytes : List UInt8
  four_le : 4 ≤ bytes.length
  le_32 : bytes.length ≤ 32
  start : bytes.getD 0 0 = 0xF3
  length : (bytes.getD 1 0).toNat = bytes.length
  check : bytes.getD (bytes.length - 1) 0 = crc8Table (bytes.take (bytes.length - 1))

/-! ### One byte -/

namespace SerialRx

/-- The length byte in force once `read` is stored. -/
def lengthByte (read : UInt8) (s : SerialRx) : UInt8 :=
  if s.serialCount = 1 then read else s.serialDat.get 1

/-- The byte brings the count to the length byte, is the check byte of those before it
and does not restart the count. -/
def Closes (read : UInt8) (s : SerialRx) : Prop :=
  s.serialCount < 32 ∧ ¬ (read = 0xF3 ∧ s.serialCount < 2) ∧
    s.lengthByte read ≤ s.serialCount + 1 ∧
    crc8Table (s.serialDat.toList.take s.serialCount.toNat) = read

theorem not_complete_of_le {s : SerialRx} (h : s.serialCount ≤ 32) : ¬ s.Complete := by
  rw [Complete, not_not]
  generalize s.serialCount = c at h ⊢
  revert c
  decide +kernel

theorem succ_le_of_lt {c : UInt8} (h : c < 32) : c + 1 ≤ 32 := by
  revert c
  decide +kernel

theorem store_of_lt {s : SerialRx} (h : s.serialCount < 32) (read : UInt8) :
    s.store read =
      ⟨s.serialDat.setIfInBounds s.serialCount.toNat read, s.serialCount + 1⟩ := by
  rw [store, if_neg (UInt8.not_lt.mpr (succ_le_of_lt h))]

theorem or_and_top (c : UInt8) : (c ||| 0x80) &&& 0x80 ≠ 0 := by
  revert c
  decide +kernel

theorem or_and_count {c : UInt8} (h : c < 32) : ((c + 1) ||| 0x80) &&& 0x7F = c + 1 := by
  revert c
  decide +kernel

theorem complete_or (serialDat : Vector UInt8 32) (c : UInt8) :
    Complete ⟨serialDat, c ||| 0x80⟩ := or_and_top c

section Store

variable {s : SerialRx} (h : s.serialCount < 32) (read : UInt8)
include h

theorem toNat_count_succ : (s.serialCount + 1).toNat = s.serialCount.toNat + 1 := by
  have hlt : s.serialCount.toNat < 32 := UInt8.lt_iff_toNat_lt.mp h
  rw [UInt8.toNat_add]
  exact Nat.mod_eq_of_lt (by rw [UInt8.toNat_one]; omega)

theorem last_store : (s.store read).last = read := by
  have hlt : s.serialCount.toNat < 32 := UInt8.lt_iff_toNat_lt.mp h
  rw [store_of_lt h, last, toNat_count_succ h, Nat.add_sub_cancel]
  simp [List.getD_eq_getElem?_getD, hlt]

theorem get_one_store : (s.store read).serialDat.get 1 = s.lengthByte read := by
  rw [store_of_lt h, lengthByte]
  split_ifs with hone
  · rw [hone]
    exact Buffers.get_setIfInBounds_self _ 1 read
  · refine Buffers.get_setIfInBounds_of_ne _ (fun heq => hone ?_) read
    exact UInt8.toNat_inj.mp heq

theorem take_store (n : ℕ) (hn : n ≤ s.serialCount.toNat) :
    (s.store read).serialDat.toList.take n = s.serialDat.toList.take n := by
  rw [store_of_lt h]
  simp [List.take_set_of_le hn]

theorem take_store_succ : (s.store read).serialDat.toList.take (s.serialCount.toNat + 1) =
    s.serialDat.toList.take s.serialCount.toNat ++ [read] := by
  have hlt : s.serialCount.toNat < 32 := UInt8.lt_iff_toNat_lt.mp h
  rw [List.take_succ_eq_append_getElem (by simpa using hlt), take_store h read _ le_rfl,
    store_of_lt h]
  simp

/-- What a byte does while there is room: it restarts the count, completes the frame,
is dropped with all before it, or is added. -/
theorem receive_cases :
    (read = 0xF3 ∧ s.serialCount < 2 ∧
      receiveSerialDat read s = ⟨(s.store read).serialDat, 1⟩) ∨
    (s.Closes read ∧
      receiveSerialDat read s = ⟨(s.store read).serialDat, (s.serialCount + 1) ||| 0x80⟩) ∨
    (¬ s.Closes read ∧ ¬ (read = 0xF3 ∧ s.serialCount < 2) ∧
      s.lengthByte read ≤ s.serialCount + 1 ∧
      receiveSerialDat read s = ⟨(s.store read).serialDat, 0⟩) ∨
    (¬ s.Closes read ∧ ¬ (read = 0xF3 ∧ s.serialCount < 2) ∧
      s.serialCount + 1 < s.lengthByte read ∧
      receiveSerialDat read s = ⟨(s.store read).serialDat, s.serialCount + 1⟩) := by
  have hcount : (s.store read).serialCount = s.serialCount + 1 := by rw [store_of_lt h]
  have hthree : s.serialCount + 1 < 3 ↔ s.serialCount < 2 := by
    rw [UInt8.lt_iff_toNat_lt, UInt8.lt_iff_toNat_lt, toNat_count_succ h]
    exact Nat.succ_lt_succ_iff
  have hcrc : crc8Table ((s.store read).serialDat.toList.take (s.serialCount + 1 - 1).toNat) =
      crc8Table (s.serialDat.toList.take s.serialCount.toNat) := by
    rw [UInt8.add_sub_cancel, take_store h read _ le_rfl]
  rw [receiveSerialDat, if_neg (not_complete_of_le (UInt8.le_of_lt h))]
  simp only [hcount, last_store h, get_one_store h, hthree, hcrc, ge_iff_le]
  split_ifs with hstart hlen hfit
  · refine Or.inl ⟨hstart.1, hstart.2, ?_⟩
    rw [toNat_count_succ h, Nat.add_sub_cancel, store_of_lt h, hstart.1]
    exact congrArg (SerialRx.mk · 1) (Vector.ext fun i hi => by grind)
  · exact Or.inr (Or.inl ⟨⟨h, hstart, hlen, hfit⟩, rfl⟩)
  · exact Or.inr (Or.inr (Or.inl ⟨fun hc => hfit hc.2.2.2, hstart, hlen, rfl⟩))
  · refine Or.inr (Or.inr (Or.inr ⟨fun hc => hlen hc.2.2.1, hstart, ?_, ?_⟩))
    · exact UInt8.not_le.mp hlen
    · rw [← hcount]

theorem indices_of_lt : ∀ i ∈ serialIndices read s, 0 ≤ i ∧ i < 32 := by
  have hlt : s.serialCount.toNat < 32 := UInt8.lt_iff_toNat_lt.mp h
  have hcount : (s.store read).serialCount = s.serialCount + 1 := by rw [store_of_lt h]
  rw [serialIndices, if_neg (not_complete_of_le (UInt8.le_of_lt h))]
  simp only [hcount, UInt8.add_sub_cancel, toNat_count_succ h]
  intro i hi
  have hmem : i = s.serialCount.toNat ∨ i = 1 ∨ ∃ j < s.serialCount.toNat, (j : ℤ) = i := by
    split_ifs at hi <;> grind
  rcases hmem with rfl | rfl | ⟨j, hj, rfl⟩
  · omega
  · decide
  · omega

end Store

/-- The indices stay inside the array exactly while there is room. -/
theorem indices_iff {s : SerialRx} (h : s.serialCount ≤ 32) (read : UInt8) :
    (∀ i ∈ serialIndices read s, 0 ≤ i ∧ i < 32) ↔ s.serialCount < 32 := by
  refine ⟨fun hall => ?_, fun hlt => indices_of_lt hlt read⟩
  have hmem : (s.serialCount.toNat : ℤ) ∈ serialIndices read s := by
    rw [serialIndices, if_neg (not_complete_of_le h)]
    exact List.mem_append_left _ List.mem_cons_self
  have hlt := (hall _ hmem).2
  exact UInt8.lt_iff_toNat_lt.mpr (Nat.cast_lt.mp hlt)

theorem indices_of_complete {s : SerialRx} (h : s.Complete) (read : UInt8) :
    serialIndices read s = [] := if_pos h

theorem receive_of_complete {s : SerialRx} (h : s.Complete) (read : UInt8) :
    receiveSerialDat read s = s := if_pos h

end SerialRx

/-! ### Runs -/

namespace SerialSession

/-- What holds of the bytes counted so far: they have not reached the length byte, and
if the first is a start byte they are the last ones received. -/
structure Collects (s : SerialSession) : Prop where
  count_le : s.rx.serialCount ≤ 32
  below : 2 ≤ s.rx.serialCount → s.rx.serialCount < s.rx.serialDat.get 1
  suffix : s.rx.serialDat.get 0 = 0xF3 →
    s.rx.serialDat.toList.take s.rx.serialCount.toNat <:+ s.seen

/-- The invariant of the receiver. -/
def Tracked (s : SerialSession) : Prop := ¬ s.rx.Complete → s.Collects

theorem collects_zero (serialDat : Vector UInt8 32) (seen : List UInt8) :
    Collects ⟨⟨serialDat, 0⟩, seen⟩ where
  count_le := by simp
  below h := absurd h (by simp)
  suffix _ := by simp

theorem tracked_start (serialDat : Vector UInt8 32) : (start serialDat).Tracked :=
  fun _ => collects_zero serialDat []

theorem length_take (v : Vector UInt8 32) {n : ℕ} (hn : n < 32) :
    (v.toList.take n).length = n := by
  rw [List.length_take, Vector.length_toList, Nat.min_eq_left hn.le]

theorem getD_take_append (v : Vector UInt8 32) {n i : ℕ} {read : UInt8} (hi : i < n)
    (hn : n < 32) : (v.toList.take n ++ [read]).getD i 0 = v.get ⟨i, hi.trans hn⟩ := by
  rw [List.getD_eq_getElem?_getD, List.getElem?_append_left (by rwa [length_take v hn])]
  simp [List.getElem?_take_of_lt hi, hi.trans hn, Vector.get_eq_getElem]

theorem take_one (v : Vector UInt8 32) : v.toList.take 1 = [v.get 0] := by
  have hlen : 0 < v.toList.length := by simp
  rw [List.take_succ_eq_append_getElem hlen]
  simp [Vector.get_eq_getElem]

theorem Collects.suffix_store {s : SerialSession} (hs : s.Collects) (h : s.rx.serialCount < 32)
    {read : UInt8} (hfirst : (s.rx.store read).serialDat.get 0 = 0xF3) :
    (s.rx.store read).serialDat.toList.take (s.rx.serialCount.toNat + 1) <:+
      s.seen ++ [read] := by
  rw [SerialRx.take_store_succ h, List.suffix_concat_iff]
  refine Or.inr ⟨_, rfl, ?_⟩
  by_cases hzero : s.rx.serialCount.toNat = 0
  · rw [hzero]
    exact List.nil_suffix
  · refine hs.suffix ?_
    rwa [SerialRx.store_of_lt h, Buffers.get_setIfInBounds_of_ne _ hzero] at hfirst

theorem Collects.receive {s : SerialSession} (hs : s.Collects) (h : s.rx.serialCount < 32)
    (read : UInt8) : Tracked ⟨receiveSerialDat read s.rx, s.seen ++ [read]⟩ := by
  rcases SerialRx.receive_cases h read with ⟨rfl, -, heq⟩ | ⟨hc, heq⟩ | ⟨-, -, -, heq⟩ |
    ⟨-, -, hlen, heq⟩
  · rw [heq]
    have hone : ¬ (2 : UInt8) ≤ 1 := by decide
    refine fun _ => ⟨(by decide : (1 : UInt8) ≤ 32), fun h2 => absurd h2 hone, fun hfirst => ?_⟩
    have hhead : (s.rx.store 0xF3).serialDat.toList.take 1 = [0xF3] := by
      rw [take_one]
      exact congrArg ([·]) hfirst
    exact hhead ▸ List.suffix_append s.seen [0xF3]
  · rw [heq]
    exact fun hn => absurd (SerialRx.complete_or _ _) hn
  · rw [heq]
    exact fun _ => collects_zero _ _
  · rw [heq]
    refine fun _ => ⟨?_, fun _ => ?_, fun hfirst => ?_⟩
    · exact SerialRx.succ_le_of_lt h
    · rwa [SerialRx.get_one_store h]
    · rw [SerialRx.toNat_count_succ h]
      exact hs.suffix_store h hfirst

theorem Tracked.step {s t : SerialSession} {op : SerialOp} (hs : s.Tracked)
    (hstep : step op s = some t) : t.Tracked := by
  cases op with
  | ack =>
      obtain rfl := Option.some.inj hstep
      exact fun _ => collects_zero _ _
  | byte read =>
      rw [SerialSession.step, Option.ite_none_right_eq_some] at hstep
      obtain ⟨hin, heq⟩ := hstep
      obtain rfl := Option.some.inj heq
      by_cases hc : s.rx.Complete
      · rw [Tracked, SerialRx.receive_of_complete hc]
        exact absurd hc
      · have hcoll := hs hc
        exact hcoll.receive ((SerialRx.indices_iff hcoll.count_le read).mp hin) read

/-! ### The indices -/

/-- Every index is one of the array's. -/
def InBuffer (s : SerialSession) : SerialOp → Prop
  | .byte read => ∀ i ∈ serialIndices read s.rx, 0 ≤ i ∧ i < 32
  | .ack => True

/-- No byte comes in behind 32 others whose length byte is above 32. -/
def NotOverlong (s : SerialSession) : SerialOp → Prop
  | .byte _ => ¬ (s.rx.serialCount = 32 ∧ 32 < s.rx.serialDat.get 1)
  | .ack => True

instance (s : SerialSession) : (op : SerialOp) → Decidable (InBuffer s op)
  | .byte read => inferInstanceAs (Decidable (∀ i ∈ serialIndices read s.rx, 0 ≤ i ∧ i < 32))
  | .ack => isTrue trivial

theorem inBuffer_iff {s : SerialSession} (hs : s.Tracked) (op : SerialOp) :
    InBuffer s op ↔ NotOverlong s op := by
  cases op with
  | ack => exact Iff.rfl
  | byte read =>
      rw [InBuffer, NotOverlong]
      by_cases hc : s.rx.Complete
      · rw [SerialRx.indices_of_complete hc]
        refine iff_of_true (fun i hi => absurd hi List.not_mem_nil) fun hover => ?_
        exact SerialRx.not_complete_of_le (UInt8.le_of_eq hover.1) hc
      · have hcoll := hs hc
        rw [SerialRx.indices_iff hcoll.count_le]
        refine ⟨fun hlt hover => UInt8.ne_of_lt hlt hover.1, fun hover => ?_⟩
        refine UInt8.lt_of_le_of_ne hcoll.count_le fun hcount => hover ⟨hcount, ?_⟩
        have hbelow := hcoll.below (hcount ▸ by decide)
        rwa [hcount] at hbelow

/-- From any content with count 0 on, and with completion acknowledged at any time, all
indices are inside the array exactly when no 33rd byte comes in behind a length byte
above 32. -/
theorem indices_inBuffer_iff (serialDat : Vector UInt8 32) (ops : List SerialOp) :
    Runs.AllSteps step InBuffer (start serialDat) ops ↔
      Runs.AllSteps step NotOverlong (start serialDat) ops :=
  Runs.allSteps_iff_of_invariant (I := Tracked)
    (fun _ _ _ hs hstep => hs.step hstep)
    (fun _ op hs => inBuffer_iff hs op) (tracked_start serialDat) ops

/-- The length byte 40 lets a 33rd byte in. -/
theorem overlong_leaves_buffer : ¬ ∀ (serialDat : Vector UInt8 32) (ops : List SerialOp),
    Runs.AllSteps step InBuffer (start serialDat) ops := by
  intro h
  have hrun := h (Vector.replicate 32 0) ((0xF3 :: 40 :: List.replicate 31 0).map .byte)
  revert hrun
  decide +kernel

/-! ### The frames accepted -/

/-- A byte that completes the reception leaves a valid frame, which is the end of what
was received. -/
def SignalsFrame (s : SerialSession) : SerialOp → Prop
  | .byte read => ∀ t, step (.byte read) s = some t → ¬ s.rx.Complete → t.rx.Complete →
      ∃ f : SerialFrame, f.bytes.length = (t.rx.serialCount &&& 0x7F).toNat ∧
        t.rx.held = f.bytes ∧ f.bytes <:+ t.seen
  | .ack => True

/-- A byte that closes the buffer has at least three others before it, and a start byte
in front. -/
def ClosesFrame (s : SerialSession) : SerialOp → Prop
  | .byte read => s.rx.Closes read → 3 ≤ s.rx.serialCount ∧ s.rx.serialDat.get 0 = 0xF3
  | .ack => True

theorem step_byte {s : SerialSession} (h : s.rx.serialCount < 32) (read : UInt8) :
    step (.byte read) s = some ⟨receiveSerialDat read s.rx, s.seen ++ [read]⟩ :=
  if_pos (SerialRx.indices_of_lt h read)

/-- The state after a byte that closes the buffer. -/
def closed (read : UInt8) (s : SerialSession) : SerialSession :=
  ⟨⟨(s.rx.store read).serialDat, (s.rx.serialCount + 1) ||| 0x80⟩, s.seen ++ [read]⟩

theorem step_of_closes {s : SerialSession} {read : UInt8} (h : s.rx.Closes read) :
    step (.byte read) s = some (s.closed read) := by
  rw [step_byte h.1]
  rcases SerialRx.receive_cases h.1 read with ⟨hr, hlt, -⟩ | ⟨-, heq⟩ | ⟨hn, -⟩ | ⟨hn, -⟩
  · exact absurd ⟨hr, hlt⟩ h.2.1
  · rw [heq, closed]
  · exact absurd h hn
  · exact absurd h hn

theorem count_closed {s : SerialSession} {read : UInt8} (h : s.rx.serialCount < 32) :
    ((s.closed read).rx.serialCount &&& 0x7F).toNat = s.rx.serialCount.toNat + 1 := by
  rw [← SerialRx.toNat_count_succ h, closed]
  exact congrArg UInt8.toNat (SerialRx.or_and_count h)

theorem held_closed {s : SerialSession} {read : UInt8} (h : s.rx.serialCount < 32) :
    (s.closed read).rx.held = s.rx.serialDat.toList.take s.rx.serialCount.toNat ++ [read] := by
  rw [SerialRx.held, count_closed h]
  exact SerialRx.take_store_succ h read

theorem closes_of_completes {s t : SerialSession} {read : UInt8} (hs : s.Tracked)
    (hstep : step (.byte read) s = some t) (hn : ¬ s.rx.Complete) (ht : t.rx.Complete) :
    s.rx.Closes read := by
  rw [SerialSession.step, Option.ite_none_right_eq_some] at hstep
  obtain ⟨hin, heq⟩ := hstep
  obtain rfl := Option.some.inj heq
  have hlt := (SerialRx.indices_iff (hs hn).count_le read).mp hin
  rcases SerialRx.receive_cases hlt read with ⟨-, -, heq⟩ | ⟨hc, -⟩ | ⟨-, -, -, heq⟩ |
    ⟨-, -, -, heq⟩
  · rw [heq] at ht
    exact absurd ht (SerialRx.not_complete_of_le (by decide : (1 : UInt8) ≤ 32))
  · exact hc
  · rw [heq] at ht
    exact absurd ht (SerialRx.not_complete_of_le (by decide : (0 : UInt8) ≤ 32))
  · rw [heq] at ht
    exact absurd ht (SerialRx.not_complete_of_le (SerialRx.succ_le_of_lt hlt))

theorem frame_of_closes {s : SerialSession} {read : UInt8} (hs : s.Collects)
    (h : s.rx.Closes read) (h3 : 3 ≤ s.rx.serialCount) (hfirst : s.rx.serialDat.get 0 = 0xF3) :
    ∃ f : SerialFrame,
      f.bytes = s.rx.serialDat.toList.take s.rx.serialCount.toNat ++ [read] := by
  obtain ⟨hlt, -, hlen, hcrc⟩ := h
  have hn : s.rx.serialCount.toNat < 32 := UInt8.lt_iff_toNat_lt.mp hlt
  have h3n : 3 ≤ s.rx.serialCount.toNat := UInt8.le_iff_toNat_le.mp h3
  have htake := length_take s.rx.serialDat hn
  have hbyte : s.rx.lengthByte read = s.rx.serialDat.get 1 :=
    if_neg fun hone => absurd (hone ▸ h3) (by decide)
  have hlength : (s.rx.serialDat.get 1).toNat = s.rx.serialCount.toNat + 1 := by
    have h2 : (2 : UInt8) ≤ s.rx.serialCount := UInt8.le_trans (by decide) h3
    have hbelow := UInt8.lt_iff_toNat_lt.mp (hs.below h2)
    have hreached := UInt8.le_iff_toNat_le.mp hlen
    rw [hbyte, SerialRx.toNat_count_succ hlt] at hreached
    omega
  refine ⟨⟨s.rx.serialDat.toList.take s.rx.serialCount.toNat ++ [read], ?_, ?_, ?_, ?_, ?_⟩, rfl⟩
  · rw [List.length_append, htake]
    exact Nat.succ_le_succ h3n
  · rw [List.length_append, htake]
    exact hn
  · rw [getD_take_append _ (i := 0) (by omega) hn]
    exact hfirst
  · rw [getD_take_append _ (i := 1) (by omega) hn, List.length_append, htake]
    exact hlength
  · rw [List.length_append, htake, List.length_singleton, Nat.add_sub_cancel,
      List.take_left' htake, hcrc]
    simp [List.getD_eq_getElem?_getD, htake]

theorem signalsFrame_iff {s : SerialSession} (hs : s.Tracked) (op : SerialOp) :
    SignalsFrame s op ↔ ClosesFrame s op := by
  cases op with
  | ack => exact Iff.rfl
  | byte read =>
      constructor
      · intro hsig hc
        obtain ⟨f, hlen, hheld, -⟩ := hsig _ (step_of_closes hc)
          (SerialRx.not_complete_of_le (UInt8.le_of_lt hc.1)) (SerialRx.complete_or _ _)
        rw [count_closed hc.1] at hlen
        rw [held_closed hc.1] at hheld
        have hn : s.rx.serialCount.toNat < 32 := UInt8.lt_iff_toNat_lt.mp hc.1
        have h3 : 3 ≤ s.rx.serialCount.toNat := by
          have h4 := f.four_le
          omega
        refine ⟨UInt8.le_iff_toNat_le.mpr h3, ?_⟩
        have hstart := f.start
        rwa [← hheld, getD_take_append _ (i := 0) (by omega) hn] at hstart
      · intro hcond t hstep hn ht
        have hc := closes_of_completes hs hstep hn ht
        obtain rfl := Option.some.inj ((step_of_closes hc).symm.trans hstep)
        obtain ⟨h3, hfirst⟩ := hcond hc
        obtain ⟨f, hf⟩ := frame_of_closes (hs hn) hc h3 hfirst
        refine ⟨f, ?_, ?_, ?_⟩
        · have hn : s.rx.serialCount.toNat < 32 := UInt8.lt_iff_toNat_lt.mp hc.1
          rw [count_closed hc.1, hf, List.length_append, length_take s.rx.serialDat hn]
          rfl
        · rw [held_closed hc.1, hf]
        · rw [hf]
          exact List.suffix_concat_iff.mpr (Or.inr ⟨_, rfl, (hs hn).suffix hfirst⟩)

/-! ### A frame from the front -/

/-- The first bytes of `f` are in the buffer. -/
structure Front (f : SerialFrame) (k : ℕ) (s : SerialSession) : Prop where
  count : s.rx.serialCount.toNat = k
  front : s.rx.serialDat.toList.take k = f.bytes.take k

variable {f : SerialFrame} {k : ℕ} {s : SerialSession}

theorem Front.count_lt (h : Front f k s) (hk : k < f.bytes.length) : s.rx.serialCount < 32 :=
  UInt8.lt_iff_toNat_lt.mpr (h.count ▸ hk.trans_le f.le_32)

theorem Front.lengthByte (h : Front f k s) (hpos : 0 < k) :
    (s.rx.lengthByte (f.bytes.getD k 0)).toNat = f.bytes.length := by
  rw [← f.length, SerialRx.lengthByte]
  split_ifs with hone
  · have hk1 : 1 = k := (congrArg UInt8.toNat hone).symm.trans h.count
    rw [← hk1]
  · have hk1 : k ≠ 1 := fun heq => hone (UInt8.toNat_inj.mp (h.count.trans heq))
    have hget := congrArg (·.getD 1 0) h.front
    simp only [List.getD_eq_getElem?_getD, List.getElem?_take_of_lt (show 1 < k by omega)] at hget
    rw [List.getD_eq_getElem?_getD, ← hget]
    simp [Vector.get_eq_getElem]

theorem Front.store (h : Front f k s) (hk : k < f.bytes.length) :
    (s.rx.store (f.bytes.getD k 0)).serialDat.toList.take (k + 1) = f.bytes.take (k + 1) := by
  have hlt := h.count_lt hk
  have hstore := SerialRx.take_store_succ hlt (f.bytes.getD k 0)
  rw [h.count, h.front] at hstore
  rw [hstore, List.take_succ_eq_append_getElem hk, List.getD_eq_getElem _ _ hk]

/-- Only the first byte of a frame restarts the count. -/
theorem Front.zero_of_restart (h : Front f k s) (hk : k < f.bytes.length)
    (hread : f.bytes.getD k 0 = 0xF3) (h2 : s.rx.serialCount < 2) : k = 0 := by
  have hk2 : k < 2 := h.count ▸ UInt8.lt_iff_toNat_lt.mp h2
  by_contra hne
  obtain rfl : k = 1 := by omega
  have hlen := f.length
  rw [hread] at hlen
  exact absurd (hlen ▸ f.le_32) (by decide)

theorem Front.not_due (h : Front f k s) (hk : k + 1 < f.bytes.length)
    (hstart : ¬ (f.bytes.getD k 0 = 0xF3 ∧ s.rx.serialCount < 2)) :
    ¬ s.rx.lengthByte (f.bytes.getD k 0) ≤ s.rx.serialCount + 1 := by
  have hk' := Nat.lt_of_succ_lt hk
  intro hle
  have hpos : 0 < k := by
    refine Nat.pos_of_ne_zero fun hk0 => hstart ⟨hk0 ▸ f.start, ?_⟩
    exact UInt8.lt_iff_toNat_lt.mpr (by rw [h.count, hk0]; decide)
  have hreached := UInt8.le_iff_toNat_le.mp hle
  rw [h.lengthByte hpos, SerialRx.toNat_count_succ (h.count_lt hk'), h.count] at hreached
  exact absurd hreached (Nat.not_le.mpr hk)

theorem Front.next (h : Front f k s) (hk : k + 1 < f.bytes.length) :
    ∃ t, step (.byte (f.bytes.getD k 0)) s = some t ∧ Front f (k + 1) t := by
  have hk' := Nat.lt_of_succ_lt hk
  have hlt := h.count_lt hk'
  have hcount : (s.rx.serialCount + 1).toNat = k + 1 := by
    rw [SerialRx.toNat_count_succ hlt, h.count]
  refine ⟨_, step_byte hlt _, ?_⟩
  rcases SerialRx.receive_cases hlt (f.bytes.getD k 0) with ⟨hread, h2, heq⟩ | ⟨hc, -⟩ |
    ⟨-, hstart, hlen, -⟩ | ⟨-, -, -, heq⟩
  · have hk0 : k = 0 := h.zero_of_restart hk' hread h2
    subst hk0
    exact ⟨by rw [heq]; rfl, by rw [heq]; exact h.store hk'⟩
  · exact absurd hc.2.2.1 (h.not_due hk hc.2.1)
  · exact absurd hlen (h.not_due hk hstart)
  · exact ⟨by rw [heq]; exact hcount, by rw [heq]; exact h.store hk'⟩

theorem run_front (serialDat : Vector UInt8 32) (f : SerialFrame) (k : ℕ)
    (hk : k < f.bytes.length) :
    ∃ t, Runs.run step (start serialDat) ((f.bytes.take k).map .byte) = some t ∧
      Front f k t := by
  induction k with
  | zero => exact ⟨_, rfl, rfl, rfl⟩
  | succ k ih =>
      obtain ⟨t, hrun, ht⟩ := ih (Nat.lt_of_succ_lt hk)
      obtain ⟨u, hstep, hu⟩ := ht.next hk
      refine ⟨u, ?_, hu⟩
      have hk' := Nat.lt_of_succ_lt hk
      rw [List.take_succ_eq_append_getElem hk', List.map_append, Runs.run_append, hrun,
        ← List.getD_eq_getElem _ 0 hk', Option.bind_some, List.map_singleton, Runs.run_cons,
        hstep]
      rfl

theorem Front.closes (h : Front f k s) (hk : k + 1 = f.bytes.length) :
    s.rx.Closes (f.bytes.getD k 0) := by
  have hk' : k < f.bytes.length := hk ▸ Nat.lt_succ_self k
  have h4 := f.four_le
  have hlt := h.count_lt hk'
  refine ⟨hlt, fun hstart => ?_, ?_, ?_⟩
  · have hk0 := h.zero_of_restart hk' hstart.1 hstart.2
    omega
  · rw [UInt8.le_iff_toNat_le, h.lengthByte (by omega), SerialRx.toNat_count_succ hlt, h.count,
      hk]
  · have hcheck := f.check
    rw [← hk, Nat.add_sub_cancel] at hcheck
    rw [h.count, h.front, hcheck]

theorem run_of_complete (hs : s.rx.Complete) (bytes : List UInt8) :
    ∃ t, Runs.run step s (bytes.map .byte) = some t ∧ t.rx = s.rx := by
  induction bytes generalizing s with
  | nil => exact ⟨s, rfl, rfl⟩
  | cons read bytes ih =>
      have hstep : step (.byte read) s = some ⟨s.rx, s.seen ++ [read]⟩ := by
        rw [SerialSession.step, SerialRx.indices_of_complete hs, SerialRx.receive_of_complete hs]
        rfl
      obtain ⟨t, hrun, ht⟩ := ih (s := ⟨s.rx, s.seen ++ [read]⟩) hs
      exact ⟨t, by rw [List.map_cons, Runs.run_cons, hstep, Option.bind_some, hrun], ht⟩

theorem run_frame (serialDat : Vector UInt8 32) (f : SerialFrame) :
    ∃ t, Runs.run step (start serialDat) (f.bytes.map .byte) = some t ∧ t.rx.Complete ∧
      (t.rx.serialCount &&& 0x7F).toNat = f.bytes.length ∧ t.rx.held = f.bytes := by
  have h4 := f.four_le
  have hlast : f.bytes.length - 1 + 1 = f.bytes.length := by omega
  have hlt : f.bytes.length - 1 < f.bytes.length := by omega
  obtain ⟨t, hrun, ht⟩ := run_front serialDat f _ hlt
  have hc := ht.closes hlast
  have hbytes : f.bytes = f.bytes.take (f.bytes.length - 1) ++
      [f.bytes.getD (f.bytes.length - 1) 0] := by
    rw [List.getD_eq_getElem _ _ hlt, ← List.take_succ_eq_append_getElem hlt, hlast,
      List.take_length]
  refine ⟨t.closed (f.bytes.getD (f.bytes.length - 1) 0), ?_, SerialRx.complete_or _ _, ?_, ?_⟩
  · rw [congrArg (List.map SerialOp.byte) hbytes, List.map_append, Runs.run_append, hrun,
      Option.bind_some, List.map_singleton, Runs.run_cons, step_of_closes hc]
    rfl
  · rw [count_closed hc.1, ht.count, hlast]
  · rw [held_closed hc.1, ht.count, ht.front]
    exact hbytes.symm

/-- Behind any content of the buffer a valid frame completes the reception with its
last byte, and not before. -/
theorem receives_frame (serialDat : Vector UInt8 32) (f : SerialFrame) (rest : List UInt8)
    (k : ℕ) :
    ∃ t, Runs.run step (start serialDat) (((f.bytes ++ rest).take k).map .byte) = some t ∧
      (t.rx.Complete ↔ f.bytes.length ≤ k) ∧
      (f.bytes.length ≤ k →
        (t.rx.serialCount &&& 0x7F).toNat = f.bytes.length ∧ t.rx.held = f.bytes) := by
  by_cases hk : f.bytes.length ≤ k
  · obtain ⟨t, hrun, hc, hcount, hheld⟩ := run_frame serialDat f
    obtain ⟨u, hrest, hu⟩ := run_of_complete hc (rest.take (k - f.bytes.length))
    refine ⟨u, ?_, iff_of_true (hu ▸ hc) hk, fun _ => hu ▸ ⟨hcount, hheld⟩⟩
    rw [List.take_append, List.take_of_length_le hk, List.map_append, Runs.run_append, hrun,
      Option.bind_some, hrest]
  · have hlt := Nat.lt_of_not_le hk
    obtain ⟨t, hrun, ht⟩ := run_front serialDat f k hlt
    refine ⟨t, ?_, iff_of_false ?_ hk, fun h => absurd h hk⟩
    · rw [List.take_append_of_le_length hlt.le, hrun]
    · exact SerialRx.not_complete_of_le (UInt8.le_of_lt (ht.count_lt hlt))

/-- Valid frames are always accepted; and only valid frames are, exactly when each byte
that closes the buffer has three others before it, with a start byte in front. -/
theorem receiver_exact_iff (serialDat : Vector UInt8 32) :
    (∀ (f : SerialFrame) (rest : List UInt8) (k : ℕ),
      ∃ t, Runs.run step (start serialDat) (((f.bytes ++ rest).take k).map .byte) = some t ∧
        (t.rx.Complete ↔ f.bytes.length ≤ k) ∧
        (f.bytes.length ≤ k →
          (t.rx.serialCount &&& 0x7F).toNat = f.bytes.length ∧ t.rx.held = f.bytes)) ∧
      ∀ ops, Runs.AllSteps step SignalsFrame (start serialDat) ops ↔
        Runs.AllSteps step ClosesFrame (start serialDat) ops :=
  ⟨receives_frame serialDat, fun ops =>
    Runs.allSteps_iff_of_invariant (I := Tracked) (fun _ _ _ hs hstep => hs.step hstep)
      (fun _ op hs => signalsFrame_iff hs op) (tracked_start serialDat) ops⟩

/-- A zero byte completes the reception in a cleared buffer. -/
theorem zero_byte_completes : ¬ ∀ (serialDat : Vector UInt8 32) (ops : List SerialOp),
    Runs.AllSteps step SignalsFrame (start serialDat) ops := by
  intro h
  have hsig := (h (Vector.replicate 32 0) [.byte 0]).1
  obtain ⟨f, hlen, -, -⟩ := hsig ⟨⟨Vector.replicate 32 0, 0x81⟩, [0]⟩ (by decide +kernel)
    (by decide +kernel) (by decide +kernel)
  have h4 := f.four_le
  rw [hlen] at h4
  exact absurd h4 (by decide)

end SerialSession

end YckjAcu
