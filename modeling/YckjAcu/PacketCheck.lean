import YckjAcu.Download
import YckjAcu.Lib.Runs

/-!
# What the receiver checks of a packet

The transmitter closes every packet with the CRC of its payload, high byte first,
and the receiver asks for this mode with `C`.  It tests the number and its
complement only.
-/

namespace YckjAcu

/-! ### The CRC of `ymodem.c` -/

/-- One turn of the loop of `UpdateCRC16`. -/
def crcTurn (crc inp : UInt32) : UInt32 × UInt32 :=
  let crc := crc <<< 1
  let inp := inp <<< 1
  let crc := if inp &&& 0x100 ≠ 0 then crc + 1 else crc
  (if crc &&& 0x10000 ≠ 0 then crc ^^^ 0x1021 else crc, inp)

/-- The loop, for at most `k` turns; it ends when bit 16 of `inp` is set. -/
def crcLoop : ℕ → UInt32 → UInt32 → UInt32 × UInt32
  | 0, crc, inp => (crc, inp)
  | k + 1, crc, inp =>
      let (crc, inp) := crcTurn crc inp
      if inp &&& 0x10000 ≠ 0 then (crc, inp) else crcLoop k crc inp

def updateCRC16 (crcIn : UInt16) (byte : UInt8) : UInt16 :=
  ((crcLoop 8 crcIn.toUInt32 (byte.toUInt32 ||| 0x100)).1 &&& 0xFFFF).toUInt16

def calCRC16 (data : List UInt8) : UInt16 :=
  updateCRC16 (updateCRC16 (data.foldl updateCRC16 0) 0) 0

/-- The loop of `UpdateCRC16` takes eight turns. -/
theorem crcLoop_ends (crcIn : UInt16) (byte : UInt8) :
    (crcLoop 8 crcIn.toUInt32 (byte.toUInt32 ||| 0x100)).2 &&& 0x10000 ≠ 0 := by
  have hshift : ∀ k crc inp, (crcLoop k crc inp).2 &&& 0x10000 ≠ 0 ∨
      (crcLoop k crc inp).2 = (fun x : UInt32 => x <<< 1)^[k] inp := by
    intro k
    induction k with
    | zero => exact fun crc inp => Or.inr rfl
    | succ k ih =>
        intro crc inp
        rw [crcLoop]
        dsimp only
        split_ifs with hend
        · exact Or.inl hend
        · exact ih _ _
  have hbit : ∀ byte : UInt8,
      (fun x : UInt32 => x <<< 1)^[8] (byte.toUInt32 ||| 0x100) &&& 0x10000 ≠ 0 := by
    decide +kernel
  rcases hshift 8 crcIn.toUInt32 (byte.toUInt32 ||| 0x100) with h | h
  · exact h
  · rw [h]
    exact hbit byte

/-! ### The packet of one turn -/

namespace PacketResult

/-- A whole packet, neither an end nor an abort. -/
def Complete (p : PacketResult) : Prop := p.status = 0 ∧ p.length ≠ -1 ∧ p.length ≠ 0

instance (p : PacketResult) : Decidable p.Complete := inferInstanceAs (Decidable (_ ∧ _))

def payload (p : PacketResult) : List UInt8 := (p.data.toList.drop 3).take p.length.toNat

/-- The two bytes after the payload, high byte first. -/
def trailer (p : PacketResult) : UInt16 :=
  ((p.data.toList.getD (p.length.toNat + 3) 0).toUInt16 <<< 8) |||
    (p.data.toList.getD (p.length.toNat + 4) 0).toUInt16

def CrcOk (p : PacketResult) : Prop := calCRC16 p.payload = p.trailer

end PacketResult

/-- What `Receive_Packet` gives to the next turn. -/
def Receiver.received (s : Receiver) : PacketResult := receivePacket s.packetData s.line

/-- The variables with the received packet in place. -/
def Receiver.withPacket (s : Receiver) : Receiver :=
  { s with packetData := s.received.data, line := s.received.line, errors := 0 }

def Turn.state : Turn → Receiver
  | .next s => s
  | .fileDone s => s
  | .sessionDone s => s
  | .exit _ s => s

/-- The turn leaves the flash and the counter alone. -/
def Turn.Keeps (turn : Turn) (s : Receiver) : Prop :=
  turn.state.flash = s.flash ∧ turn.state.packetsReceived = s.packetsReceived

def Turn.Counts (turn : Turn) (s : Receiver) : Prop :=
  ∃ t, turn = .next t ∧ t.packetsReceived = s.packetsReceived + 1

section Receive

variable (sfWriteBuffer : SfWriteBuffer)

/-- What is counted has a right CRC, and a packet with a wrong one changes neither
the flash nor the counter. -/
structure RefusesCorrupted (s : Receiver) : Prop where
  counted : (receiveTurn sfWriteBuffer s).Counts s → s.received.Complete ∧ s.received.CrcOk
  refused : s.received.Complete → ¬ s.received.CrcOk → (receiveTurn sfWriteBuffer s).Keeps s

/-- A packet of the length has the expected number and passes the other tests: a
file name and a size that fits, or a write that the flash does not refuse as it is. -/
def Taken (length : ℕ) (s : Receiver) : Prop :=
  (s.packetData.get 1).toNat = s.packetsReceived % 256 ∧
    if s.packetsReceived = 0 then
      s.packetData.get 3 ≠ 0 ∧ (str2Int (headerSize s.packetData) s.size).2 ≤ 0x80000 - 1
    else sfWriteBuffer (copyPacket length s.packetData s.buf) s.flashDestination 8 s.flash ≠
      (false, s.flash)

/-- If the turn takes a packet, it has a right CRC. -/
def TakesChecked (s : Receiver) : Prop :=
  s.received.Complete → Taken sfWriteBuffer s.received.length.toNat s.withPacket →
    s.received.CrcOk

theorem Turn.Counts.not_keeps {turn : Turn} {s : Receiver} (h : turn.Counts s) :
    ¬ turn.Keeps s := by
  obtain ⟨t, rfl, ht⟩ := h
  rintro ⟨-, hkeeps⟩
  exact Nat.succ_ne_self _ (ht.symm.trans hkeeps)

theorem not_counts_of_exit {r : ℤ} {t s : Receiver} : ¬ (Turn.exit r t).Counts s := by
  rintro ⟨t', ht, -⟩
  cases ht

theorem namePacket_taken {s : Receiver} (h3 : s.packetData.get 3 ≠ 0)
    (hsize : (str2Int (headerSize s.packetData) s.size).2 ≤ 0x80000 - 1) :
    (namePacket s).Counts s := by
  rw [namePacket, if_pos h3]
  dsimp only
  rw [if_neg (by omega)]
  exact ⟨_, rfl, rfl⟩

theorem namePacket_refused {s : Receiver}
    (h : ¬ (s.packetData.get 3 ≠ 0 ∧ (str2Int (headerSize s.packetData) s.size).2 ≤ 0x80000 - 1)) :
    (namePacket s).Keeps s ∧ ¬ (namePacket s).Counts s := by
  unfold namePacket
  dsimp only
  split_ifs with h3 hsize
  · exact ⟨⟨rfl, rfl⟩, not_counts_of_exit⟩
  · exact absurd ⟨h3, by omega⟩ h
  · refine ⟨⟨rfl, rfl⟩, ?_⟩
    rintro ⟨t, ht, -⟩
    cases ht

theorem filePacket_of_refused {length : ℕ} {s : Receiver} {flash : Flash}
    (h : sfWriteBuffer (copyPacket length s.packetData s.buf) s.flashDestination 8 s.flash =
      (false, flash)) :
    filePacket sfWriteBuffer length s = .exit (-2) (sendBytes [0x18, 0x18] { s with
      buf := copyPacket length s.packetData s.buf
      flash }) := by
  rw [filePacket]
  simp only [h]
  rfl

theorem accept_counts {s t : Receiver} (h : t.packetsReceived = s.packetsReceived) :
    (accept t).Counts s :=
  ⟨_, rfl, congrArg (· + 1) h⟩

theorem filePacket_outcomes (length : ℕ) (s : Receiver) : ∃ flash,
    sfWriteBuffer (copyPacket length s.packetData s.buf) s.flashDestination 8 s.flash =
          (true, flash) ∧
        filePacket sfWriteBuffer length s = accept (sendBytes [0x06] { s with
          buf := copyPacket length s.packetData s.buf
          flash
          flashDestination := s.flashDestination + UInt32.ofNat length }) ∨
      sfWriteBuffer (copyPacket length s.packetData s.buf) s.flashDestination 8 s.flash =
          (false, flash) ∧
        filePacket sfWriteBuffer length s = .exit (-2) (sendBytes [0x18, 0x18] { s with
          buf := copyPacket length s.packetData s.buf
          flash }) := by
  obtain ⟨written, flash, hw⟩ : ∃ written flash,
      sfWriteBuffer (copyPacket length s.packetData s.buf) s.flashDestination 8 s.flash =
        (written, flash) := ⟨_, _, rfl⟩
  refine ⟨flash, ?_⟩
  cases written with
  | true => exact Or.inl ⟨hw, filePacket_of_written hw⟩
  | false => exact Or.inr ⟨hw, filePacket_of_refused sfWriteBuffer hw⟩

/-- A file packet is counted, or the turn ends with the flash as the refused write
left it. -/
theorem filePacket_cases (length : ℕ) (s : Receiver) :
    (filePacket sfWriteBuffer length s).Counts s ∧
        (sfWriteBuffer (copyPacket length s.packetData s.buf) s.flashDestination 8 s.flash).1 =
          true ∨
      ¬ (filePacket sfWriteBuffer length s).Counts s ∧
        (filePacket sfWriteBuffer length s).state.packetsReceived = s.packetsReceived ∧
        sfWriteBuffer (copyPacket length s.packetData s.buf) s.flashDestination 8 s.flash =
          (false, (filePacket sfWriteBuffer length s).state.flash) := by
  obtain ⟨flash, ⟨hw, hfile⟩ | ⟨hw, hfile⟩⟩ := filePacket_outcomes sfWriteBuffer length s
  · refine Or.inl ⟨?_, congrArg Prod.fst hw⟩
    rw [hfile]
    apply accept_counts
    rw [sendBytes]
  · rw [hfile]
    refine Or.inr ⟨not_counts_of_exit, ?_, ?_⟩
    · rw [Turn.state, sendBytes]
    · rw [hw, Turn.state, sendBytes]

/-- A complete packet that is taken is counted or changes the flash. -/
theorem goodPacket_taken {length : ℤ} (habort : length ≠ -1) (heot : length ≠ 0) {s : Receiver}
    (h : Taken sfWriteBuffer length.toNat s) :
    ¬ (goodPacket sfWriteBuffer length s).Keeps s := by
  obtain ⟨hseq, h⟩ := h
  rw [goodPacket, if_neg habort, if_neg heot, if_neg (not_not.mpr hseq)]
  split_ifs at h ⊢ with hfirst
  · exact (namePacket_taken h.1 h.2).not_keeps
  · rcases filePacket_cases sfWriteBuffer length.toNat s with ⟨hcounts, -⟩ | ⟨-, -, hw⟩
    · exact hcounts.not_keeps
    · intro hkeeps
      rw [hkeeps.1] at hw
      exact h hw

theorem goodPacket_refused {length : ℤ} (habort : length ≠ -1) (heot : length ≠ 0) {s : Receiver}
    (h : ¬ Taken sfWriteBuffer length.toNat s) :
    (goodPacket sfWriteBuffer length s).Keeps s ∧
      ¬ (goodPacket sfWriteBuffer length s).Counts s := by
  rw [goodPacket, if_neg habort, if_neg heot]
  by_cases hseq : (s.packetData.get 1).toNat = s.packetsReceived % 256
  · rw [if_neg (not_not.mpr hseq)]
    have hrest := fun hrest => h ⟨hseq, hrest⟩
    split_ifs at hrest ⊢ with hfirst
    · exact namePacket_refused hrest
    · rcases filePacket_cases sfWriteBuffer length.toNat s with ⟨-, hw⟩ | ⟨hno, hcount, hw⟩
      · refine absurd (fun heq => ?_) hrest
        rw [heq] at hw
        cases hw
      · rw [not_not.mp hrest, Prod.mk.injEq] at hw
        exact ⟨⟨hw.2.symm, hcount⟩, hno⟩
  · rw [if_pos hseq]
    refine ⟨⟨rfl, rfl⟩, ?_⟩
    rintro ⟨t, ht, hcount⟩
    cases ht
    exact absurd hcount (by simp [sendBytes])

theorem receiveTurn_incomplete {s : Receiver} (h : ¬ s.received.Complete) :
    (receiveTurn sfWriteBuffer s).Keeps s ∧ ¬ (receiveTurn sfWriteBuffer s).Counts s := by
  have hnext : ∀ t : Receiver, t.packetsReceived = s.packetsReceived →
      ¬ (Turn.next t).Counts s := by
    rintro t ht ⟨t', heq, hcount⟩
    cases heq
    exact absurd (ht.symm.trans hcount) (Nat.succ_ne_self _).symm
  unfold receiveTurn
  dsimp only
  split_ifs with h0 h1
  · unfold goodPacket
    split_ifs with habort heot
    · exact ⟨⟨rfl, rfl⟩, not_counts_of_exit⟩
    · refine ⟨⟨rfl, rfl⟩, ?_⟩
      rintro ⟨t, ht, -⟩
      cases ht
    all_goals exact absurd ⟨h0, habort, heot⟩ h
  · exact ⟨⟨rfl, rfl⟩, not_counts_of_exit⟩
  · unfold badPacket
    dsimp only
    split_ifs
    · exact ⟨⟨rfl, rfl⟩, not_counts_of_exit⟩
    · exact ⟨⟨rfl, rfl⟩, hnext _ rfl⟩
    · exact ⟨⟨rfl, rfl⟩, not_counts_of_exit⟩
    · exact ⟨⟨rfl, rfl⟩, hnext _ rfl⟩

theorem receiveTurn_complete {s : Receiver} (h : s.received.Complete) :
    receiveTurn sfWriteBuffer s = goodPacket sfWriteBuffer s.received.length s.withPacket :=
  if_pos h.1

/-- A turn refuses corrupted packets exactly when the packet it takes is not one. -/
theorem refusesCorrupted_iff (s : Receiver) :
    RefusesCorrupted sfWriteBuffer s ↔ TakesChecked sfWriteBuffer s := by
  by_cases hcomplete : s.received.Complete
  · have hturn := receiveTurn_complete sfWriteBuffer hcomplete
    constructor
    · intro h _ htaken
      by_contra hcrc
      have hkeeps := h.refused hcomplete hcrc
      rw [hturn] at hkeeps
      exact goodPacket_taken sfWriteBuffer hcomplete.2.1 hcomplete.2.2 htaken hkeeps
    · intro h
      by_cases htaken : Taken sfWriteBuffer s.received.length.toNat s.withPacket
      · have hcrc := h hcomplete htaken
        exact ⟨fun _ => ⟨hcomplete, hcrc⟩, fun _ hbad => absurd hcrc hbad⟩
      · obtain ⟨hkeeps, hno⟩ :=
          goodPacket_refused sfWriteBuffer hcomplete.2.1 hcomplete.2.2 htaken
        rw [← hturn] at hkeeps hno
        exact ⟨fun hcounts => absurd hcounts hno, fun _ _ => hkeeps⟩
  · obtain ⟨hkeeps, hno⟩ := receiveTurn_incomplete sfWriteBuffer hcomplete
    exact iff_of_true ⟨fun hcounts => absurd hcounts hno, fun h => absurd h hcomplete⟩
      fun h => absurd h hcomplete

/-! ### The session -/

/-- One turn of the two loops, as long as `Ymodem_Receive` goes on. -/
def receiverStep (_ : Unit) (s : Receiver) : Option Receiver :=
  match receiveTurn sfWriteBuffer s with
  | .next s => some s
  | .fileDone s => some { s with packetsReceived := 0 }
  | .sessionDone _ => none
  | .exit _ _ => none

/-- The state in which `Ymodem_Receive` starts to receive. -/
def sessionStart (buf : Vector UInt8 1024) (packetData : PacketData) (flash : Flash)
    (line : SerialLine) : Receiver where
  packetData := packetData
  buf := buf
  fileName := []
  size := 0
  flashDestination := 0
  flash := flash
  line := line
  sent := []
  packetsReceived := 0
  errors := 0
  sessionBegin := false

/-- Every turn of the session up to the `k`-th has the property. -/
def AllTurns (P : Receiver → Prop) (k : ℕ) (s : Receiver) : Prop :=
  Runs.AllSteps (receiverStep sfWriteBuffer) (fun s _ => P s) s (List.replicate k ())

/-- A session refuses corrupted packets exactly when none of the packets it takes is
one. -/
theorem session_refusesCorrupted_iff (buf : Vector UInt8 1024) (packetData : PacketData)
    (flash : Flash) (line : SerialLine) (k : ℕ) :
    AllTurns sfWriteBuffer (RefusesCorrupted sfWriteBuffer) k
        (sessionStart buf packetData flash line) ↔
      AllTurns sfWriteBuffer (TakesChecked sfWriteBuffer) k
        (sessionStart buf packetData flash line) := by
  have heq : RefusesCorrupted sfWriteBuffer = TakesChecked sfWriteBuffer :=
    funext fun s => propext (refusesCorrupted_iff sfWriteBuffer s)
  rw [heq]

end Receive

/-- A file name packet with the trailer `00 00`, which is not its CRC. -/
def unsignedHeader : SerialLine :=
  ((shortPacket [0x62, 0, 0x39, 0] (by decide)).bytes 0).map some

set_option maxRecDepth 8000 in
/-- The receiver counts it, with any `sf_WriteBuffer`. -/
theorem unsignedHeader_counted : ¬ ∀ (sfWriteBuffer : SfWriteBuffer) (buf : Vector UInt8 1024)
    (packetData : PacketData) (flash : Flash) (line : SerialLine) (k : ℕ),
      AllTurns sfWriteBuffer (RefusesCorrupted sfWriteBuffer) k
        (sessionStart buf packetData flash line) := by
  intro h
  have hturns := h (fun _ _ _ flash => (true, flash)) (Vector.replicate 1024 0)
    (Vector.replicate 1029 0) erased unsignedHeader 1
  have hchecked := (refusesCorrupted_iff _ _).mp hturns.1
  have hpacket : let p := receivePacket (Vector.replicate 1029 0) unsignedHeader
      (p.status = 0 ∧ p.length = 128) ∧ (p.data.get 1).toNat = 0 ∧
        (p.data.get 3 ≠ 0 ∧ (str2Int (headerSize p.data) 0).2 ≤ 0x80000 - 1) ∧
        calCRC16 p.payload ≠ p.trailer := by
    decide +kernel
  have hreceived : (sessionStart (Vector.replicate 1024 0) (Vector.replicate 1029 0) erased
      unsignedHeader).received = receivePacket (Vector.replicate 1029 0) unsignedHeader := rfl
  rw [TakesChecked, Receiver.withPacket, hreceived] at hchecked
  generalize receivePacket (Vector.replicate 1029 0) unsignedHeader = p at hpacket hchecked
  obtain ⟨⟨hstatus, hlength⟩, hseq, hname, hbad⟩ := hpacket
  apply hbad
  apply hchecked
  · refine ⟨hstatus, ?_, ?_⟩
    · rw [hlength]
      decide
    · rw [hlength]
      decide
  · exact ⟨hseq, (if_pos rfl).mpr hname⟩

end YckjAcu
