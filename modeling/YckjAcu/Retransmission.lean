import YckjAcu.PacketCheck

/-!
# Repeated packets

A packet with the number of the one before is answered with `NAK` and changes
nothing else.  A session in which packets are repeated therefore makes the same
calls of `sf_WriteBuffer` as the one without, and ends as it does.
-/

namespace YckjAcu

/-! ### The lines of the two sessions -/

/-- The packets of a session, the others than the header after at most `MAX_ERRORS`
timeouts. -/
structure Sending where
  header : Packet
  file : List (ℕ × Packet)
  last : Packet
  headerWait : ℕ
  eotWait : ℕ
  lastWait : ℕ
  last_payload : last.payload.head? = some 0
  fileWait_le : ∀ q ∈ file, q.1 ≤ 5
  eotWait_le : eotWait ≤ 5
  lastWait_le : lastWait ≤ 5

def Transmission.sending {F : List UInt8} (T : Transmission F) : Sending where
  header := T.header
  file := T.file
  last := T.last
  headerWait := T.headerWait
  eotWait := T.eotWait
  lastWait := T.lastWait
  last_payload := T.last_payload
  fileWait_le := T.fileWait_le
  eotWait_le := T.eotWait_le
  lastWait_le := T.lastWait_le

/-- The line of the session without losses. -/
def Sending.line (S : Sending) (after : SerialLine) : SerialLine :=
  packetLine S.headerWait (S.header.bytes 0) <| fileLine 1 S.file <|
    packetLine S.eotWait [0x04] <| packetLine S.lastWait (S.last.bytes 0) after

/-- The packet again and again, each time after some timeouts. -/
def repeatLine (bytes : List UInt8) : List ℕ → SerialLine → SerialLine
  | [], line => line
  | w :: ws, line => packetLine w bytes (repeatLine bytes ws line)

/-- Which file packets are repeated, and after how many timeouts each time. -/
structure Repeats where
  waits : ℕ → List ℕ
  waits_le : ∀ i, ∀ w ∈ waits i, w ≤ 5

def lossyFileLine (reps : Repeats) : ℕ → List (ℕ × Packet) → SerialLine → SerialLine
  | _, [], line => line
  | i, q :: qs, line =>
      packetLine q.1 (q.2.bytes (UInt8.ofNat i)) <|
        repeatLine (q.2.bytes (UInt8.ofNat i)) (reps.waits i) (lossyFileLine reps (i + 1) qs line)

/-- The line of a session in which acknowledgements of file packets are lost. -/
def Sending.lossyLine (S : Sending) (reps : Repeats) (after : SerialLine) : SerialLine :=
  packetLine S.headerWait (S.header.bytes 0) <| lossyFileLine reps 1 S.file <|
    packetLine S.eotWait [0x04] <| packetLine S.lastWait (S.last.bytes 0) after

/-! ### The calls of a session -/

structure WriteCall where
  buf : Vector UInt8 1024
  addr : UInt32
  size : UInt16

/-- The calls of `sf_WriteBuffer` in one turn. -/
def turnCalls (s : Receiver) : List WriteCall :=
  let p := s.received
  if p.Complete ∧ (p.data.get 1).toNat = s.packetsReceived % 256 ∧ s.packetsReceived ≠ 0 then
    [⟨copyPacket p.length.toNat p.data s.buf, s.flashDestination, 8⟩]
  else []

section Receive

variable (sfWriteBuffer : SfWriteBuffer)

/-- The calls of at most `k` turns. -/
def loopCalls : ℕ → Receiver → List WriteCall
  | 0, _ => []
  | k + 1, s =>
      turnCalls s ++
        match receiveTurn sfWriteBuffer s with
        | .next t => loopCalls k t
        | .fileDone t => loopCalls k { t with packetsReceived := 0 }
        | .sessionDone _ => []
        | .exit _ _ => []

theorem flash_namePacket (s : Receiver) : (namePacket s).state.flash = s.flash := by
  unfold namePacket
  dsimp only
  split_ifs
  · rw [Turn.state, sendBytes]
  · rw [accept, Turn.state, sendBytes]
  · rw [Turn.state, sendBytes]

theorem flash_filePacket (length : ℕ) (s : Receiver) :
    (filePacket sfWriteBuffer length s).state.flash =
      (sfWriteBuffer (copyPacket length s.packetData s.buf) s.flashDestination 8 s.flash).2 := by
  obtain ⟨flash, ⟨hw, hfile⟩ | ⟨hw, hfile⟩⟩ := filePacket_outcomes sfWriteBuffer length s
  · rw [hw, hfile, accept, Turn.state, sendBytes]
  · rw [hw, hfile, Turn.state, sendBytes]

theorem flash_receiveTurn (s : Receiver) : (receiveTurn sfWriteBuffer s).state.flash =
    (turnCalls s).foldl (fun flash c => (sfWriteBuffer c.buf c.addr c.size flash).2) s.flash := by
  rw [turnCalls]
  by_cases hcomplete : s.received.Complete
  · rw [receiveTurn_complete sfWriteBuffer hcomplete, goodPacket, if_neg hcomplete.2.1,
      if_neg hcomplete.2.2]
    by_cases hseq : (s.withPacket.packetData.get 1).toNat = s.withPacket.packetsReceived % 256
    · rw [if_neg (not_not.mpr hseq)]
      by_cases hfirst : s.withPacket.packetsReceived = 0
      · rw [if_pos hfirst, if_neg (fun h => h.2.2 hfirst)]
        exact flash_namePacket _
      · rw [if_neg hfirst, if_pos ⟨hcomplete, hseq, hfirst⟩]
        exact flash_filePacket sfWriteBuffer _ _
    · rw [if_pos hseq, if_neg (fun h => hseq h.2.1)]
      rfl
  · rw [if_neg (fun h => hcomplete h.1)]
    exact (receiveTurn_incomplete sfWriteBuffer hcomplete).1.1

theorem flash_receiveLoop {k : ℕ} {s t : Receiver} {r : ℤ}
    (h : receiveLoop sfWriteBuffer k s = some (r, t)) :
    t.flash = (loopCalls sfWriteBuffer k s).foldl
      (fun flash c => (sfWriteBuffer c.buf c.addr c.size flash).2) s.flash := by
  induction k generalizing s with
  | zero => cases h
  | succ k ih =>
      have hflash := flash_receiveTurn sfWriteBuffer s
      rw [receiveLoop] at h
      rw [loopCalls, List.foldl_append, ← hflash]
      cases hturn : receiveTurn sfWriteBuffer s with
      | next u =>
          rw [hturn] at h
          exact ih h
      | fileDone u =>
          rw [hturn] at h
          exact ih h
      | sessionDone u =>
          rw [hturn] at h
          cases h
          rfl
      | exit r u =>
          rw [hturn] at h
          cases h
          rfl

/-- The session ends after these calls, with this result and flash. -/
def Ends (s : Receiver) (calls : List WriteCall) (r : ℤ) (flash : Flash) : Prop :=
  ∃ k t, receiveLoop sfWriteBuffer k s = some (r, t) ∧ loopCalls sfWriteBuffer k s = calls ∧
    t.flash = flash

/-- What is left of the session after a turn. -/
def TurnEnds (turn : Turn) (calls : List WriteCall) (r : ℤ) (flash : Flash) : Prop :=
  match turn with
  | .next t => Ends sfWriteBuffer t calls r flash
  | .fileDone t => Ends sfWriteBuffer { t with packetsReceived := 0 } calls r flash
  | .sessionDone t => calls = [] ∧ r = t.size ∧ flash = t.flash
  | .exit r' t => calls = [] ∧ r = r' ∧ flash = t.flash

variable {sfWriteBuffer}

theorem ends_of_turn {s : Receiver} {calls : List WriteCall} {r : ℤ} {flash : Flash}
    (h : TurnEnds sfWriteBuffer (receiveTurn sfWriteBuffer s) calls r flash) :
    Ends sfWriteBuffer s (turnCalls s ++ calls) r flash := by
  cases hturn : receiveTurn sfWriteBuffer s with
  | next t =>
      rw [hturn] at h
      obtain ⟨k, u, hrun, hcalls, hflash⟩ := h
      refine ⟨k + 1, u, ?_, ?_, hflash⟩
      · rwa [receiveLoop, hturn]
      · rw [loopCalls, hturn, ← hcalls]
  | fileDone t =>
      rw [hturn] at h
      obtain ⟨k, u, hrun, hcalls, hflash⟩ := h
      refine ⟨k + 1, u, ?_, ?_, hflash⟩
      · rwa [receiveLoop, hturn]
      · rw [loopCalls, hturn, ← hcalls]
  | sessionDone t =>
      rw [hturn] at h
      obtain ⟨rfl, rfl, rfl⟩ := h
      refine ⟨1, t, ?_, ?_, rfl⟩
      · rw [receiveLoop, hturn]
      · rw [loopCalls, hturn]
  | exit r' t =>
      rw [hturn] at h
      obtain ⟨rfl, rfl, rfl⟩ := h
      refine ⟨1, t, ?_, ?_, rfl⟩
      · rw [receiveLoop, hturn]
      · rw [loopCalls, hturn]

/-! ### Two sessions side by side -/

/-- The states differ in the line, which is this one on each side, and in what was
sent. -/
def Alike (line line' : SerialLine) (s s' : Receiver) : Prop :=
  s.line = line ∧ ∃ sent, s' = { s with line := line', sent }

def Turn.Alike (line line' : SerialLine) : Turn → Turn → Prop
  | .next s, .next s' => YckjAcu.Alike line line' s s'
  | .fileDone s, .fileDone s' => YckjAcu.Alike line line' s s'
  | .sessionDone s, .sessionDone s' => YckjAcu.Alike line line' s s'
  | .exit r s, .exit r' s' => r = r' ∧ YckjAcu.Alike line line' s s'
  | _, _ => False

section Alike

variable {line line' : SerialLine} {s s' : Receiver}

theorem sendBytes_alike {bytes : List UInt8} (h : Alike line line' s s') :
    Alike line line' (sendBytes bytes s) (sendBytes bytes s') := by
  obtain ⟨rfl, sent, rfl⟩ := h
  exact ⟨rfl, _, rfl⟩

theorem accept_alike (h : Alike line line' s s') :
    Turn.Alike line line' (accept s) (accept s') := by
  obtain ⟨rfl, sent, rfl⟩ := h
  exact ⟨rfl, sent, rfl⟩

theorem namePacket_alike (h : Alike line line' s s') :
    Turn.Alike line line' (namePacket s) (namePacket s') := by
  obtain ⟨rfl, sent, rfl⟩ := h
  unfold namePacket
  dsimp only
  split_ifs
  · exact ⟨rfl, rfl, _, rfl⟩
  · exact ⟨rfl, _, rfl⟩
  · exact ⟨rfl, _, rfl⟩

variable (sfWriteBuffer) in
theorem filePacket_alike (length : ℕ) (h : Alike line line' s s') :
    Turn.Alike line line' (filePacket sfWriteBuffer length s)
      (filePacket sfWriteBuffer length s') := by
  obtain ⟨rfl, sent, rfl⟩ := h
  obtain ⟨flash, ⟨hw, hfile⟩ | ⟨hw, hfile⟩⟩ := filePacket_outcomes sfWriteBuffer length s
  · rw [hfile, filePacket_of_written (s := { s with line := line', sent }) hw]
    exact accept_alike (sendBytes_alike ⟨rfl, sent, rfl⟩)
  · rw [hfile, filePacket_of_refused sfWriteBuffer (s := { s with line := line', sent }) hw]
    exact ⟨rfl, sendBytes_alike ⟨rfl, sent, rfl⟩⟩

/-- The switch looks neither at the line nor at what was sent. -/
theorem goodPacket_alike (length : ℤ) (h : Alike line line' s s') :
    Turn.Alike line line' (goodPacket sfWriteBuffer length s)
      (goodPacket sfWriteBuffer length s') := by
  have hname := namePacket_alike h
  have hfile := filePacket_alike sfWriteBuffer length.toNat h
  obtain ⟨rfl, sent, rfl⟩ := h
  unfold goodPacket
  split_ifs
  · exact ⟨rfl, rfl, _, rfl⟩
  · exact ⟨rfl, _, rfl⟩
  · exact ⟨rfl, _, rfl⟩
  · exact hname
  · exact hfile

theorem badPacket_alike (h : Alike line line' s s') :
    Turn.Alike line line' (badPacket s) (badPacket s') := by
  obtain ⟨rfl, sent, rfl⟩ := h
  unfold badPacket
  dsimp only
  split_ifs
  · exact ⟨rfl, rfl, _, rfl⟩
  · exact ⟨rfl, _, rfl⟩
  · exact ⟨rfl, rfl, _, rfl⟩
  · exact ⟨rfl, _, rfl⟩

section Turn

variable {rest rest' : SerialLine} {status length : ℤ} {data : PacketData}

theorem receiveTurn_alike (h : Alike line line' s s')
    (hs : s.received = ⟨status, length, data, rest⟩)
    (hs' : s'.received = ⟨status, length, data, rest'⟩) :
    Turn.Alike rest rest' (receiveTurn sfWriteBuffer s) (receiveTurn sfWriteBuffer s') := by
  obtain ⟨rfl, sent, rfl⟩ := h
  rw [Receiver.received] at hs hs'
  rw [receiveTurn, receiveTurn, hs, hs']
  dsimp only
  split_ifs
  · exact goodPacket_alike length ⟨rfl, _, rfl⟩
  · exact ⟨rfl, rfl, _, rfl⟩
  · exact badPacket_alike ⟨rfl, _, rfl⟩

theorem turnCalls_alike (h : Alike line line' s s')
    (hs : s.received = ⟨status, length, data, rest⟩)
    (hs' : s'.received = ⟨status, length, data, rest'⟩) : turnCalls s' = turnCalls s := by
  obtain ⟨rfl, sent, rfl⟩ := h
  rw [turnCalls, turnCalls, hs, hs']
  rfl

end Turn

variable (sfWriteBuffer) in
/-- Both sessions end, after the same calls and with the same result and flash. -/
def EndsBoth (s s' : Receiver) : Prop :=
  ∃ calls r flash, Ends sfWriteBuffer s calls r flash ∧ Ends sfWriteBuffer s' calls r flash

theorem endsBoth_of_turn (hcalls : turnCalls s' = turnCalls s)
    (hturn : Turn.Alike line line' (receiveTurn sfWriteBuffer s) (receiveTurn sfWriteBuffer s'))
    (hnext : ∀ t t', receiveTurn sfWriteBuffer s = .next t → Alike line line' t t' →
      EndsBoth sfWriteBuffer t t')
    (hdone : ∀ t t', receiveTurn sfWriteBuffer s = .fileDone t → Alike line line' t t' →
      EndsBoth sfWriteBuffer { t with packetsReceived := 0 } { t' with packetsReceived := 0 }) :
    EndsBoth sfWriteBuffer s s' := by
  have hboth : ∀ calls r flash,
      TurnEnds sfWriteBuffer (receiveTurn sfWriteBuffer s) calls r flash →
      TurnEnds sfWriteBuffer (receiveTurn sfWriteBuffer s') calls r flash →
        EndsBoth sfWriteBuffer s s' := by
    intro calls r flash h h'
    have hends' := ends_of_turn h'
    rw [hcalls] at hends'
    exact ⟨_, r, flash, ends_of_turn h, hends'⟩
  cases hs : receiveTurn sfWriteBuffer s <;> cases hs' : receiveTurn sfWriteBuffer s'
  all_goals rw [hs, hs'] at hturn hboth
  case next.next t t' =>
    obtain ⟨calls, r, flash, ht, ht'⟩ := hnext t t' hs hturn
    exact hboth calls r flash ht ht'
  case fileDone.fileDone t t' =>
    obtain ⟨calls, r, flash, ht, ht'⟩ := hdone t t' hs hturn
    exact hboth calls r flash ht ht'
  case sessionDone.sessionDone t t' =>
    obtain ⟨-, sent, rfl⟩ := hturn
    exact hboth [] t.size t.flash ⟨rfl, rfl, rfl⟩ ⟨rfl, rfl, rfl⟩
  case exit.exit r t r' t' =>
    obtain ⟨rfl, -, sent, rfl⟩ := hturn
    exact hboth [] r t.flash ⟨rfl, rfl, rfl⟩ ⟨rfl, rfl, rfl⟩
  all_goals exact hturn.elim

/-- A turn of the second session that only answers. -/
theorem endsBoth_skip {t' : Receiver} (hturn : receiveTurn sfWriteBuffer s' = .next t')
    (hcalls : turnCalls s' = []) (h : EndsBoth sfWriteBuffer s t') :
    EndsBoth sfWriteBuffer s s' := by
  obtain ⟨calls, r, flash, hs, ht⟩ := h
  have hends : TurnEnds sfWriteBuffer (receiveTurn sfWriteBuffer s') calls r flash := by
    rw [hturn]
    exact ht
  have hs' := ends_of_turn hends
  rw [hcalls, List.nil_append] at hs'
  exact ⟨calls, r, flash, hs, hs'⟩

/-! ### Timeouts -/

theorem received_timeout (hline : s.line = none :: line) :
    s.received = ⟨-1, 0, s.packetData, line⟩ := by
  rw [Receiver.received, hline, receivePacket_timeout]

theorem turnCalls_timeout (hline : s.line = none :: line) : turnCalls s = [] := by
  rw [turnCalls, received_timeout hline]
  have hno : ¬ (-1 : ℤ) = 0 := by decide
  exact if_neg fun h => hno h.1.1

theorem endsBoth_timeouts {w : ℕ}
    (h : Alike (List.replicate w none ++ line) (List.replicate w none ++ line') s s')
    (herr : s.errors + (if s.sessionBegin then w else 0) ≤ 5)
    (hrest : ∀ errors sent t', Alike line line' { s with line, errors, sent } t' →
      EndsBoth sfWriteBuffer { s with line, errors, sent } t') :
    EndsBoth sfWriteBuffer s s' := by
  induction w generalizing s s' with
  | zero =>
      have hline : s.line = line := h.1
      have hs : s = { s with line, errors := s.errors, sent := s.sent } := by rw [← hline]
      rw [hs]
      apply hrest
      rw [← hs]
      exact h
  | succ w ih =>
      obtain ⟨hline, sent', hs'⟩ := id h
      have hline' : s'.line = none :: (List.replicate w none ++ line') := by
        rw [hs']
        rfl
      have hturn := receiveTurn_timeout sfWriteBuffer (s := s) hline
        (by split_ifs at herr ⊢ <;> omega)
      have hdata : s'.packetData = s.packetData := by rw [hs']
      have hgot' := received_timeout hline'
      rw [hdata] at hgot'
      have hgot := received_timeout (s := s) hline
      apply endsBoth_of_turn (turnCalls_alike h hgot hgot') (receiveTurn_alike h hgot hgot')
      · intro t t' ht halike
        rw [hturn, Turn.next.injEq] at ht
        subst ht
        apply ih halike
        · dsimp only
          split_ifs at herr ⊢ <;> omega
        · intro errors sent t'' ht''
          exact hrest errors sent t'' ht''
      · intro t t' ht
        rw [hturn] at ht
        cases ht

theorem endsBoth_timeouts_right {w : ℕ} (hline : s'.line = List.replicate w none ++ line')
    (herr : s'.errors + (if s'.sessionBegin then w else 0) ≤ 5)
    (hrest : ∀ errors sent, EndsBoth sfWriteBuffer s { s' with line := line', errors, sent }) :
    EndsBoth sfWriteBuffer s s' := by
  induction w generalizing s' with
  | zero =>
      have hs' : s' = { s' with line := line', errors := s'.errors, sent := s'.sent } := by
        rw [List.replicate_zero, List.nil_append] at hline
        rw [← hline]
      rw [hs']
      exact hrest _ _
  | succ w ih =>
      have hturn := receiveTurn_timeout sfWriteBuffer (s := s') hline
        (by split_ifs at herr ⊢ <;> omega)
      apply endsBoth_skip hturn (turnCalls_timeout (s := s') hline)
      apply ih rfl
      · dsimp only
        split_ifs at herr ⊢ <;> omega
      · intro errors sent
        exact hrest errors sent

/-! ### Packets -/

/-- The array after the packet has come over it. -/
def packetOver (p : Packet) (seq : UInt8) (data : PacketData) : PacketData :=
  (receivePacket data ((p.bytes seq).map some)).data

variable {p : Packet} {seq : UInt8}

theorem toList_packetOver (p : Packet) (seq : UInt8) (data : PacketData) :
    (packetOver p seq data).toList = p.bytes seq ++ data.toList.drop (p.bytes seq).length := by
  obtain ⟨data', hrun, hdata⟩ := receivePacket_over p seq data []
  rw [List.append_nil] at hrun
  rw [packetOver, hrun, hdata]

theorem received_packet (hline : s.line = (p.bytes seq).map some ++ line) :
    s.received = ⟨0, p.payload.length, packetOver p seq s.packetData, line⟩ := by
  obtain ⟨data', hrun, hdata⟩ := receivePacket_over p seq s.packetData line
  rw [← toList_packetOver, Vector.toList_inj] at hdata
  rw [Receiver.received, hline, hrun, hdata]

theorem packetOver_packetOver (p : Packet) (seq : UInt8) (data : PacketData) :
    packetOver p seq (packetOver p seq data) = packetOver p seq data := by
  rw [← Vector.toList_inj, toList_packetOver, toList_packetOver, List.drop_left]

theorem packetOver_number (p : Packet) (seq : UInt8) (data : PacketData) :
    (packetOver p seq data).get 1 = seq :=
  get_of_toList (toList_packetOver p seq data) (by simp [Packet.bytes])

theorem Packet.length_ne_abort (p : Packet) : (p.payload.length : ℤ) ≠ -1 := by omega

theorem Packet.length_ne_eot (p : Packet) : (p.payload.length : ℤ) ≠ 0 := by
  rcases p.length_eq with h | h <;> omega

theorem withPacket_packet (hline : s.line = (p.bytes seq).map some ++ line) :
    s.withPacket =
      { s with packetData := packetOver p seq s.packetData, line, errors := 0 } := by
  rw [Receiver.withPacket, received_packet hline]

variable (sfWriteBuffer) in
theorem receiveTurn_received (hline : s.line = (p.bytes seq).map some ++ line) :
    receiveTurn sfWriteBuffer s = goodPacket sfWriteBuffer p.payload.length
      { s with packetData := packetOver p seq s.packetData, line, errors := 0 } := by
  have hgot := received_packet hline
  have hcomplete : s.received.Complete := by
    rw [hgot]
    exact ⟨rfl, p.length_ne_abort, p.length_ne_eot⟩
  rw [receiveTurn_complete sfWriteBuffer hcomplete, withPacket_packet hline, hgot]

/-- The turn counts the packet that is in the array. -/
structure Counts (s t : Receiver) : Prop where
  packetData : t.packetData = s.packetData
  received : t.packetsReceived = s.packetsReceived + 1
  began : t.sessionBegin = true
  errors : t.errors = s.errors

theorem accept_counts_next {t : Receiver} (h : accept t = .next s')
    (hdata : t.packetData = s.packetData) (hcount : t.packetsReceived = s.packetsReceived)
    (herr : t.errors = s.errors) : Counts s s' := by
  cases h
  exact ⟨hdata, congrArg (· + 1) hcount, rfl, herr⟩

theorem namePacket_counts (h : namePacket s = .next s') : Counts s s' := by
  unfold namePacket at h
  dsimp only at h
  split_ifs at h
  · apply accept_counts_next h <;> rfl

theorem filePacket_counts {length : ℕ} (h : filePacket sfWriteBuffer length s = .next s') :
    Counts s s' := by
  obtain ⟨flash, ⟨-, hfile⟩ | ⟨-, hfile⟩⟩ := filePacket_outcomes sfWriteBuffer length s
  · apply accept_counts_next (hfile.symm.trans h) <;> rw [sendBytes]
  · rw [hfile] at h
    cases h

theorem namePacket_ne_fileDone : namePacket s ≠ .fileDone s' := by
  intro h
  unfold namePacket at h
  dsimp only at h
  split_ifs at h
  · cases h

theorem filePacket_ne_fileDone {length : ℕ} :
    filePacket sfWriteBuffer length s ≠ .fileDone s' := by
  intro h
  obtain ⟨flash, ⟨-, hfile⟩ | ⟨-, hfile⟩⟩ := filePacket_outcomes sfWriteBuffer length s
  · rw [hfile] at h
    cases h
  · rw [hfile] at h
    cases h

theorem goodPacket_counts (hseq : (s.packetData.get 1).toNat = s.packetsReceived % 256)
    (h : goodPacket sfWriteBuffer p.payload.length s = .next s') : Counts s s' := by
  rw [goodPacket, if_neg p.length_ne_abort, if_neg p.length_ne_eot, if_neg (not_not.mpr hseq)] at h
  split_ifs at h
  · exact namePacket_counts h
  · exact filePacket_counts h

theorem goodPacket_ne_fileDone (p : Packet) :
    goodPacket sfWriteBuffer p.payload.length s ≠ .fileDone s' := by
  rw [goodPacket, if_neg p.length_ne_abort, if_neg p.length_ne_eot]
  split_ifs
  · exact fun h => by cases h
  · exact namePacket_ne_fileDone
  · exact filePacket_ne_fileDone

/-- Both sessions receive the packet with the number they expect. -/
theorem endsBoth_packet {w : ℕ} (h : Alike (packetLine w (p.bytes seq) line)
      (packetLine w (p.bytes seq) line') s s')
    (herr : s.errors + (if s.sessionBegin then w else 0) ≤ 5)
    (hseq : seq.toNat = s.packetsReceived % 256)
    (hrest : ∀ t t', Alike line line' t t' → t.packetData = packetOver p seq s.packetData →
      t.packetsReceived = s.packetsReceived + 1 → t.sessionBegin = true → t.errors = 0 →
        EndsBoth sfWriteBuffer t t') :
    EndsBoth sfWriteBuffer s s' := by
  apply endsBoth_timeouts h herr
  intro errors sent u' hu
  obtain ⟨sent', hu'⟩ := hu.2
  have hgot := received_packet (s := { s with
    line := (p.bytes seq).map some ++ line, errors, sent }) rfl
  have hgot' : u'.received = ⟨0, p.payload.length, packetOver p seq s.packetData, line'⟩ := by
    rw [hu']
    exact received_packet rfl
  have hturn := receiveTurn_received sfWriteBuffer (s := { s with
    line := (p.bytes seq).map some ++ line, errors, sent }) rfl
  apply endsBoth_of_turn (turnCalls_alike hu hgot hgot') (receiveTurn_alike hu hgot hgot')
  · intro t t' ht halike
    rw [hturn] at ht
    obtain ⟨hdata, hcount, hbegan, herrors⟩ := goodPacket_counts (p := p) (by
      dsimp only
      rw [packetOver_number, hseq]) ht
    exact hrest t t' halike hdata hcount hbegan herrors
  · intro t t' ht
    rw [hturn] at ht
    exact absurd ht (goodPacket_ne_fileDone p)

/-! ### Repeated packets -/

/-- A packet arrives with the number of the file packet that was counted last. -/
def RepeatArrives (s : Receiver) : Prop :=
  s.received.Complete ∧ 2 ≤ s.packetsReceived ∧
    (s.received.data.get 1).toNat = (s.packetsReceived - 1) % 256

instance (s : Receiver) : Decidable (RepeatArrives s) := inferInstanceAs (Decidable (_ ∧ _))

variable (sfWriteBuffer) in
/-- It is answered with `NAK`, and otherwise only received. -/
theorem receiveTurn_repeat (h : RepeatArrives s) :
    receiveTurn sfWriteBuffer s = .next (sendBytes [0x15] s.withPacket) ∧ turnCalls s = [] := by
  obtain ⟨hcomplete, hcount, hseq⟩ := h
  have hother : (s.received.data.get 1).toNat ≠ s.packetsReceived % 256 := by omega
  constructor
  · rw [receiveTurn_complete sfWriteBuffer hcomplete, goodPacket, if_neg hcomplete.2.1,
      if_neg hcomplete.2.2]
    exact if_pos hother
  · exact if_neg fun h => hother h.2.1

/-- The second session takes no notice of the repetitions. -/
theorem endsBoth_repeats {ws : List ℕ} (hws : ∀ w ∈ ws, w ≤ 5)
    (hline : s'.line = repeatLine (p.bytes seq) ws line')
    (hdata : packetOver p seq s'.packetData = s'.packetData) (hcount : 2 ≤ s'.packetsReceived)
    (hseq : seq.toNat = (s'.packetsReceived - 1) % 256) (hbegan : s'.sessionBegin = true)
    (herr : s'.errors = 0)
    (hrest : ∀ sent, EndsBoth sfWriteBuffer s { s' with line := line', sent }) :
    EndsBoth sfWriteBuffer s s' := by
  induction ws generalizing s' with
  | nil =>
      have hs' : s' = { s' with line := line', sent := s'.sent } := by
        rw [repeatLine] at hline
        rw [← hline]
      rw [hs']
      exact hrest _
  | cons w ws ih =>
      obtain ⟨hw, hws⟩ := List.forall_mem_cons.mp hws
      apply endsBoth_timeouts_right hline (by rw [herr, hbegan, if_pos rfl]; omega)
      intro errors sent
      have hgot := received_packet (s := { s' with
        line := (p.bytes seq).map some ++ repeatLine (p.bytes seq) ws line', errors, sent }) rfl
      have harrives : RepeatArrives { s' with
          line := (p.bytes seq).map some ++ repeatLine (p.bytes seq) ws line', errors, sent } := by
        rw [RepeatArrives, hgot]
        dsimp only
        rw [packetOver_number]
        exact ⟨⟨rfl, p.length_ne_abort, p.length_ne_eot⟩, hcount, hseq⟩
      obtain ⟨hturn, hcalls⟩ := receiveTurn_repeat sfWriteBuffer harrives
      rw [withPacket_packet rfl] at hturn
      dsimp only at hturn
      rw [hdata] at hturn
      apply endsBoth_skip hturn hcalls
      rw [herr] at hrest
      exact ih hws rfl hdata hcount hseq hbegan rfl hrest

/-! ### The session -/

theorem endsBoth_file (reps : Repeats) {qs : List (ℕ × Packet)} (hqs : ∀ q ∈ qs, q.1 ≤ 5) {i : ℕ}
    (hi : 0 < i) (h : Alike (fileLine i qs line) (lossyFileLine reps i qs line) s s')
    (hcount : s.packetsReceived = i) (hbegan : s.sessionBegin = true) (herr : s.errors = 0)
    (hrest : ∀ t t', Alike line line t t' → t.sessionBegin = true → t.errors = 0 →
      EndsBoth sfWriteBuffer t t') :
    EndsBoth sfWriteBuffer s s' := by
  induction qs generalizing i s s' with
  | nil => exact hrest s s' h hbegan herr
  | cons q qs ih =>
      obtain ⟨hw, hqs⟩ := List.forall_mem_cons.mp hqs
      have hnumber : (UInt8.ofNat i).toNat = i % 256 := UInt8.toNat_ofNat'
      apply endsBoth_packet h
      · rw [herr, hbegan, if_pos rfl]
        omega
      · rw [hcount, hnumber]
      · intro t t' halike hdata hcount' hbegan' herr'
        obtain ⟨hline, sent, rfl⟩ := halike
        apply endsBoth_repeats (reps.waits_le i) rfl
        · dsimp only
          rw [hdata, packetOver_packetOver]
        · dsimp only
          omega
        · dsimp only
          rw [hcount', hcount, hnumber, Nat.add_sub_cancel]
        · exact hbegan'
        · exact herr'
        · intro sent'
          apply ih hqs (Nat.succ_pos i) ⟨hline, sent', rfl⟩ _ hbegan' herr'
          rw [hcount', hcount]

variable (sfWriteBuffer) in
theorem goodPacket_last {data : PacketData} (hp : p.payload.head? = some 0)
    (hdata : s.packetData = packetOver p 0 data) (hcount : s.packetsReceived = 0) :
    goodPacket sfWriteBuffer p.payload.length s = .sessionDone (sendBytes [0x06] s) := by
  obtain ⟨bs, hbs⟩ := List.head?_eq_some_iff.mp hp
  have hseq : ¬ (s.packetData.get 1).toNat ≠ s.packetsReceived % 256 := by
    rw [hdata, packetOver_number, hcount]
    decide
  have hempty : ¬ s.packetData.get 3 ≠ 0 := by
    have hlist : s.packetData.toList = p.bytes 0 ++ data.toList.drop (p.bytes 0).length := by
      rw [hdata, toList_packetOver]
    rw [get_of_toList hlist (by simp [Packet.bytes, hbs])]
    simp [Packet.bytes, hbs]
  rw [goodPacket, if_neg p.length_ne_abort, if_neg p.length_ne_eot, if_neg hseq, if_pos hcount,
    namePacket, if_neg hempty]

theorem endsBoth_last {w : ℕ} (hw : w ≤ 5) (hp : p.payload.head? = some 0)
    (h : Alike (packetLine w (p.bytes 0) line) (packetLine w (p.bytes 0) line) s s')
    (hcount : s.packetsReceived = 0) (hbegan : s.sessionBegin = true) (herr : s.errors = 0) :
    EndsBoth sfWriteBuffer s s' := by
  apply endsBoth_timeouts h (by rw [herr, hbegan, if_pos rfl]; omega)
  intro errors sent u' hu
  obtain ⟨sent', hu'⟩ := hu.2
  have hgot := received_packet (s := { s with
    line := (p.bytes 0).map some ++ line, errors, sent }) rfl
  have hgot' : u'.received = ⟨0, p.payload.length, packetOver p 0 s.packetData, line⟩ := by
    rw [hu']
    exact received_packet rfl
  have hturn := receiveTurn_received sfWriteBuffer (s := { s with
    line := (p.bytes 0).map some ++ line, errors, sent }) rfl
  have hlast := hturn.trans (goodPacket_last sfWriteBuffer hp rfl hcount)
  apply endsBoth_of_turn (turnCalls_alike hu hgot hgot') (receiveTurn_alike hu hgot hgot')
  · intro t t' ht
    rw [hlast] at ht
    cases ht
  · intro t t' ht
    rw [hlast] at ht
    cases ht

theorem endsBoth_end (S : Sending) {after : SerialLine}
    (h : Alike (packetLine S.eotWait [0x04] (packetLine S.lastWait (S.last.bytes 0) after))
      (packetLine S.eotWait [0x04] (packetLine S.lastWait (S.last.bytes 0) after)) s s')
    (hbegan : s.sessionBegin = true) (herr : s.errors = 0) : EndsBoth sfWriteBuffer s s' := by
  have heot := S.eotWait_le
  apply endsBoth_timeouts h (by rw [herr, hbegan, if_pos rfl]; omega)
  intro errors sent u' hu
  obtain ⟨sent', rfl⟩ := hu.2
  apply endsBoth_of_turn (turnCalls_alike hu rfl rfl) (receiveTurn_alike hu rfl rfl)
  · intro t t' ht
    cases ht
  · intro t t' ht halike
    cases ht
    obtain ⟨hline, sent'', rfl⟩ := halike
    exact endsBoth_last S.lastWait_le S.last_payload ⟨hline, sent'', rfl⟩ rfl hbegan rfl

theorem endsBoth_session (S : Sending) (reps : Repeats)
    (h : Alike (S.line line) (S.lossyLine reps line) s s') (hcount : s.packetsReceived = 0)
    (hbegan : s.sessionBegin = false) (herr : s.errors = 0) : EndsBoth sfWriteBuffer s s' := by
  apply endsBoth_packet h
  · rw [herr, hbegan, if_neg Bool.false_ne_true]
    exact Nat.zero_le 5
  · rw [hcount]
    rfl
  · intro t t' halike _ hcount' hbegan' herr'
    apply endsBoth_file reps S.fileWait_le Nat.one_pos halike _ hbegan' herr'
    · intro u u' hu hbegan herr
      exact endsBoth_end S hu hbegan herr
    · rw [hcount', hcount]

end Alike

/-! ### Retransmission -/

variable (sfWriteBuffer)

/-- The turn sends this byte, and neither programs a packet nor counts it. -/
def AnswersRepeat (answer : UInt8) (s : Receiver) : Prop :=
  ∃ t, receiveTurn sfWriteBuffer s = .next t ∧ t.sent = s.sent ++ [answer] ∧ turnCalls s = [] ∧
    t.flash = s.flash ∧ t.flashDestination = s.flashDestination ∧
    t.packetsReceived = s.packetsReceived

/-- Every repeated packet of the session is answered so. -/
def RepeatsAnswered (answer : UInt8) (s : Receiver) : Prop :=
  ∀ k, AllTurns sfWriteBuffer (fun s => RepeatArrives s → AnswersRepeat sfWriteBuffer answer s) k s

/-- `Ymodem_Receive` returns after these calls, with this result and flash. -/
def SessionEnds (buf : Vector UInt8 1024) (packetData : PacketData) (flash : Flash)
    (line : SerialLine) (calls : List WriteCall) (r : ℤ) (final : Flash) : Prop :=
  ∃ k t, ymodemReceive sfWriteBuffer k buf packetData flash line = some (r, t) ∧
    loopCalls sfWriteBuffer k (sessionStart buf packetData flash line) = calls ∧ t.flash = final

/-- The repeated packets are answered with `NAK`, and the session ends as without
them. -/
theorem retransmission_harmless (S : Sending) (reps : Repeats) (buf : Vector UInt8 1024)
    (packetData : PacketData) (flash : Flash) (after : SerialLine) :
    RepeatsAnswered sfWriteBuffer 0x15
        (sessionStart buf packetData flash (S.lossyLine reps after)) ∧
      ∃ calls r final,
        SessionEnds sfWriteBuffer buf packetData flash (S.line after) calls r final ∧
        SessionEnds sfWriteBuffer buf packetData flash (S.lossyLine reps after) calls r final := by
  constructor
  · intro k
    apply Runs.allSteps_of_forall
    intro s _ h
    obtain ⟨hturn, hcalls⟩ := receiveTurn_repeat sfWriteBuffer h
    exact ⟨_, hturn, rfl, hcalls, rfl, rfl, rfl⟩
  · exact endsBoth_session S reps ⟨rfl, [], rfl⟩ rfl rfl rfl

end Receive

def firstTwice : Repeats where
  waits i := if i = 1 then [0] else []
  waits_le i w hw := by
    split_ifs at hw
    · rw [List.mem_singleton.mp hw]
      exact Nat.zero_le 5
    · cases hw

/-- The repeated packet of nine bytes is not answered with `ACK`. -/
theorem nineBytes_repeat_refused : ¬ ∀ (sfWriteBuffer : SfWriteBuffer) (S : Sending)
    (reps : Repeats) (buf : Vector UInt8 1024) (packetData : PacketData) (flash : Flash)
    (after : SerialLine), RepeatsAnswered sfWriteBuffer 0x06
      (sessionStart buf packetData flash (S.lossyLine reps after)) := by
  intro h
  have hall := h flashWrite nineBytesSent.sending firstTwice (Vector.replicate 1024 0)
    (Vector.replicate 1029 0) erased [] 6
  -- two timeouts, the header, a timeout, the file packet
  have hrepeat : (Runs.run (receiverStep flashWrite) (sessionStart (Vector.replicate 1024 0)
      (Vector.replicate 1029 0) erased (nineBytesSent.sending.lossyLine firstTwice []))
      (List.replicate 5 ())).any (fun s => decide (RepeatArrives s)) = true := by
    decide +kernel
  obtain ⟨s, hrun, hs⟩ := (Option.any_eq_true _ _).mp hrepeat
  have harrives := of_decide_eq_true hs
  obtain ⟨t, hturn, hsent, -⟩ := ((Runs.allSteps_append hrun).mp hall).2.1 harrives
  obtain ⟨hnak, -⟩ := receiveTurn_repeat flashWrite harrives
  rw [hnak, Turn.next.injEq] at hturn
  rw [← hturn] at hsent
  have hbytes := List.append_cancel_left hsent
  exact absurd hbytes (by decide)

end YckjAcu
