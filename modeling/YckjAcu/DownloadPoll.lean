import YckjAcu.Download

/-!
# The download poll of `key_task`

Every iteration of `key_task` begins with `SerialDownload`.  The errors that end
`Ymodem_Receive` are counted only after a first good packet, so on a line that
never brings one, and no abort, the call does not return.
-/

namespace YckjAcu

/-! ### `key_task` -/

/-- What `SerialDownload` prints after a download. -/
inductive DownloadReport
  | completed (fileName : List UInt8) (size : ℤ)
  | tooLarge
  | notVerified
  | abortedByUser
  | failed

def downloadReport (size : ℤ) (fileName : List UInt8) : DownloadReport :=
  if size > 0 then .completed fileName size
  else if size = -1 then .tooLarge
  else if size = -2 then .notVerified
  else if size = -3 then .abortedByUser
  else .failed

/-- What lives through the iterations of `key_task`, with the flags that it
shares with the other tasks. -/
structure KeyTask where
  keyTaskCount : UInt16
  heartSendCount : UInt16
  g_PowerUpFlag : UInt8
  g_NewAddFlag : UInt8
  tcp_client_flag : UInt8

namespace KeyTask

/-- `tcp_client_flag |= LWIP_SEND_HeartbeatDATA`. -/
def requestHeartbeat (s : KeyTask) : KeyTask :=
  { s with tcp_client_flag := s.tcp_client_flag ||| 0x40 }

/-- The rest of an iteration, after `SerialDownload`. -/
def tick (s : KeyTask) : KeyTask :=
  if s.g_PowerUpFlag = 0x00 then { s with heartSendCount := 0 }
  else
    let s := { s with keyTaskCount := if s.keyTaskCount < 6000 then s.keyTaskCount + 1 else 0 }
    let s := if s.g_NewAddFlag = 0xAA then { s with g_NewAddFlag := 0x00, heartSendCount := 1000 }
      else s
    if s.heartSendCount < 80 then { s with heartSendCount := s.heartSendCount + 1 }
    else if s.heartSendCount < 1800 then
      let s := { s with heartSendCount := s.heartSendCount + 1 }
      if s.keyTaskCount % 30 = 0 then s.requestHeartbeat else s
    else
      let s := { s with heartSendCount := 5000 }
      if s.keyTaskCount % 200 = 1 then s.requestHeartbeat else s

end KeyTask

section Poll

variable (sfWriteBuffer : SfWriteBuffer) (buf : Vector UInt8 1024) (packetData : PacketData)
  (flash : Flash) (line : SerialLine)

/-- `SerialDownload`, for at most `k` calls of `Receive_Packet`. -/
def serialDownload (k : ℕ) : Option (DownloadReport × Receiver) :=
  (ymodemReceive sfWriteBuffer k buf packetData flash line).map fun r =>
    (downloadReport r.1 r.2.fileName, r.2)

/-- One iteration of `key_task`. -/
def keyIteration (k : ℕ) (s : KeyTask) : Option (DownloadReport × Receiver × KeyTask) :=
  (serialDownload sfWriteBuffer buf packetData flash line k).map fun r => (r.1, r.2, s.tick)

end Poll

/-! ### Lines that end the wait -/

/-- `k` bytes without a timeout between them. -/
def takeBytes : ℕ → SerialLine → Option (List UInt8) × SerialLine
  | 0, line => (some [], line)
  | _ + 1, [] => (none, [])
  | _ + 1, none :: line => (none, line)
  | k + 1, some c :: line => ((takeBytes k line).1.map (c :: ·), (takeBytes k line).2)

/-- What stands on the line: a whole packet with its number, a request to end
the session, or anything else, which includes an `EOT`. -/
inductive Piece
  | noise
  | packet (seq : UInt8)
  | abort
deriving DecidableEq

/-- The piece for a body of `seq`, its complement, the payload and the trailer. -/
def bodyPiece : Option (List UInt8) → Piece
  | some (seq :: comp :: _) => if seq = comp ^^^ 0xFF then .packet seq else .noise
  | _ => .noise

/-- The first piece of a line and what follows it. -/
def cut : SerialLine → Piece × SerialLine
  | [] => (.noise, [])
  | none :: line => (.noise, line)
  | some c :: line =>
      if c = 0x01 then (bodyPiece (takeBytes 132 line).1, (takeBytes 132 line).2)
      else if c = 0x02 then (bodyPiece (takeBytes 1028 line).1, (takeBytes 1028 line).2)
      else if c = 0x18 then
        match line with
        | [] => (.noise, [])
        | none :: line => (.noise, line)
        | some d :: line => (if d = 0x18 then .abort else .noise, line)
      else if c = 0x41 ∨ c = 0x61 then (.abort, line)
      else (.noise, line)

def afterPiece (line : SerialLine) : SerialLine := (cut line).2

/-- Some piece of the line is a packet with number 0 or a request to end. -/
def Opens (line : SerialLine) : Prop :=
  ∃ n, (cut (afterPiece^[n] line)).1 = .packet 0 ∨ (cut (afterPiece^[n] line)).1 = .abort

theorem opens_iff (line : SerialLine) : Opens line ↔
    (cut line).1 = .packet 0 ∨ (cut line).1 = .abort ∨ Opens (afterPiece line) := by
  constructor
  · rintro ⟨n, hn⟩
    cases n with
    | zero => exact hn.imp_right Or.inl
    | succ n => exact Or.inr (Or.inr ⟨n, hn⟩)
  · rintro (h | h | ⟨n, hn⟩)
    · exact ⟨0, Or.inl h⟩
    · exact ⟨0, Or.inr h⟩
    · exact ⟨n + 1, hn⟩

theorem takeBytes_length (k : ℕ) (line : SerialLine) :
    (takeBytes k line).2.length ≤ line.length := by
  induction k generalizing line with
  | zero => exact le_refl _
  | succ k ih =>
      cases line with
      | nil => exact le_refl _
      | cons c line =>
          cases c with
          | none => exact Nat.le_succ _
          | some c => exact (ih line).trans (Nat.le_succ _)

/-- A piece takes something off a line that is not at its end. -/
theorem afterPiece_length {line : SerialLine} (h : line ≠ []) :
    (afterPiece line).length < line.length := by
  cases line with
  | nil => exact absurd rfl h
  | cons c line =>
      rw [List.length_cons, Nat.lt_succ_iff, afterPiece]
      cases c with
      | none => exact le_refl _
      | some c =>
          simp only [cut]
          split_ifs
          · exact takeBytes_length 132 line
          · exact takeBytes_length 1028 line
          · cases line with
            | nil => exact le_refl _
            | cons d line => cases d <;> exact Nat.le_succ _
          · exact le_refl _
          · exact le_refl _

theorem takeBytes_eq_some {k : ℕ} {line : SerialLine} {bs : List UInt8}
    (h : (takeBytes k line).1 = some bs) :
    bs.length = k ∧ line = bs.map some ++ (takeBytes k line).2 := by
  induction k generalizing line bs with
  | zero =>
      obtain rfl := Option.some.inj h
      exact ⟨rfl, rfl⟩
  | succ k ih =>
      cases line with
      | nil => cases h
      | cons c line =>
          cases c with
          | none => cases h
          | some c =>
              obtain ⟨cs, hcs, rfl⟩ := Option.map_eq_some_iff.mp h
              obtain ⟨hlen, hline⟩ := ih hcs
              refine ⟨by rw [List.length_cons, hlen], ?_⟩
              rw [List.map_cons, List.cons_append, takeBytes]
              exact congrArg (some c :: ·) hline

theorem receiveBytes_of_none {k : ℕ} {line : SerialLine} (h : (takeBytes k line).1 = none)
    (i : ℕ) (data : PacketData) :
    ∃ data', receiveBytes k i data line = (false, data', (takeBytes k line).2) := by
  induction k generalizing line i data with
  | zero => cases h
  | succ k ih =>
      cases line with
      | nil => exact ⟨data, rfl⟩
      | cons c line =>
          cases c with
          | none => exact ⟨data, rfl⟩
          | some c => exact ih (Option.map_eq_none_iff.mp h) (i + 1) (data.setIfInBounds i c)

/-! ### The receiver follows the pieces -/

/-- What `Receive_Packet` returns for a piece. -/
def Piece.Result (p : PacketResult) : Piece → Prop
  | .noise => p.status = -1 ∨ p.status = 0 ∧ p.length = 0
  | .packet seq => p.status = 0 ∧ 0 < p.length ∧ p.data.get 1 = seq
  | .abort => p.status = 1 ∨ p.status = 0 ∧ p.length = -1

theorem receiveBody_piece (c : UInt8) {size : ℕ} (hpos : 0 < size) (hsize : size ≤ 1024)
    (data : PacketData) (line : SerialLine) :
    (receiveBody c size data line).line = (takeBytes (size + 4) line).2 ∧
      (bodyPiece (takeBytes (size + 4) line).1).Result (receiveBody c size data line) := by
  cases htake : (takeBytes (size + 4) line).1 with
  | none =>
      obtain ⟨data', hrun⟩ := receiveBytes_of_none htake 1 (data.setIfInBounds 0 c)
      rw [receiveBody, hrun]
      exact ⟨rfl, Or.inl rfl⟩
  | some bs =>
      obtain ⟨hlen, hline⟩ := takeBytes_eq_some htake
      have hset : (data.setIfInBounds 0 c).toList = [c] ++ data.toList.tail := by
        rw [Vector.toList_setIfInBounds]
        have hdata := data.length_toList
        cases h : data.toList with
        | nil => simp [h] at hdata
        | cons d ds => simp
      have hroom : bs.length ≤ data.toList.tail.length := by
        rw [List.length_tail, Vector.length_toList]
        omega
      obtain ⟨data', hrun, hdata'⟩ := receiveBytes_spec hset hroom (takeBytes (size + 4) line).2
      rw [hlen, ← hline] at hrun
      obtain ⟨seq, comp, rest, rfl⟩ : ∃ seq comp rest, bs = seq :: comp :: rest := by
        cases bs with
        | nil => cases hlen
        | cons seq bs =>
            cases bs with
            | nil =>
                rw [List.length_singleton] at hlen
                omega
            | cons comp rest => exact ⟨seq, comp, rest, rfl⟩
      have hpre : data'.toList =
          [c, seq, comp] ++ (rest ++ data.toList.tail.drop (seq :: comp :: rest).length) := hdata'
      have h1 : data'.get 1 = seq := get_of_toList hpre (by simp)
      have h2 : data'.get 2 = comp := get_of_toList hpre (by simp)
      simp only [List.length_singleton] at hrun
      by_cases hcomp : seq = comp ^^^ 0xFF
      · have hbody : receiveBody c size data line =
            ⟨0, size, data', (takeBytes (size + 4) line).2⟩ := by
          simp [receiveBody, hrun, h1, h2, hcomp]
        rw [hbody, bodyPiece, if_pos hcomp]
        exact ⟨rfl, rfl, Int.natCast_pos.mpr hpos, h1⟩
      · have hbody : receiveBody c size data line =
            ⟨-1, 0, data', (takeBytes (size + 4) line).2⟩ := by
          simp [receiveBody, hrun, h1, h2, hcomp]
        rw [hbody, bodyPiece, if_neg hcomp]
        exact ⟨rfl, Or.inl rfl⟩

theorem receivePacket_piece (data : PacketData) (line : SerialLine) :
    (receivePacket data line).line = afterPiece line ∧
      (cut line).1.Result (receivePacket data line) := by
  cases line with
  | nil => exact ⟨rfl, Or.inl rfl⟩
  | cons c line =>
      cases c with
      | none => exact ⟨rfl, Or.inl rfl⟩
      | some c =>
          simp only [receivePacket, receiveByte, afterPiece, cut]
          split_ifs with h1 h2 h4 h18 h41
          · exact receiveBody_piece c (by omega) (by omega) data line
          · exact receiveBody_piece c (by omega) (by omega) data line
          · simp [h4] at h18
          · simp [h4] at h41
          · exact ⟨rfl, Or.inr ⟨rfl, rfl⟩⟩
          · cases line with
            | nil => exact ⟨rfl, Or.inl rfl⟩
            | cons d line =>
                cases d with
                | none => exact ⟨rfl, Or.inl rfl⟩
                | some d =>
                    by_cases hd : d = 0x18
                    · simp [hd, Piece.Result]
                    · simp [hd, Piece.Result]
          · exact ⟨rfl, Or.inl rfl⟩
          · exact ⟨rfl, Or.inl rfl⟩

/-- The state in which the loops go on after a turn. -/
def Turn.continues : Turn → Option Receiver
  | .next s => some s
  | .fileDone s => some { s with packetsReceived := 0 }
  | .sessionDone _ => none
  | .exit _ _ => none

section Loop

variable (sfWriteBuffer : SfWriteBuffer)

def Returns (s : Receiver) : Prop := ∃ k r, receiveLoop sfWriteBuffer k s = some r

variable {sfWriteBuffer} {s t : Receiver}

theorem receiveLoop_of_continues (h : (receiveTurn sfWriteBuffer s).continues = some t) {k : ℕ} :
    receiveLoop sfWriteBuffer (k + 1) s = receiveLoop sfWriteBuffer k t := by
  rw [receiveLoop]
  cases hturn : receiveTurn sfWriteBuffer s <;> rw [hturn] at h <;> cases h <;> rfl

theorem returns_iff_of_continues (h : (receiveTurn sfWriteBuffer s).continues = some t) :
    Returns sfWriteBuffer s ↔ Returns sfWriteBuffer t := by
  constructor
  · rintro ⟨k, r, hr⟩
    cases k with
    | zero => cases hr
    | succ k => exact ⟨k, r, (receiveLoop_of_continues h).symm.trans hr⟩
  · rintro ⟨k, r, hr⟩
    exact ⟨k + 1, r, (receiveLoop_of_continues h).trans hr⟩

theorem returns_of_ends (h : (receiveTurn sfWriteBuffer s).continues = none) :
    Returns sfWriteBuffer s := by
  cases hturn : receiveTurn sfWriteBuffer s with
  | next t =>
      rw [hturn] at h
      cases h
  | fileDone t =>
      rw [hturn] at h
      cases h
  | sessionDone t => exact ⟨1, (t.size, t), by rw [receiveLoop, hturn]⟩
  | exit r t => exact ⟨1, (r, t), by rw [receiveLoop, hturn]⟩

theorem goodPacket_continues {length : ℤ}
    (h : (goodPacket sfWriteBuffer length s).continues = some t) :
    t.line = s.line ∧ t.errors = s.errors ∧ (s.sessionBegin = true → t.sessionBegin = true) := by
  simp only [goodPacket, namePacket, filePacket, accept] at h
  split_ifs at h
  · cases h
  · cases h
    exact ⟨rfl, rfl, id⟩
  · cases h
    exact ⟨rfl, rfl, id⟩
  · cases h
  · cases h
    exact ⟨rfl, rfl, fun _ => rfl⟩
  · cases h
  · cases h
  · obtain rfl := Option.some.inj h
    simp only [sendBytes, implies_true, and_self]

theorem badPacket_continues (h : (badPacket s).continues = some t) :
    t.line = s.line ∧ t.sessionBegin = s.sessionBegin ∧ t.packetsReceived = s.packetsReceived ∧
      t.errors = (if s.sessionBegin then s.errors + 1 else s.errors) ∧ t.errors ≤ 5 := by
  have hcount : ∀ u : Receiver,
      (if s.sessionBegin then { s with errors := s.errors + 1 } else s) = u →
        u.line = s.line ∧ u.sessionBegin = s.sessionBegin ∧ u.packetsReceived = s.packetsReceived ∧
        u.errors = if s.sessionBegin then s.errors + 1 else s.errors := by
    rintro u rfl
    split_ifs
    · exact ⟨rfl, rfl, rfl, rfl⟩
    · exact ⟨rfl, rfl, rfl, rfl⟩
  unfold badPacket at h
  dsimp only at h
  generalize hu : (if s.sessionBegin then { s with errors := s.errors + 1 } else s) = u at h
  obtain ⟨hline, hbegin, hreceived, herrors⟩ := hcount u hu
  split_ifs at h with herr
  · cases h
  · obtain rfl := Option.some.inj h
    exact ⟨hline, hbegin, hreceived, herrors, Nat.le_of_not_lt herr⟩

/-- What a turn that goes on does to the line, the session flag and the errors. -/
theorem receiveTurn_continues (h : (receiveTurn sfWriteBuffer s).continues = some t) :
    t.line = afterPiece s.line ∧ (s.sessionBegin = true → t.sessionBegin = true) ∧
      (s.errors ≤ 5 → t.errors ≤ 5) ∧
      (s.line = [] → s.sessionBegin = true → t.errors = s.errors + 1) := by
  obtain ⟨hline, -⟩ := receivePacket_piece s.packetData s.line
  simp only [receiveTurn] at h
  split_ifs at h with h0 h1
  · obtain ⟨htline, herr, hbegin⟩ := goodPacket_continues h
    refine ⟨htline.trans hline, hbegin, fun _ => ?_, fun hnil => ?_⟩
    · rw [herr]
      exact Nat.zero_le _
    · simp [hnil, receivePacket, receiveByte] at h0
  · cases h
  · obtain ⟨htline, hbegin, -, herr, hle⟩ := badPacket_continues h
    refine ⟨htline.trans hline, fun hb => hbegin.trans hb, fun _ => hle, fun _ hb => ?_⟩
    rw [herr]
    exact if_pos hb

/-- Once a session has begun, the loops return: every turn takes a piece off the
line, or counts an error at its end. -/
theorem returns_of_sessionBegin (hb : s.sessionBegin = true) (herr : s.errors ≤ 5) :
    Returns sfWriteBuffer s := by
  induction hm : s.line.length * 7 + (6 - s.errors) using Nat.strong_induction_on
    generalizing s with
  | _ m ih =>
      cases hturn : (receiveTurn sfWriteBuffer s).continues with
      | none => exact returns_of_ends hturn
      | some t =>
          obtain ⟨hline, hbegin, hle, hcount⟩ := receiveTurn_continues hturn
          have hterr := hle herr
          rw [returns_iff_of_continues hturn]
          refine ih _ ?_ (hbegin hb) hterr rfl
          by_cases hnil : s.line = []
          · have hstep := hcount hnil hb
            have htline : t.line = [] := by
              rw [hline, hnil]
              rfl
            rw [hnil] at hm
            rw [htline]
            omega
          · have hlen := afterPiece_length hnil
            rw [← hline] at hlen
            omega

/-! ### Before the session -/

/-- No packet has been accepted yet. -/
structure Waiting (s : Receiver) : Prop where
  began : s.sessionBegin = false
  errors : s.errors = 0
  received : s.packetsReceived = 0

theorem receiveTurn_abort (h : (cut s.line).1 = .abort) :
    (receiveTurn sfWriteBuffer s).continues = none := by
  obtain ⟨-, hpiece⟩ := receivePacket_piece s.packetData s.line
  rw [h] at hpiece
  rcases hpiece with h1 | ⟨h0, hlen⟩
  · simp [receiveTurn, h1, Turn.continues]
  · simp [receiveTurn, h0, hlen, goodPacket, Turn.continues]

/-- The first packet ends the call or begins a session. -/
theorem Waiting.returns (hs : Waiting s) (h : (cut s.line).1 = .packet 0) :
    Returns sfWriteBuffer s := by
  obtain ⟨-, hpiece⟩ := receivePacket_piece s.packetData s.line
  rw [h] at hpiece
  obtain ⟨h0, hlen, hseq⟩ := hpiece
  cases hturn : (receiveTurn sfWriteBuffer s).continues with
  | none => exact returns_of_ends hturn
  | some t =>
      rw [returns_iff_of_continues hturn]
      have hne : ¬ (receivePacket s.packetData s.line).length = -1 := by omega
      have hne' : ¬ (receivePacket s.packetData s.line).length = 0 := by omega
      have hnum : ¬ (0 : UInt8).toNat ≠ 0 % 256 := by decide
      simp only [receiveTurn, h0, if_true, goodPacket, if_neg hne, if_neg hne', hseq, hs.received,
        if_neg hnum, namePacket, accept] at hturn
      split_ifs at hturn
      · cases hturn
      · cases hturn
        exact returns_of_sessionBegin rfl (Nat.zero_le _)
      · cases hturn

theorem goodPacket_refuses {length : ℤ} (hlen : 0 < length)
    (hnum : (s.packetData.get 1).toNat ≠ s.packetsReceived % 256) :
    goodPacket sfWriteBuffer length s = .next (sendBytes [0x15] s) := by
  rw [goodPacket, if_neg (by omega), if_neg (by omega), if_pos hnum]

theorem Waiting.badPacket_eq (hs : Waiting s) : badPacket s = .next (sendBytes [0x43] s) := by
  simp [badPacket, hs.began, hs.errors]

theorem Waiting.continues (sfWriteBuffer : SfWriteBuffer) (hs : Waiting s)
    (h0 : (cut s.line).1 ≠ .packet 0) (ha : (cut s.line).1 ≠ .abort) : ∃ t,
    (receiveTurn sfWriteBuffer s).continues = some t ∧ Waiting t ∧ t.line = afterPiece s.line := by
  obtain ⟨hline, hpiece⟩ := receivePacket_piece s.packetData s.line
  let u : Receiver :=
    { s with
      packetData := (receivePacket s.packetData s.line).data
      line := (receivePacket s.packetData s.line).line }
  have hu : Waiting u := ⟨hs.began, hs.errors, hs.received⟩
  cases hcut : (cut s.line).1 with
  | abort => exact absurd hcut ha
  | packet seq =>
      rw [hcut] at hpiece
      obtain ⟨hstatus, hlen, hseq⟩ := hpiece
      have hnum : ((receivePacket s.packetData s.line).data.get 1).toNat ≠
          s.packetsReceived % 256 := by
        rw [hseq, hs.received]
        intro hzero
        apply h0
        have hseq0 : seq = 0 := UInt8.toNat_inj.mp hzero
        rw [hcut, hseq0]
      have hturn : receiveTurn sfWriteBuffer s =
          .next (sendBytes [0x15] { u with errors := 0 }) := by
        rw [receiveTurn, if_pos hstatus]
        exact goodPacket_refuses hlen hnum
      exact ⟨sendBytes [0x15] { u with errors := 0 }, by rw [hturn]; rfl,
        ⟨hs.began, rfl, hs.received⟩, hline⟩
  | noise =>
      rw [hcut] at hpiece
      rcases hpiece with hstatus | ⟨hstatus, hlen⟩
      · have hturn : receiveTurn sfWriteBuffer s = .next (sendBytes [0x43] u) := by
          rw [receiveTurn, if_neg (by rw [hstatus]; decide), if_neg (by rw [hstatus]; decide)]
          exact hu.badPacket_eq
        exact ⟨sendBytes [0x43] u, by rw [hturn]; rfl, ⟨hs.began, hs.errors, hs.received⟩, hline⟩
      · have hturn : receiveTurn sfWriteBuffer s =
            .fileDone (sendBytes [0x06] { u with errors := 0 }) := by
          rw [receiveTurn, if_pos hstatus, hlen]
          rfl
        exact ⟨{ sendBytes [0x06] { u with errors := 0 } with packetsReceived := 0 },
          by rw [hturn]; rfl, ⟨hs.began, rfl, rfl⟩, hline⟩

theorem Waiting.returns_iff (sfWriteBuffer : SfWriteBuffer) (hs : Waiting s) :
    Returns sfWriteBuffer s ↔ Opens s.line := by
  constructor
  · rintro ⟨k, r, hr⟩
    induction k generalizing s with
    | zero => cases hr
    | succ k ih =>
        rw [opens_iff]
        by_cases h0 : (cut s.line).1 = .packet 0
        · exact Or.inl h0
        by_cases ha : (cut s.line).1 = .abort
        · exact Or.inr (Or.inl ha)
        obtain ⟨t, hturn, ht, hline⟩ := hs.continues sfWriteBuffer h0 ha
        rw [receiveLoop_of_continues hturn] at hr
        have hopens := ih ht hr
        rw [hline] at hopens
        exact Or.inr (Or.inr hopens)
  · rintro ⟨n, hn⟩
    induction n generalizing s with
    | zero =>
        rcases hn with h | h
        · exact hs.returns h
        · exact returns_of_ends (receiveTurn_abort h)
    | succ n ih =>
        by_cases h0 : (cut s.line).1 = .packet 0
        · exact hs.returns h0
        by_cases ha : (cut s.line).1 = .abort
        · exact returns_of_ends (receiveTurn_abort ha)
        obtain ⟨t, hturn, ht, hline⟩ := hs.continues sfWriteBuffer h0 ha
        rw [returns_iff_of_continues hturn]
        apply ih ht
        rw [hline]
        exact hn

end Loop

/-- `key_task` gets past `SerialDownload` exactly when the line brings a packet
with number 0 or an abort. -/
theorem keyIteration_passes_iff (sfWriteBuffer : SfWriteBuffer) (buf : Vector UInt8 1024)
    (packetData : PacketData) (flash : Flash) (line : SerialLine) (s : KeyTask) :
    (∃ k r, keyIteration sfWriteBuffer buf packetData flash line k s = some r) ↔ Opens line := by
  have hwait : Waiting
      { packetData, buf, fileName := [], size := 0, flashDestination := 0, flash, line, sent := []
        packetsReceived := 0, errors := 0, sessionBegin := false } := ⟨rfl, rfl, rfl⟩
  rw [← hwait.returns_iff sfWriteBuffer]
  constructor
  · rintro ⟨k, r, hr⟩
    obtain ⟨d, hd, -⟩ := Option.map_eq_some_iff.mp hr
    obtain ⟨y, hy, -⟩ := Option.map_eq_some_iff.mp hd
    exact ⟨k, y, hy⟩
  · rintro ⟨k, y, hy⟩
    have hy' : ymodemReceive sfWriteBuffer k buf packetData flash line = some y := hy
    exact ⟨k, _, by rw [keyIteration, serialDownload, hy']; rfl⟩

/-- On a silent line `SerialDownload` never returns, so no heartbeat is requested. -/
theorem keyIteration_stuck_on_silence : ¬ ∃ k r, keyIteration flashWrite (Vector.replicate 1024 0)
    (Vector.replicate 1029 0) erased [] k ⟨0, 0, 0xAA, 0, 0⟩ = some r := by
  rintro ⟨k, r, hr⟩
  obtain ⟨d, hd, -⟩ := Option.map_eq_some_iff.mp hr
  obtain ⟨y, hy, -⟩ := Option.map_eq_some_iff.mp hd
  have hwait : Waiting
      { packetData := Vector.replicate 1029 0, buf := Vector.replicate 1024 0, fileName := []
        size := 0, flashDestination := 0, flash := erased, line := [], sent := []
        packetsReceived := 0, errors := 0, sessionBegin := false } := ⟨rfl, rfl, rfl⟩
  obtain ⟨n, hn⟩ := (hwait.returns_iff flashWrite).mp ⟨k, y, hy⟩
  have hnil : afterPiece^[n] [] = [] := Function.iterate_fixed rfl n
  rw [hnil] at hn
  rcases hn with hn | hn <;> cases hn

end YckjAcu
