import YckjAcu.HeaderParse
import YckjAcu.Retransmission

/-!
# The size limit of a download

The number in the header is read with 32-bit arithmetic, a result that says that it is
no number is not looked at, and the packets of the file are not counted against it.
-/

namespace YckjAcu

/-! ### Numbers -/

/-- The number of a run of digits, after the value of those before. -/
def digitsFrom (base value : ℕ) : List UInt8 → Option ℕ
  | [] => some value
  | c :: s =>
      if isDecDigit c ∨ base = 16 ∧ (isHexUpper c ∨ isHexLower c) then
        digitsFrom base (value * base + (convertHex c).toNat) s
      else none

/-- The number that a string denotes: decimal with an optional `k` or `m`, or
hexadecimal. -/
def denotes (field : List UInt8) : Option ℕ :=
  if field = [] then none
  else if field.getD 0 0 = 0x30 ∧ (field.getD 1 0 = 0x78 ∨ field.getD 1 0 = 0x58) then
    if field.length = 2 then none else digitsFrom 16 0 (field.drop 2)
  else if 1 < field.length ∧ (field.getLastD 0 = 0x6B ∨ field.getLastD 0 = 0x4B) then
    (digitsFrom 10 0 field.dropLast).map (· * 2 ^ 10)
  else if 1 < field.length ∧ (field.getLastD 0 = 0x6D ∨ field.getLastD 0 = 0x4D) then
    (digitsFrom 10 0 field.dropLast).map (· * 2 ^ 20)
  else digitsFrom 10 0 field

/-! `Str2Int` with unbounded arithmetic. -/

def hexNat (i val : ℕ) : List UInt8 → Option ℕ
  | [] => none
  | c :: s =>
      if 11 ≤ i then none
      else if c = 0 then some val
      else if isHexUpper c || isHexLower c || isDecDigit c then
        hexNat (i + 1) (val * 2 ^ 4 + (convertHex c).toNat) s
      else none

def decNat (i val : ℕ) : List UInt8 → Option ℕ
  | [] => none
  | c :: s =>
      if 11 ≤ i then none
      else if c = 0 then some val
      else if (c = 0x6B ∨ c = 0x4B) ∧ 0 < i then some (val * 2 ^ 10)
      else if (c = 0x6D ∨ c = 0x4D) ∧ 0 < i then some (val * 2 ^ 20)
      else if isDecDigit c then decNat (i + 1) (val * 10 + (c - 0x30).toNat) s
      else none

def str2Nat (inputstr : List UInt8) : Option ℕ :=
  if inputstr.getD 0 0 = 0x30 ∧ (inputstr.getD 1 0 = 0x78 ∨ inputstr.getD 1 0 = 0x58) then
    if inputstr.getD 2 0 = 0 then none else hexNat 2 0 (inputstr.drop 2)
  else decNat 0 0 inputstr

theorem ofNat_shiftLeft (v k : ℕ) (hk : k < 32) :
    UInt32.ofNat v <<< UInt32.ofNat k = UInt32.ofNat (v * 2 ^ k) := by
  have hk32 : (UInt32.ofNat k).toNat = k := UInt32.toNat_ofNat_of_lt' (hk.trans (by decide))
  apply UInt32.toNat_inj.mp
  rw [UInt32.toNat_shiftLeft, hk32, Nat.mod_eq_of_lt hk, Nat.shiftLeft_eq, UInt32.toNat_ofNat',
    UInt32.toNat_ofNat', Nat.mod_mul_mod]

theorem hexLoop_eq (s : List UInt8) (i v : ℕ) :
    hexLoop i (UInt32.ofNat v) s = (hexNat i v s).map UInt32.ofNat := by
  induction s generalizing i v with
  | nil => rfl
  | cons c s ih =>
      have hshift : UInt32.ofNat v <<< 4 + convertHex c =
          UInt32.ofNat (v * 2 ^ 4 + (convertHex c).toNat) := by
        rw [UInt32.ofNat_add, UInt32.ofNat_toNat, ← ofNat_shiftLeft v 4 (by decide)]
        rfl
      rw [hexLoop, hexNat, hshift, ih]
      split_ifs <;> rfl

theorem decLoop_eq (s : List UInt8) (i v : ℕ) :
    decLoop i (UInt32.ofNat v) s = (decNat i v s).map UInt32.ofNat := by
  induction s generalizing i v with
  | nil => rfl
  | cons c s ih =>
      have hstep : UInt32.ofNat v * 10 + (c - 0x30).toUInt32 =
          UInt32.ofNat (v * 10 + (c - 0x30).toNat) := by
        rw [UInt32.ofNat_add, UInt32.ofNat_mul, ← UInt8.toNat_toUInt32, UInt32.ofNat_toNat]
        rfl
      have hk : UInt32.ofNat v <<< 10 = UInt32.ofNat (v * 2 ^ 10) :=
        ofNat_shiftLeft v 10 (by decide)
      have hm : UInt32.ofNat v <<< 20 = UInt32.ofNat (v * 2 ^ 20) :=
        ofNat_shiftLeft v 20 (by decide)
      rw [decLoop, decNat, hstep, hk, hm, ih]
      split_ifs <;> rfl

/-- `Str2Int` gives the number modulo 2^32, with a sign. -/
theorem str2Int_eq (s : List UInt8) (intnum : ℤ) :
    str2Int s intnum =
      match str2Nat s with
      | some n => (1, (UInt32.ofNat n).toBitVec.toInt)
      | none => (0, intnum) := by
  have hhex := hexLoop_eq (s.drop 2) 2 0
  have hdec := decLoop_eq s 0 0
  rw [str2Int, str2Nat]
  split_ifs with hx h2
  · rfl
  · rw [show (0 : UInt32) = UInt32.ofNat 0 from rfl, hhex]
    cases hexNat 2 0 (s.drop 2) <;> rfl
  · rw [show (0 : UInt32) = UInt32.ofNat 0 from rfl, hdec]
    cases decNat 0 0 s <;> rfl

theorem convertHex_of_isDecDigit {c : UInt8} (h : isDecDigit c) :
    (convertHex c).toNat = (c - 0x30).toNat := by
  rw [convertHex, if_pos h, UInt8.toNat_toUInt32]

theorem hexNat_append {s rest : List UInt8} {i v n : ℕ} (h : digitsFrom 16 v s = some n)
    (hlen : i + s.length ≤ 10) : hexNat i v (s ++ 0 :: rest) = some n := by
  induction s generalizing i v with
  | nil =>
      have hi : ¬ 11 ≤ i := by
        rw [List.length_nil] at hlen
        omega
      rw [List.nil_append, hexNat, if_neg hi, if_pos rfl]
      exact h
  | cons c s ih =>
      rw [List.length_cons] at hlen
      rw [digitsFrom] at h
      split_ifs at h with hdigit
      have hc : (isHexUpper c || isHexLower c || isDecDigit c) = true := by
        rcases hdigit with hd | ⟨-, hu | hl⟩ <;> simp [*]
      have hc0 : c ≠ 0 := by
        rintro rfl
        exact absurd hc (by decide)
      rw [List.cons_append, hexNat, if_neg (by omega), if_neg hc0, if_pos hc]
      exact ih h (by omega)

theorem decNat_append {s t : List UInt8} {i v n : ℕ} (h : digitsFrom 10 v s = some n)
    (hlen : i + s.length ≤ 10) : decNat i v (s ++ t) = decNat (i + s.length) n t := by
  induction s generalizing i v with
  | nil =>
      obtain rfl := Option.some.inj h
      rfl
  | cons c s ih =>
      rw [List.length_cons] at hlen
      rw [digitsFrom] at h
      split_ifs at h with hdigit
      have hd : isDecDigit c = true := hdigit.resolve_right fun hhex => absurd hhex.1 (by decide)
      have hc : c ≠ 0 ∧ (c ≠ 0x6B ∧ c ≠ 0x4B) ∧ c ≠ 0x6D ∧ c ≠ 0x4D := by
        refine ⟨?_, ⟨?_, ?_⟩, ?_, ?_⟩ <;> rintro rfl <;> exact absurd hd (by decide)
      rw [List.cons_append, decNat, if_neg (by omega), if_neg hc.1,
        if_neg fun hk => hk.1.elim hc.2.1.1 hc.2.1.2,
        if_neg fun hm => hm.1.elim hc.2.2.1 hc.2.2.2, if_pos hd, ← convertHex_of_isDecDigit hd,
        ih h (by omega), List.length_cons]
      congr 1
      omega

theorem decNat_suffix {field : List UInt8} (rest : List UInt8) {m : ℕ} (hlen : field.length ≤ 10)
    (hlong : 1 < field.length) (h : digitsFrom 10 0 field.dropLast = some m) :
    ∃ i, 0 < i ∧ i ≤ 10 ∧
      decNat 0 0 (field ++ 0 :: rest) = decNat i m (field.getLastD 0 :: 0 :: rest) := by
  obtain rfl | ⟨s, l, rfl⟩ := List.eq_nil_or_concat' field
  · exact absurd hlong (by decide)
  · rw [List.dropLast_concat] at h
    rw [List.length_append, List.length_singleton] at hlen hlong
    refine ⟨s.length, by omega, by omega, ?_⟩
    rw [List.getLastD_concat, List.append_assoc, decNat_append h (by omega), Nat.zero_add]
    rfl

/-- `Str2Int` reads a string of at most ten characters as the number that it denotes. -/
theorem str2Nat_of_denotes {field rest : List UInt8} {n : ℕ} (h : denotes field = some n)
    (hlen : field.length ≤ 10) : str2Nat (field ++ 0 :: rest) = some n := by
  have hget0 : (field ++ 0 :: rest).getD 0 0 = field.getD 0 0 := by
    cases field <;> rfl
  have hget1 : field ≠ [] → (field ++ 0 :: rest).getD 1 0 = field.getD 1 0 := by
    intro hne
    obtain ⟨c, s, rfl⟩ := List.exists_cons_of_ne_nil hne
    cases s <;> rfl
  rw [denotes] at h
  split_ifs at h with hnil hx h2 hk hm
  · rcases field with _ | ⟨a, _ | ⟨b, _ | ⟨c, s⟩⟩⟩
    · exact absurd rfl hnil
    · exact absurd hx.2 (by simp)
    · exact absurd rfl h2
    · have hc : c ≠ 0 := by
        rintro rfl
        cases h
      rw [List.length_cons, List.length_cons] at hlen
      rw [str2Nat, hget0, hget1 hnil, if_pos hx]
      exact (if_neg hc).trans (hexNat_append h (by omega))
  · obtain ⟨m, hm, rfl⟩ := Option.map_eq_some_iff.mp h
    obtain ⟨i, hi, hi10, heq⟩ := decNat_suffix rest hlen hk.1 hm
    rw [str2Nat, hget0, hget1 hnil, if_neg hx, heq]
    have hl : field.getLastD 0 ≠ 0 := by
      rcases hk.2 with hl | hl <;> rw [hl] <;> decide
    rw [decNat, if_neg (by omega), if_neg hl, if_pos ⟨hk.2, hi⟩]
  · obtain ⟨m, hm', rfl⟩ := Option.map_eq_some_iff.mp h
    obtain ⟨i, hi, hi10, heq⟩ := decNat_suffix rest hlen hm.1 hm'
    rw [str2Nat, hget0, hget1 hnil, if_neg hx, heq]
    have hl : field.getLastD 0 ≠ 0 := by
      rcases hm.2 with hl | hl <;> rw [hl] <;> decide
    rw [decNat, if_neg (by omega), if_neg hl, if_neg fun hk' => hk ⟨hm.1, hk'.1⟩,
      if_pos ⟨hm.2, hi⟩]
  · rw [str2Nat, hget0, hget1 hnil, if_neg hx, decNat_append h (by omega), Nat.zero_add, decNat,
      if_neg (by omega), if_pos rfl]

/-- `Str2Int` reads a number above the limit. -/
def ReadsTooLarge (inputstr : List UInt8) : Prop :=
  ∃ n, str2Nat inputstr = some n ∧ 0x7FFFF < n % 2 ^ 32 ∧ n % 2 ^ 32 < 2 ^ 31

theorem str2Int_gt_iff {s : List UInt8} {intnum : ℤ} (hold : intnum ≤ 0x7FFFF) :
    (str2Int s intnum).2 > 0x80000 - 1 ↔ ReadsTooLarge s := by
  rw [str2Int_eq, ReadsTooLarge]
  cases str2Nat s with
  | none => simp; omega
  | some n =>
      have hnat : (UInt32.ofNat n).toBitVec.toNat = n % 2 ^ 32 := by
        rw [UInt32.toNat_toBitVec, UInt32.toNat_ofNat']
      have hlt := Nat.mod_lt n (by decide : 2 ^ 32 > 0)
      simp only [Option.some.injEq, exists_eq_left', BitVec.toInt_eq_toNat_cond, hnat]
      split_ifs <;> omega

/-! ### The files of a session -/

/-- The size field of a header, as the string that it is. -/
def sizeField (d : PacketData) : List UInt8 := (headerSize d).takeWhile (· ≠ 0)

theorem exists_takeWhile_append (l : List UInt8) :
    ∃ rest, l ++ [0] = (l ++ [0]).takeWhile (· ≠ 0) ++ 0 :: rest := by
  induction l with
  | nil => exact ⟨[], rfl⟩
  | cons c l ih =>
      obtain ⟨rest, hrest⟩ := ih
      by_cases hc : c = 0
      · exact ⟨l ++ [0], by simp [hc]⟩
      · refine ⟨rest, ?_⟩
        rw [List.cons_append, List.takeWhile_cons_of_pos (by simpa using hc), List.cons_append,
          ← hrest]

/-- The limit holds for every size of at most ten characters below 2^31. -/
theorem readsTooLarge_iff_of_denotes {d : PacketData} {n : ℕ}
    (h : denotes (sizeField d) = some n) (hlen : (sizeField d).length ≤ 10)
    (hn : n < 2 ^ 31) : ReadsTooLarge (headerSize d) ↔ 0x7FFFF < n := by
  obtain ⟨rest, hrest⟩ : ∃ rest, headerSize d = sizeField d ++ 0 :: rest :=
    exists_takeWhile_append _
  have hread : str2Nat (headerSize d) = some n := hrest ▸ str2Nat_of_denotes h hlen
  have hmod : n % 2 ^ 32 = n := Nat.mod_eq_of_lt (hn.trans (by decide))
  rw [ReadsTooLarge, hread]
  constructor
  · rintro ⟨m, hm, hlarge, -⟩
    obtain rfl := Option.some.inj hm
    rwa [hmod] at hlarge
  · intro hlarge
    refine ⟨n, rfl, ?_⟩
    rw [hmod]
    exact ⟨hlarge, hn⟩

/-- The packet of this turn goes to the file. -/
def Receiver.TakesFile (s : Receiver) : Prop :=
  s.received.Complete ∧ (s.received.data.get 1).toNat = s.packetsReceived % 256 ∧
    s.packetsReceived ≠ 0

instance (s : Receiver) : Decidable s.TakesFile := inferInstanceAs (Decidable (_ ∧ _))

/-- The receiver, with the number of headers so far and, for the latest of them, the size
that it declares and the bytes accepted for its file. -/
structure SizedSession where
  rx : Receiver
  files : ℕ
  declared : ℕ
  accepted : ℕ

namespace SizedSession

/-- The account after a turn that ends in `rx`. -/
def count (s : SizedSession) (rx : Receiver) : SizedSession :=
  if s.rx.TakesHeader then
    ⟨rx, s.files + 1, (denotes (sizeField s.rx.received.data)).getD 0, 0⟩
  else if s.rx.TakesFile then
    { s with rx, accepted := s.accepted + s.rx.received.length.toNat }
  else { s with rx }

variable (sfWriteBuffer : SfWriteBuffer)

def step (_ : Unit) (s : SizedSession) : Option SizedSession :=
  (receiverStep sfWriteBuffer () s.rx).map s.count

def start (buf : Vector UInt8 1024) (packetData : PacketData) (flash : Flash)
    (line : SerialLine) : SizedSession :=
  ⟨sessionStart buf packetData flash line, 0, 0, 0⟩

/-- Every turn of the session up to the `k`-th has the property. -/
def AllTurns (P : SizedSession → Prop) (k : ℕ) (s : SizedSession) : Prop :=
  Runs.AllSteps (step sfWriteBuffer) (fun s _ => P s) s (List.replicate k ())

/-- A header with no number or one above `FLASH_SIZE - 1` ends the session with `CA CA`, a
packet is accepted only as long as bytes of the declared size are missing, and only
addresses below `FLASH_SIZE` are programmed. -/
structure KeepsSize (s : SizedSession) : Prop where
  header : s.rx.TakesHeader →
    (∀ n, denotes (sizeField s.rx.received.data) = some n → 0x80000 - 1 < n) →
      ∃ t, receiveTurn sfWriteBuffer s.rx = .exit (-1) t ∧
        t.sent = s.rx.sent ++ [0x18, 0x18] ∧ t.flash = s.rx.flash
  total : s.rx.TakesFile → (receiveTurn sfWriteBuffer s.rx).Counts s.rx →
    s.accepted < s.declared
  flash : ∀ c ∈ turnCalls s.rx, c.addr.toNat + c.size.toNat ≤ 0x80000

/-- `sf_WriteBuffer` reports success for the packet of this turn. -/
def Writes (s : SizedSession) : Prop :=
  (sfWriteBuffer (copyPacket s.rx.received.length.toNat s.rx.received.data s.rx.buf)
    s.rx.flashDestination 8 s.rx.flash).1 = true

/-- The size of a header fits, or `Str2Int` reads it as one that does not; a packet that
is written comes only as long as bytes of the declared size are missing; and one of a
second or later file, or that is not written, comes only while `FlashDestination` is
below `FLASH_SIZE`. -/
structure Fits (s : SizedSession) : Prop where
  header : s.rx.TakesHeader →
    (∃ n ≤ 0x80000 - 1, denotes (sizeField s.rx.received.data) = some n) ∨
      ReadsTooLarge (headerSize s.rx.received.data)
  total : s.rx.TakesFile → s.Writes sfWriteBuffer → s.accepted < s.declared
  later : s.rx.TakesFile → 2 ≤ s.files ∨ ¬ s.Writes sfWriteBuffer →
    s.rx.flashDestination.toNat < 0x80000

/-- What holds as long as every turn fits. -/
structure Tallied (s : SizedSession) : Prop where
  size_le : s.rx.size ≤ 0x7FFFF
  declared_le : s.declared ≤ 0x7FFFF
  aligned : s.rx.flashDestination.toNat % 128 = 0
  none : s.files = 0 → s.rx.packetsReceived = 0 ∧ s.accepted = 0
  first : s.files ≤ 1 → s.rx.flashDestination.toNat = s.accepted

theorem tallied_start (buf : Vector UInt8 1024) (packetData : PacketData) (flash : Flash)
    (line : SerialLine) : (start buf packetData flash line).Tallied :=
  ⟨(by decide : (0 : ℤ) ≤ 0x7FFFF), Nat.zero_le _, rfl, fun _ => ⟨rfl, rfl⟩, fun _ => rfl⟩

end SizedSession

/-! ### One turn -/

theorem receiveBody_length (c : UInt8) (n : ℕ) (data : PacketData) (line : SerialLine) :
    (receiveBody c n data line).length = 0 ∨ (receiveBody c n data line).length = n := by
  unfold receiveBody
  dsimp only
  split_ifs <;> simp

theorem receivePacket_length (data : PacketData) (line : SerialLine) :
    (receivePacket data line).length = 0 ∨ (receivePacket data line).length = -1 ∨
      (receivePacket data line).length = 128 ∨ (receivePacket data line).length = 1024 := by
  unfold receivePacket
  split
  · exact Or.inl rfl
  · rename_i c line' _
    split_ifs
    · exact (receiveBody_length c 128 data line').imp_right fun h => Or.inr (Or.inl h)
    · exact (receiveBody_length c 1024 data line').imp_right fun h => Or.inr (Or.inr h)
    · exact Or.inl rfl
    · split
      · split_ifs
        · exact Or.inr (Or.inl rfl)
        · exact Or.inl rfl
      · exact Or.inl rfl
    · exact Or.inl rfl
    · exact Or.inl rfl

theorem received_length {s : Receiver} (h : s.received.Complete) :
    s.received.length = 128 ∨ s.received.length = 1024 :=
  ((receivePacket_length s.packetData s.line).resolve_left h.2.2).resolve_left h.2.1

section Turn

variable (sfWriteBuffer : SfWriteBuffer) {s : Receiver}

theorem receiveTurn_header (h : s.TakesHeader) :
    receiveTurn sfWriteBuffer s = namePacket s.withPacket := by
  obtain ⟨hc, hseq, hzero, -⟩ := h
  have hseq' : (s.withPacket.packetData.get 1).toNat = s.withPacket.packetsReceived % 256 := hseq
  have hzero' : s.withPacket.packetsReceived = 0 := hzero
  rw [receiveTurn_complete sfWriteBuffer hc, goodPacket, if_neg hc.2.1, if_neg hc.2.2,
    if_neg (not_not.mpr hseq'), if_pos hzero']

theorem receiveTurn_file (h : s.TakesFile) :
    receiveTurn sfWriteBuffer s =
      filePacket sfWriteBuffer s.received.length.toNat s.withPacket := by
  obtain ⟨hc, hseq, hne⟩ := h
  have hseq' : (s.withPacket.packetData.get 1).toNat = s.withPacket.packetsReceived % 256 := hseq
  have hne' : s.withPacket.packetsReceived ≠ 0 := hne
  rw [receiveTurn_complete sfWriteBuffer hc, goodPacket, if_neg hc.2.1, if_neg hc.2.2,
    if_neg (not_not.mpr hseq'), if_neg hne']

/-- The variables with the header in place. -/
def Receiver.withHeader (s : Receiver) : Receiver :=
  { s.withPacket with
    fileName := headerName s.received.data
    size := (str2Int (headerSize s.received.data) s.size).2 }

theorem receiveTurn_header_large (h : s.TakesHeader)
    (hsize : (str2Int (headerSize s.received.data) s.size).2 > 0x80000 - 1) :
    receiveTurn sfWriteBuffer s = .exit (-1) (sendBytes [0x18, 0x18] s.withHeader) := by
  have hname : s.withPacket.packetData.get 3 ≠ 0 := h.2.2.2
  rw [receiveTurn_header sfWriteBuffer h, namePacket, if_pos hname]
  exact if_pos hsize

theorem receiveTurn_header_taken (h : s.TakesHeader)
    (hsize : (str2Int (headerSize s.received.data) s.size).2 ≤ 0x80000 - 1) :
    receiveTurn sfWriteBuffer s = accept (sendBytes [0x06, 0x43] s.withHeader) := by
  have hname : s.withPacket.packetData.get 3 ≠ 0 := h.2.2.2
  rw [receiveTurn_header sfWriteBuffer h, namePacket, if_pos hname]
  exact if_neg (Int.not_lt.mpr hsize)

/-- What a turn leaves alone that takes neither a header nor a packet of the file. -/
structure Idles (s t : Receiver) : Prop where
  size : t.size = s.size
  flashDestination : t.flashDestination = s.flashDestination
  packetsReceived : t.packetsReceived = s.packetsReceived ∨ t.packetsReceived = 0

theorem idles_of_step {t : Receiver} (hheader : ¬ s.TakesHeader) (hfile : ¬ s.TakesFile)
    (h : receiverStep sfWriteBuffer () s = some t) : Idles s t := by
  rw [receiverStep] at h
  by_cases hc : s.received.Complete
  · rw [receiveTurn_complete sfWriteBuffer hc, goodPacket, if_neg hc.2.1, if_neg hc.2.2] at h
    by_cases hseq : (s.withPacket.packetData.get 1).toNat = s.withPacket.packetsReceived % 256
    · have hzero : s.withPacket.packetsReceived = 0 :=
        not_not.mp fun hne => hfile ⟨hc, hseq, hne⟩
      have hname : ¬ s.withPacket.packetData.get 3 ≠ 0 :=
        fun hne => hheader ⟨hc, hseq, hzero, hne⟩
      rw [if_neg (not_not.mpr hseq), if_pos hzero, namePacket, if_neg hname] at h
      cases h
    · rw [if_pos hseq] at h
      obtain rfl := Option.some.inj h
      exact ⟨rfl, rfl, Or.inl rfl⟩
  · unfold receiveTurn at h
    dsimp only at h
    split_ifs at h with h0 h1
    · unfold goodPacket at h
      split_ifs at h with habort heot
      · obtain rfl := Option.some.inj h
        exact ⟨rfl, rfl, Or.inr rfl⟩
      · exact absurd ⟨h0, habort, heot⟩ hc
      · exact absurd ⟨h0, habort, heot⟩ hc
      · exact absurd ⟨h0, habort, heot⟩ hc
    · unfold badPacket at h
      dsimp only at h
      split_ifs at h <;> obtain rfl := Option.some.inj h <;> exact ⟨rfl, rfl, Or.inl rfl⟩

theorem receiverStep_cases {t : Receiver} (h : receiverStep sfWriteBuffer () s = some t) :
    (s.TakesHeader ∧ (str2Int (headerSize s.received.data) s.size).2 ≤ 0x80000 - 1 ∧
      t.size = (str2Int (headerSize s.received.data) s.size).2 ∧
      t.flashDestination = s.flashDestination) ∨
    (s.TakesFile ∧ (sfWriteBuffer (copyPacket s.received.length.toNat s.received.data s.buf)
        s.flashDestination 8 s.flash).1 = true ∧
      t.size = s.size ∧
      t.flashDestination = s.flashDestination + UInt32.ofNat s.received.length.toNat) ∨
    (¬ s.TakesHeader ∧ ¬ s.TakesFile ∧ Idles s t) := by
  by_cases hheader : s.TakesHeader
  · refine Or.inl ⟨hheader, ?_⟩
    rw [receiverStep] at h
    by_cases hsize : (str2Int (headerSize s.received.data) s.size).2 ≤ 0x80000 - 1
    · rw [receiveTurn_header_taken sfWriteBuffer hheader hsize] at h
      obtain rfl := Option.some.inj h
      exact ⟨hsize, rfl, rfl⟩
    · rw [receiveTurn_header_large sfWriteBuffer hheader (Int.not_le.mp hsize)] at h
      cases h
  · by_cases hfile : s.TakesFile
    · refine Or.inr (Or.inl ⟨hfile, ?_⟩)
      rw [receiverStep, receiveTurn_file sfWriteBuffer hfile] at h
      obtain ⟨flash, ⟨hw, heq⟩ | ⟨hw, heq⟩⟩ := filePacket_outcomes sfWriteBuffer
        s.received.length.toNat s.withPacket
      · rw [heq] at h
        obtain rfl := Option.some.inj h
        exact ⟨congrArg Prod.fst hw, rfl, rfl⟩
      · rw [heq] at h
        cases h
    · exact Or.inr (Or.inr ⟨hheader, hfile, idles_of_step sfWriteBuffer hheader hfile h⟩)

end Turn

namespace SizedSession

variable (sfWriteBuffer : SfWriteBuffer) {s : SizedSession}

theorem writes_iff_counts (h : s.rx.TakesFile) :
    (receiveTurn sfWriteBuffer s.rx).Counts s.rx ↔ s.Writes sfWriteBuffer := by
  rw [receiveTurn_file sfWriteBuffer h]
  rcases filePacket_cases sfWriteBuffer s.rx.received.length.toNat s.rx.withPacket with
    ⟨hcounts, hw⟩ | ⟨hno, -, hw⟩
  · exact iff_of_true hcounts hw
  · refine iff_of_false hno fun hwrites => ?_
    have hfalse := congrArg Prod.fst hw
    exact Bool.false_ne_true (hfalse.symm.trans hwrites)

theorem turnCalls_file (h : s.rx.TakesFile) :
    turnCalls s.rx = [⟨copyPacket s.rx.received.length.toNat s.rx.received.data s.rx.buf,
      s.rx.flashDestination, 8⟩] := if_pos h

theorem turnCalls_other (h : ¬ s.rx.TakesFile) : turnCalls s.rx = [] := if_neg h

/-- As long as the account holds, a turn keeps the size limit exactly when it fits. -/
theorem Tallied.keepsSize_iff (hs : s.Tallied) :
    s.KeepsSize sfWriteBuffer ↔ s.Fits sfWriteBuffer := by
  constructor
  · intro h
    refine ⟨fun hheader => ?_, fun hfile hw => ?_, fun hfile _ => ?_⟩
    · by_contra hno
      rw [not_or] at hno
      obtain ⟨t, ht, -⟩ := h.header hheader fun n hn =>
        Nat.lt_of_not_le fun hle => hno.1 ⟨n, hle, hn⟩
      have hsize := Int.not_lt.mp fun hgt => hno.2 ((str2Int_gt_iff hs.size_le).mp hgt)
      rw [receiveTurn_header_taken sfWriteBuffer hheader hsize] at ht
      cases ht
    · exact h.total hfile ((writes_iff_counts sfWriteBuffer hfile).mpr hw)
    · have hcall := h.flash _ (by rw [turnCalls_file hfile]; exact List.mem_cons_self)
      have height : UInt16.toNat 8 = 8 := rfl
      dsimp only at hcall
      omega
  · intro h
    refine ⟨fun hheader hbad => ?_, fun hfile hcounts => ?_, fun c hc => ?_⟩
    · have hlarge : ReadsTooLarge (headerSize s.rx.received.data) :=
        (h.header hheader).resolve_left fun ⟨n, hle, hn⟩ => Nat.not_le.mpr (hbad n hn) hle
      have hsize := (str2Int_gt_iff hs.size_le).mpr hlarge
      exact ⟨_, receiveTurn_header_large sfWriteBuffer hheader hsize, rfl, rfl⟩
    · exact h.total hfile ((writes_iff_counts sfWriteBuffer hfile).mp hcounts)
    · by_cases hfile : s.rx.TakesFile
      · rw [turnCalls_file hfile, List.mem_singleton] at hc
        have hbelow : s.rx.flashDestination.toNat < 0x80000 := by
          by_cases hlater : 2 ≤ s.files ∨ ¬ s.Writes sfWriteBuffer
          · exact h.later hfile hlater
          · rw [not_or, not_not] at hlater
            have htotal := h.total hfile hlater.2
            have hfirst := hs.first (Nat.le_of_lt_succ (Nat.lt_of_not_le hlater.1))
            have hdeclared := hs.declared_le
            omega
        have haligned := hs.aligned
        have height : UInt16.toNat 8 = 8 := rfl
        rw [hc]
        dsimp only
        omega
      · rw [turnCalls_other hfile] at hc
        exact absurd hc List.not_mem_nil

theorem Tallied.step {t : SizedSession} (hs : s.Tallied) (hfits : s.Fits sfWriteBuffer)
    (h : SizedSession.step sfWriteBuffer () s = some t) : t.Tallied := by
  obtain ⟨rx, hrx, rfl⟩ := Option.map_eq_some_iff.mp h
  rcases receiverStep_cases sfWriteBuffer hrx with ⟨hheader, hsize, hsz, hdest⟩ |
    ⟨hfile, hw, hsz, hdest⟩ | ⟨hheader, hfile, hidle⟩
  · obtain ⟨n, hn, hdenotes⟩ := (hfits.header hheader).resolve_right fun hlarge =>
      Int.not_lt.mpr hsize ((str2Int_gt_iff hs.size_le).mpr hlarge)
    rw [count, if_pos hheader, hdenotes]
    refine ⟨?_, hn, ?_, fun hnone => absurd hnone (Nat.succ_ne_zero _), fun hfirst => ?_⟩
    · exact hsz ▸ hsize
    · exact hdest ▸ hs.aligned
    · have hzero : s.files = 0 := Nat.le_zero.mp (Nat.le_of_succ_le_succ hfirst)
      dsimp only
      rw [hdest, hs.first (by omega), (hs.none hzero).2]
  · have hheader : ¬ s.rx.TakesHeader := fun hheader => hfile.2.2 hheader.2.2.1
    have hnext : rx.flashDestination.toNat =
        (s.rx.flashDestination.toNat + s.rx.received.length.toNat) % 2 ^ 32 := by
      rw [hdest, UInt32.toNat_add, UInt32.toNat_ofNat', Nat.add_mod_mod]
    have hlength : s.rx.received.length.toNat = 128 ∨ s.rx.received.length.toNat = 1024 :=
      (received_length hfile.1).imp (congrArg Int.toNat) (congrArg Int.toNat)
    rw [count, if_neg hheader, if_pos hfile]
    refine ⟨?_, hs.declared_le, ?_, fun hnone => ?_, fun hfirst => ?_⟩
    · exact hsz ▸ hs.size_le
    · have haligned := hs.aligned
      dsimp only
      omega
    · exact absurd (hs.none hnone).1 hfile.2.2
    · have hmissing := hfits.total hfile hw
      have hdeclared := hs.declared_le
      have hsame := hs.first hfirst
      dsimp only
      omega
  · rw [count, if_neg hheader, if_neg hfile]
    refine ⟨?_, hs.declared_le, ?_, fun hnone => ?_, fun hfirst => ?_⟩
    · exact hidle.size ▸ hs.size_le
    · exact hidle.flashDestination ▸ hs.aligned
    · refine ⟨?_, (hs.none hnone).2⟩
      exact hidle.packetsReceived.elim (fun heq => heq.trans (hs.none hnone).1) id
    · exact hidle.flashDestination ▸ hs.first hfirst

/-- In every session, with any packets and any `sf_WriteBuffer`, all turns keep the size
limit exactly when all of them fit. -/
theorem sizeLimit_iff (buf : Vector UInt8 1024) (packetData : PacketData) (flash : Flash)
    (line : SerialLine) (k : ℕ) :
    AllTurns sfWriteBuffer (KeepsSize sfWriteBuffer) k (start buf packetData flash line) ↔
      AllTurns sfWriteBuffer (Fits sfWriteBuffer) k (start buf packetData flash line) :=
  Runs.allSteps_iff_of_preserved (fun _ _ _ hs hfits hstep => hs.step sfWriteBuffer hfits hstep)
    (fun _ _ hs => hs.keepsSize_iff sfWriteBuffer) (tallied_start buf packetData flash line) _

end SizedSession

/-- The header of a file `b` of 2^32 bytes. -/
def wrappedHeader : SerialLine :=
  ((shortPacket [0x62, 0, 0x34, 0x32, 0x39, 0x34, 0x39, 0x36, 0x37, 0x32, 0x39, 0x36, 0x20]
    (by decide)).bytes 0).map some

namespace SizedSession

/-- `Str2Int` reads its size as 0, so the session goes on. -/
theorem wrapped_size_taken :
    ¬ ∀ (sfWriteBuffer : SfWriteBuffer) (buf : Vector UInt8 1024) (packetData : PacketData)
      (flash : Flash) (line : SerialLine) (k : ℕ),
      AllTurns sfWriteBuffer (KeepsSize sfWriteBuffer) k (start buf packetData flash line) := by
  intro h
  have hturns := h flashWrite (Vector.replicate 1024 0) (Vector.replicate 1029 0) erased
    wrappedHeader 1
  have hfits := ((tallied_start _ _ _ _).keepsSize_iff flashWrite).mp hturns.1
  have hpacket : (start (Vector.replicate 1024 0) (Vector.replicate 1029 0) erased
      wrappedHeader).rx.TakesHeader ∧
      headerSize (receivePacket (Vector.replicate 1029 0) wrappedHeader).data =
        [0x34, 0x32, 0x39, 0x34, 0x39, 0x36, 0x37, 0x32, 0x39, 0x36, 0] := by
    decide +kernel
  obtain ⟨htakes, hsize⟩ := hpacket
  have hreceived : (start (Vector.replicate 1024 0) (Vector.replicate 1029 0) erased
      wrappedHeader).rx.received.data =
      (receivePacket (Vector.replicate 1029 0) wrappedHeader).data := rfl
  have hheader := hfits.header htakes
  rw [sizeField, hreceived, hsize] at hheader
  rcases hheader with ⟨n, hn, hdenotes⟩ | ⟨n, hread, hlarge, -⟩
  · have hvalue : n = 2 ^ 32 := Option.some.inj (hdenotes.symm.trans (by decide))
    omega
  · have hvalue : n = 2 ^ 32 := Option.some.inj (hread.symm.trans (by decide))
    omega

end SizedSession

end YckjAcu
