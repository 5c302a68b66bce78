import YckjAcu.PacketCheck

/-!
# Bounds of the header parse

The parse of the file name packet with every index it uses: two copying loops, each
bounded by the whole length of its array and followed by one more write, and the number
parser over what the second one copied.
-/

namespace YckjAcu

/-- What a loop copies, and the indices that it reads and writes. -/
structure Scan where
  copied : List UInt8
  reads : List ℕ
  writes : List ℕ

/-- `for (; (*file_ptr != stop) && (i < bound);) field[i++] = *file_ptr++;` with `k` left of
the bound; the byte is read before the bound is tested. -/
def scan (d : PacketData) (stop : UInt8) : (k ptr i : ℕ) → Scan
  | 0, ptr, _ => ⟨[], [ptr], []⟩
  | k + 1, ptr, i =>
      if d.toList.getD ptr 0 = stop then ⟨[], [ptr], []⟩
      else
        let rest := scan d stop k (ptr + 1) (i + 1)
        ⟨d.toList.getD ptr 0 :: rest.copied, ptr :: rest.reads, i :: rest.writes⟩

/-! The indices that `Str2Int` reads, also where the string has no more bytes. -/

def hexReads (i : ℕ) : List UInt8 → List ℕ
  | [] => if 11 ≤ i then [] else [i]
  | c :: s =>
      if 11 ≤ i then []
      else if c = 0 then [i]
      else if isHexUpper c || isHexLower c || isDecDigit c then i :: hexReads (i + 1) s
      else [i]

def decReads (i : ℕ) : List UInt8 → List ℕ
  | [] => if 11 ≤ i then [] else [i]
  | c :: s =>
      if 11 ≤ i then []
      else if c = 0 then [i]
      else if (c = 0x6B ∨ c = 0x4B) ∧ 0 < i then [i]
      else if (c = 0x6D ∨ c = 0x4D) ∧ 0 < i then [i]
      else if isDecDigit c then i :: decReads (i + 1) s
      else [i]

def str2IntReads (inputstr : List UInt8) : List ℕ :=
  [0] ++ (if inputstr.getD 0 0 = 0x30 then [1] else []) ++
    if inputstr.getD 0 0 = 0x30 ∧ (inputstr.getD 1 0 = 0x78 ∨ inputstr.getD 1 0 = 0x58) then
      [2] ++ if inputstr.getD 2 0 = 0 then [] else hexReads 2 (inputstr.drop 2)
    else decReads 0 inputstr

/-- The parse with its accesses to `file_name`, `file_size` and `packet_data`, the latter
with the tests of the number and of the first byte. -/
structure HeaderParse where
  fileName : List UInt8
  fileSize : List UInt8
  nameWrites : List ℕ
  sizeWrites : List ℕ
  sizeReads : List ℕ
  packetReads : List ℕ

def parseHeader (d : PacketData) : HeaderParse :=
  let name := scan d 0 256 3 0
  let size := scan d 0x20 16 (3 + name.copied.length + 1) 0
  { fileName := name.copied
    fileSize := size.copied ++ [0]
    nameWrites := name.writes ++ [name.copied.length]
    sizeWrites := size.writes ++ [size.copied.length]
    sizeReads := str2IntReads (size.copied ++ [0])
    packetReads := [1, 3] ++ name.reads ++ size.reads }

/-- `FILE_NAME_LENGTH`, `FILE_SIZE_LENGTH` and the length of `packet_data` are kept, and
only bytes of the number that this parse wrote are read. -/
structure HeaderParse.InBounds (h : HeaderParse) : Prop where
  name : ∀ i ∈ h.nameWrites, i < 256
  size : ∀ i ∈ h.sizeWrites, i < 16
  packet : ∀ i ∈ h.packetReads, i < 1029
  number : ∀ i ∈ h.sizeReads, i ∈ h.sizeWrites

/-- The packet of this turn is taken as a header and parsed. -/
def Receiver.TakesHeader (s : Receiver) : Prop :=
  s.received.Complete ∧ (s.received.data.get 1).toNat = s.packetsReceived % 256 ∧
    s.packetsReceived = 0 ∧ s.received.data.get 3 ≠ 0

instance (s : Receiver) : Decidable s.TakesHeader := inferInstanceAs (Decidable (_ ∧ _))

def Receiver.headerParse (s : Receiver) : Option HeaderParse :=
  if s.TakesHeader then some (parseHeader s.received.data) else none

/-- A 0 among the first 256 bytes, and a space among the 16 bytes behind the first 0. -/
def HeaderTerminated (d : PacketData) : Prop :=
  ∃ n < 256, d.toList.getD (3 + n) 0 = 0 ∧ (∀ m < n, d.toList.getD (3 + m) 0 ≠ 0) ∧
    ∃ j < 16, d.toList.getD (3 + n + 1 + j) 0 = 0x20

/-! ### The loops -/

section Scan

variable (d : PacketData) (stop : UInt8)

theorem scan_reads (k ptr i : ℕ) :
    (scan d stop k ptr i).reads = List.range' ptr ((scan d stop k ptr i).copied.length + 1) := by
  induction k generalizing ptr i with
  | zero => rfl
  | succ k ih =>
      rw [scan]
      split_ifs with h
      · rfl
      · rw [List.length_cons, List.range'_succ, ← ih]

theorem scan_writes (k ptr i : ℕ) :
    (scan d stop k ptr i).writes = List.range' i (scan d stop k ptr i).copied.length := by
  induction k generalizing ptr i with
  | zero => rfl
  | succ k ih =>
      rw [scan]
      split_ifs with h
      · rfl
      · rw [List.length_cons, List.range'_succ, ← ih]

theorem scan_length_le (k ptr i : ℕ) : (scan d stop k ptr i).copied.length ≤ k := by
  induction k generalizing ptr i with
  | zero => exact le_rfl
  | succ k ih =>
      rw [scan]
      split_ifs with h
      · exact Nat.zero_le _
      · exact Nat.succ_le_succ (ih _ _)

theorem scan_length_lt_iff (k ptr i : ℕ) :
    (scan d stop k ptr i).copied.length < k ↔ ∃ n < k, d.toList.getD (ptr + n) 0 = stop := by
  induction k generalizing ptr i with
  | zero => simp [scan]
  | succ k ih =>
      rw [scan]
      split_ifs with h
      · exact iff_of_true (Nat.succ_pos k) ⟨0, Nat.succ_pos k, h⟩
      · rw [List.length_cons, Nat.succ_lt_succ_iff, ih]
        constructor
        · rintro ⟨n, hn, hstop⟩
          exact ⟨n + 1, Nat.succ_lt_succ hn, by rwa [Nat.add_right_comm] at hstop⟩
        · rintro ⟨n, hn, hstop⟩
          cases n with
          | zero => exact absurd hstop h
          | succ n => exact ⟨n, Nat.lt_of_succ_lt_succ hn, by rwa [Nat.add_right_comm]⟩

theorem scan_length_eq {n : ℕ} (k ptr i : ℕ) (hn : n < k)
    (hstop : d.toList.getD (ptr + n) 0 = stop)
    (hfirst : ∀ m < n, d.toList.getD (ptr + m) 0 ≠ stop) :
    (scan d stop k ptr i).copied.length = n := by
  induction k generalizing ptr i n with
  | zero => exact absurd hn (Nat.not_lt_zero n)
  | succ k ih =>
      rw [scan]
      cases n with
      | zero =>
          rw [Nat.add_zero] at hstop
          rw [if_pos hstop, List.length_nil]
      | succ n =>
          have hne := hfirst 0 (Nat.succ_pos n)
          rw [Nat.add_zero] at hne
          rw [if_neg hne, List.length_cons]
          refine congrArg Nat.succ (ih (ptr + 1) (i + 1) (Nat.lt_of_succ_lt_succ hn) ?_ ?_)
          · rwa [Nat.add_right_comm]
          · intro m hm
            have hne := hfirst (m + 1) (Nat.succ_lt_succ hm)
            rwa [← Nat.add_assoc, Nat.add_right_comm] at hne

theorem exists_first_stop {k ptr i : ℕ} (h : (scan d stop k ptr i).copied.length < k) :
    d.toList.getD (ptr + (scan d stop k ptr i).copied.length) 0 = stop ∧
      ∀ m < (scan d stop k ptr i).copied.length, d.toList.getD (ptr + m) 0 ≠ stop := by
  have hex := (scan_length_lt_iff d stop k ptr i).mp h
  have hfirst : ∀ m < Nat.find hex, d.toList.getD (ptr + m) 0 ≠ stop := fun m hm hstop =>
    Nat.find_min hex hm ⟨hm.trans (Nat.find_spec hex).1, hstop⟩
  rw [scan_length_eq d stop k ptr i (Nat.find_spec hex).1 (Nat.find_spec hex).2 hfirst]
  exact ⟨(Nat.find_spec hex).2, hfirst⟩

/-- What is copied is what the receiver keeps. -/
theorem scan_copied (k ptr i : ℕ) (hk : ptr + k ≤ 1029) :
    (scan d stop k ptr i).copied = ((d.toList.drop ptr).take k).takeWhile (· ≠ stop) := by
  induction k generalizing ptr i with
  | zero => rfl
  | succ k ih =>
      have hptr : ptr < d.toList.length := by
        rw [Vector.length_toList]
        omega
      rw [scan, List.drop_eq_getElem_cons hptr, List.take_succ_cons, List.takeWhile_cons,
        List.getD_eq_getElem _ _ hptr]
      by_cases h : d.toList[ptr] = stop
      · rw [if_pos h, if_neg (by simp [h])]
      · rw [if_neg h, if_pos (decide_eq_true h), ← ih (ptr + 1) (i + 1) (by omega)]

end Scan

/-- The instrumented parse gives the strings of the receiver. -/
theorem parseHeader_strings (d : PacketData) :
    (parseHeader d).fileName = headerName d ∧ (parseHeader d).fileSize = headerSize d := by
  have hname : (scan d 0 256 3 0).copied = headerName d :=
    scan_copied d 0 256 3 0 (by decide)
  have hlen := scan_length_le d 0 256 3 0
  refine ⟨hname, ?_⟩
  rw [hname] at hlen
  rw [parseHeader, hname, headerSize]
  exact congrArg (· ++ [0]) (scan_copied d 0x20 16 _ 0 (by omega))

/-! ### The accesses -/

theorem hexReads_lt {s : List UInt8} (h : (0 : UInt8) ∈ s) (i : ℕ) :
    ∀ j ∈ hexReads i s, j < i + s.length := by
  induction s generalizing i with
  | nil => exact absurd h List.not_mem_nil
  | cons c s ih =>
      intro j hj
      have hcases : j = i ∨ c ≠ 0 ∧ j ∈ hexReads (i + 1) s := by
        rw [hexReads] at hj
        split_ifs at hj <;> simp_all
      rw [List.length_cons]
      rcases hcases with rfl | ⟨hc, hj⟩
      · omega
      · have hlt := ih (List.mem_of_ne_of_mem hc.symm h) (i + 1) j hj
        omega

theorem decReads_lt {s : List UInt8} (h : (0 : UInt8) ∈ s) (i : ℕ) :
    ∀ j ∈ decReads i s, j < i + s.length := by
  induction s generalizing i with
  | nil => exact absurd h List.not_mem_nil
  | cons c s ih =>
      intro j hj
      have hcases : j = i ∨ c ≠ 0 ∧ j ∈ decReads (i + 1) s := by
        rw [decReads] at hj
        split_ifs at hj <;> simp_all
      rw [List.length_cons]
      rcases hcases with rfl | ⟨hc, hj⟩
      · omega
      · have hlt := ih (List.mem_of_ne_of_mem hc.symm h) (i + 1) j hj
        omega

/-- Bytes that are not 0 are followed by another one. -/
theorem exists_next {s : List UInt8} (h : (0 : UInt8) ∈ s) (n : ℕ)
    (hn : ∀ m < n, s.getD m 0 ≠ 0) : n < s.length ∧ (0 : UInt8) ∈ s.drop n := by
  rw [← List.take_append_drop n s, List.mem_append] at h
  have hdrop : (0 : UInt8) ∈ s.drop n := by
    refine h.resolve_left fun hmem => ?_
    obtain ⟨m, hm, heq⟩ := List.mem_iff_getElem.mp hmem
    rw [List.length_take] at hm
    refine hn m (by omega) ?_
    rw [List.getD_eq_getElem _ _ (by omega), ← heq, List.getElem_take]
  refine ⟨?_, hdrop⟩
  have hpos := List.length_pos_of_mem hdrop
  rw [List.length_drop] at hpos
  omega

theorem str2IntReads_lt {s : List UInt8} (h : (0 : UInt8) ∈ s) :
    ∀ j ∈ str2IntReads s, j < s.length := by
  intro j hj
  simp only [str2IntReads, List.mem_append, List.mem_singleton] at hj
  rcases hj with (rfl | hj) | hj
  · exact List.length_pos_of_mem h
  · split_ifs at hj with hzero
    · obtain rfl := List.mem_singleton.mp hj
      refine (exists_next h 1 fun m hm => ?_).1
      obtain rfl : m = 0 := by omega
      rw [hzero]
      decide
    · exact absurd hj List.not_mem_nil
  · by_cases hhex : s.getD 0 0 = 0x30 ∧ (s.getD 1 0 = 0x78 ∨ s.getD 1 0 = 0x58)
    · have hnext := exists_next h 2 fun m hm => by
        obtain rfl | rfl : m = 0 ∨ m = 1 := by omega
        · rw [hhex.1]
          decide
        · rcases hhex.2 with hx | hx <;> (rw [hx]; decide)
      rw [if_pos hhex] at hj
      rcases List.mem_append.mp hj with hj | hj
      · exact List.mem_singleton.mp hj ▸ hnext.1
      · split_ifs at hj with hend
        · exact absurd hj List.not_mem_nil
        · have hlt := hexReads_lt hnext.2 2 j hj
          rw [List.length_drop] at hlt
          omega
    · rw [if_neg hhex] at hj
      have hlt := decReads_lt h 0 j hj
      omega

theorem forall_terminated_lt_iff (n k : ℕ) :
    (∀ i ∈ List.range' 0 n ++ [n], i < k) ↔ n < k := by
  constructor
  · exact fun h => h n (List.mem_append_right _ List.mem_cons_self)
  · intro h i hi
    rcases List.mem_append.mp hi with hi | hi
    · exact (List.mem_range'_1.mp hi).2.trans (by omega)
    · exact List.mem_singleton.mp hi ▸ h

theorem parseHeader_inBounds_iff (d : PacketData) :
    (parseHeader d).InBounds ↔ HeaderTerminated d := by
  have hname := scan_length_le d 0 256 3 0
  have hsize := scan_length_le d 0x20 16 (3 + (scan d 0 256 3 0).copied.length + 1) 0
  constructor
  · intro h
    have hn := h.name
    have hs := h.size
    simp only [parseHeader, scan_writes, forall_terminated_lt_iff] at hn hs
    obtain ⟨hstop, hfirst⟩ := exists_first_stop d 0 hn
    exact ⟨_, hn, hstop, hfirst, (scan_length_lt_iff d 0x20 16 _ 0).mp hs⟩
  · rintro ⟨n, hn, hstop, hfirst, hspace⟩
    have hlen := scan_length_eq d 0 256 3 0 hn hstop hfirst
    refine ⟨?_, ?_, ?_, ?_⟩
    · simp only [parseHeader, scan_writes, forall_terminated_lt_iff, hlen]
      exact hn
    · simp only [parseHeader, scan_writes, forall_terminated_lt_iff, hlen]
      exact (scan_length_lt_iff d 0x20 16 _ 0).mpr hspace
    · intro i hi
      simp only [parseHeader, scan_reads, List.mem_append, List.mem_cons, List.mem_range'_1,
        List.not_mem_nil, or_false] at hi
      omega
    · intro i hi
      have hlt := str2IntReads_lt (by simp) i hi
      simp only [parseHeader, scan_writes, List.mem_append, List.mem_range'_1,
        List.mem_singleton]
      rw [List.length_append, List.length_singleton] at hlt
      omega

/-- In every turn that takes a header, the parse stays in bounds exactly when there is a
0 among the 256 bytes of the name and a space among the 16 bytes behind it. -/
theorem headerParse_inBounds_iff (s : Receiver) :
    (∀ h ∈ s.headerParse, h.InBounds) ↔
      (s.TakesHeader → HeaderTerminated s.received.data) := by
  rw [Receiver.headerParse]
  split_ifs with htakes
  · simp [htakes, parseHeader_inBounds_iff]
  · simp [htakes]

/-- The header of a file `a` of 8 bytes, with nothing but zeros behind the size. -/
def zeroPaddedHeader : List UInt8 := [0x01, 0, 0xFF, 0x61, 0, 0x38] ++ List.replicate 127 0

def zeroPaddedReceiver : Receiver where
  packetData := Vector.replicate 1029 0
  buf := Vector.replicate 1024 0
  fileName := []
  size := 0
  flashDestination := 0
  flash := fun _ => 0xFF
  line := zeroPaddedHeader.map some
  sent := []
  packetsReceived := 0
  errors := 0
  sessionBegin := false

/-- Its parse writes behind `file_size`. -/
theorem zero_padded_header_leaves_bounds :
    ¬ ∀ s : Receiver, ∀ h ∈ s.headerParse, h.InBounds := by
  intro h
  have htakes : zeroPaddedReceiver.TakesHeader := by decide +kernel
  have hin := h zeroPaddedReceiver _ (if_pos htakes)
  have hwrite : 16 ∈ (parseHeader zeroPaddedReceiver.received.data).sizeWrites := by
    decide +kernel
  exact absurd (hin.size 16 hwrite) (by decide)

end YckjAcu
