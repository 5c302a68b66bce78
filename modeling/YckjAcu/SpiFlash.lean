import YckjAcu.Lib.NorFlash
import YckjAcu.Ymodem

/-!
# The serial flash

The driver compares before it writes, erases a sector only when some bit has to
be set, and then programs the whole sector from `s_spiBuf`.
-/

namespace YckjAcu

open NorFlash

/-! ### The driver -/

structure SFlashT where
  chipID : UInt32
  totalSize : UInt32
  pageSize : UInt16

def sst25vf016bID : UInt32 := 0xBF2541
def mx25l1606eID : UInt32 := 0xC22015
def w25q64ID : UInt32 := 0xEF4017
def w25q128ID : UInt32 := 0xEF4018

/-- The parameters for the identifier that `sf_ReadID` returns. -/
def sfReadInfo (id : UInt32) : SFlashT :=
  if id = sst25vf016bID then ⟨id, 2 * 1024 * 1024, 4 * 1024⟩
  else if id = mx25l1606eID then ⟨id, 2 * 1024 * 1024, 4 * 1024⟩
  else if id = w25q64ID then ⟨id, 8 * 1024 * 1024, 4 * 1024⟩
  else if id = w25q128ID then ⟨id, 16 * 1024 * 1024, 4 * 1024⟩
  else ⟨id, 2 * 1024 * 1024, 4 * 1024⟩

/-- Programming clears bits, an erase sets them. -/
def norCell : Cell UInt8 where
  program old new := old &&& new
  erased := 0xFF
  program_erased _ := UInt8.neg_one_and
  program_self _ := UInt8.and_self

structure SpiState where
  spiBuf : Vector UInt8 4096
  flash : Flash

/-- The bytes from a pointer on. -/
abbrev Bytes := ℕ → UInt8

def Bytes.skip (p : Bytes) (d : ℕ) : Bytes := fun k => p (d + k)

def bufBytes (buf : Vector UInt8 4096) : Bytes := fun k => (buf[k]?).getD 0

/-- `len` bytes copied to `buf + at`. -/
def copyTo (buf : Vector UInt8 4096) (start len : ℕ) (src : Bytes) : Vector UInt8 4096 :=
  Vector.ofFn fun i =>
    if start ≤ i.val ∧ i.val < start + len then src (i.val - start) else buf.get i

/-- The address in the three bytes of a command. -/
def sentAddr (a : UInt32) : ℕ :=
  ((a &&& 0xFF0000) >>> 16).toUInt8.toNat * 0x10000 + ((a &&& 0xFF00) >>> 8).toUInt8.toNat * 0x100 +
    (a &&& 0xFF).toUInt8.toNat

/-- `CMD_SE` erases the 4096 bytes around the address. -/
def sfEraseSector (sectorAddr : UInt32) (flash : Flash) : Flash :=
  erase norCell flash (sentAddr sectorAddr / 4096 * 4096) 4096

/-- `k` more pairs of bytes in AAI mode. -/
def aaiPairs : ℕ → ℕ → Bytes → Flash → Flash
  | 0, _, _, flash => flash
  | k + 1, addr, pBuf, flash =>
      aaiPairs k (addr + 2) (pBuf.skip 2) (program norCell flash addr 2 pBuf)

/-- `k` commands of 256 bytes. -/
def programPages : ℕ → UInt32 → Bytes → Flash → Flash
  | 0, _, _, flash => flash
  | k + 1, writeAddr, pBuf, flash =>
      programPages k (writeAddr + 256) (pBuf.skip 256)
        (program norCell flash (sentAddr writeAddr) 256 pBuf)

section Driver

variable (chip : SFlashT)

def sfPageWrite (pBuf : Bytes) (writeAddr : UInt32) (size : UInt16) (flash : Flash) : Flash :=
  if chip.chipID = sst25vf016bID then
    if size < 2 ∧ size % 2 ≠ 0 then flash
    else
      let flash := program norCell flash (sentAddr writeAddr) 2 pBuf
      let size := size - 2
      aaiPairs (size / 2).toNat (sentAddr writeAddr + 2) (pBuf.skip 2) flash
  else programPages (size / 256).toNat writeAddr pBuf flash

def sfReadBuffer (pBuf : Vector UInt8 4096) (readAddr size : UInt32) (flash : Flash) :
    Vector UInt8 4096 :=
  if size = 0 ∨ readAddr + size > chip.totalSize then pBuf
  else copyTo pBuf 0 size.toNat fun k => flash (sentAddr readAddr + k)

/-- Whether the flash and the buffer differ. -/
def sfCmpData (srcAddr : UInt32) (tar : Bytes) (size : UInt32) (flash : Flash) : Bool :=
  if srcAddr + size > chip.totalSize then true
  else if size = 0 then false
  else (List.range size.toNat).any fun k => tar k ≠ flash (sentAddr srcAddr + k)

def sfNeedErase (oldBuf newBuf : Bytes) (len : UInt16) : Bool :=
  (List.range len.toNat).any fun k => ~~~oldBuf k &&& newBuf k ≠ 0

/-- The loop that writes and compares, for at most `k` times. -/
def writeTries (src : Bytes) (wrAddr firstAddr : UInt32) (wrLen : UInt16) (needErase : Bool) :
    ℕ → SpiState → Bool × SpiState
  | 0, st => (false, st)
  | k + 1, st =>
      let flash := if needErase then sfEraseSector firstAddr st.flash else st.flash
      let flash := sfPageWrite chip (bufBytes st.spiBuf) firstAddr chip.pageSize flash
      let st := { st with flash }
      if sfCmpData chip wrAddr src wrLen.toUInt32 st.flash = false then (true, st)
      else if sfCmpData chip wrAddr src wrLen.toUInt32 st.flash = false then (true, st)
      else writeTries src wrAddr firstAddr wrLen needErase k st

def sfAutoWritePage (src : Bytes) (wrAddr : UInt32) (wrLen : UInt16) (st : SpiState) :
    Bool × SpiState :=
  if wrLen = 0 then (true, st)
  else if wrAddr ≥ chip.totalSize then (false, st)
  else if wrLen > chip.pageSize then (false, st)
  else
    let spiBuf := sfReadBuffer chip st.spiBuf wrAddr wrLen.toUInt32 st.flash
    -- `memcmp`
    if (List.range wrLen.toNat).all fun k => bufBytes spiBuf k = src k then
      (true, { st with spiBuf })
    else
      let needErase := sfNeedErase (bufBytes spiBuf) src wrLen
      let firstAddr := wrAddr &&& ~~~(chip.pageSize.toUInt32 - 1)
      let spiBuf :=
        if wrLen = chip.pageSize then copyTo spiBuf 0 chip.pageSize.toNat src
        else
          copyTo (sfReadBuffer chip spiBuf firstAddr chip.pageSize.toUInt32 st.flash)
            (wrAddr &&& (chip.pageSize.toUInt32 - 1)).toUInt16.toNat wrLen.toNat src
      writeTries chip src wrAddr firstAddr wrLen needErase 3 { st with spiBuf }

/-- Write a page and go on, or return 0. -/
def pageThen (pBuf : Bytes) (writeAddr : UInt32) (len : UInt16) (st : SpiState)
    (next : SpiState → Bool × SpiState) : Bool × SpiState :=
  let (written, st) := sfAutoWritePage chip pBuf writeAddr len st
  if written = false then (false, st) else next st

/-- `while (NumOfPage--)` and what follows it. -/
def pagesThen : ℕ → Bytes → UInt32 → SpiState → (Bytes → UInt32 → SpiState → Bool × SpiState) →
    Bool × SpiState
  | 0, pBuf, writeAddr, st, next => next pBuf writeAddr st
  | k + 1, pBuf, writeAddr, st, next =>
      pageThen chip pBuf writeAddr chip.pageSize st fun st =>
        pagesThen k (pBuf.skip chip.pageSize.toNat) (writeAddr + chip.pageSize.toUInt32) st next

def sfWriteBuffer (pBuf : Bytes) (writeAddr : UInt32) (writeSize : UInt16) (st : SpiState) :
    Bool × SpiState :=
  let addr : UInt16 := (writeAddr % chip.pageSize.toUInt32).toUInt16
  let count : UInt16 := chip.pageSize - addr
  let numOfPage := writeSize / chip.pageSize
  let numOfSingle := writeSize % chip.pageSize
  if addr = 0 then
    if numOfPage = 0 then
      pageThen chip pBuf writeAddr writeSize st fun st => (true, st)
    else
      pagesThen chip numOfPage.toNat pBuf writeAddr st fun pBuf writeAddr st =>
        pageThen chip pBuf writeAddr numOfSingle st fun st => (true, st)
  else if numOfPage = 0 then
    if numOfSingle > count then
      let temp := numOfSingle - count
      pageThen chip pBuf writeAddr count st fun st =>
        pageThen chip (pBuf.skip count.toNat) (writeAddr + count.toUInt32) temp st fun st =>
          (true, st)
    else
      pageThen chip pBuf writeAddr writeSize st fun st => (true, st)
  else
    let writeSize := writeSize - count
    let numOfPage := writeSize / chip.pageSize
    let numOfSingle := writeSize % chip.pageSize
    pageThen chip pBuf writeAddr count st fun st =>
      pagesThen chip numOfPage.toNat (pBuf.skip count.toNat) (writeAddr + count.toUInt32) st
        fun pBuf writeAddr st =>
          if numOfSingle ≠ 0 then
            pageThen chip pBuf writeAddr numOfSingle st fun st => (true, st)
          else (true, st)

end Driver

/-! ### Addresses -/

theorem and_byte_shiftRight (x s : ℕ) :
    (x &&& (2 ^ 8 - 1) <<< s) >>> s % 2 ^ 8 = x / 2 ^ s % 2 ^ 8 := by
  rw [Nat.shiftRight_and_distrib, Nat.shiftLeft_shiftRight, Nat.and_two_pow_sub_one_eq_mod,
    Nat.mod_mod, Nat.shiftRight_eq_div_pow]

theorem sentAddr_of_lt {a : UInt32} (h : a.toNat < 2 ^ 24) : sentAddr a = a.toNat := by
  have hhigh : ((a &&& 0xFF0000) >>> 16).toUInt8.toNat = a.toNat / 2 ^ 16 % 2 ^ 8 := by
    rw [UInt32.toNat_toUInt8, UInt32.toNat_shiftRight, UInt32.toNat_and]
    exact and_byte_shiftRight a.toNat 16
  have hmid : ((a &&& 0xFF00) >>> 8).toUInt8.toNat = a.toNat / 2 ^ 8 % 2 ^ 8 := by
    rw [UInt32.toNat_toUInt8, UInt32.toNat_shiftRight, UInt32.toNat_and]
    exact and_byte_shiftRight a.toNat 8
  have hlow : (a &&& 0xFF).toUInt8.toNat = a.toNat % 2 ^ 8 := by
    rw [UInt32.toNat_toUInt8, UInt32.toNat_and]
    exact (and_byte_shiftRight a.toNat 0).trans (by rw [pow_zero, Nat.div_one])
  rw [sentAddr, hhigh, hmid, hlow]
  omega

theorem toNat_and_mask (a : UInt32) : (a &&& (4096 - 1)).toNat = a.toNat % 4096 := by
  rw [UInt32.toNat_and]
  exact Nat.and_two_pow_sub_one_eq_mod a.toNat 12

section Bits

variable {w : ℕ} (a m : BitVec w)

theorem and_not_or_and : (a &&& ~~~m) ||| (a &&& m) = a := by
  ext i hi
  simp only [BitVec.getElem_or, BitVec.getElem_and, BitVec.getElem_not]
  cases m[i] <;> simp

theorem and_not_and_and : (a &&& ~~~m) &&& (a &&& m) = 0#w := by
  ext i hi
  simp only [BitVec.getElem_and, BitVec.getElem_not]
  cases m[i] <;> simp

theorem and_not_add_and : (a &&& ~~~m) + (a &&& m) = a := by
  rw [BitVec.add_eq_or_of_and_eq_zero _ _ (and_not_and_and a m), and_not_or_and]

end Bits

theorem toNat_and_not_mask (a : UInt32) :
    (a &&& ~~~(4096 - 1)).toNat = a.toNat - a.toNat % 4096 := by
  have hsplit : (a &&& ~~~(4096 - 1)) + (a &&& (4096 - 1)) = a :=
    UInt32.toBitVec_inj.mp (and_not_add_and a.toBitVec (4096 - 1))
  have hle : (a &&& ~~~(4096 - 1)).toNat ≤ a.toNat := by
    rw [UInt32.toNat_and]
    exact Nat.and_le_left
  have hmod := toNat_and_mask a
  have hsum := congrArg UInt32.toNat hsplit
  rw [UInt32.toNat_add, hmod] at hsum
  omega

theorem toNat_add_of_le {a b c : UInt32} (h : a.toNat + b.toNat ≤ c.toNat) :
    (a + b).toNat = a.toNat + b.toNat := by
  have hlt := c.toNat_lt
  rw [UInt32.toNat_add, Nat.mod_eq_of_lt (by omega)]

/-! ### What each operation does -/

theorem bufBytes_copyTo (buf : Vector UInt8 4096) (start len : ℕ) (src : Bytes) {k : ℕ}
    (hk : k < 4096) :
    bufBytes (copyTo buf start len src) k = blit (bufBytes buf) start len src k := by
  rw [bufBytes, copyTo, Vector.getElem?_eq_getElem hk, Vector.getElem_ofFn, Option.getD_some, blit,
    bufBytes, Vector.getElem?_eq_getElem hk]
  rfl

/-- A chip in whole sectors whose addresses fit into three bytes. -/
structure SpiChip extends SFlashT where
  pageSize_eq : pageSize = 4096
  dvd_totalSize : 4096 ∣ totalSize.toNat
  totalSize_le : totalSize.toNat ≤ 2 ^ 24

theorem SpiChip.toNat_pageSize (chip : SpiChip) : chip.pageSize.toNat = 4096 :=
  congrArg UInt16.toNat chip.pageSize_eq

/-- Whatever identifier is read, the driver works with such parameters. -/
def SpiChip.ofID (id : UInt32) : SpiChip where
  toSFlashT := sfReadInfo id
  pageSize_eq := by
    unfold sfReadInfo
    split_ifs <;> rfl
  dvd_totalSize := by
    unfold sfReadInfo
    split_ifs <;> dsimp only <;> decide +kernel
  totalSize_le := by
    unfold sfReadInfo
    split_ifs <;> dsimp only <;> decide +kernel

section Chip

variable (chip : SpiChip)

theorem bufBytes_sfReadBuffer (buf : Vector UInt8 4096) {readAddr size : UInt32} (flash : Flash)
    (hsize : size.toNat ≤ 4096) (hend : readAddr.toNat + size.toNat ≤ chip.totalSize.toNat)
    {k : ℕ} (hk : k < size.toNat) :
    bufBytes (sfReadBuffer chip.toSFlashT buf readAddr size flash) k =
      flash (readAddr.toNat + k) := by
  have htotal := chip.totalSize_le
  have hread : ¬ (size = 0 ∨ readAddr + size > chip.totalSize) := by
    rintro (h | h)
    · rw [h] at hk
      exact absurd hk (Nat.not_lt_zero k)
    · rw [gt_iff_lt, UInt32.lt_iff_toNat_lt, toNat_add_of_le hend] at h
      omega
  rw [sfReadBuffer, if_neg hread, bufBytes_copyTo _ _ _ _ (by omega), blit,
    if_pos (by omega), sentAddr_of_lt (by omega), Nat.sub_zero]

theorem sfCmpData_eq_false_iff {srcAddr size : UInt32} {tar : Bytes} {flash : Flash}
    (hend : srcAddr.toNat + size.toNat ≤ chip.totalSize.toNat) :
    sfCmpData chip.toSFlashT srcAddr tar size flash = false ↔
      ∀ k < size.toNat, flash (srcAddr.toNat + k) = tar k := by
  have htotal := chip.totalSize_le
  have hfit : ¬ srcAddr + size > chip.totalSize := by
    rw [gt_iff_lt, UInt32.lt_iff_toNat_lt, toNat_add_of_le hend]
    omega
  rw [sfCmpData, if_neg hfit]
  by_cases hzero : size = 0
  · rw [if_pos hzero, hzero]
    exact iff_of_true rfl fun k hk => absurd hk (Nat.not_lt_zero k)
  · have hpos : size.toNat ≠ 0 := fun h => hzero (UInt32.toNat_inj.mp h)
    rw [if_neg hzero, List.any_eq_false, sentAddr_of_lt (by omega)]
    simp only [List.mem_range, ne_eq, decide_not, Bool.not_eq_true, Bool.not_eq_false',
      decide_eq_true_eq]
    exact forall₂_congr fun k _ => eq_comm

end Chip

theorem not_and_eq_zero_iff (old new : UInt8) : ~~~old &&& new = 0 ↔ old &&& new = new := by
  have hsplit : (new &&& ~~~old) ||| (new &&& old) = new :=
    UInt8.toBitVec_inj.mp (and_not_or_and new.toBitVec old.toBitVec)
  rw [UInt8.and_comm new, UInt8.and_comm new] at hsplit
  constructor
  · intro h
    rw [h, UInt8.zero_or] at hsplit
    exact hsplit
  · intro h
    rw [← h, ← UInt8.and_assoc, UInt8.not_and_self, UInt8.zero_and]

theorem sfNeedErase_eq_false_iff {oldBuf newBuf : Bytes} {len : UInt16} :
    sfNeedErase oldBuf newBuf len = false ↔
      ∀ k < len.toNat, oldBuf k &&& newBuf k = newBuf k := by
  rw [sfNeedErase, List.any_eq_false]
  simp only [List.mem_range, ne_eq, decide_not, Bool.not_eq_true, Bool.not_eq_false',
    decide_eq_true_eq]
  exact forall₂_congr fun k _ => not_and_eq_zero_iff _ _

end YckjAcu
