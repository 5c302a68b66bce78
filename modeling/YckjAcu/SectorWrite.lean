import YckjAcu.Lib.Chunks
import YckjAcu.SpiFlash

/-!
# Writing a range of the serial flash

A page write that stays in its sector stores the range and keeps the rest of the
sector, whether the sector is erased or only programmed.  The split of a range
gives such pages only.
-/

namespace YckjAcu

open NorFlash

/-! ### Programming a sector -/

theorem aaiPairs_eq (k addr : ℕ) (pBuf : Bytes) (flash : Flash) :
    aaiPairs k addr pBuf flash = program norCell flash addr (2 * k) pBuf := by
  induction k generalizing addr pBuf flash with
  | zero => rw [aaiPairs, Nat.mul_zero, program_zero]
  | succ k ih =>
      rw [aaiPairs, ih, Nat.mul_succ, Nat.add_comm (2 * k)]
      exact program_append norCell flash addr (2 * k) pBuf 2

theorem programPages_eq {k : ℕ} {addr : UInt32} (h : addr.toNat + 256 * k ≤ 2 ^ 24) (pBuf : Bytes)
    (flash : Flash) :
    programPages k addr pBuf flash = program norCell flash addr.toNat (256 * k) pBuf := by
  induction k generalizing addr pBuf flash with
  | zero => rw [programPages, Nat.mul_zero, program_zero]
  | succ k ih =>
      have hnext : (addr + 256).toNat = addr.toNat + 256 := by
        rw [UInt32.toNat_add]
        change (addr.toNat + 256) % 2 ^ 32 = addr.toNat + 256
        omega
      rw [programPages, ih (by omega), hnext, sentAddr_of_lt (by omega), Nat.mul_succ,
        Nat.add_comm (256 * k)]
      exact program_append norCell flash addr.toNat (256 * k) pBuf 256

section Chip

variable (chip : SpiChip)

theorem sfPageWrite_eq {addr : UInt32} (h : addr.toNat + 4096 ≤ 2 ^ 24) (pBuf : Bytes)
    (flash : Flash) :
    sfPageWrite chip.toSFlashT pBuf addr chip.pageSize flash =
      program norCell flash addr.toNat 4096 pBuf := by
  rw [chip.pageSize_eq, sfPageWrite]
  split_ifs with hid hsmall
  · exact absurd hsmall (by decide)
  · dsimp only
    rw [aaiPairs_eq, sentAddr_of_lt (by omega)]
    exact program_append norCell flash addr.toNat 4094 pBuf 2
  · exact programPages_eq h pBuf flash

theorem sfEraseSector_eq {addr : UInt32} (h : addr.toNat < 2 ^ 24)
    (haligned : addr.toNat % 4096 = 0) (flash : Flash) :
    sfEraseSector addr flash = erase norCell flash addr.toNat 4096 := by
  rw [sfEraseSector, sentAddr_of_lt h, Nat.div_mul_cancel (Nat.dvd_of_mod_eq_zero haligned)]

/-- The first try is enough when the data compare. -/
theorem writeTries_of_stored {src : Bytes} {wrAddr firstAddr : UInt32} {wrLen : UInt16}
    {needErase : Bool} {k : ℕ} {st : SpiState} {flash : Flash}
    (hwrite : sfPageWrite chip.toSFlashT (bufBytes st.spiBuf) firstAddr chip.pageSize
      (if needErase then sfEraseSector firstAddr st.flash else st.flash) = flash)
    (hcmp : sfCmpData chip.toSFlashT wrAddr src wrLen.toUInt32 flash = false) :
    writeTries chip.toSFlashT src wrAddr firstAddr wrLen needErase (k + 1) st =
      (true, { st with flash }) := by
  rw [writeTries]
  dsimp only
  rw [hwrite, if_pos hcmp]

/-! ### One page -/

/-- The operation succeeds and leaves this flash. -/
def Written (r : Bool × SpiState) (flash : Flash) : Prop := r.1 = true ∧ r.2.flash = flash

section Page

variable {src : Bytes} {wrAddr : UInt32} {wrLen : UInt16} {st : SpiState}

theorem sectorImage (hsector : wrAddr.toNat % 4096 + wrLen.toNat ≤ 4096)
    {buf : Vector UInt8 4096} {flash : Flash} {first : ℕ}
    (hfirst : first = wrAddr.toNat - wrAddr.toNat % 4096)
    (hbuf : wrLen.toNat ≠ 4096 → ∀ k < 4096, bufBytes buf k = flash (first + k)) {k : ℕ}
    (hk : k < 4096) :
    bufBytes (copyTo buf (wrAddr.toNat % 4096) wrLen.toNat src) k =
      blit flash wrAddr.toNat wrLen.toNat src (first + k) := by
  rw [bufBytes_copyTo _ _ _ _ hk]
  by_cases hin : wrAddr.toNat % 4096 ≤ k ∧ k < wrAddr.toNat % 4096 + wrLen.toNat
  · rw [blit, if_pos hin, blit, if_pos (by omega)]
    congr 1
    omega
  · rw [blit_outside _ _ _ _ hin, blit_outside _ _ _ _ (by omega), hbuf (by omega) k hk]

variable (hsector : wrAddr.toNat % 4096 + wrLen.toNat ≤ 4096)
  (hend : wrAddr.toNat + wrLen.toNat ≤ chip.totalSize.toNat)

include hend in
theorem sector_le (hpos : 0 < wrLen.toNat) :
    wrAddr.toNat - wrAddr.toNat % 4096 + 4096 ≤ chip.totalSize.toNat := by
  obtain ⟨m, hm⟩ := chip.dvd_totalSize
  omega

include hsector hend

/-- Erased or not, the sector is programmed as the image says and compares. -/
theorem writeTries_written (hpos : 0 < wrLen.toNat) {first : UInt32}
    (hfirst : first.toNat = wrAddr.toNat - wrAddr.toNat % 4096) {needErase : Bool}
    (hreach : needErase = false →
      Reachable norCell st.flash wrAddr.toNat wrLen.toNat src)
    (himage : ∀ k < 4096, bufBytes st.spiBuf k =
      blit st.flash wrAddr.toNat wrLen.toNat src (first.toNat + k)) :
    Written (writeTries chip.toSFlashT src wrAddr first wrLen needErase 3 st)
      (blit st.flash wrAddr.toNat wrLen.toNat src) := by
  have htotal := chip.totalSize_le
  have hblock := sector_le chip hend hpos
  rw [← hfirst] at hblock
  have hbase : first.toNat ≤ wrAddr.toNat := by omega
  have hlast : wrAddr.toNat + wrLen.toNat ≤ first.toNat + 4096 := by omega
  have hwrite : sfPageWrite chip.toSFlashT (bufBytes st.spiBuf) first chip.pageSize
      (if needErase then sfEraseSector first st.flash else st.flash) =
        blit st.flash wrAddr.toNat wrLen.toNat src := by
    rw [sfPageWrite_eq chip (hblock.trans htotal), program_congr norCell himage]
    cases needErase with
    | true =>
        rw [if_pos rfl, sfEraseSector_eq (by omega) (by omega)]
        exact program_block_erased norCell hbase hlast
    | false => exact program_block norCell hbase hlast (hreach rfl)
  have hcmp : sfCmpData chip.toSFlashT wrAddr src wrLen.toUInt32
      (blit st.flash wrAddr.toNat wrLen.toNat src) = false := by
    rw [sfCmpData_eq_false_iff chip (by rwa [UInt16.toNat_toUInt32])]
    intro k hk
    rw [UInt16.toNat_toUInt32] at hk
    exact blit_inside _ _ _ _ hk
  rw [writeTries_of_stored chip hwrite hcmp]
  exact ⟨rfl, rfl⟩

/-- `s_spiBuf` holds the sector as it shall be. -/
theorem spiBuf_image (hpos : 0 < wrLen.toNat) (spiBuf : Vector UInt8 4096) {k : ℕ}
    (hk : k < 4096) :
    bufBytes (if wrLen = chip.pageSize then copyTo spiBuf 0 chip.pageSize.toNat src
        else copyTo (sfReadBuffer chip.toSFlashT spiBuf (wrAddr &&& ~~~(4096 - 1))
            chip.pageSize.toUInt32 st.flash)
          (wrAddr &&& (4096 - 1)).toUInt16.toNat wrLen.toNat src) k =
      blit st.flash wrAddr.toNat wrLen.toNat src ((wrAddr &&& ~~~(4096 - 1)).toNat + k) := by
  have hpage := chip.toNat_pageSize
  have hfirst := toNat_and_not_mask wrAddr
  have hblock := sector_le chip hend hpos
  rw [← hfirst] at hblock
  split_ifs with hwhole
  · have hlen : wrLen.toNat = 4096 := (congrArg UInt16.toNat hwhole).trans hpage
    have hzero : wrAddr.toNat % 4096 = 0 := by omega
    rw [← hwhole, ← hzero]
    exact sectorImage hsector hfirst (absurd hlen) hk
  · have hoffset : (wrAddr &&& (4096 - 1)).toUInt16.toNat = wrAddr.toNat % 4096 := by
      rw [UInt32.toNat_toUInt16, toNat_and_mask]
      omega
    rw [hoffset]
    apply sectorImage hsector hfirst _ hk
    intro _ j hj
    have hsize : chip.pageSize.toUInt32.toNat = 4096 := by
      rw [UInt16.toNat_toUInt32, hpage]
    exact bufBytes_sfReadBuffer chip _ _ (by omega) (by omega) (by omega)

theorem sfAutoWritePage_written :
    Written (sfAutoWritePage chip.toSFlashT src wrAddr wrLen st)
      (blit st.flash wrAddr.toNat wrLen.toNat src) := by
  have hlen : wrLen.toUInt32.toNat = wrLen.toNat := UInt16.toNat_toUInt32 _
  have hpage := chip.toNat_pageSize
  have hread : ∀ k < wrLen.toNat,
      bufBytes (sfReadBuffer chip.toSFlashT st.spiBuf wrAddr wrLen.toUInt32 st.flash) k =
        st.flash (wrAddr.toNat + k) := fun k hk =>
    bufBytes_sfReadBuffer chip _ _ (by omega) (by omega) (by omega)
  rw [sfAutoWritePage]
  by_cases hzero : wrLen = 0
  · rw [if_pos hzero, hzero]
    exact ⟨rfl, (blit_zero _ _ _).symm⟩
  have hpos : 0 < wrLen.toNat := Nat.pos_of_ne_zero fun h => hzero (UInt16.toNat_inj.mp h)
  have hbeyond : ¬ wrAddr ≥ chip.totalSize := by
    rw [ge_iff_le, UInt32.le_iff_toNat_le]
    omega
  have hlong : ¬ wrLen > chip.pageSize := by
    rw [gt_iff_lt, UInt16.lt_iff_toNat_lt]
    omega
  rw [if_neg hzero, if_neg hbeyond, if_neg hlong]
  dsimp only
  by_cases hsame : (List.range wrLen.toNat).all (fun k => bufBytes
      (sfReadBuffer chip.toSFlashT st.spiBuf wrAddr wrLen.toUInt32 st.flash) k = src k) = true
  · rw [if_pos hsame]
    simp only [List.all_eq_true, List.mem_range, decide_eq_true_eq] at hsame
    refine ⟨rfl, (blit_same _ _ _ _ fun k hk => ?_).symm⟩
    rw [← hread k hk, hsame k hk]
  · rw [if_neg hsame]
    have hmask : chip.pageSize.toUInt32 - 1 = 4096 - 1 := by rw [chip.pageSize_eq]; rfl
    have hfirst := toNat_and_not_mask wrAddr
    rw [hmask]
    apply writeTries_written chip hsector hend hpos hfirst
    · intro hneed k hk
      rw [← hread k hk]
      exact sfNeedErase_eq_false_iff.mp hneed k hk
    · exact fun k hk => spiBuf_image chip hsector hend hpos _ hk

theorem pageThen_written {next : SpiState → Bool × SpiState} {flash : Flash}
    (hnext : ∀ st', st'.flash = blit st.flash wrAddr.toNat wrLen.toNat src →
      Written (next st') flash) :
    Written (pageThen chip.toSFlashT src wrAddr wrLen st next) flash := by
  have hpage : Written (sfAutoWritePage chip.toSFlashT src wrAddr wrLen st)
      (blit st.flash wrAddr.toNat wrLen.toNat src) := sfAutoWritePage_written chip hsector hend
  rw [pageThen]
  dsimp only
  rw [hpage.1, if_neg (by decide)]
  exact hnext _ hpage.2

theorem pageThen_last {flash : Flash} (h : blit st.flash wrAddr.toNat wrLen.toNat src = flash) :
    Written (pageThen chip.toSFlashT src wrAddr wrLen st fun st => (true, st)) flash :=
  pageThen_written chip hsector hend fun _ hst => ⟨rfl, hst.trans h⟩

end Page

/-! ### A range -/

@[simp] theorem Bytes.skip_zero (p : Bytes) : p.skip 0 = p := by
  funext k
  rw [Bytes.skip, Nat.zero_add]

@[simp] theorem Bytes.skip_skip (p : Bytes) (c d : ℕ) : (p.skip c).skip d = p.skip (c + d) := by
  funext k
  rw [Bytes.skip, Bytes.skip, Bytes.skip, Nat.add_assoc]

theorem blit_skip {flash flash' : Flash} {p : Bytes} {addr m addr' n total : ℕ}
    (hflash : flash' = blit flash addr m p) (haddr : addr' = addr + m) (htotal : m + n = total) :
    blit flash' addr' n (p.skip m) = blit flash addr total p := by
  rw [hflash, haddr, ← htotal]
  exact blit_append flash addr n p m

/-- Whole sectors, in ascending order. -/
theorem pagesThen_written {k : ℕ} {p : Bytes} {addr : UInt32} {st : SpiState}
    {next : Bytes → UInt32 → SpiState → Bool × SpiState} {flash : Flash}
    (haligned : addr.toNat % 4096 = 0) (hend : addr.toNat + 4096 * k ≤ chip.totalSize.toNat)
    (hnext : ∀ (addr' : UInt32) st', addr'.toNat = addr.toNat + 4096 * k →
      st'.flash = blit st.flash addr.toNat (4096 * k) p →
        Written (next (p.skip (4096 * k)) addr' st') flash) :
    Written (pagesThen chip.toSFlashT k p addr st next) flash := by
  have hpage := chip.toNat_pageSize
  induction k generalizing p addr st with
  | zero =>
      have h := hnext addr st rfl (blit_zero _ _ _).symm
      rwa [Nat.mul_zero, Bytes.skip_zero] at h
  | succ k ih =>
      have hstep : (addr + chip.pageSize.toUInt32).toNat = addr.toNat + 4096 := by
        rw [toNat_add_of_le (c := chip.totalSize) (by rw [UInt16.toNat_toUInt32]; omega),
          UInt16.toNat_toUInt32, hpage]
      apply pageThen_written chip (by omega) (by omega)
      intro st₁ hst₁
      rw [hpage] at hst₁ ⊢
      apply ih (by omega) (by omega)
      intro addr' st' haddr' hst'
      rw [Bytes.skip_skip, show 4096 + 4096 * k = 4096 * (k + 1) by omega]
      apply hnext addr' st' (by omega)
      rw [hst']
      exact blit_skip hst₁ hstep (by omega)

section Range

variable {writeSize : UInt16} {pBuf : Bytes} {writeAddr : UInt32} {st : SpiState}

/-- The pages of a range from the start of a sector on, and what follows them. -/
theorem alignedPages_written (haligned : writeAddr.toNat % 4096 = 0)
    (hend : writeAddr.toNat + writeSize.toNat ≤ chip.totalSize.toNat)
    {last : Bytes → UInt32 → SpiState → Bool × SpiState} {flash : Flash}
    (hlast : ∀ (p : Bytes) (addr : UInt32) st₁, addr.toNat % 4096 = 0 →
      addr.toNat + (writeSize % chip.pageSize).toNat ≤ chip.totalSize.toNat →
      blit st₁.flash addr.toNat (writeSize % chip.pageSize).toNat p = flash →
        Written (last p addr st₁) flash)
    (hflash : blit st.flash writeAddr.toNat writeSize.toNat pBuf = flash) :
    Written (pagesThen chip.toSFlashT (writeSize / chip.pageSize).toNat pBuf writeAddr st last)
      flash := by
  have hpage := chip.toNat_pageSize
  rw [UInt16.toNat_mod, hpage] at hlast
  rw [UInt16.toNat_div, hpage]
  apply pagesThen_written chip haligned (by omega)
  intro addr st₁ haddr hst₁
  apply hlast _ _ _ (by omega) (by omega)
  rw [← hflash]
  exact blit_skip hst₁ haddr (by omega)

theorem numOfPage_eq_zero_iff : writeSize / chip.pageSize = 0 ↔ writeSize.toNat < 4096 := by
  have hpages : (writeSize / chip.pageSize).toNat = writeSize.toNat / 4096 := by
    rw [UInt16.toNat_div, chip.toNat_pageSize]
  rw [← UInt16.toNat_inj, hpages]
  change writeSize.toNat / 4096 = 0 ↔ writeSize.toNat < 4096
  omega

theorem toNat_pageOffset (writeAddr : UInt32) :
    (writeAddr % chip.pageSize.toUInt32).toUInt16.toNat = writeAddr.toNat % 4096 := by
  rw [UInt32.toNat_toUInt16, UInt32.toNat_mod, UInt16.toNat_toUInt32, chip.toNat_pageSize]
  omega

variable (hend : writeAddr.toNat + writeSize.toNat ≤ chip.totalSize.toNat)

include hend

/-- From the start of a sector on. -/
theorem sfWriteBuffer_aligned (haligned : writeAddr.toNat % 4096 = 0) :
    Written (sfWriteBuffer chip.toSFlashT pBuf writeAddr writeSize st)
      (blit st.flash writeAddr.toNat writeSize.toNat pBuf) := by
  have hzero : (writeAddr % chip.pageSize.toUInt32).toUInt16 = 0 :=
    UInt16.toNat_inj.mp ((toNat_pageOffset chip writeAddr).trans haligned)
  rw [sfWriteBuffer]
  dsimp only
  rw [if_pos hzero]
  by_cases hfew : writeSize / chip.pageSize = 0
  · have hlt := (numOfPage_eq_zero_iff chip).mp hfew
    rw [if_pos hfew]
    exact pageThen_last chip (by omega) hend rfl
  · rw [if_neg hfew]
    refine alignedPages_written chip haligned hend (fun p a st₁ ha hfits hst₁ => ?_) rfl
    have hmod := UInt16.toNat_mod writeSize chip.pageSize
    rw [chip.toNat_pageSize] at hmod
    exact pageThen_last chip (by omega) hfits hst₁

/-- From inside a sector on: its rest comes first. -/
theorem sfWriteBuffer_inside (hinside : writeAddr.toNat % 4096 ≠ 0) :
    Written (sfWriteBuffer chip.toSFlashT pBuf writeAddr writeSize st)
      (blit st.flash writeAddr.toNat writeSize.toNat pBuf) := by
  have hpage := chip.toNat_pageSize
  have haddr := toNat_pageOffset chip writeAddr
  rw [sfWriteBuffer]
  generalize (writeAddr % chip.pageSize.toUInt32).toUInt16 = addr at haddr
  have hcount : (chip.pageSize - addr).toNat = 4096 - writeAddr.toNat % 4096 := by
    rw [UInt16.toNat_sub_of_le _ _ (UInt16.le_iff_toNat_le.mpr (by omega)), hpage, haddr]
  have hoffset : addr ≠ 0 := by
    rintro rfl
    exact hinside haddr.symm
  dsimp only
  rw [if_neg hoffset]
  generalize chip.pageSize - addr = count at hcount
  have hstart (hle : count.toNat ≤ writeSize.toNat) :
      (writeAddr + count.toUInt32).toNat = writeAddr.toNat + count.toNat := by
    rw [toNat_add_of_le (c := chip.totalSize) (by rw [UInt16.toNat_toUInt32]; omega),
      UInt16.toNat_toUInt32]
  by_cases hfew : writeSize / chip.pageSize = 0
  · have hlt := (numOfPage_eq_zero_iff chip).mp hfew
    have hsingle : (writeSize % chip.pageSize).toNat = writeSize.toNat := by
      rw [UInt16.toNat_mod, hpage, Nat.mod_eq_of_lt hlt]
    rw [if_pos hfew]
    by_cases hcross : writeSize % chip.pageSize > count
    · have hlt' := UInt16.lt_iff_toNat_lt.mp hcross
      have htemp : (writeSize % chip.pageSize - count).toNat = writeSize.toNat - count.toNat := by
        rw [UInt16.toNat_sub_of_le _ _ (UInt16.le_of_lt hcross), hsingle]
      have hnext := hstart (by omega)
      rw [if_pos hcross]
      apply pageThen_written chip (by omega) (by omega)
      intro st₁ hst₁
      apply pageThen_last chip (by omega) (by omega)
      exact blit_skip hst₁ hnext (by omega)
    · have hle := mt UInt16.lt_iff_toNat_lt.mpr hcross
      rw [if_neg hcross]
      exact pageThen_last chip (by omega) hend rfl
  · have hmany := mt (numOfPage_eq_zero_iff chip).mpr hfew
    have hrest : (writeSize - count).toNat = writeSize.toNat - count.toNat :=
      UInt16.toNat_sub_of_le _ _ (UInt16.le_iff_toNat_le.mpr (by omega))
    have hnext := hstart (by omega)
    rw [if_neg hfew]
    apply pageThen_written chip (by omega) (by omega)
    intro st₁ hst₁
    refine alignedPages_written chip (by omega) (by omega) (fun p a st₂ ha hfits hst₂ => ?_)
      (blit_skip hst₁ hnext (by omega))
    have hmod := UInt16.toNat_mod (writeSize - count) chip.pageSize
    rw [hpage] at hmod
    by_cases hdone : (writeSize - count) % chip.pageSize = 0
    · rw [if_neg (not_not.mpr hdone)]
      rw [hdone] at hst₂
      exact ⟨rfl, (blit_zero _ _ _).symm.trans hst₂⟩
    · rw [if_pos hdone]
      exact pageThen_last chip (by omega) hfits hst₂

theorem sfWriteBuffer_written :
    Written (sfWriteBuffer chip.toSFlashT pBuf writeAddr writeSize st)
      (blit st.flash writeAddr.toNat writeSize.toNat pBuf) := by
  by_cases haligned : writeAddr.toNat % 4096 = 0
  · exact sfWriteBuffer_aligned chip hend haligned
  · exact sfWriteBuffer_inside chip hend haligned

end Range

theorem blit_eq_store (flash : Flash) (addr : ℕ) {n : ℕ} {xs : List UInt8} (hn : n ≤ xs.length) :
    blit flash addr n (fun k => xs.getD k 0) = Chunks.store flash addr (xs.take n) := by
  funext i
  by_cases hi : addr ≤ i ∧ i < addr + n
  · obtain ⟨k, rfl⟩ := Nat.exists_eq_add_of_le hi.1
    have hk : k < n := by omega
    rw [blit_inside _ _ _ _ hk, Chunks.store_add, List.getElem?_take_of_lt hk,
      List.getElem?_eq_getElem (by omega), Option.getD_some,
      List.getD_eq_getElem _ _ (by omega)]
  · rw [blit_outside _ _ _ _ hi, Chunks.store]
    split_ifs with hle
    · rw [List.getElem?_eq_none (by rw [List.length_take]; omega), Option.getD_none]
    · rfl

/-- On the chip the driver does for a packet buffer what a download relies on. -/
theorem sfWriteBuffer_store (buf : Vector UInt8 1024) (addr : UInt32) (size : UInt16)
    (st : SpiState) (hsize : size.toNat ≤ 1024)
    (hend : addr.toNat + size.toNat ≤ chip.totalSize.toNat) :
    Written (sfWriteBuffer chip.toSFlashT (fun k => buf.toList.getD k 0) addr size st)
      (Chunks.store st.flash addr.toNat (buf.toList.take size.toNat)) := by
  rw [← blit_eq_store _ _ (by rwa [Vector.length_toList])]
  exact sfWriteBuffer_written chip hend

/-- The requested range is written and nothing else. -/
theorem sfWriteBuffer_writes_range (pBuf : Bytes) (writeAddr : UInt32) (writeSize : UInt16)
    (st : SpiState) (hend : writeAddr.toNat + writeSize.toNat ≤ chip.totalSize.toNat) :
    let r := sfWriteBuffer chip.toSFlashT pBuf writeAddr writeSize st
    r.1 = true ∧ (∀ k < writeSize.toNat, r.2.flash (writeAddr.toNat + k) = pBuf k) ∧
      ∀ i, ¬ (writeAddr.toNat ≤ i ∧ i < writeAddr.toNat + writeSize.toNat) →
        r.2.flash i = st.flash i := by
  have hbuffer : Written (sfWriteBuffer chip.toSFlashT pBuf writeAddr writeSize st)
      (blit st.flash writeAddr.toNat writeSize.toNat pBuf) := sfWriteBuffer_written chip hend
  dsimp only
  rw [hbuffer.2]
  exact ⟨hbuffer.1, fun k hk => blit_inside _ _ _ _ hk, fun i hi => blit_outside _ _ _ _ hi⟩

end Chip

/-- Over the end of a sector of a `W25Q64`. -/
theorem sfWriteBuffer_writes_range_w25q64 :
    let st : SpiState := ⟨Vector.replicate 4096 0, fun _ => 0xFF⟩
    let r := sfWriteBuffer (SpiChip.ofID w25q64ID).toSFlashT (fun _ => 0xAA) 4090 10 st
    r.1 = true ∧ (∀ k < UInt16.toNat 10, r.2.flash (UInt32.toNat 4090 + k) = 0xAA) ∧
      ∀ i, ¬ (UInt32.toNat 4090 ≤ i ∧ i < UInt32.toNat 4090 + UInt16.toNat 10) →
        r.2.flash i = 0xFF :=
  sfWriteBuffer_writes_range (SpiChip.ofID w25q64ID) (fun _ => 0xAA) 4090 10
    ⟨Vector.replicate 4096 0, fun _ => 0xFF⟩ (by decide +kernel)

end YckjAcu
