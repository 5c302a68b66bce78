import Mathlib

/-!
# Number strings of the download dialogue

`Str2Int` of `common.c` and the decimal string it reads back.
-/

namespace YckjAcu

def isDecDigit (c : UInt8) : Bool := 0x30 ≤ c && c ≤ 0x39

def isHexUpper (c : UInt8) : Bool := 0x41 ≤ c && c ≤ 0x46

def isHexLower (c : UInt8) : Bool := 0x61 ≤ c && c ≤ 0x66

def convertHex (c : UInt8) : UInt32 :=
  if isDecDigit c then (c - 0x30).toUInt32
  else if isHexUpper c then (c - 0x41 + 10).toUInt32
  else (c - 0x61 + 10).toUInt32

/-- The loop over hexadecimal digits from index `i` on; `none` is an invalid input. -/
def hexLoop (i : ℕ) (val : UInt32) : List UInt8 → Option UInt32
  | [] => none
  | c :: s =>
      if 11 ≤ i then none
      else if c = 0 then some val
      else if isHexUpper c || isHexLower c || isDecDigit c then
        hexLoop (i + 1) (val <<< 4 + convertHex c) s
      else none

/-- The loop over decimal digits, with a closing `k` or `m` for a multiple. -/
def decLoop (i : ℕ) (val : UInt32) : List UInt8 → Option UInt32
  | [] => none
  | c :: s =>
      if 11 ≤ i then none
      else if c = 0 then some val
      else if (c = 0x6B ∨ c = 0x4B) ∧ 0 < i then some (val <<< 10)
      else if (c = 0x6D ∨ c = 0x4D) ∧ 0 < i then some (val <<< 20)
      else if isDecDigit c then decLoop (i + 1) (val * 10 + (c - 0x30).toUInt32) s
      else none

/-- `Str2Int`: the result flag and `*intnum` after the call.  The string holds its
closing 0. -/
def str2Int (inputstr : List UInt8) (intnum : ℤ) : UInt32 × ℤ :=
  let val :=
    if inputstr.getD 0 0 = 0x30 ∧ (inputstr.getD 1 0 = 0x78 ∨ inputstr.getD 1 0 = 0x58) then
      if inputstr.getD 2 0 = 0 then none else hexLoop 2 0 (inputstr.drop 2)
    else decLoop 0 0 inputstr
  match val with
  | some v => (1, v.toBitVec.toInt)
  | none => (0, intnum)

/-! ### Decimal strings -/

def digitByte (d : ℕ) : UInt8 := UInt8.ofNat (0x30 + d)

/-- The decimal string of a number, without the closing 0. -/
def decimal (n : ℕ) : List UInt8 := (Nat.digits 10 n).reverse.map digitByte

theorem digitByte_spec {d : ℕ} (h : d < 10) :
    digitByte d ≠ 0 ∧ digitByte d ≠ 0x20 ∧ digitByte d ≠ 0x6B ∧ digitByte d ≠ 0x4B ∧
      digitByte d ≠ 0x6D ∧ digitByte d ≠ 0x4D ∧ isDecDigit (digitByte d) ∧
      (digitByte d - 0x30).toUInt32 = UInt32.ofNat d ∧ (d ≠ 0 → digitByte d ≠ 0x30) := by
  interval_cases d <;> decide

theorem mem_decimal {n : ℕ} {c : UInt8} (h : c ∈ decimal n) : ∃ d < 10, digitByte d = c := by
  obtain ⟨d, hd, rfl⟩ := List.mem_map.mp h
  exact ⟨d, Nat.digits_lt_base (by decide) (List.mem_reverse.mp hd), rfl⟩

theorem decimal_length_le {n k : ℕ} (h : n < 10 ^ k) : (decimal n).length ≤ k := by
  rw [decimal, List.length_map, List.length_reverse]
  exact (Nat.digits_length_le_iff (by decide) n).mpr h

theorem decimal_head {n : ℕ} (hn : 0 < n) : ∃ c s, decimal n = c :: s ∧ c ≠ 0x30 := by
  have hne : Nat.digits 10 n ≠ [] := Nat.digits_ne_nil_iff_ne_zero.mpr hn.ne'
  have hlast := Nat.getLast_digit_ne_zero 10 hn.ne'
  have hlt : (Nat.digits 10 n).getLast hne < 10 :=
    Nat.digits_lt_base (by decide) (List.getLast_mem hne)
  refine ⟨digitByte ((Nat.digits 10 n).getLast hne),
    (Nat.digits 10 n).dropLast.reverse.map digitByte, ?_, ?_⟩
  · rw [decimal, ← List.map_cons, ← List.reverse_concat, List.dropLast_concat_getLast]
  · exact (digitByte_spec hlt).2.2.2.2.2.2.2.2 hlast

theorem decLoop_digits {ds : List ℕ} (hds : ∀ d ∈ ds, d < 10) {i : ℕ} (hi : i + ds.length ≤ 10)
    (v : ℕ) (rest : List UInt8) :
    decLoop i (UInt32.ofNat v) (ds.map digitByte ++ 0 :: rest) =
      some (UInt32.ofNat (ds.foldl (fun v d => v * 10 + d) v)) := by
  induction ds generalizing i v with
  | nil =>
      have hlt : ¬ 11 ≤ i := by
        simp only [List.length_nil] at hi
        omega
      simp [decLoop, hlt]
  | cons d ds ih =>
      rw [List.length_cons] at hi
      have hlt : ¬ 11 ≤ i := by omega
      obtain ⟨h0, -, hk, hK, hm, hM, hdec, hval, -⟩ := digitByte_spec (hds d (by simp))
      have hstep : UInt32.ofNat v * 10 + UInt32.ofNat d = UInt32.ofNat (v * 10 + d) := by
        rw [UInt32.ofNat_add, UInt32.ofNat_mul]
        rfl
      rw [List.map_cons, List.cons_append, decLoop, if_neg hlt, if_neg h0,
        if_neg (by simp [hk, hK]), if_neg (by simp [hm, hM]), if_pos hdec, hval, hstep,
        List.foldl_cons]
      exact ih (fun d hd => hds d (List.mem_cons_of_mem _ hd)) (by omega) _

theorem foldl_digits (n : ℕ) :
    (Nat.digits 10 n).reverse.foldl (fun v d => v * 10 + d) 0 = n := by
  rw [List.foldl_reverse]
  calc (Nat.digits 10 n).foldr (fun d v => v * 10 + d) 0
      = Nat.ofDigits 10 (Nat.digits 10 n) := by
        rw [Nat.ofDigits_eq_foldr]
        congr 1
        funext d v
        simp [mul_comm, add_comm]
    _ = n := Nat.ofDigits_digits 10 n

theorem str2Int_decimal {n : ℕ} (hn : 0 < n) (hlt : n < 2 ^ 31) (rest : List UInt8) (intnum : ℤ) :
    str2Int (decimal n ++ 0 :: rest) intnum = (1, (n : ℤ)) := by
  obtain ⟨c, s, hcs, hc⟩ := decimal_head hn
  have hhex : ¬ ((decimal n ++ 0 :: rest).getD 0 0 = 0x30 ∧
      ((decimal n ++ 0 :: rest).getD 1 0 = 0x78 ∨ (decimal n ++ 0 :: rest).getD 1 0 = 0x58)) := by
    rw [hcs]
    simp [hc]
  have hlen : (Nat.digits 10 n).reverse.length ≤ 10 := by
    rw [List.length_reverse, Nat.digits_length_le_iff (by decide)]
    exact lt_trans hlt (by norm_num)
  have hdec : decLoop 0 0 (decimal n ++ 0 :: rest) = some (UInt32.ofNat n) := by
    have hds : ∀ d ∈ (Nat.digits 10 n).reverse, d < 10 :=
      fun d hd => Nat.digits_lt_base (by decide) (List.mem_reverse.mp hd)
    have h := decLoop_digits hds (i := 0) (by omega) 0 rest
    rwa [foldl_digits] at h
  simp only [str2Int, if_neg hhex, hdec]
  congr 1
  have hmod : n % 2 ^ 32 = n := Nat.mod_eq_of_lt (by omega)
  have hnat : (UInt32.ofNat n).toBitVec.toNat = n := by
    rw [UInt32.toNat_toBitVec, UInt32.toNat_ofNat', hmod]
  rw [BitVec.toInt_eq_toNat_of_lt (by omega), hnat]

end YckjAcu
