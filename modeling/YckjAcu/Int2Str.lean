import YckjAcu.Common

/-!
# Printing numbers

`Int2Str` rewinds its index at every leading zero and stores no closing 0, so what
follows the digits is what the buffer held before.
-/

namespace YckjAcu

/-- The variables of `Int2Str`, with the indices that it has written. -/
structure Int2StrState where
  str : ℕ → UInt8
  intnum : Int32
  div : UInt32
  j : ℕ
  status : ℕ
  writes : List ℕ

/-- One turn of the loop; the division is unsigned because `Div` is. -/
def int2StrTurn (s : Int2StrState) : Int2StrState :=
  let c := (s.intnum.toUInt32 / s.div + 48).toUInt8
  let s' : Int2StrState :=
    { s with
      str := Function.update s.str s.j c
      intnum := (s.intnum.toUInt32 % s.div).toInt32
      div := s.div / 10
      writes := s.writes ++ [s.j] }
  if c = 0x30 ∧ s.status = 0 then { s' with j := 0 }
  else { s' with j := s.j + 1, status := s.status + 1 }

def int2StrLoop : ℕ → Int2StrState → Int2StrState
  | 0, s => s
  | k + 1, s => int2StrLoop k (int2StrTurn s)

/-- `Int2Str(str, intnum)`, with the memory from `str` on. -/
def int2Str (str : ℕ → UInt8) (intnum : Int32) : Int2StrState :=
  int2StrLoop 10 ⟨str, intnum, 1000000000, 0, 0, []⟩

/-- What `Serial_PutString` sends and the indices that it reads. -/
structure PutString where
  sent : List UInt8
  reads : List ℕ

/-- At most `k` turns of the loop of `Serial_PutString`, from index `i` on. -/
def serialPutString (s : ℕ → UInt8) : (k i : ℕ) → PutString
  | 0, _ => ⟨[], []⟩
  | k + 1, i =>
      if s i = 0 then ⟨[], [i]⟩
      else
        let rest := serialPutString s k (i + 1)
        ⟨s i :: rest.sent, i :: rest.reads⟩

/-- `Number` of `SerialDownload`, ten spaces, and what lies behind it. -/
def numberThen (behind : ℕ → UInt8) : ℕ → UInt8 := fun i => if i < 10 then 0x20 else behind (i - 10)

/-- The buffer holds the digits of `n` and a closing 0, and `Str2Int`, which reads eleven
bytes at most, reads `n` back. -/
structure HoldsNumber (old : ℕ → UInt8) (n : ℕ) : Prop where
  digits : ∀ i < (decimal n).length,
    (int2Str old (Int32.ofNat n)).str i = (decimal n).getD i 0
  nul : (int2Str old (Int32.ofNat n)).str (decimal n).length = 0
  read : ∀ intnum : ℤ,
    str2Int ((List.range 11).map (int2Str old (Int32.ofNat n)).str) intnum = (1, (n : ℤ))

/-- `Int2Str` and then `Serial_PutString` stay inside a buffer of ten bytes. -/
structure InTenBytes (old : ℕ → UInt8) (n : ℕ) : Prop where
  writes : ∀ i ∈ (int2Str old (Int32.ofNat n)).writes, i < 10
  reads : ∀ k, ∀ i ∈ (serialPutString (int2Str old (Int32.ofNat n)).str k 0).reads, i < 10

/-! ### The loop -/

/-- A turn field by field. -/
theorem int2StrTurn_eq (s : Int2StrState) : int2StrTurn s =
    let c := (s.intnum.toUInt32 / s.div + 48).toUInt8
    { str := Function.update s.str s.j c
      intnum := (s.intnum.toUInt32 % s.div).toInt32
      div := s.div / 10
      j := if c = 0x30 ∧ s.status = 0 then 0 else s.j + 1
      status := if c = 0x30 ∧ s.status = 0 then s.status else s.status + 1
      writes := s.writes ++ [s.j] } := by
  rw [int2StrTurn]
  dsimp only
  split_ifs <;> rfl

theorem decimal_of_pos {n : ℕ} (h : 0 < n) :
    decimal n = decimal (n / 10) ++ [digitByte (n % 10)] := by
  rw [decimal, Nat.digits_def' (by decide) h, List.reverse_cons, List.map_append]
  rfl

/-- What holds with `k` turns to go: the digits so far are those of `n / 10 ^ k`. -/
structure Printed (old : ℕ → UInt8) (n k : ℕ) (s : Int2StrState) : Prop where
  intnum : s.intnum.toUInt32.toNat = n % 10 ^ k
  div : s.div.toNat = 10 ^ k / 10
  j : s.j = (decimal (n / 10 ^ k)).length
  status : s.status = 0 ↔ n / 10 ^ k = 0
  digits : ∀ i < (decimal (n / 10 ^ k)).length, s.str i = (decimal (n / 10 ^ k)).getD i 0
  rest : ∀ i, 0 < i → (decimal (n / 10 ^ k)).length ≤ i → s.str i = old i
  writes : ∀ i ∈ s.writes, i < 10

theorem printed_start {n : ℕ} (h : n < 10 ^ 10) (old : ℕ → UInt8) (intnum : Int32)
    (hn : intnum.toUInt32.toNat = n) : Printed old n 10 ⟨old, intnum, 1000000000, 0, 0, []⟩ := by
  have hzero : n / 10 ^ 10 = 0 := Nat.div_eq_of_lt h
  have hdiv : UInt32.toNat 1000000000 = 10 ^ 10 / 10 := by
    norm_num
    rfl
  refine ⟨?_, hdiv, ?_, ?_, ?_, fun _ _ _ => rfl, fun _ h => absurd h List.not_mem_nil⟩
  · rw [Nat.mod_eq_of_lt h]
    exact hn
  · rw [hzero]
    rfl
  · exact iff_of_true rfl hzero
  · intro i hi
    rw [hzero] at hi
    exact absurd hi (Nat.not_lt_zero i)

theorem Printed.digit {old : ℕ → UInt8} {n k : ℕ} {s : Int2StrState}
    (h : Printed old n (k + 1) s) :
    (s.intnum.toUInt32 / s.div + 48).toUInt8 = digitByte (n / 10 ^ k % 10) := by
  have hdigit : (s.intnum.toUInt32 / s.div).toNat = n / 10 ^ k % 10 := by
    rw [UInt32.toNat_div, h.intnum, h.div, pow_succ, Nat.mul_div_cancel _ (by decide),
      Nat.mod_mul_right_div_self]
  have hlt := Nat.mod_lt (n / 10 ^ k) (by decide : 10 > 0)
  have h48 : UInt32.toNat 48 = 48 := rfl
  apply UInt8.toNat_inj.mp
  rw [digitByte, UInt32.toNat_toUInt8, UInt32.toNat_add, hdigit, h48, UInt8.toNat_ofNat']
  omega

theorem digitByte_eq_zero_iff {d : ℕ} (hd : d < 10) : digitByte d = 0x30 ↔ d = 0 := by
  constructor
  · intro h
    by_contra hne
    exact (digitByte_spec hd).2.2.2.2.2.2.2.2 hne h
  · rintro rfl
    rfl

section Turn

variable {old : ℕ → UInt8} {n k : ℕ} {s : Int2StrState}

/-- The digit is taken for a leading zero exactly when the number has none so far. -/
theorem Printed.leading_iff (h : Printed old n (k + 1) s) :
    digitByte (n / 10 ^ k % 10) = 0x30 ∧ s.status = 0 ↔ n / 10 ^ k = 0 := by
  have hlt := Nat.mod_lt (n / 10 ^ k) (by decide : 10 > 0)
  rw [digitByte_eq_zero_iff hlt, h.status, pow_succ, ← Nat.div_div_eq_div_mul]
  omega

theorem Printed.decimal_succ (h : Printed old n (k + 1) s) (hpos : n / 10 ^ k ≠ 0) :
    ∃ tens, decimal (n / 10 ^ (k + 1)) = tens ∧ tens.length = s.j ∧
      decimal (n / 10 ^ k) = tens ++ [digitByte (n / 10 ^ k % 10)] := by
  refine ⟨_, rfl, h.j.symm, ?_⟩
  rw [pow_succ, ← Nat.div_div_eq_div_mul]
  exact decimal_of_pos (Nat.pos_of_ne_zero hpos)

theorem Printed.j_lt (h : Printed old n (k + 1) s) (hn : n < 10 ^ 10) (hk : k < 10) : s.j < 10 := by
  have hbelow : n / 10 ^ (k + 1) < 10 ^ (9 - k) := by
    apply Nat.div_lt_of_lt_mul
    rwa [← pow_add, show k + 1 + (9 - k) = 10 by omega]
  have hle := decimal_length_le hbelow
  rw [h.j]
  omega

theorem Printed.j_turn (h : Printed old n (k + 1) s) :
    (int2StrTurn s).j = (decimal (n / 10 ^ k)).length := by
  rw [int2StrTurn_eq]
  dsimp only
  rw [h.digit]
  by_cases hnone : n / 10 ^ k = 0
  · rw [if_pos (h.leading_iff.mpr hnone), hnone]
    rfl
  · obtain ⟨tens, -, hlen, hdecimal⟩ := h.decimal_succ hnone
    rw [if_neg (mt h.leading_iff.mp hnone), hdecimal, List.length_append, hlen,
      List.length_singleton]

theorem Printed.status_turn (h : Printed old n (k + 1) s) :
    (int2StrTurn s).status = 0 ↔ n / 10 ^ k = 0 := by
  rw [int2StrTurn_eq]
  dsimp only
  rw [h.digit]
  by_cases hnone : n / 10 ^ k = 0
  · rw [if_pos (h.leading_iff.mpr hnone)]
    exact iff_of_true (h.leading_iff.mpr hnone).2 hnone
  · rw [if_neg (mt h.leading_iff.mp hnone)]
    exact iff_of_false (Nat.succ_ne_zero _) hnone

theorem Printed.digits_turn (h : Printed old n (k + 1) s) {i : ℕ}
    (hi : i < (decimal (n / 10 ^ k)).length) :
    (int2StrTurn s).str i = (decimal (n / 10 ^ k)).getD i 0 := by
  have hnone : n / 10 ^ k ≠ 0 := by
    intro hnone
    rw [hnone] at hi
    exact absurd hi (Nat.not_lt_zero i)
  obtain ⟨tens, htens, hlen, hdecimal⟩ := h.decimal_succ hnone
  rw [hdecimal, List.length_append, hlen, List.length_singleton] at hi
  rw [int2StrTurn_eq]
  dsimp only
  rw [h.digit, hdecimal]
  rcases Nat.lt_succ_iff_lt_or_eq.mp hi with hi | rfl
  · have hdigits := h.digits
    rw [htens, hlen] at hdigits
    rw [Function.update_of_ne hi.ne, hdigits i hi, List.getD_append _ _ _ _ (hlen.symm ▸ hi)]
  · rw [Function.update_self, List.getD_append_right _ _ _ _ (Nat.le_of_eq hlen), hlen,
      Nat.sub_self]
    rfl

/-- A leading zero is stored at index 0, and a digit behind those before. -/
theorem Printed.rest_turn (h : Printed old n (k + 1) s) {i : ℕ} (hpos : 0 < i)
    (hi : (decimal (n / 10 ^ k)).length ≤ i) : (int2StrTurn s).str i = old i := by
  have hj : s.j < i ∧ (decimal (n / 10 ^ (k + 1))).length ≤ i := by
    by_cases hnone : n / 10 ^ k = 0
    · have hzero : n / 10 ^ (k + 1) = 0 := by
        rw [pow_succ, ← Nat.div_div_eq_div_mul, hnone, Nat.zero_div]
      rw [h.j, hzero]
      exact ⟨hpos, Nat.zero_le i⟩
    · obtain ⟨tens, htens, hlen, hdecimal⟩ := h.decimal_succ hnone
      rw [hdecimal, List.length_append, hlen, List.length_singleton] at hi
      rw [htens, hlen]
      exact ⟨hi, Nat.le_of_lt hi⟩
  rw [int2StrTurn_eq]
  dsimp only
  rw [Function.update_of_ne hj.1.ne']
  exact h.rest i hpos hj.2

theorem Printed.turn (h : Printed old n (k + 1) s) (hn : n < 10 ^ 10) (hk : k < 10) :
    Printed old n k (int2StrTurn s) where
  intnum := by
    rw [int2StrTurn_eq, UInt32.toUInt32_toInt32, UInt32.toNat_mod, h.intnum, h.div, pow_succ,
      Nat.mul_div_cancel _ (by decide), Nat.mod_mul_right_mod]
  div := by
    have h10 : UInt32.toNat 10 = 10 := rfl
    rw [int2StrTurn_eq, UInt32.toNat_div, h.div, h10, pow_succ, Nat.mul_div_cancel _ (by decide)]
  j := h.j_turn
  status := h.status_turn
  digits _ := h.digits_turn
  rest _ := h.rest_turn
  writes i hi := by
    rw [int2StrTurn_eq] at hi
    rcases List.mem_append.mp hi with hi | hi
    · exact h.writes i hi
    · rw [List.mem_singleton.mp hi]
      exact h.j_lt hn hk

end Turn

theorem Printed.loop {old : ℕ → UInt8} {n k : ℕ} {s : Int2StrState} (hn : n < 10 ^ 10)
    (hk : k ≤ 10) (h : Printed old n k s) : Printed old n 0 (int2StrLoop k s) := by
  induction k generalizing s with
  | zero => exact h
  | succ k ih => exact ih (Nat.le_of_succ_le hk) (h.turn hn hk)

/-! ### What is in the buffer -/

section Result

variable {n : ℕ}

theorem printed_int2Str (hle : n ≤ 2147483647) (old : ℕ → UInt8) :
    Printed old n 0 (int2Str old (Int32.ofNat n)) := by
  have hn : n < 10 ^ 10 := by omega
  have hnat : (Int32.ofNat n).toUInt32.toNat = n := by
    have hcast : (Int32.ofNat n).toUInt32 = UInt32.ofNat n := rfl
    rw [hcast, UInt32.toNat_ofNat', Nat.mod_eq_of_lt (by omega)]
  exact (printed_start hn old _ hnat).loop hn (Nat.le_refl 10)

theorem str_of_lt (hle : n ≤ 2147483647) (old : ℕ → UInt8) {i : ℕ} (hi : i < (decimal n).length) :
    (int2Str old (Int32.ofNat n)).str i = (decimal n).getD i 0 := by
  have hdigits := (printed_int2Str hle old).digits
  rw [pow_zero, Nat.div_one] at hdigits
  exact hdigits i hi

theorem str_of_le (hpos : 1 ≤ n) (hle : n ≤ 2147483647) (old : ℕ → UInt8) {i : ℕ}
    (hi : (decimal n).length ≤ i) : (int2Str old (Int32.ofNat n)).str i = old i := by
  have hrest := (printed_int2Str hle old).rest
  rw [pow_zero, Nat.div_one] at hrest
  obtain ⟨c, s, hcs, -⟩ := decimal_head hpos
  refine hrest i ?_ hi
  rw [hcs] at hi
  exact Nat.lt_of_lt_of_le (Nat.succ_pos _) hi

theorem str_eq_zero_iff (hpos : 1 ≤ n) (hle : n ≤ 2147483647) (old : ℕ → UInt8) {i : ℕ} :
    (int2Str old (Int32.ofNat n)).str i = 0 ↔ (decimal n).length ≤ i ∧ old i = 0 := by
  by_cases hi : i < (decimal n).length
  · refine iff_of_false ?_ fun h => Nat.not_le.mpr hi h.1
    rw [str_of_lt hle old hi, List.getD_eq_getElem?_getD, List.getElem?_eq_getElem hi]
    obtain ⟨d, hd, heq⟩ := mem_decimal (List.getElem_mem hi)
    exact heq ▸ (digitByte_spec hd).1
  · have hi' := Nat.not_lt.mp hi
    rw [str_of_le hpos hle old hi', and_iff_right hi']

theorem str_eq_decimal (hpos : 1 ≤ n) (hle : n ≤ 2147483647) (old : ℕ → UInt8)
    (hold : old (decimal n).length = 0) : ∃ rest,
      (List.range 11).map (int2Str old (Int32.ofNat n)).str = decimal n ++ 0 :: rest := by
  have hlen : (decimal n).length ≤ 10 := decimal_length_le (by omega)
  have hlt : (decimal n).length <
      ((List.range 11).map (int2Str old (Int32.ofNat n)).str).length := by
    rw [List.length_map, List.length_range]
    omega
  have hnul := (str_eq_zero_iff hpos hle old).mpr ⟨Nat.le_refl _, hold⟩
  have hdigits : ((List.range 11).map (int2Str old (Int32.ofNat n)).str).take (decimal n).length =
      decimal n := by
    apply List.ext_getElem
    · rw [List.length_take, Nat.min_eq_left hlt.le]
    · intro i hi hi'
      rw [List.getElem_take, List.getElem_map, List.getElem_range, str_of_lt hle old hi',
        List.getD_eq_getElem?_getD, List.getElem?_eq_getElem hi', Option.getD_some]
  rw [← List.take_append_drop (decimal n).length (List.map _ _), hdigits,
    List.drop_eq_getElem_cons hlt, List.getElem_map, List.getElem_range, hnul]
  exact ⟨_, rfl⟩

end Result

/-! ### What is read back -/

theorem mem_reads_iff (s : ℕ → UInt8) (k a i : ℕ) :
    i ∈ (serialPutString s k a).reads ↔ a ≤ i ∧ i < a + k ∧ ∀ j, a ≤ j → j < i → s j ≠ 0 := by
  induction k generalizing a with
  | zero =>
      refine iff_of_false List.not_mem_nil ?_
      omega
  | succ k ih =>
      rw [serialPutString]
      split_ifs with hs
      · rw [List.mem_singleton]
        constructor
        · rintro rfl
          exact ⟨Nat.le_refl _, by omega, fun j h1 h2 => absurd h2 (Nat.not_lt.mpr h1)⟩
        · rintro ⟨h1, -, h3⟩
          by_contra hne
          exact h3 a (Nat.le_refl _) (by omega) hs
      · rw [List.mem_cons, ih]
        constructor
        · rintro (rfl | ⟨h1, h2, h3⟩)
          · exact ⟨Nat.le_refl _, by omega, fun j h1 h2 => absurd h2 (Nat.not_lt.mpr h1)⟩
          · refine ⟨by omega, by omega, fun j hj hlt => ?_⟩
            rcases Nat.eq_or_lt_of_le hj with rfl | hj
            · exact hs
            · exact h3 j hj hlt
        · rintro ⟨h1, h2, h3⟩
          rcases Nat.eq_or_lt_of_le h1 with rfl | h1
          · exact Or.inl rfl
          · exact Or.inr ⟨h1, by omega, fun j hj hlt => h3 j (by omega) hlt⟩

theorem reads_lt_iff (s : ℕ → UInt8) :
    (∀ k, ∀ i ∈ (serialPutString s k 0).reads, i < 10) ↔ ∃ i < 10, s i = 0 := by
  constructor
  · intro h
    by_contra hno
    have hread : 10 ∈ (serialPutString s 11 0).reads := by
      rw [mem_reads_iff]
      refine ⟨Nat.zero_le _, by decide, fun j _ hj hzero => hno ⟨j, hj, hzero⟩⟩
    exact absurd (h 11 10 hread) (by decide)
  · rintro ⟨j, hj, hzero⟩ k i hi
    rw [mem_reads_iff] at hi
    by_contra hge
    exact hi.2.2 j (Nat.zero_le _) (by omega) hzero

/-- The buffer holds the number and a closing 0 exactly when the byte behind the digits
was 0 before; printing it stays inside ten bytes exactly when one of those behind the
digits was 0, and never for `Number`. -/
theorem int2Str_inverse_iff {n : ℕ} (hpos : 1 ≤ n) (hle : n ≤ 2147483647) (old : ℕ → UInt8) :
    (HoldsNumber old n ↔ old (decimal n).length = 0) ∧
      (InTenBytes old n ↔ ∃ i < 10, (decimal n).length ≤ i ∧ old i = 0) ∧
        ∀ behind, ¬ InTenBytes (numberThen behind) n := by
  have hten : ∀ old, InTenBytes old n ↔ ∃ i < 10, (decimal n).length ≤ i ∧ old i = 0 := by
    intro old
    have hreads := reads_lt_iff (int2Str old (Int32.ofNat n)).str
    simp only [str_eq_zero_iff hpos hle] at hreads
    rw [← hreads]
    exact ⟨fun h => h.reads, fun h => ⟨(printed_int2Str hle old).writes, h⟩⟩
  refine ⟨⟨fun h => ?_, fun h => ?_⟩, hten old, fun behind h => ?_⟩
  · exact ((str_eq_zero_iff hpos hle old).mp h.nul).2
  · refine ⟨fun i => str_of_lt hle old, ?_, fun intnum => ?_⟩
    · exact (str_eq_zero_iff hpos hle old).mpr ⟨Nat.le_refl _, h⟩
    · obtain ⟨rest, hrest⟩ := str_eq_decimal hpos hle old h
      rw [hrest]
      exact str2Int_decimal hpos (Nat.lt_succ_of_le hle) rest intnum
  · obtain ⟨i, hi, -, hzero⟩ := (hten _).mp h
    rw [numberThen, if_pos hi] at hzero
    exact absurd hzero (by decide)

theorem int2Str_inverse_eight :
    HoldsNumber (fun _ => 0) 8 ∧ ¬ InTenBytes (numberThen fun _ => 0) 8 :=
  have h := int2Str_inverse_iff (by decide : 1 ≤ 8) (by decide) fun _ => 0
  ⟨h.1.mpr rfl, h.2.2 _⟩

/-- The size of a file of eight bytes in the buffer of `SerialDownload`. -/
theorem eight_in_number :
    ¬ ∀ (n : ℕ) (old : ℕ → UInt8), 1 ≤ n → n ≤ 2147483647 →
      HoldsNumber old n ∧ ∀ behind, InTenBytes (numberThen behind) n := by
  intro h
  obtain ⟨hholds, -⟩ := h 8 (numberThen fun _ => 0) (by decide) (by decide)
  have hlen : (decimal 8).length = 1 := by simp [decimal]
  have hnul := hholds.nul
  rw [str_of_le (by decide) (by decide) _ (Nat.le_refl _), hlen] at hnul
  exact absurd hnul (by decide)

end YckjAcu
