import YckjAcu.CanWait
import YckjAcu.RunTable

/-!
# How long the requests wait

A schedule gives the result of every call of `Can_Receive_Msg`.  The registration
poll always ends within its budget; the other two requests wait for ever when a
buffer that matches without answering is followed by silence.
-/

namespace YckjAcu

/-- The results of the first `k` calls of `Can_Receive_Msg`. -/
def firstResults (σ : ℕ → Option CanRxMsg) (k : ℕ) : List (Option CanRxMsg) :=
  (List.range k).map σ

/-- The function returns after at most `k` calls of `Can_Receive_Msg`: when it is
given `k + 1` results, one is left. -/
def ReturnsWithin (k : ℕ) (σ : ℕ → Option CanRxMsg) (f : CanBus → Option CanBus) : Prop :=
  ∀ tx, ∃ bus, f ⟨firstResults σ (k + 1), tx⟩ = some bus ∧ bus.rx ≠ []

/-- The poll of the reader `n` is not left waiting by the results: neither for
the first answer nor, after a first half of an insertion, for the second one. -/
def PollEnds (n : UInt8) (rx : List (Option CanRxMsg)) : Prop :=
  ¬ (canWait 1 n).Open (Vector.replicate 8 0) 10 rx ∧
    ∀ m rest, (canWait 1 n).Answered (Vector.replicate 8 0) 10 rx (some m) rest →
      m.data.get 0 = 0x03 → ¬ (canWait 1 n).Open m.data 10 rest

/-- The results hold a frame with `n` in byte 5 and a length, or none with `n`
in byte 5. -/
def AssignmentEnds (n : UInt8) (rx : List (Option CanRxMsg)) : Prop :=
  (∃ m, some m ∈ rx ∧ m.dlc ≠ 0 ∧ m.data.get 5 = n) ∨ ∀ m, some m ∈ rx → m.data.get 5 ≠ n

theorem firstResults_succ (σ : ℕ → Option CanRxMsg) (k : ℕ) :
    firstResults σ (k + 1) = firstResults σ k ++ [σ k] := by
  simp [firstResults, List.range_succ]

@[simp] theorem firstResults_length (σ : ℕ → Option CanRxMsg) (k : ℕ) :
    (firstResults σ k).length = k := by
  simp [firstResults]

/-! ### Results that are left over -/

theorem receiveFor_suffix {field : Fin 8} {value res res' : UInt8} {buf buf' : Vector UInt8 8}
    {n : ℕ} {rx rest : List (Option CanRxMsg)}
    (h : receiveFor field value rx res buf n = some (res', buf', rest)) : rest <:+ rx := by
  induction rx generalizing res buf n with
  | nil =>
      unfold receiveFor at h
      split_ifs at h <;> cases h <;> exact List.suffix_rfl
  | cons r rx ih =>
      unfold receiveFor at h
      dsimp only at h
      split_ifs at h
      · cases h
        exact List.suffix_rfl
      · exact (ih h).trans (List.suffix_cons r rx)
      · exact (ih h).trans (List.suffix_cons r rx)

theorem receivePart2_suffix {part2 n res ret : UInt8} {buf : Vector UInt8 8}
    {uBuff uBuff' : Vector UInt8 10} {bus bus' : CanBus}
    (h : receivePart2 part2 n res buf uBuff bus = some (ret, uBuff', bus')) :
    bus'.rx <:+ bus.rx := by
  obtain ⟨⟨res', buf', rx⟩, hrecv, h⟩ := Option.bind_eq_some_iff.mp h
  dsimp only at h
  split_ifs at h <;> cases h <;> exact receiveFor_suffix hrecv

theorem pollAnswer_suffix {n res ret : UInt8} {buf : Vector UInt8 8}
    {uBuff uBuff' : Vector UInt8 10} {bus bus' : CanBus}
    (h : pollAnswer n res buf uBuff bus = some (ret, uBuff', bus')) : bus'.rx <:+ bus.rx := by
  unfold pollAnswer at h
  split_ifs at h
  · cases h
    exact List.suffix_rfl
  · exact receivePart2_suffix h
  · exact receivePart2_suffix h
  all_goals
    cases h
    exact List.suffix_rfl

section Wait

variable {field : Fin 8} {value : UInt8}

/-- Once a wait has reached the last result it leaves none. -/
theorem receiveFor_last {buf buf' : Vector UInt8 8} {n : ℕ} {res : UInt8} {r : Option CanRxMsg}
    {rest : List (Option CanRxMsg)} (hn : n ≠ 0)
    (h : receiveFor field value [r] 0 buf n = some (res, buf', rest)) : rest = [] := by
  cases hr : (canWait field value).answers r with
  | true =>
      obtain ⟨m, rfl, -⟩ := canWait_answers_iff.mp hr
      have hans := Wait.answered_head (b := buf) (n := n) [] hr (Nat.pos_of_ne_zero hn)
      rw [receiveFor_answered hans] at h
      cases h
      rfl
  | false =>
      rw [receiveFor_cons [] hr hn] at h
      exact List.suffix_nil.mp (receiveFor_suffix h)

theorem open_of_receiveFor {buf buf' : Vector UInt8 8} {n : ℕ} {res : UInt8}
    {rx rest : List (Option CanRxMsg)} {r : Option CanRxMsg}
    (hopen : (canWait field value).Open buf n rx)
    (h : receiveFor field value (rx ++ [r]) 0 buf n = some (res, buf', rest)) : rest = [] := by
  rw [receiveFor_append _ hopen.1 hopen.2] at h
  have hlt := hopen.2
  exact receiveFor_last (by omega) h

/-- A wait that is over within `rx` ends in the same way when more comes. -/
theorem GivesUp.of_timedOut {buf : Vector UInt8 8} {n : ℕ} {rx rest : List (Option CanRxMsg)}
    (h : (canWait field value).TimedOut buf n rx rest) (more : List (Option CanRxMsg)) :
    GivesUp (canWait field value) buf n (rx ++ more) (rest ++ more) := by
  obtain ⟨pre, x, rfl, hrest⟩ := h
  exact Or.inl ⟨pre, x, by simp, hrest⟩

theorem answered_append {buf : Vector UInt8 8} {n : ℕ} {rx rest : List (Option CanRxMsg)}
    {r : Option CanRxMsg} (h : (canWait field value).Answered buf n rx r rest)
    (more : List (Option CanRxMsg)) :
    (canWait field value).Answered buf n (rx ++ more) r (rest ++ more) := by
  obtain ⟨pre, rfl, hwait⟩ := h
  exact ⟨pre, by simp, hwait⟩

/-- Every result is charged exactly when no frame matches. -/
theorem counted_eq_length_iff {buf : Vector UInt8 8} (hbuf : buf.get field ≠ value)
    (rx : List (Option CanRxMsg)) :
    (canWait field value).counted buf rx = rx.length ↔
      ∀ m, some m ∈ rx → m.data.get field ≠ value := by
  induction rx generalizing buf with
  | nil => simp
  | cons r rx ih =>
      cases r with
      | none =>
          have hcost : (canWait field value).cost buf none = 1 := by
            rw [canWait_cost]
            exact if_neg hbuf
          rw [Wait.counted_cons, hcost, List.length_cons, Nat.add_comm, Nat.add_right_cancel_iff]
          exact (ih hbuf).trans (by simp)
      | some m =>
          have hle := Wait.counted_le_length (W := canWait field value) m.data rx
          have hrecv : (canWait field value).recv buf (some m) = m.data := rfl
          rw [Wait.counted_cons, canWait_cost, List.length_cons, hrecv]
          by_cases hm : m.data.get field = value
          · rw [if_pos (by exact hm)]
            exact iff_of_false (by omega) fun hall => hall m (by simp) hm
          · rw [if_neg (by exact hm), Nat.add_comm, Nat.add_right_cancel_iff, ih hm]
            exact ⟨fun hall m' hm' => (List.mem_cons.mp hm').elim
              (fun heq => (Option.some.inj heq) ▸ hm) (hall m'),
              fun hall m' hm' => hall m' (List.mem_cons_of_mem _ hm')⟩

end Wait

/-! ### The three requests -/

theorem replicate_zero_ne {n : UInt8} (hn : n ≠ 0) (field : Fin 8) :
    (Vector.replicate 8 (0 : UInt8)).get field ≠ n := by
  simpa using hn.symm

/-- The poll after its first wait, when a result is left. -/
theorem pollAnswer_leaves_iff {n res : UInt8} {m : CanRxMsg} (uBuff : Vector UInt8 10)
    {bus : CanBus} {rx : List (Option CanRxMsg)} {r : Option CanRxMsg} (hres : res ≠ 0)
    (hrx : bus.rx = rx ++ [r]) (hn : m.data.get 1 = n) :
    (∃ out, pollAnswer n res m.data uBuff bus = some out ∧ out.2.2.rx ≠ []) ↔
      (m.data.get 0 = 0x03 → ¬ (canWait 1 n).Open m.data 10 rx) := by
  have hleft : bus.rx ≠ [] := by simp [hrx]
  have hpart2 : ∀ {part2 : UInt8} {b res' buf' rest},
      receiveFor 1 n bus.rx 0 m.data 10 = some (res', buf', rest) → rest ≠ [] →
      ∃ out, receivePart2 part2 n 0 m.data b bus = some out ∧ out.2.2.rx ≠ [] := by
    intro part2 b res' buf' rest hrecv hne
    simp only [receivePart2, hrecv, Option.bind_eq_bind, Option.bind_some]
    split_ifs
    · exact ⟨_, rfl, hne⟩
    · exact ⟨_, rfl, hne⟩
  unfold pollAnswer
  rw [if_pos hres]
  by_cases h3 : m.data.get 0 = 0x03
  · rw [if_neg (by simp [h3]), if_pos ⟨hn, h3⟩]
    constructor
    · rintro ⟨⟨ret, b, bus'⟩, h, hne⟩ - hopen
      obtain ⟨⟨res', buf', rest⟩, hrecv, h⟩ := Option.bind_eq_some_iff.mp h
      rw [hrx] at hrecv
      obtain rfl := open_of_receiveFor hopen hrecv
      dsimp only at h
      split_ifs at h <;> cases h <;> exact hne rfl
    · intro hends
      rcases canWait_cases 1 n m.data (by decide : 0 < 10) rx with
        ⟨m', rest, hans⟩ | ⟨rest, hout⟩ | hopen
      · have hrecv := receiveFor_answered (answered_append hans [r])
        rw [← hrx] at hrecv
        exact hpart2 hrecv (by simp)
      · obtain ⟨buf', hrecv⟩ := receiveFor_givesUp (GivesUp.of_timedOut hout [r])
        rw [← hrx] at hrecv
        exact hpart2 hrecv (by simp)
      · exact absurd hopen (hends h3)
  · refine iff_of_true ?_ fun h => absurd h h3
    split_ifs
    · exact ⟨_, rfl, hleft⟩
    · exact absurd (And.right ‹_›) h3
    · -- the second wait of a removal receives nothing
      simp only [receivePart2, receiveFor_of_res hres, Option.bind_eq_bind, Option.bind_some]
      split_ifs
      · exact ⟨_, rfl, hleft⟩
      · exact ⟨_, rfl, hleft⟩
    all_goals exact ⟨_, rfl, hleft⟩

theorem canSendPBusCom_leaves_iff (n : UInt8) (uBuff : Vector UInt8 10)
    (rx : List (Option CanRxMsg)) (r : Option CanRxMsg) (tx : List CanTxMsg) :
    (∃ out, canSendPBusCom n uBuff ⟨rx ++ [r], tx⟩ = some out ∧ out.2.2.rx ≠ []) ↔
      PollEnds n rx := by
  rcases canWait_cases 1 n (Vector.replicate 8 0) (by decide : 0 < 10) rx with
    ⟨m, rest, hans⟩ | ⟨rest, hout⟩ | hopen
  · obtain ⟨_, _, _, hm, _⟩ := id hans
    obtain ⟨hdlc, hdata⟩ := (canWait_answers_some m).mp hm
    have hrecv := receiveFor_answered (answered_append hans [r])
    have hsend : canSendPBusCom n uBuff ⟨rx ++ [r], tx⟩ = pollAnswer n m.dlc m.data uBuff
        ⟨rest ++ [r], tx ++ [canTxMsg #v[0x01, n, 0, 0, 0, 0, 0, 0]]⟩ := by
      simp [canSendPBusCom, hrecv, packageSendBuf]
    rw [hsend, pollAnswer_leaves_iff uBuff hdlc rfl hdata]
    have hclosed : ¬ (canWait 1 n).Open (Vector.replicate 8 0) 10 rx := by
      rintro ⟨hquiet, -⟩
      obtain ⟨pre, rfl, -, -, -⟩ := hans
      have := (Wait.quiet_cons.mp (Wait.quiet_append.mp hquiet).2).1
      exact Bool.false_ne_true (this.symm.trans hm)
    constructor
    · intro hends
      refine ⟨hclosed, fun m' rest' hans' => ?_⟩
      obtain ⟨heq, rfl⟩ := hans.unique hans'
      cases heq
      exact hends
    · intro hends
      exact hends.2 m rest hans
  · obtain ⟨buf', hrecv⟩ := receiveFor_givesUp (GivesUp.of_timedOut hout [r])
    refine iff_of_true ?_ ⟨?_, fun m rest' hans => ?_⟩
    · simp only [canSendPBusCom, packageSend_rx, hrecv, Option.bind_eq_bind, Option.bind_some]
      exact ⟨_, rfl, by simp⟩
    · rintro ⟨-, hlt⟩
      obtain ⟨pre, x, rfl, -, hcost, hcount⟩ := hout
      rw [Wait.counted_append, Wait.counted_cons, hcost] at hlt
      omega
    · exact absurd hans (not_answered_of_givesUp (Or.inl hout))
  · refine iff_of_false ?_ fun h => h.1 hopen
    rintro ⟨out, h, hne⟩
    obtain ⟨⟨res, buf, rest⟩, hrecv, h⟩ := Option.bind_eq_some_iff.mp h
    obtain rfl := open_of_receiveFor hopen hrecv
    exact hne (List.suffix_nil.mp (pollAnswer_suffix h))

theorem canWriteLogitADD_leaves_iff (n : UInt8) (physicalADD : Vector UInt8 4)
    (rx : List (Option CanRxMsg)) (r : Option CanRxMsg) (tx : List CanTxMsg) :
    (∃ out, canWriteLogitADD n physicalADD ⟨rx ++ [r], tx⟩ = some out ∧ out.2.rx ≠ []) ↔
      ¬ (canWait 5 n).Open (Vector.replicate 8 0) 20 rx := by
  have hleaves : ∀ {res buf rest},
      receiveFor 5 n (rx ++ [r]) 0 (Vector.replicate 8 0) 20 = some (res, buf, rest) → rest ≠ [] →
      ∃ out, canWriteLogitADD n physicalADD ⟨rx ++ [r], tx⟩ = some out ∧ out.2.rx ≠ [] := by
    intro res buf rest hrecv hne
    simp only [canWriteLogitADD, packageSend_rx, hrecv, Option.bind_eq_bind, Option.bind_some]
    split_ifs
    · exact ⟨_, rfl, hne⟩
    · exact ⟨_, rfl, hne⟩
  constructor
  · rintro ⟨out, h, hne⟩ hopen
    obtain ⟨⟨res, buf, rest⟩, hrecv, h⟩ := Option.bind_eq_some_iff.mp h
    obtain rfl := open_of_receiveFor hopen hrecv
    dsimp only at h
    split_ifs at h <;> cases h <;> exact hne rfl
  · intro hclosed
    rcases canWait_cases 5 n (Vector.replicate 8 0) (by decide : 0 < 20) rx with
      ⟨m, rest, hans⟩ | ⟨rest, hout⟩ | hopen
    · exact hleaves (receiveFor_answered (answered_append hans [r])) (by simp)
    · obtain ⟨buf, hrecv⟩ := receiveFor_givesUp (GivesUp.of_timedOut hout [r])
      exact hleaves hrecv (by simp)
    · exact absurd hopen hclosed

/-- With twenty results, an assignment is left waiting only by frames of length 0. -/
theorem assignmentEnds_iff {n : UInt8} (hn : n ≠ 0) {rx : List (Option CanRxMsg)}
    (hlen : rx.length = 20) :
    AssignmentEnds n rx ↔ ¬ (canWait 5 n).Open (Vector.replicate 8 0) 20 rx := by
  have hcount : (canWait 5 n).counted (Vector.replicate 8 0) rx = rx.length ↔
      ∀ m, some m ∈ rx → m.data.get 5 ≠ n := counted_eq_length_iff (replicate_zero_ne hn 5) rx
  have hle := Wait.counted_le_length (W := canWait 5 n) (Vector.replicate 8 0) rx
  have hquiet : (canWait 5 n).Quiet rx ↔ ¬ ∃ m, some m ∈ rx ∧ m.dlc ≠ 0 ∧ m.data.get 5 = n := by
    rw [canWait_quiet_iff]
    push Not
    exact Iff.rfl
  rw [AssignmentEnds, Wait.Open, hquiet, ← hcount, not_and_or, not_not]
  apply or_congr Iff.rfl
  omega

theorem receiveAny_leaves {rx : List (Option CanRxMsg)} {n : ℕ} (hn : n < rx.length)
    (buf : Vector UInt8 8) : (receiveAny rx buf n).2.2 ≠ [] := by
  induction rx generalizing buf n with
  | nil => simp at hn
  | cons r rx ih =>
      cases n with
      | zero => simp [receiveAny]
      | succ n =>
          have hlt : n < rx.length := Nat.lt_of_succ_lt_succ hn
          unfold receiveAny
          dsimp only
          split_ifs
          · show rx ≠ []
            exact List.ne_nil_of_length_pos (by omega)
          · exact ih hlt _

theorem returnsWithin_iff {k : ℕ} {σ : ℕ → Option CanRxMsg} {α : Type} {P : Prop}
    {f : CanBus → Option α} {g : α → CanBus}
    (h : ∀ tx, (∃ out, f ⟨firstResults σ k ++ [σ k], tx⟩ = some out ∧ (g out).rx ≠ []) ↔ P) :
    ReturnsWithin k σ (fun bus => (f bus).map g) ↔ P := by
  have hmap : ReturnsWithin k σ (fun bus => (f bus).map g) ↔
      ∀ tx, ∃ out, f ⟨firstResults σ k ++ [σ k], tx⟩ = some out ∧ (g out).rx ≠ [] := by
    simp [ReturnsWithin, firstResults_succ]
  rw [hmap]
  exact ⟨fun hall => (h []).mp (hall []), fun hP tx => (h tx).mpr hP⟩

/-- When the three requests return within twenty calls of `Can_Receive_Msg`. -/
theorem requests_return_iff {no : ℕ} (h1 : 1 ≤ no) (h80 : no ≤ 80) (σ : ℕ → Option CanRxMsg)
    (uBuff : Vector UInt8 10) (physicalADD newADD : Vector UInt8 4) :
    (ReturnsWithin 20 σ
        (fun bus => (canSendPBusCom (UInt8.ofNat no) uBuff bus).map fun out => out.2.2) ↔
      PollEnds (UInt8.ofNat no) (firstResults σ 20)) ∧
    (ReturnsWithin 20 σ
        (fun bus => (canWriteLogitADD (UInt8.ofNat no) physicalADD bus).map fun out => out.2) ↔
      AssignmentEnds (UInt8.ofNat no) (firstResults σ 20)) ∧
    ReturnsWithin 20 σ (fun bus => some (canReadUnregistered newADD bus).2.2) := by
  have hn : UInt8.ofNat no ≠ 0 := by
    intro h0
    have := (ofNat_inj_of_le h80 (Nat.zero_le 80)).mp h0
    omega
  refine ⟨returnsWithin_iff fun tx => canSendPBusCom_leaves_iff _ _ _ _ tx, ?_, ?_⟩
  · rw [assignmentEnds_iff hn (firstResults_length σ 20)]
    exact returnsWithin_iff fun tx => canWriteLogitADD_leaves_iff _ _ _ _ tx
  · intro tx
    have hlen : 20 < (firstResults σ (20 + 1)).length := by simp
    have hleft := receiveAny_leaves hlen (Vector.replicate 8 0)
    refine ⟨_, rfl, ?_⟩
    unfold canReadUnregistered
    dsimp only
    split_ifs <;> exact hleft

/-- The first half of an insertion at reader 1, and nothing after it. -/
def part1ThenSilence : ℕ → Option CanRxMsg
  | 0 => some ⟨#v[0x03, 0x01, 0xAA, 0xBB, 0xCC, 0xDD, 0, 0], 8⟩
  | _ + 1 => none

theorem requests_return_iff_one :
    1 ≤ 1 ∧ 1 ≤ 80 ∧
    (ReturnsWithin 20 part1ThenSilence
        (fun bus => (canSendPBusCom 1 (Vector.replicate 10 0) bus).map fun out => out.2.2) ↔
      PollEnds 1 (firstResults part1ThenSilence 20)) ∧
    (ReturnsWithin 20 part1ThenSilence
        (fun bus => (canWriteLogitADD 1 #v[1, 2, 3, 4] bus).map fun out => out.2) ↔
      AssignmentEnds 1 (firstResults part1ThenSilence 20)) ∧
    ReturnsWithin 20 part1ThenSilence
      (fun bus => some (canReadUnregistered #v[0, 0, 0, 0] bus).2.2) :=
  ⟨by decide, by decide, requests_return_iff (by decide : 1 ≤ 1) (by decide) part1ThenSilence
    (Vector.replicate 10 0) #v[1, 2, 3, 4] #v[0, 0, 0, 0]⟩

/-- A lost second half leaves the poll waiting. -/
theorem poll_hangs_after_part1 :
    ¬ ∀ σ, ReturnsWithin 20 σ
      (fun bus => (canSendPBusCom 1 (Vector.replicate 10 0) bus).map fun out => out.2.2) := by
  intro h
  obtain ⟨bus, hbus, -⟩ := h part1ThenSilence []
  have hnone : canSendPBusCom 1 (Vector.replicate 10 0)
      ⟨firstResults part1ThenSilence 21, []⟩ = none := by decide
  exact Option.some_ne_none bus (hbus.symm.trans (congrArg _ hnone))

end YckjAcu
