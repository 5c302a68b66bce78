import YckjAcu.Can
import YckjAcu.Lib.BoundedWait

/-!
# Waiting for an answer on the CAN bus

The waiting loop of the requests charges a result only when the buffer it leaves
does not match.  A matching buffer without an answer, left by a frame of length
0 or by the frame before, makes silence free of charge.
-/

namespace YckjAcu

def canWait (field : Fin 8) (value : UInt8) : Wait (Option CanRxMsg) (Vector UInt8 8) where
  recv buf r := (canReceiveMsg buf r).2
  free buf := buf.get field = value
  answers r := r.any fun m => m.dlc ≠ 0 ∧ m.data.get field = value

section Wait

variable {field : Fin 8} {value : UInt8}

@[simp] theorem canWait_answers_none : (canWait field value).answers none = false := rfl

@[simp] theorem canWait_answers_some (m : CanRxMsg) :
    (canWait field value).answers (some m) = true ↔ m.dlc ≠ 0 ∧ m.data.get field = value := by
  simp [canWait]

theorem canWait_answers_iff {r : Option CanRxMsg} :
    (canWait field value).answers r = true ↔
      ∃ m, r = some m ∧ m.dlc ≠ 0 ∧ m.data.get field = value := by
  cases r <;> simp

theorem canWait_quiet_iff {rx : List (Option CanRxMsg)} :
    (canWait field value).Quiet rx ↔ ∀ m, some m ∈ rx → m.dlc ≠ 0 → m.data.get field ≠ value := by
  constructor
  · intro hquiet m hm hdlc hdata
    exact Bool.false_ne_true
      ((hquiet _ hm).symm.trans ((canWait_answers_some m).mpr ⟨hdlc, hdata⟩))
  · intro hno r hr
    by_contra hans
    obtain ⟨m, rfl, hdlc, hdata⟩ := canWait_answers_iff.mp (Bool.eq_true_of_not_eq_false hans)
    exact hno m hr hdlc hdata

theorem canWait_cost (buf : Vector UInt8 8) (r : Option CanRxMsg) :
    (canWait field value).cost buf r =
      if (canReceiveMsg buf r).2.get field = value then 0 else 1 := by
  simp [Wait.cost, canWait]

theorem receiveFor_cons {buf : Vector UInt8 8} {n : ℕ} {r : Option CanRxMsg}
    (rx : List (Option CanRxMsg)) (hr : (canWait field value).answers r = false) (hn : n ≠ 0) :
    receiveFor field value (r :: rx) 0 buf n =
      receiveFor field value rx 0 ((canWait field value).recv buf r)
        (n - (canWait field value).cost buf r) := by
  have hget : ∀ v : Vector UInt8 8, v[field.val] = v.get field := fun _ => rfl
  rw [canWait_cost]
  cases r with
  | none =>
      by_cases hbuf : buf.get field = value
      · simp [receiveFor, canReceiveMsg, canWait, hn, hget, hbuf]
      · simp [receiveFor, canReceiveMsg, canWait, hn, hget, hbuf]
  | some m =>
      by_cases hm : m.data.get field = value
      · have hdlc : m.dlc = 0 := by
          by_contra hdlc
          exact Bool.false_ne_true (hr.symm.trans ((canWait_answers_some m).mpr ⟨hdlc, hm⟩))
        simp [receiveFor, canReceiveMsg, canWait, hn, hget, hm, hdlc]
      · simp [receiveFor, canReceiveMsg, canWait, hn, hget, hm]

theorem receiveFor_append {buf : Vector UInt8 8} {n : ℕ} {pre : List (Option CanRxMsg)}
    (rx : List (Option CanRxMsg)) (hpre : (canWait field value).Quiet pre)
    (hn : (canWait field value).counted buf pre < n) :
    receiveFor field value (pre ++ rx) 0 buf n =
      receiveFor field value rx 0 ((canWait field value).after buf pre)
        (n - (canWait field value).counted buf pre) := by
  induction pre generalizing buf n with
  | nil => rfl
  | cons r pre ih =>
      obtain ⟨hr, hquiet⟩ := Wait.quiet_cons.mp hpre
      rw [Wait.counted_cons] at hn
      rw [List.cons_append, receiveFor_cons _ hr (by omega), ih hquiet (by omega),
        Wait.counted_cons, Wait.after_cons, Nat.sub_sub]

theorem receiveFor_answered {buf : Vector UInt8 8} {n : ℕ} {rx rest : List (Option CanRxMsg)}
    {m : CanRxMsg} (h : (canWait field value).Answered buf n rx (some m) rest) :
    receiveFor field value rx 0 buf n = some (m.dlc, m.data, rest) := by
  obtain ⟨pre, rfl, hquiet, hm, hcount⟩ := h
  obtain ⟨hdlc, hdata⟩ := (canWait_answers_some m).mp hm
  rw [receiveFor_append _ hquiet hcount]
  exact receiveFor_skip field m hdata hdlc rest (j := 0) (by omega)

theorem receiveFor_timedOut {buf : Vector UInt8 8} {n : ℕ} {rx rest : List (Option CanRxMsg)}
    (h : (canWait field value).TimedOut buf n rx rest) :
    ∃ buf', receiveFor field value rx 0 buf n = some (0, buf', rest) := by
  obtain ⟨pre, r, rfl, hquiet, hcost, hcount⟩ := h
  obtain ⟨hpre, hr⟩ := Wait.quiet_append.mp hquiet
  have hlast : n - (canWait field value).counted buf pre = 1 := by omega
  have hover : ∀ buf', receiveFor field value rest 0 buf' 0 = some (0, buf', rest) := by
    intro buf'
    cases rest <;> simp [receiveFor]
  rw [receiveFor_append _ hpre (by omega), hlast,
    receiveFor_cons _ (Wait.quiet_cons.mp hr).1 (by omega), hcost]
  exact ⟨_, hover _⟩

/-- A wait that is still open when the bus falls silent for ever. -/
theorem receiveFor_open {buf : Vector UInt8 8} {n : ℕ} {rx : List (Option CanRxMsg)}
    (h : (canWait field value).Open buf n rx) :
    receiveFor field value rx 0 buf n =
      if (canWait field value).free ((canWait field value).after buf rx) then none
      else some (0, (canWait field value).after buf rx, []) := by
  have happend := receiveFor_append [] h.1 h.2
  rw [List.append_nil] at happend
  have hleft : n - (canWait field value).counted buf rx ≠ 0 := by
    have := h.2
    omega
  have hfree : ∀ buf' : Vector UInt8 8, (canWait field value).free buf' = true ↔
      buf'[field.val] = value := fun _ => decide_eq_true_iff
  rw [happend]
  simp [receiveFor, hleft, hfree]

/-- What is left when a wait gives up: the results behind the last one charged,
or none when silence outlasts the budget. -/
def GivesUp (W : Wait (Option CanRxMsg) (Vector UInt8 8)) (buf : Vector UInt8 8) (n : ℕ)
    (rx rest : List (Option CanRxMsg)) : Prop :=
  W.TimedOut buf n rx rest ∨ W.Open buf n rx ∧ W.free (W.after buf rx) = false ∧ rest = []

variable (field value) in
theorem canWait_cases (buf : Vector UInt8 8) {n : ℕ} (hn : 0 < n) (rx : List (Option CanRxMsg)) :
    (∃ m rest, (canWait field value).Answered buf n rx (some m) rest) ∨
      (∃ rest, (canWait field value).TimedOut buf n rx rest) ∨
      (canWait field value).Open buf n rx := by
  refine (Wait.answered_or_timedOut_or_open buf hn rx).imp_left ?_
  rintro ⟨r, rest, h⟩
  obtain ⟨_, _, _, hr, _⟩ := id h
  obtain ⟨m, rfl, -⟩ := canWait_answers_iff.mp hr
  exact ⟨m, rest, h⟩

/-- A waiting loop that ends was answered or gave up. -/
theorem receiveFor_eq_some {buf buf' : Vector UInt8 8} {n : ℕ} {res : UInt8}
    {rx rest : List (Option CanRxMsg)} (hn : 0 < n)
    (h : receiveFor field value rx 0 buf n = some (res, buf', rest)) :
    (∃ m, (canWait field value).Answered buf n rx (some m) rest ∧ res = m.dlc ∧ buf' = m.data) ∨
      res = 0 ∧ GivesUp (canWait field value) buf n rx rest := by
  rcases canWait_cases field value buf hn rx with ⟨m, rest', hans⟩ | ⟨rest', hout⟩ | hopen
  · rw [receiveFor_answered hans] at h
    cases h
    exact Or.inl ⟨m, hans, rfl, rfl⟩
  · obtain ⟨buf'', heq⟩ := receiveFor_timedOut hout
    rw [heq] at h
    cases h
    exact Or.inr ⟨rfl, Or.inl hout⟩
  · rw [receiveFor_open hopen] at h
    split_ifs at h with hfree
    cases h
    exact Or.inr ⟨rfl, Or.inr ⟨hopen, by simpa using hfree, rfl⟩⟩

theorem receiveFor_givesUp {buf : Vector UInt8 8} {n : ℕ} {rx rest : List (Option CanRxMsg)}
    (h : GivesUp (canWait field value) buf n rx rest) :
    ∃ buf', receiveFor field value rx 0 buf n = some (0, buf', rest) := by
  rcases h with hout | ⟨hopen, hfree, rfl⟩
  · exact receiveFor_timedOut hout
  · exact ⟨_, by rw [receiveFor_open hopen, if_neg (by simp [hfree])]⟩

/-- How a wait ends: with the frame that answers it, or with none. -/
def EndsWith (W : Wait (Option CanRxMsg) (Vector UInt8 8)) (buf : Vector UInt8 8) (n : ℕ)
    (rx : List (Option CanRxMsg)) : Option CanRxMsg → List (Option CanRxMsg) → Prop
  | some m, rest => W.Answered buf n rx (some m) rest
  | none, rest => GivesUp W buf n rx rest

theorem endsWith_of_receiveFor {buf buf' : Vector UInt8 8} {n : ℕ} {res : UInt8}
    {rx rest : List (Option CanRxMsg)} (hn : 0 < n)
    (h : receiveFor field value rx 0 buf n = some (res, buf', rest)) :
    ∃ r, EndsWith (canWait field value) buf n rx r rest ∧
      ((∃ m, r = some m ∧ m.dlc ≠ 0 ∧ m.data.get field = value ∧ res = m.dlc ∧ buf' = m.data) ∨
        r = none ∧ res = 0) := by
  rcases receiveFor_eq_some hn h with ⟨m, hans, hres, hbuf⟩ | ⟨hres, hout⟩
  · obtain ⟨_, _, _, hm, _⟩ := id hans
    obtain ⟨hdlc, hdata⟩ := (canWait_answers_some m).mp hm
    exact ⟨some m, hans, Or.inl ⟨m, rfl, hdlc, hdata, hres, hbuf⟩⟩
  · exact ⟨none, hout, Or.inr ⟨rfl, hres⟩⟩

theorem EndsWith.receiveFor {buf : Vector UInt8 8} {n : ℕ} {rx rest : List (Option CanRxMsg)}
    {r : Option CanRxMsg} (h : EndsWith (canWait field value) buf n rx r rest) : ∃ res buf',
    receiveFor field value rx 0 buf n = some (res, buf', rest) ∧
      ((∃ m, r = some m ∧ m.dlc ≠ 0 ∧ m.data.get field = value ∧ res = m.dlc ∧ buf' = m.data) ∨
        r = none ∧ res = 0) := by
  cases r with
  | none =>
      obtain ⟨buf', hbuf'⟩ := receiveFor_givesUp h
      exact ⟨0, buf', hbuf', Or.inr ⟨rfl, rfl⟩⟩
  | some m =>
      obtain ⟨_, _, _, hm, _⟩ := id h
      obtain ⟨hdlc, hdata⟩ := (canWait_answers_some m).mp hm
      exact ⟨m.dlc, m.data, receiveFor_answered h, Or.inl ⟨m, rfl, hdlc, hdata, rfl, rfl⟩⟩

theorem EndsWith.unique {buf : Vector UInt8 8} {n : ℕ} {rx rest rest' : List (Option CanRxMsg)}
    {r r' : Option CanRxMsg} (h : EndsWith (canWait field value) buf n rx r rest)
    (h' : EndsWith (canWait field value) buf n rx r' rest') : r = r' ∧ rest = rest' := by
  obtain ⟨res, buf₁, heq, hr⟩ := h.receiveFor
  obtain ⟨res', buf₂, heq', hr'⟩ := h'.receiveFor
  rw [heq, Option.some.injEq, Prod.mk.injEq, Prod.mk.injEq] at heq'
  obtain ⟨rfl, rfl, rfl⟩ := heq'
  refine ⟨?_, rfl⟩
  rcases hr with ⟨m, rfl, hdlc, -, rfl, rfl⟩ | ⟨rfl, rfl⟩
  · rcases hr' with ⟨m', rfl, -, -, hdlc', hdata'⟩ | ⟨rfl, hzero⟩
    · cases m
      cases m'
      simp_all
    · exact absurd hzero hdlc
  · rcases hr' with ⟨m', rfl, hdlc', -, hzero, -⟩ | ⟨rfl, -⟩
    · exact absurd hzero.symm hdlc'
    · rfl

theorem not_answered_of_givesUp {buf : Vector UInt8 8} {n : ℕ}
    {rx rest rest' : List (Option CanRxMsg)} {m : CanRxMsg}
    (h : GivesUp (canWait field value) buf n rx rest) :
    ¬ (canWait field value).Answered buf n rx (some m) rest' := fun hans =>
  Option.some_ne_none m (EndsWith.unique (show EndsWith _ _ _ _ (some m) _ from hans)
    (show EndsWith _ _ _ _ none _ from h)).1

/-- The results that a wait consumes: an answer comes last, and only there. -/
theorem EndsWith.consumed {buf : Vector UInt8 8} {n : ℕ} {rx rest : List (Option CanRxMsg)}
    {r : Option CanRxMsg} (h : EndsWith (canWait field value) buf n rx r rest) :
    ∃ pre, (canWait field value).Quiet pre ∧ rx = pre ++ r.toList.map some ++ rest := by
  cases r with
  | none =>
      rcases h with ⟨pre, x, rfl, hquiet, -⟩ | ⟨hopen, -, rfl⟩
      · exact ⟨pre ++ [x], hquiet, by simp⟩
      · exact ⟨rx, hopen.1, by simp⟩
  | some m =>
      obtain ⟨pre, rfl, hquiet, -⟩ := h
      exact ⟨pre, hquiet, by simp⟩

end Wait

end YckjAcu
