import YckjAcu.Collection
import YckjAcu.WaitBounds

/-!
# Insertions and removals in the poll

The mirror of a frame exchanges the two kinds of event.  The poll treats a frame
and its mirror alike unless it is a first half: that of an insertion is followed
by a second wait, that of a removal is not.
-/

namespace YckjAcu

def mirrorByte (b : UInt8) : UInt8 :=
  if b = 0x03 then 0x05 else if b = 0x05 then 0x03 else if b = 0x04 then 0x06
  else if b = 0x06 then 0x04 else b

def mirrorBuf (data : Vector UInt8 8) : Vector UInt8 8 :=
  data.setIfInBounds 0 (mirrorByte (data.get 0))

def CanRxMsg.mirror (m : CanRxMsg) : CanRxMsg := { m with data := mirrorBuf m.data }

def mirrored (σ : ℕ → Option CanRxMsg) (k : ℕ) : Option CanRxMsg := (σ k).map CanRxMsg.mirror

/-- `05` and `06` exchanged. -/
def mirrorMark (b : UInt8) : UInt8 := if b = 0x05 then 0x06 else if b = 0x06 then 0x05 else b

/-- On the schedule the poll of reader `n` returns after exactly `k` calls of
`Can_Receive_Msg`, with the value and the buffer. -/
def PollReturns (n : UInt8) (σ : ℕ → Option CanRxMsg) (uBuff : Vector UInt8 10) (k : ℕ)
    (ret : UInt8) (uBuff' : Vector UInt8 10) : Prop :=
  ∃ bus, canSendPBusCom n uBuff ⟨firstResults σ (k + 1), []⟩ = some (ret, uBuff', bus) ∧
    bus.rx = [σ k]

/-- The poll writes byte 0 of the buffer: it does not depend on what was there. -/
def WritesMark (n : UInt8) (σ : ℕ → Option CanRxMsg) (k : ℕ) : Prop :=
  ∀ uBuff₁ uBuff₂ ret₁ ret₂ b₁ b₂, PollReturns n σ uBuff₁ k ret₁ b₁ →
    PollReturns n σ uBuff₂ k ret₂ b₂ → b₁.get 0 = b₂.get 0

/-- The mirrored schedule gives the same value after the same number of calls and
the mirrored buffer. -/
def TreatedAlike (n : UInt8) (σ : ℕ → Option CanRxMsg) (uBuff : Vector UInt8 10) (k : ℕ)
    (ret : UInt8) (b : Vector UInt8 10) : Prop :=
  ∃ b', PollReturns n (mirrored σ) uBuff k ret b' ∧ (∀ i, i ≠ 0 → b'.get i = b.get i) ∧
    (WritesMark n σ k → b'.get 0 = mirrorMark (b.get 0)) ∧
    (¬ WritesMark n σ k → b'.get 0 = b.get 0)

/-- The frame that answers the first wait of the poll. -/
def FirstAnswer (n : UInt8) (σ : ℕ → Option CanRxMsg) (m : CanRxMsg) : Prop :=
  ∃ k rest, (canWait 1 n).Answered (Vector.replicate 8 0) 10 (firstResults σ k) (some m) rest

theorem firstResults_mirrored (σ : ℕ → Option CanRxMsg) (k : ℕ) :
    firstResults (mirrored σ) k = (firstResults σ k).map (Option.map CanRxMsg.mirror) := by
  simp [firstResults, mirrored]

theorem get_mirrorBuf {i : Fin 8} (hi : i ≠ 0) (data : Vector UInt8 8) :
    (mirrorBuf data).get i = data.get i :=
  Buffers.get_setIfInBounds_of_ne _ (fun h => hi (Fin.ext h.symm)) _

theorem get_zero_mirrorBuf (data : Vector UInt8 8) :
    (mirrorBuf data).get 0 = mirrorByte (data.get 0) :=
  Buffers.get_zero_setIfInBounds_zero _ _

theorem mirrorBuf_zero : mirrorBuf (Vector.replicate 8 0) = Vector.replicate 8 0 := by decide

theorem mirror_renaming (n : UInt8) :
    (canWait 1 n).Renaming (Option.map CanRxMsg.mirror) mirrorBuf where
  recv buf r := by cases r <;> rfl
  free buf := by
    have h : (mirrorBuf buf).get 1 = buf.get 1 := get_mirrorBuf (by decide) buf
    simp only [canWait, h]
  answers r := by
    cases r with
    | none => rfl
    | some m =>
        have h : (mirrorBuf m.data).get 1 = m.data.get 1 := get_mirrorBuf (by decide) m.data
        simp only [canWait, Option.map_some, Option.any_some, CanRxMsg.mirror, h]

theorem firstResults_prefix (σ : ℕ → Option CanRxMsg) {j k : ℕ} (h : j ≤ k) :
    ∃ more, firstResults σ k = firstResults σ j ++ more := by
  obtain ⟨d, rfl⟩ := Nat.exists_eq_add_of_le h
  exact ⟨_, by rw [firstResults, List.range_add, List.map_append]; rfl⟩

section Ends

variable {n : UInt8} {σ : ℕ → Option CanRxMsg}

theorem pollReturns_iff {uBuff b : Vector UInt8 10} {k : ℕ} {ret : UInt8} :
    PollReturns n σ uBuff k ret b ↔
      ∃ e, Polled n (firstResults σ (k + 1)) e [σ k] ∧ ret = e.ret ∧ b = e.fill uBuff := by
  constructor
  · rintro ⟨bus, h, hrx⟩
    obtain ⟨e, he, hret, hb, -⟩ := canSendPBusCom_eq_some_iff.mp h
    exact ⟨e, hrx ▸ he, hret, hb⟩
  · rintro ⟨e, he, rfl, rfl⟩
    exact ⟨_, canSendPBusCom_of_polled uBuff ⟨_, []⟩ he, rfl⟩

/-- A wait that leaves results behind ends on the whole schedule as on the first
results. -/
theorem firstAnswer_iff {k : ℕ} {r : Option CanRxMsg} {rest : List (Option CanRxMsg)}
    (h : EndsWith (canWait 1 n) (Vector.replicate 8 0) 10 (firstResults σ k) r rest)
    (hrest : rest ≠ []) (m : CanRxMsg) : FirstAnswer n σ m ↔ r = some m := by
  have hmore : ∀ more, EndsWith (canWait 1 n) (Vector.replicate 8 0) 10
      (firstResults σ k ++ more) r (rest ++ more) := by
    intro more
    cases r with
    | some m' => exact answered_append h more
    | none =>
        rcases h with hout | ⟨-, -, rfl⟩
        · exact GivesUp.of_timedOut hout more
        · exact absurd rfl hrest
  constructor
  · rintro ⟨j, rest', hans⟩
    rcases Nat.le_total j k with hjk | hkj
    · obtain ⟨more, heq⟩ := firstResults_prefix σ hjk
      have hans' := answered_append hans more
      rw [← heq] at hans'
      exact (h.unique (show EndsWith _ _ _ _ (some m) _ from hans')).1
    · obtain ⟨more, heq⟩ := firstResults_prefix σ hkj
      rw [heq] at hans
      exact ((hmore more).unique (show EndsWith _ _ _ _ (some m) _ from hans)).1
  · rintro rfl
    exact ⟨k, rest, h⟩

theorem EndsWith.last {field : Fin 8} {value : UInt8} {buf : Vector UInt8 8} {j : ℕ}
    {x r : Option CanRxMsg} {rest : List (Option CanRxMsg)}
    (h : EndsWith (canWait field value) buf j [x] r rest) (hj : j ≠ 0) : rest = [] := by
  obtain ⟨res, buf', hrecv, -⟩ := h.receiveFor
  exact receiveFor_last hj hrecv

theorem EndsWith.mirror {buf : Vector UInt8 8} {j : ℕ} {rx rest : List (Option CanRxMsg)}
    {r : Option CanRxMsg} (h : EndsWith (canWait 1 n) buf j rx r rest) (hrest : rest ≠ []) :
    EndsWith (canWait 1 n) (mirrorBuf buf) j (rx.map (Option.map CanRxMsg.mirror))
      (r.map CanRxMsg.mirror) (rest.map (Option.map CanRxMsg.mirror)) := by
  cases r with
  | some m => exact h.map (mirror_renaming n)
  | none =>
      rcases h with hout | ⟨-, -, rfl⟩
      · exact Or.inl (hout.map (mirror_renaming n))
      · exact absurd rfl hrest

end Ends

/-! ### The two runs -/

theorem get_zero_fill (uBuff : Vector UInt8 10) {e : Exchange} (h : e.part1 = none) :
    (e.fill uBuff).get 0 = uBuff.get 0 := by
  cases e <;> first | rfl | cases h

/-- Byte 0 is left alone when no first half is kept. -/
theorem not_writesMark {n : UInt8} {σ : ℕ → Option CanRxMsg} {k : ℕ} {e : Exchange}
    (he : Polled n (firstResults σ (k + 1)) e [σ k]) (h : e.part1 = none) :
    ¬ WritesMark n σ k := by
  intro hwrites
  have heq := hwrites (Vector.replicate 10 0) (Vector.replicate 10 1) _ _ _ _
    (pollReturns_iff.mpr ⟨e, he, rfl, rfl⟩) (pollReturns_iff.mpr ⟨e, he, rfl, rfl⟩)
  rw [get_zero_fill _ h, get_zero_fill _ h] at heq
  exact absurd heq (by decide)

theorem treatedAlike_of_part1 {n : UInt8} {σ : ℕ → Option CanRxMsg} {uBuff : Vector UInt8 10}
    {k : ℕ} {e e' : Exchange} (he : Polled n (firstResults σ (k + 1)) e [σ k])
    (he' : Polled n (firstResults (mirrored σ) (k + 1)) e' [mirrored σ k]) (h : e.part1 = none)
    (hret : e'.ret = e.ret) (hfill : e'.fill uBuff = e.fill uBuff) :
    TreatedAlike n σ uBuff k e.ret (e.fill uBuff) :=
  ⟨e.fill uBuff, pollReturns_iff.mpr ⟨e', he', hret.symm, hfill.symm⟩, fun _ _ => rfl,
    fun hwrites => absurd hwrites (not_writesMark he h), fun _ => rfl⟩

/-- A single answer other than a first half and its mirror. -/
theorem ofSingle_mirror {m : CanRxMsg} (h3 : m.data.get 0 ≠ 0x03) (h5 : m.data.get 0 ≠ 0x05)
    (uBuff : Vector UInt8 10) :
    (Exchange.ofSingle m).part1 = none ∧
      (Exchange.ofSingle m.mirror).ret = (Exchange.ofSingle m).ret ∧
      (Exchange.ofSingle m.mirror).fill uBuff = (Exchange.ofSingle m).fill uBuff := by
  have h0 : m.mirror.data.get 0 = mirrorByte (m.data.get 0) := get_zero_mirrorBuf m.data
  have hsecond : secondHalf m.mirror.data uBuff = secondHalf m.data uBuff := by
    have hget : ∀ i : Fin 8, i ≠ 0 → m.mirror.data.get i = m.data.get i := fun i hi =>
      get_mirrorBuf hi m.data
    rw [secondHalf, hget 2 (by decide), hget 3 (by decide), hget 4 (by decide),
      hget 5 (by decide), hget 6 (by decide)]
    rfl
  unfold Exchange.ofSingle
  rw [h0, mirrorByte, if_neg h3, if_neg h5]
  by_cases h2 : m.data.get 0 = 0x02
  · simp [h2, Exchange.part1, Exchange.ret, Exchange.fill]
  · by_cases h4 : m.data.get 0 = 0x04
    · simp [h4, Exchange.part1, Exchange.ret, Exchange.fill, hsecond]
    · by_cases h6 : m.data.get 0 = 0x06
      · simp [h6, Exchange.part1, Exchange.ret, Exchange.fill, hsecond]
      · simp [h2, h4, h5, h6, Exchange.part1, Exchange.ret, Exchange.fill]

section FirstWait

variable {n : UInt8} {rx rx1 rest : List (Option CanRxMsg)} {m : CanRxMsg} {e : Exchange}

/-- After a first half of an insertion there is a second wait. -/
theorem Polled.second_wait (h : Polled n rx e rest)
    (hend : EndsWith (canWait 1 n) (Vector.replicate 8 0) 10 rx (some m) rx1)
    (h3 : m.data.get 0 = 0x03) : ∃ r, EndsWith (canWait 1 n) m.data 10 rx1 r rest := by
  cases h with
  | silent hend' => exact absurd (hend.unique hend').1 (by simp)
  | single hend' h3' =>
      cases (hend.unique hend').1
      exact absurd h3 h3'
  | pair hend' _ h2 =>
      obtain ⟨hm, rfl⟩ := hend.unique hend'
      cases hm
      exact ⟨_, h2⟩

/-- After any other answer there is none. -/
theorem Polled.no_second_wait (h : Polled n rx e rest)
    (hend : EndsWith (canWait 1 n) (Vector.replicate 8 0) 10 rx (some m) rx1)
    (h3 : m.data.get 0 ≠ 0x03) : rest = rx1 := by
  cases h with
  | silent hend' => exact absurd (hend.unique hend').1 (by simp)
  | single hend' _ => exact (hend.unique hend').2.symm
  | pair hend' h3' _ =>
      cases (hend.unique hend').1
      exact absurd h3' h3

end FirstWait

/-- Where the poll returns, it returns alike on the mirrored schedule exactly when
its first wait is not answered by a first half. -/
theorem poll_treatedAlike_iff {n : UInt8} {σ : ℕ → Option CanRxMsg} {uBuff b : Vector UInt8 10}
    {k : ℕ} {ret : UInt8} (h : PollReturns n σ uBuff k ret b) :
    TreatedAlike n σ uBuff k ret b ↔
      ∀ m, FirstAnswer n σ m → m.data.get 0 ≠ 0x03 ∧ m.data.get 0 ≠ 0x05 := by
  obtain ⟨e, he, rfl, rfl⟩ := pollReturns_iff.mp h
  have hlast : firstResults (mirrored σ) (k + 1) =
      (firstResults σ (k + 1)).map (Option.map CanRxMsg.mirror) := firstResults_mirrored σ (k + 1)
  cases id he with
  | silent hend =>
      have hmirror := hend.mirror (by simp)
      rw [mirrorBuf_zero, ← hlast] at hmirror
      refine iff_of_true (treatedAlike_of_part1 he (.silent hmirror) rfl rfl rfl) fun m hm => ?_
      exact absurd ((firstAnswer_iff hend (by simp) m).mp hm) (by simp)
  | @single m _ hend h3 =>
      have hmirror := hend.mirror (by simp)
      rw [mirrorBuf_zero, ← hlast] at hmirror
      have h0 : m.mirror.data.get 0 = mirrorByte (m.data.get 0) := get_zero_mirrorBuf m.data
      have hfirst : FirstAnswer n σ m := (firstAnswer_iff hend (by simp) m).mpr rfl
      constructor
      · rintro ⟨b', hb', -⟩ m' hm'
        obtain rfl := Option.some.inj ((firstAnswer_iff hend (by simp) m').mp hm')
        refine ⟨h3, fun h5 => ?_⟩
        obtain ⟨e', he', -⟩ := pollReturns_iff.mp hb'
        -- the mirror is a first half of an insertion, whose second wait takes the last result
        obtain ⟨r, h2⟩ := he'.second_wait hmirror (h0.trans (by rw [h5]; rfl))
        exact absurd (h2.last (by decide)) (by simp)
      · intro hno
        have h5 := (hno m hfirst).2
        obtain ⟨hpart1, hret, hfill⟩ := ofSingle_mirror h3 h5 uBuff
        refine treatedAlike_of_part1 he (.single hmirror ?_) hpart1 hret hfill
        rw [h0, mirrorByte, if_neg h3, if_neg h5]
        split_ifs with h4 h6
        · decide
        · decide
        · exact h3
  | @pair m rx1 _ _ hend h3 h2 =>
      have hrx1 : rx1 ≠ [] := by
        rintro rfl
        have hsuffix := receiveFor_suffix h2.receiveFor.choose_spec.choose_spec.1
        exact absurd (List.suffix_nil.mp hsuffix) (by simp)
      have hmirror := hend.mirror hrx1
      rw [mirrorBuf_zero, ← hlast] at hmirror
      have h0 : m.mirror.data.get 0 = 0x05 := (get_zero_mirrorBuf m.data).trans (by rw [h3]; rfl)
      refine iff_of_false ?_ fun hno =>
        (hno m ((firstAnswer_iff hend hrx1 m).mpr rfl)).1 h3
      rintro ⟨b', hb', -⟩
      obtain ⟨e', he', -⟩ := pollReturns_iff.mp hb'
      -- the mirror is a first half of a removal, which leaves what the second wait takes
      have hrest := he'.no_second_wait hmirror (by rw [h0]; decide)
      obtain ⟨x, rfl⟩ := List.length_eq_one_iff.mp
        (by simpa using (congrArg List.length hrest).symm : rx1.length = 1)
      exact absurd (h2.last (by decide)) (by simp)

/-- The two halves of a removal at reader 1, and nothing after them. -/
def removalFrames : ℕ → Option CanRxMsg
  | 0 => some ⟨#v[0x05, 0x01, 0xAA, 0xBB, 0xCC, 0xDD, 0, 0], 8⟩
  | 1 => some ⟨#v[0x06, 0x01, 0x00, 0x10, 0x00, 0x77, 0x42, 0], 8⟩
  | _ + 2 => none

theorem removalFrames_return : PollReturns 1 removalFrames (Vector.replicate 10 0) 1 0x00
    #v[0x06, 0xAA, 0xBB, 0xCC, 0xDD, 0, 0, 0, 0, 0] :=
  ⟨⟨[removalFrames 1], [canTxMsg #v[0x01, 0x01, 0, 0, 0, 0, 0, 0]]⟩, by decide, rfl⟩

theorem poll_treatedAlike_iff_removal :
    TreatedAlike 1 removalFrames (Vector.replicate 10 0) 1 0x00
        #v[0x06, 0xAA, 0xBB, 0xCC, 0xDD, 0, 0, 0, 0, 0] ↔
      ∀ m, FirstAnswer 1 removalFrames m → m.data.get 0 ≠ 0x03 ∧ m.data.get 0 ≠ 0x05 :=
  poll_treatedAlike_iff removalFrames_return

/-- The poll fails on the removal and collects its mirror. -/
theorem removal_not_treatedAlike :
    ¬ ∀ (n : UInt8) (σ : ℕ → Option CanRxMsg) (uBuff b : Vector UInt8 10) (k : ℕ) (ret : UInt8),
      PollReturns n σ uBuff k ret b → TreatedAlike n σ uBuff k ret b := by
  intro h
  obtain ⟨b', ⟨bus, hbus, -⟩, -⟩ := h _ _ _ _ _ _ removalFrames_return
  have hmirror : (canSendPBusCom 1 (Vector.replicate 10 0)
      ⟨firstResults (mirrored removalFrames) 2, []⟩).map (fun out => out.1) = some 0xAA := by decide
  rw [hbus] at hmirror
  have hret : (0x00 : UInt8) = 0xAA := Option.some.inj hmirror
  exact absurd hret (by decide)

end YckjAcu
