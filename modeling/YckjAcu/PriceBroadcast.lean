import YckjAcu.CardEvents

/-!
# Which price the readers heard

A changed price is sent in four iterations in a row, counted by
`Broadcast_Count`; then the new pair becomes the old one.  The counter is not
restarted when a heartbeat changes the pair again, or back, before that.
-/

namespace YckjAcu

/-- A pair of `g_WaterCost` and `g_CostNum`. -/
abbrev Price := UInt8 × UInt8

/-- The pairs of the price frames among `tx`. -/
def pricesSent (tx : List CanTxMsg) : List Price :=
  tx.filterMap fun f => if f.data.get 0 = 0xA3 then some (f.data.get 1, f.data.get 2) else none

theorem pricesSent_append (xs ys : List CanTxMsg) :
    pricesSent (xs ++ ys) = pricesSent xs ++ pricesSent ys := List.filterMap_append

theorem pricesSent_eq_nil {fs : List CanTxMsg} (h : ∀ f ∈ fs, f.data.get 0 ≠ 0xA3) :
    pricesSent fs = [] := by
  apply List.filterMap_eq_nil_iff.mpr
  intro f hf
  rw [if_neg (h f hf)]

/-- The last `k` frames, or all when there are fewer, carry `p`. -/
def LastSent (k : ℕ) (p : Price) (ps : List Price) : Prop := ∀ q ∈ ps.reverse.take k, q = p

instance (k : ℕ) (p : Price) (ps : List Price) : Decidable (LastSent k p ps) :=
  inferInstanceAs (Decidable (∀ q ∈ _, q = p))

theorem lastSent_succ_append {k : ℕ} {p q : Price} {ps : List Price} :
    LastSent (k + 1) p (ps ++ [q]) ↔ q = p ∧ LastSent k p ps := by
  simp [LastSent]

theorem LastSent.mono {k l : ℕ} {p : Price} {ps : List Price} (h : LastSent l p ps) (hkl : k ≤ l) :
    LastSent k p ps := by
  intro q hq
  exact h q (List.take_subset_take_left _ hkl hq)

/-- The pair after a message of the server. -/
def priceAfter (server : Option (Vector UInt8 11)) (p : Price) : Price :=
  match server with
  | some m => if m.get 0 = 0xCC then (m.get 5, m.get 6) else p
  | none => p

def PowerBus.price (s : PowerBus) : Price := (s.g_WaterCost, s.g_CostNum)

/-! ### Frames that carry no price -/

/-- The pair is the same, and no price frame was sent. -/
structure SamePrice (s t : PowerBus) : Prop where
  price : t.price = s.price
  sent : pricesSent t.can.tx = pricesSent s.can.tx

theorem SamePrice.trans {s t u : PowerBus} (hst : SamePrice s t) (htu : SamePrice t u) :
    SamePrice s u := ⟨htu.price.trans hst.price, htu.sent.trans hst.sent⟩

theorem pricesSent_packageSend {mode : UInt8} {d : Vector UInt8 8}
    (h : (packageSendBuf mode d).get 0 ≠ 0xA3) (bus : CanBus) :
    pricesSent (packageSend mode d bus).tx = pricesSent bus.tx := by
  have hnil : pricesSent [canTxMsg (packageSendBuf mode d)] = [] := by
    apply pricesSent_eq_nil
    intro f hf
    rw [List.mem_singleton.mp hf]
    exact h
  rw [packageSend_tx, pricesSent_append, hnil, List.append_nil]

theorem samePrice_readRunningData {no : ℕ} {tempBuff : Vector UInt8 10} {uBuff : Vector UInt8 8}
    {s t : PowerBus} (h : readRunningData no tempBuff uBuff s = some t) : SamePrice s t := by
  rcases readRunningData_cases h with ⟨-, rfl⟩ | ⟨-, answer, hanswer, rfl⟩
  · exact ⟨rfl, rfl⟩
  · obtain ⟨-, k, htx⟩ := pollTwice_cases hanswer
    obtain ⟨uDat, temp, can⟩ := answer
    have hpoll : pricesSent can.tx = pricesSent s.can.tx := by
      have hnil : pricesSent (List.replicate k
          (canTxMsg #v[0x01, UInt8.ofNat no, 0, 0, 0, 0, 0, 0])) = [] := by
        apply pricesSent_eq_nil
        intro f hf
        rw [List.eq_of_mem_replicate hf]
        simp [canTxMsg]
      rw [htx, pricesSent_append, hnil, List.append_nil]
    unfold storeAnswer
    dsimp only
    split_ifs
    · exact ⟨rfl, hpoll⟩
    · exact ⟨rfl, hpoll⟩
    · refine ⟨rfl, ?_⟩
      rw [← hpoll]
      exact pricesSent_packageSend (by simp [packageSendBuf]) can

theorem SamePrice.send {s t : PowerBus} (h : SamePrice s t) {mode : UInt8}
    (hmode : mode = 0x08 ∨ mode = 0x09 ∨ mode = 0x11 ∨ mode = 0x13) (d : Vector UInt8 8) :
    SamePrice s (t.packageSend mode d) := by
  have hhead : (packageSendBuf mode d).get 0 ≠ 0xA3 := by
    rcases hmode with rfl | rfl | rfl | rfl
    · simp [packageSendBuf]
    · simp [packageSendBuf]
    · simp [packageSendBuf]
    · simp [packageSendBuf]
  exact ⟨h.price, (pricesSent_packageSend hhead t.can).trans h.sent⟩

theorem samePrice_storeStatus {i : ℕ} {status : UInt8} {s t : PowerBus}
    (h : s.storeStatus i status = some t) : SamePrice s t := by
  unfold PowerBus.storeStatus at h
  split_ifs at h
  cases h
  exact ⟨rfl, rfl⟩

theorem samePrice_writeCardReply {m : Vector UInt8 11} {s t : PowerBus}
    (h : writeCardReply m s = some t) : SamePrice s t := by
  obtain ⟨u, hu, rfl⟩ := Option.map_eq_some_iff.mp h
  exact ((samePrice_storeStatus hu).send (by simp) _).send (by simp) _

theorem samePrice_writeCardError {m : Vector UInt8 11} {s t : PowerBus}
    (h : writeCardError m s = some t) : SamePrice s t := by
  cases h
  exact SamePrice.send ⟨rfl, rfl⟩ (by simp) _

theorem samePrice_writeHeartbeatError {m : Vector UInt8 11} {s t : PowerBus}
    (h : writeHeartbeatError m s = some t) : SamePrice s t := by
  obtain ⟨u, hu, rfl⟩ := Option.map_eq_some_iff.mp h
  exact (samePrice_storeStatus hu).send (by simp) _

theorem writeRFIDData_price {m : Vector UInt8 11} {s t : PowerBus}
    (h : writeRFIDData m s = some t) :
    t.price = priceAfter (some m) s.price ∧ pricesSent t.can.tx = pricesSent s.can.tx := by
  obtain ⟨u, hu, rfl⟩ := Option.map_eq_some_iff.mp h
  show u.price = priceAfter (some m) s.price ∧ pricesSent u.can.tx = pricesSent s.can.tx
  have hkeep : m.get 0 ≠ 0xCC → SamePrice s u →
      u.price = priceAfter (some m) s.price ∧ pricesSent u.can.tx = pricesSent s.can.tx := by
    intro hCC hsame
    rw [priceAfter, if_neg hCC]
    exact ⟨hsame.price, hsame.sent⟩
  unfold writeByKind at hu
  split_ifs at hu with hAA hBB h55 hCC
  · exact hkeep (by rw [hAA]; decide) (samePrice_writeCardReply hu)
  · exact hkeep (by rw [hBB]; decide) (samePrice_writeCardError hu)
  · exact hkeep (by rw [h55]; decide) (samePrice_writeHeartbeatError hu)
  · obtain ⟨v, hv, rfl⟩ := Option.map_eq_some_iff.mp hu
    rw [priceAfter, if_pos hCC]
    exact ⟨rfl, (samePrice_storeStatus hv).sent⟩
  · cases hu
    exact hkeep hCC ⟨rfl, rfl⟩

/-! ### One iteration -/

namespace LedState

def oldPrice (s : LedState) : Price := (s.vars.oldWaterCost, s.vars.oldCostNum)

/-- The price frames sent since the loop began. -/
def pricesSent (s : LedState) : List Price := YckjAcu.pricesSent s.bus.can.tx

/-- The part changes nothing that the price broadcasts look at. -/
structure PriceFrame (s t : LedState) : Prop where
  bus : SamePrice s.bus t.bus
  old : t.oldPrice = s.oldPrice
  time : t.vars.broadTime = s.vars.broadTime

theorem PriceFrame.trans {s t u : LedState} (hst : PriceFrame s t) (htu : PriceFrame t u) :
    PriceFrame s u :=
  ⟨hst.bus.trans htu.bus, htu.old.trans hst.old, htu.time.trans hst.time⟩

theorem priceFrame_broadcastKey (key : Vector UInt8 7) (crc : UInt8) (s : LedState) :
    PriceFrame s (s.broadcastKey key crc) := by
  have hsend : YckjAcu.pricesSent (canSendBroadcastKey key s.bus.can).tx =
      YckjAcu.pricesSent s.bus.can.tx := pricesSent_packageSend (by simp [packageSendBuf]) _
  unfold broadcastKey
  split_ifs
  · dsimp only
    split
    · exact ⟨⟨rfl, hsend⟩, rfl, rfl⟩
    · exact ⟨⟨rfl, hsend⟩, rfl, rfl⟩
  · exact ⟨⟨rfl, rfl⟩, rfl, rfl⟩

theorem priceFrame_pollScan {a : LedInput} {s t : LedState} (h : s.pollScan a = some t) :
    PriceFrame s t := by
  unfold pollScan at h
  split_ifs at h
  · obtain ⟨bus, hbus, rfl⟩ := Option.map_eq_some_iff.mp h
    have hsame := samePrice_readRunningData hbus
    unfold forward
    dsimp only
    split
    · exact ⟨⟨hsame.price, hsame.sent⟩, rfl, rfl⟩
    · exact ⟨hsame, rfl, rfl⟩
  · cases h
    exact ⟨⟨rfl, rfl⟩, rfl, rfl⟩

theorem priceFrame_advance (s : LedState) : PriceFrame s s.advance := by
  unfold advance
  split
  · exact ⟨⟨rfl, rfl⟩, rfl, rfl⟩
  · exact ⟨⟨rfl, rfl⟩, rfl, rfl⟩

theorem answerServer_price {server : Option (Vector UInt8 11)} {s t : LedState}
    (h : s.answerServer server = some t) :
    t.bus.price = priceAfter server s.bus.price ∧
      t.pricesSent = s.pricesSent ∧ t.vars = s.vars := by
  cases server with
  | none =>
      cases h
      exact ⟨rfl, rfl, rfl⟩
  | some m =>
      obtain ⟨bus, hbus, rfl⟩ := Option.map_eq_some_iff.mp h
      obtain ⟨hprice, hsent⟩ := writeRFIDData_price hbus
      exact ⟨hprice, hsent, rfl⟩

theorem pricesSent_broadcastCom (s : PowerBus) :
    YckjAcu.pricesSent (canSendBroadcastCom s.g_WaterCost s.g_CostNum s.can).tx =
      YckjAcu.pricesSent s.can.tx ++ [s.price] := by
  have hone : YckjAcu.pricesSent [canTxMsg #v[0xA3, s.g_WaterCost, s.g_CostNum, 0, 0, 0, 0, 0]] =
      [s.price] := by
    simp [YckjAcu.pricesSent, canTxMsg, PowerBus.price]
  have htx : (canSendBroadcastCom s.g_WaterCost s.g_CostNum s.can).tx =
      s.can.tx ++ [canTxMsg #v[0xA3, s.g_WaterCost, s.g_CostNum, 0, 0, 0, 0, 0]] := rfl
  rw [htx, pricesSent_append, hone]

theorem broadcastTimer_price (s : LedState) :
    s.broadcastTimer.bus.price = s.bus.price ∧ s.broadcastTimer.oldPrice = s.oldPrice ∧
      ∃ again, (again = [] ∨ again = [s.bus.price]) ∧
        s.broadcastTimer.pricesSent = s.pricesSent ++ again ∧
          (s.vars.broadTime = 0 → again = []) := by
  unfold broadcastTimer
  split_ifs with htime
  · refine ⟨rfl, rfl, [s.bus.price], Or.inr rfl, pricesSent_broadcastCom s.bus, ?_⟩
    intro h0
    rw [h0] at htime
    exact absurd htime (by decide)
  · exact ⟨rfl, rfl, [], Or.inl rfl, (List.append_nil _).symm, fun _ => rfl⟩

theorem due_iff (s : LedState) :
    (s.vars.oldCostNum ≠ s.bus.g_CostNum ∨ s.vars.oldWaterCost ≠ s.bus.g_WaterCost) ↔
      s.oldPrice ≠ s.bus.price := by
  rw [or_comm, ← not_and_or, Ne, oldPrice, PowerBus.price, Prod.mk.injEq]

theorem broadcastCost_price (s : LedState) :
    s.broadcastCost.bus.price = s.bus.price ∧
      if s.oldPrice = s.bus.price then
        s.broadcastCost.oldPrice = s.oldPrice ∧ s.broadcastCost.pricesSent = s.pricesSent
      else
        s.broadcastCost.pricesSent = s.pricesSent ++ [s.bus.price] ∧
          if s.vars.broadcastCount ≤ 2 then s.broadcastCost.oldPrice = s.oldPrice
          else s.broadcastCost.oldPrice = s.bus.price ∧ s.broadcastCost.vars.broadTime = 0 := by
  have hdue := s.due_iff
  have hsent := pricesSent_broadcastCom s.bus
  unfold broadcastCost
  by_cases hold : s.oldPrice = s.bus.price
  · rw [if_neg (mt hdue.mp (not_not.mpr hold)), if_pos hold]
    exact ⟨rfl, rfl, rfl⟩
  · rw [if_pos (hdue.mpr hold), if_neg hold]
    refine ⟨?_, ?_⟩
    · dsimp only
      split
      · rfl
      · rfl
    · by_cases hcount : s.vars.broadcastCount ≤ 2
      · simp only [send, hcount, if_true]
        exact ⟨hsent, rfl⟩
      · simp only [send, hcount, if_false]
        exact ⟨hsent, rfl, trivial⟩

end LedState

/-- The price frames of an iteration; `again` is that of the periodic broadcast. -/
theorem ledIteration_price {a : LedInput} {s t : LedState} (h : ledIteration a s = some t) :
    t.bus.price = priceAfter a.server s.bus.price ∧
      ∃ again, (again = [] ∨ again = [t.bus.price]) ∧
        if s.oldPrice = s.bus.price then
          t.oldPrice = s.oldPrice ∧ t.pricesSent = s.pricesSent ++ again
        else
          t.pricesSent = s.pricesSent ++ [s.bus.price] ++ again ∧
            if s.vars.broadcastCount ≤ 2 then t.oldPrice = s.oldPrice
            else t.oldPrice = s.bus.price ∧ again = [] := by
  obtain ⟨u, hu, h⟩ := Option.bind_eq_some_iff.mp h
  obtain ⟨v, hv, h⟩ := Option.bind_eq_some_iff.mp h
  cases h
  obtain ⟨hcost, hsent⟩ := (s.receive a.rx).broadcastCost_price
  have hkey := LedState.priceFrame_broadcastKey a.fm1702Key a.fm1702KeyCRC
      (s.receive a.rx).broadcastCost
  have hframe := hkey.trans (LedState.priceFrame_pollScan hu)
  obtain ⟨hvprice, hvsent, hvars⟩ := LedState.answerServer_price hv
  have hadv := LedState.priceFrame_advance v
  obtain ⟨htprice, htold, again, hagain, htsent, htime⟩ := v.advance.broadcastTimer_price
  have hprice : v.advance.bus.price = priceAfter a.server s.bus.price := by
    rw [hadv.bus.price, hvprice, hframe.bus.price, hcost]
    rfl
  have hold : v.advance.broadcastTimer.oldPrice = (s.receive a.rx).broadcastCost.oldPrice := by
    rw [htold, hadv.old, LedState.oldPrice, hvars]
    exact hframe.old
  have hprices : v.advance.broadcastTimer.pricesSent =
      (s.receive a.rx).broadcastCost.pricesSent ++ again := by
    have hvu : v.advance.pricesSent = (s.receive a.rx).broadcastCost.pricesSent :=
      (hadv.bus.sent.trans hvsent).trans hframe.bus.sent
    rw [htsent, hvu]
  have htimer : v.advance.vars.broadTime = (s.receive a.rx).broadcastCost.vars.broadTime := by
    rw [hadv.time, hvars]
    exact hframe.time
  rw [← htprice] at hagain
  refine ⟨htprice.trans hprice, again, hagain, ?_⟩
  rw [hold, hprices]
  have hrx : (s.receive a.rx).oldPrice = s.oldPrice ∧ (s.receive a.rx).bus.price = s.bus.price ∧
      (s.receive a.rx).pricesSent = s.pricesSent ∧
      (s.receive a.rx).vars.broadcastCount = s.vars.broadcastCount := ⟨rfl, rfl, rfl, rfl⟩
  rw [hrx.1, hrx.2.1, hrx.2.2.1, hrx.2.2.2] at hsent
  by_cases hdue : s.oldPrice = s.bus.price
  · rw [if_pos hdue] at hsent ⊢
    exact ⟨hsent.1, by rw [hsent.2]⟩
  · rw [if_neg hdue] at hsent ⊢
    refine ⟨by rw [hsent.1], ?_⟩
    by_cases hcount : s.vars.broadcastCount ≤ 2
    · rw [if_pos hcount] at hsent ⊢
      exact hsent.2
    · rw [if_neg hcount] at hsent ⊢
      exact ⟨hsent.2.1, htime (htimer.trans hsent.2.2)⟩

/-! ### Runs -/

/-- When no price is due, the last price frames carry the current pair. -/
def PriceHeard (s : LedState) : Prop :=
  s.oldPrice = s.bus.price → LastSent 3 s.bus.price s.pricesSent

/-- While a price is being repeated no heartbeat sets the pair back to the old one,
and the last repetition follows two frames of the same pair, or the heartbeat of
its iteration changes the pair once more. -/
def KeepsPrice (s : LedState) (a : LedInput) : Prop :=
  s.oldPrice ≠ s.bus.price →
    if s.vars.broadcastCount ≤ 2 then priceAfter a.server s.bus.price ≠ s.oldPrice
    else priceAfter a.server s.bus.price = s.bus.price → LastSent 2 s.bus.price s.pricesSent

instance (s : LedState) (a : LedInput) : Decidable (KeepsPrice s a) := by
  unfold KeepsPrice
  infer_instance

theorem priceHeard_step_iff {a : LedInput} {s t : LedState} (hs : PriceHeard s)
    (h : ledIteration a s = some t) : PriceHeard t ↔ KeepsPrice s a := by
  obtain ⟨hprice, again, hagain, hsent⟩ := ledIteration_price h
  unfold PriceHeard KeepsPrice
  by_cases hdue : s.oldPrice = s.bus.price
  · rw [if_pos hdue] at hsent
    refine iff_of_true ?_ fun hne => absurd hdue hne
    intro ht
    rw [hsent.1] at ht
    rw [hsent.2]
    have hlast := hs hdue
    rw [← hdue, ht] at hlast
    rcases hagain with rfl | rfl
    · rw [List.append_nil]
      exact hlast
    · exact lastSent_succ_append.mpr ⟨rfl, hlast.mono (by decide)⟩
  · rw [if_neg hdue] at hsent
    obtain ⟨hsent, hcount⟩ := hsent
    rw [hsent]
    by_cases hc : s.vars.broadcastCount ≤ 2
    · rw [if_pos hc] at hcount ⊢
      rw [hcount, ← hprice]
      constructor
      · intro hP _ heq
        have hlast := hP heq.symm
        -- the frame of this iteration is among the last three
        have hframe : s.bus.price = t.bus.price := by
          rcases hagain with rfl | rfl
          · rw [List.append_nil] at hlast
            exact (lastSent_succ_append.mp hlast).1
          · exact (lastSent_succ_append.mp (lastSent_succ_append.mp hlast).2).1
        exact hdue (heq.symm.trans hframe.symm)
      · intro hne heq
        exact absurd heq.symm (hne hdue)
    · rw [if_neg hc] at hcount ⊢
      obtain ⟨hold, rfl⟩ := hcount
      rw [hold, List.append_nil, ← hprice]
      constructor
      · intro hP _ heq
        have hlast := (lastSent_succ_append.mp (hP heq.symm)).2
        rwa [heq] at hlast
      · intro hC heq
        rw [← heq]
        exact lastSent_succ_append.mpr ⟨rfl, hC hdue heq.symm⟩

section Run

variable (hs : Handshakes) (e : Eeprom) (g_WaterCost g_CostNum : UInt8)
  (g_SendDate : Vector UInt8 16)

/-- At every loop head the readers heard the current price, unless it is due,
exactly when every iteration keeps it. -/
theorem priceHeard_run_iff {as : List LedInput} {u : LedState}
    (hrun : Runs.run ledIteration (ledStart hs e g_WaterCost g_CostNum g_SendDate) as = some u) :
    (∀ t, Runs.Visits ledIteration (ledStart hs e g_WaterCost g_CostNum g_SendDate) as t →
      PriceHeard t) ↔
    Runs.AllSteps ledIteration KeepsPrice (ledStart hs e g_WaterCost g_CostNum g_SendDate) as :=
  Runs.forall_visits_iff_allSteps (I := fun _ => True) (P := PriceHeard)
    (fun _ _ _ _ _ => trivial) (fun _ _ _ _ hP h => priceHeard_step_iff hP h) trivial
    (fun _ _ hq => absurd hq (List.not_mem_nil)) hrun

end Run

/-- A normal heartbeat that sets the water cost. -/
def waterCostInput (waterCost : UInt8) : LedInput :=
  { silentInput.val with server := some #v[0xCC, 0, 0, 0, 0, waterCost, 29, 1, 0, 0, 0] }

/-- The water cost changes from 5 to 6: four frames carry the new price. -/
theorem priceHeard_run_iff_changed :
    ∃ u, Runs.run ledIteration emptyStart
        (waterCostInput 6 :: List.replicate 5 silentInput.val) = some u ∧
      (u.oldPrice, u.pricesSent) = ((6, 29), List.replicate 4 (6, 29)) ∧
      ((∀ t, Runs.Visits ledIteration emptyStart
          (waterCostInput 6 :: List.replicate 5 silentInput.val) t → PriceHeard t) ↔
        Runs.AllSteps ledIteration KeepsPrice emptyStart
          (waterCostInput 6 :: List.replicate 5 silentInput.val)) := by
  obtain ⟨u, hu, hprices⟩ := Option.map_eq_some_iff.mp (show (Runs.run ledIteration emptyStart
    (waterCostInput 6 :: List.replicate 5 silentInput.val)).map
      (fun u => (u.oldPrice, u.pricesSent)) = some ((6, 29), List.replicate 4 (6, 29)) by
        decide +kernel)
  exact ⟨u, hu, hprices,
    priceHeard_run_iff (fun _ _ => 1) (fun _ => 0xFF) 5 29 (Vector.replicate 16 0) hu⟩

/-- The price changes from 5 to 6 and back: it is not due, and the only price frame
sent carries 6. -/
theorem price_changed_back : ¬ ∀ t, Runs.Visits ledIteration emptyStart
    [waterCostInput 6, waterCostInput 5] t → PriceHeard t := by
  intro h
  have hdef : (Runs.run ledIteration emptyStart [waterCostInput 6, waterCostInput 5]).isSome := by
    decide +kernel
  obtain ⟨u, hu⟩ := Option.isSome_iff_exists.mp hdef
  have hheard := h u ⟨2, hu⟩
  have hstate : (Runs.run ledIteration emptyStart [waterCostInput 6, waterCostInput 5]).map
      (fun u => (u.oldPrice, u.bus.price, u.pricesSent)) = some ((5, 29), (5, 29), [(6, 29)]) := by
    decide +kernel
  rw [hu, Option.map_some, Option.some.injEq] at hstate
  have hold : u.oldPrice = (5, 29) := congrArg (fun x => x.1) hstate
  have hprice : u.bus.price = (5, 29) := congrArg (fun x => x.2.1) hstate
  have hsent : u.pricesSent = [(6, 29)] := congrArg (fun x => x.2.2) hstate
  rw [PriceHeard, hold, hprice, hsent] at hheard
  have hframe : ((6, 29) : Price) = (5, 29) := hheard rfl (6, 29) (by simp)
  exact absurd hframe (by decide)

end YckjAcu
