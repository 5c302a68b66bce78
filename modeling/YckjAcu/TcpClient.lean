import YckjAcu.Lib.Buffers
import YckjAcu.Lib.Writes

/-!
# The server connection

`tcp_client_thread`: a received netbuf is copied out of its pbuf chain and read
as one frame of the server, which becomes a message in `ser_Date`; a message of
`led_task` becomes a card frame to the server.
-/

namespace YckjAcu

open Writes

/-- `tcp_client_recvbuf`, of `TCP_CLIENT_RX_BUFSIZE` bytes. -/
abbrev RecvBuf := Vector UInt8 1024

/-- The eleven bytes at `ser_Date`. -/
abbrev SerDate := Vector UInt8 11

/-! ### Receiving -/

/-- `memcpy(tcp_client_recvbuf+off, payload, n)`, undefined outside the buffer. -/
def memcpyRecv (off n : ℕ) (payload : List UInt8) (buf : RecvBuf) : Option RecvBuf :=
  if off + n ≤ 1024 ∧ n ≤ payload.length then
    some (Vector.ofFn fun i =>
      if off ≤ i.val ∧ i.val < off + n then payload[i.val - off]?.getD 0 else buf.get i)
  else none

/-- The loop over the pbuf chain. -/
def gather : List (List UInt8) → RecvBuf → ℕ → Option RecvBuf
  | [], buf, _ => some buf
  | payload :: chain, buf, dataLen => do
      let room := 1024 - dataLen
      let buf ← memcpyRecv dataLen (if payload.length > room then room else payload.length)
        payload buf
      if dataLen + payload.length > 1024 then some buf
      else gather chain buf (dataLen + payload.length)

/-- The buffer after `memset` and the loop over the chain. -/
def recvNetbuf (chain : List (List UInt8)) : Option RecvBuf :=
  gather chain (Vector.replicate _ 0) 0

/-- `tcp_client_recvbuf[i]` with a computed index. -/
def readRecv (b : RecvBuf) (i : ℤ) : Option UInt8 :=
  if 0 ≤ i then b[i.toNat]? else none

/-- The digits of an error text `Ex0y` as one byte. -/
def errorCode (high low : UInt8) : UInt8 := (high - 0x30) * 10 + (low - 0x30)

/-- The bytes that an error reply puts at the front of `ser_Date`, when it
posts a message. -/
def errorReply (b : RecvBuf) : Option (Option (List UInt8)) :=
  if b.get 2 = 0x02 then do
    let ucNo ← readRecv b ((b.get 1).toNat - 1)
    return some [0x55, ucNo, b.get 4, b.get 5, b.get 6, b.get 7]
  else if b.get 2 = 0x12 ∧ b.get 1 = 0x12 then do
    let ucNo ← readRecv b ((b.get 1).toNat - 2)
    return some [0xBB, ucNo, b.get 12, b.get 13, b.get 14, b.get 15, errorCode (b.get 5) (b.get 7),
      b.get 17]
  else some none

/-- The same for a normal reply. -/
def normalReply (b : RecvBuf) : Option (Option (List UInt8)) := do
  let ucNo ← if b.get 2 = 0x02 then readRecv b ((b.get 1).toNat - 1)
    else readRecv b ((b.get 1).toNat - 2)
  if b.get 1 = 0x0C ∧ b.get 2 = 0x02 ∧ b.get 4 = 0xAA then
    return some [0xCC, b.get 5, b.get 6, b.get 7, b.get 8, b.get 9, b.get 10, ucNo]
  else if b.get 2 = 0x12 ∧ b.get 1 = 0x12 then
    return some [0xAA, b.get 8, b.get 9, b.get 10, b.get 11, b.get 12, b.get 13, b.get 14, b.get 15,
      ucNo, b.get 17]
  else return none

/-- The bytes assigned to `ser_Date[0]`, `ser_Date[1]` and so on before the post. -/
def replyBytes (b : RecvBuf) : Option (Option (List UInt8)) :=
  if b.get 0 = 0xF3 then
    if b.get 3 = 0x00 then errorReply b
    else if b.get 3 = 0xAA then normalReply b
    else some none
  else some none

/-- The part of the thread's state that the dispatcher works on; `posted` are
the messages given to `q_msg_ser`, as they were at the `OSQPost`. -/
structure ServerLink where
  serDate : SerDate
  sendRecvCount : UInt8
  posted : List SerDate

/-- Assign the first bytes of `ser_Date`. -/
def overwrite (bytes : List UInt8) (serDate : SerDate) : SerDate :=
  Vector.ofFn fun i => bytes[i.val]?.getD (serDate.get i)

def ServerLink.post (bytes : List UInt8) (s : ServerLink) : ServerLink :=
  { s with
    serDate := overwrite bytes s.serDate
    posted := s.posted ++ [overwrite bytes s.serDate] }

def dispatch (b : RecvBuf) (s : ServerLink) : Option ServerLink :=
  let s :=
    if b.get 0 = 0xF3 ∧ 0 < s.sendRecvCount then { s with sendRecvCount := s.sendRecvCount - 1 }
    else s
  (replyBytes b).map fun bytes => bytes.elim s fun bs => s.post bs

def receive (chain : List (List UInt8)) (s : ServerLink) : Option ServerLink :=
  (recvNetbuf chain).bind fun b => dispatch b s

/-! ### Sending -/

abbrev CardSendBuf := Vector UInt8 33

/-- `tcp_client_cardsendbuf` as it is initialised. -/
def cardSendBuf₀ : CardSendBuf :=
  ⟨#[0xF3, 0x21, 0x11, 0x31, 0x30, 0x30, 0x30, 0x30, 0x30, 0x30, 0x2D, 0x62, 0x37, 0x36, 0x31, 0x63,
    0x32, 0x62, 0x30, 0xD1, 0xD2, 0xD3, 0xD4, 0xC1, 0xC2, 0xC3, 0xC4, 0xD9, 0x4E, 0x20, 0x00, 0x00,
    0x00], rfl⟩

/-- The same once the address of the controller is entered. -/
def cardSendBuf (acuAdd : Vector UInt8 16) : CardSendBuf :=
  Vector.ofFn fun i =>
    if h : 3 ≤ i.val ∧ i.val < 19 then acuAdd[i.val - 3] else cardSendBuf₀.get i

/-- The assignments from a message `p` of `led_task`. -/
def cardWrites (p : Vector UInt8 16) : List (Fin 33 × UInt8) :=
  [(2, p.get 1), (19, p.get 2), (20, p.get 3), (21, p.get 4), (22, p.get 5), (23, p.get 6),
    (24, p.get 7), (25, p.get 8), (26, p.get 9), (27, p.get 13), (28, p.get 10), (29, p.get 11),
    (30, p.get 12), (31, p.get 14), (32, p.get 15)]

def fillCard (p : Vector UInt8 16) (buf : CardSendBuf) : CardSendBuf :=
  applyWrites (cardWrites p) buf

/-- `netconn_write(conn, buf, buf[1])`. -/
def writeCard (buf : CardSendBuf) : List UInt8 := buf.toList.take (buf.get 1).toNat

/-! ### The receive buffer -/

/-- The first bytes of `bs`, filled up with zeros. -/
def received (bs : List UInt8) : RecvBuf := Vector.ofFn fun i => bs[i.val]?.getD 0

@[simp] theorem received_getElem (bs : List UInt8) (i : ℕ) (hi : i < 1024) :
    (received bs)[i] = bs[i]?.getD 0 := by
  simp [received]

@[simp] theorem received_get (bs : List UInt8) (i : Fin 1024) :
    (received bs).get i = bs[i.val]?.getD 0 := Buffers.get_ofFn _ i

theorem received_nil : received [] = Vector.replicate 1024 0 := by
  apply Vector.ext
  intro i hi
  rw [received_getElem, Vector.getElem_replicate, List.getElem?_nil, Option.getD_none]

theorem received_append_of_full {xs : List UInt8} (h : 1024 ≤ xs.length)
    (ys : List UInt8) : received (xs ++ ys) = received xs := by
  ext i hi
  simp [List.getElem?_append_left (lt_of_lt_of_le hi h)]

theorem memcpyRecv_received {xs ys : List UInt8} (h : xs.length ≤ 1024) :
    memcpyRecv xs.length
        (if ys.length > 1024 - xs.length then 1024 - xs.length
          else ys.length) ys (received xs) =
      some (received (xs ++ ys)) := by
  generalize hn : (if ys.length > 1024 - xs.length
    then 1024 - xs.length else ys.length) = n
  have hcopied : n ≤ ys.length ∧ xs.length + n ≤ 1024 ∧
      (n = ys.length ∨ xs.length + n = 1024) := by
    split at hn <;> omega
  obtain ⟨hys, hroom, hall⟩ := hcopied
  rw [memcpyRecv, if_pos ⟨hroom, hys⟩]
  refine congrArg some (Vector.ext fun i hi => ?_)
  simp only [Vector.getElem_ofFn, received_getElem, received_get]
  by_cases hlow : xs.length ≤ i
  · rw [List.getElem?_append_right hlow]
    split_ifs with hin
    · rfl
    · rw [List.getElem?_eq_none hlow, List.getElem?_eq_none (by omega)]
  · rw [if_neg (by omega), List.getElem?_append_left (by omega)]

theorem gather_received {xs : List UInt8} (chain : List (List UInt8))
    (h : xs.length ≤ 1024) :
    gather chain (received xs) xs.length = some (received (xs ++ chain.flatten)) := by
  induction chain generalizing xs with
  | nil => simp [gather]
  | cons payload chain ih =>
      simp only [gather, memcpyRecv_received h, Option.bind_eq_bind, Option.bind_some]
      rw [← List.length_append, List.flatten_cons, ← List.append_assoc]
      split_ifs with hfull
      · have hfull' : 1024 ≤ (xs ++ payload).length := by omega
        rw [received_append_of_full hfull']
      · exact ih (by omega)

/-- The copy stays inside the buffer and does not depend on how the bytes lie in
the chain. -/
theorem recvNetbuf_eq (chain : List (List UInt8)) :
    recvNetbuf chain = some (received chain.flatten) := by
  have h : gather chain (received []) 0 = some (received ([] ++ chain.flatten)) :=
    gather_received chain (Nat.zero_le _)
  rwa [received_nil] at h

theorem receive_eq (chain : List (List UInt8)) (s : ServerLink) :
    receive chain s = dispatch (received chain.flatten) s := by
  rw [receive, recvNetbuf_eq, Option.bind_some]

theorem readRecv_natCast (b : RecvBuf) {i : ℕ} (hi : i < 1024) :
    readRecv b i = some b[i] := by
  simp [readRecv, hi]

theorem readRecv_of_le (b : RecvBuf) (n : UInt8) {k : ℕ} (hk : k ≤ n.toNat) :
    readRecv b (n.toNat - k) = some (b[n.toNat - k]?.getD 0) := by
  have hn := n.toNat_lt
  have hi : n.toNat - k < 1024 := by omega
  rw [← Int.ofNat_sub hk, readRecv_natCast b hi]
  simp [hi]

theorem readRecv_of_lt (b : RecvBuf) (n : UInt8) {k : ℕ} (hk : n.toNat < k) :
    readRecv b (n.toNat - k) = none := by
  rw [readRecv, if_neg (by omega)]

end YckjAcu
