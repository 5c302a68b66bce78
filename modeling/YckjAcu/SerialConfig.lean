import YckjAcu.Lib.Registers
import YckjAcu.SerialPort

/-!
# The configuration groups set over the serial port

Each group of parameters has a command that sets it and lies in a run of bytes of its
own in the memory; all but the serial number also have a query.
-/

namespace YckjAcu

inductive ConfigGroup
  | server
  | acuAdd
  | acuSN
  | staticIP
  | rfidKey
  deriving DecidableEq

namespace ConfigGroup

def setCode : ConfigGroup → UInt8
  | server => 0x03
  | acuAdd => 0x05
  | acuSN => 0x07
  | staticIP => 0x09
  | rfidKey => 0x10

def queryCode : ConfigGroup → Option UInt8
  | server => some 0xC3
  | acuAdd => some 0xC5
  | acuSN => none
  | staticIP => some 0xC9
  | rfidKey => some 0x12

def frameLength : ConfigGroup → ℕ
  | server => 10
  | acuAdd => 20
  | acuSN => 8
  | staticIP => 17
  | rfidKey => 12

def address : ConfigGroup → ℕ
  | server => 200
  | acuAdd => 210
  | acuSN => 206
  | staticIP => 239
  | rfidKey => 230

def size : ConfigGroup → ℕ
  | server => 6
  | acuAdd => 16
  | acuSN => 4
  | staticIP => 13
  | rfidKey => 7

/-- The value in a frame that sets the group; a key frame has a byte between the key and
the block number that is not part of it. -/
def value (d : Vector UInt8 32) : ConfigGroup → List UInt8
  | server => (dataField d 6).toList
  | acuAdd => (dataField d 16).toList
  | acuSN => (dataField d 4).toList
  | staticIP => (dataField d 13).toList
  | rfidKey => [d.get 3, d.get 4, d.get 5, d.get 6, d.get 7, d.get 8, d.get 10]

/-- The data field that answers a query with the value `v`; for a key it has a byte of
the query in that place. -/
def answer (d : Vector UInt8 32) (v : List UInt8) : ConfigGroup → List UInt8
  | server | acuAdd | acuSN | staticIP => v
  | rfidKey => v.take 6 ++ [d.get 9] ++ v.drop 6

/-- The value in the memory. -/
def stored (e : Eeprom) (g : ConfigGroup) : List UInt8 := (at24cxxRead e g.address g.size).toList

end ConfigGroup

structure SetFrame where
  group : ConfigGroup
  dat : Vector UInt8 32
  code : dat.get 2 = group.setCode
  length : (dat.get 1).toNat = group.frameLength

structure QueryFrame where
  group : ConfigGroup
  dat : Vector UInt8 32
  code : group.queryCode = some (dat.get 2)
  length : (dat.get 1).toNat = group.frameLength

inductive ConfigFrame
  | set (f : SetFrame)
  | query (f : QueryFrame)

namespace ConfigFrame

def dat : ConfigFrame → Vector UInt8 32
  | set f => f.dat
  | query f => f.dat

/-- What a frame sets a group to. -/
def sets : ConfigFrame → ConfigGroup → Option (List UInt8)
  | set f, g => if f.group = g then some (g.value f.dat) else none
  | query _, _ => none

/-- The state after the calls of `SendSerialPort` for the frames. -/
def run (s : SerialState) (fs : List ConfigFrame) : SerialState :=
  fs.foldl (fun s f => (sendSerialPort f.dat s).1) s

/-- The value of the latest frame that sets the group, or the initial one. -/
def latest (s : SerialState) (fs : List ConfigFrame) (g : ConfigGroup) : List UInt8 :=
  Registers.latest sets g fs (g.stored s.eeprom)

end ConfigFrame

/-! ### Writing -/

theorem at24cxxWrite_append (xs ys : List UInt8) (a : ℕ) (e : Eeprom) :
    at24cxxWrite a (xs ++ ys) e = at24cxxWrite (a + xs.length) ys (at24cxxWrite a xs e) := by
  induction xs generalizing a e with
  | nil => rfl
  | cons x xs ih => rw [List.cons_append, at24cxxWrite, at24cxxWrite, ih, List.length_cons,
      Nat.add_right_comm, Nat.add_assoc]

theorem at24cxxRead_append (e : Eeprom) (a n m : ℕ) :
    (at24cxxRead e a (n + m)).toList =
      (at24cxxRead e a n).toList ++ (at24cxxRead e (a + n) m).toList := by
  simp only [at24cxxRead, Vector.toList_ofFn, List.ofFn_add, Nat.add_assoc]
  rfl

theorem split_joinPort (a b : UInt8) :
    ((a.toUInt16 <<< 8 ||| b.toUInt16) / 256).toUInt8 = a ∧
      ((a.toUInt16 <<< 8 ||| b.toUInt16) % 256).toUInt8 = b :=
  joinPort_inj.mp (joinPort_split _)

theorem toList_dataField_six (d : Vector UInt8 32) :
    (dataField d 6).toList = [d.get 3, d.get 4, d.get 5, d.get 6] ++ [d.get 7, d.get 8] := by
  rw [dataField, Vector.toList_ofFn]
  simp [List.ofFn_succ, Vector.get_eq_getElem]

theorem toList_dataField_thirteen (d : Vector UInt8 32) :
    (dataField d 13).toList = [d.get 3, d.get 4, d.get 5, d.get 6, d.get 7] ++
      [d.get 8, d.get 9, d.get 10, d.get 11] ++ [d.get 12, d.get 13, d.get 14, d.get 15] := by
  rw [dataField, Vector.toList_ofFn]
  simp [List.ofFn_succ, Vector.get_eq_getElem]

theorem eeprom_setServer (d : Vector UInt8 32) (s : SerialState) :
    (setServer d s).1.eeprom = at24cxxWrite 200 (dataField d 6).toList s.eeprom := by
  rw [toList_dataField_six, at24cxxWrite_append, setServer, writePortAdd, writeIPAdd, writeBlock,
    writeBlock, (split_joinPort _ _).1, (split_joinPort _ _).2]
  simp

theorem eeprom_setStaticIP (d : Vector UInt8 32) (s : SerialState) :
    (setStaticIP d s).1.eeprom = at24cxxWrite 239 (dataField d 13).toList s.eeprom := by
  rw [toList_dataField_thirteen, at24cxxWrite_append, at24cxxWrite_append, setStaticIP]
  simp [writeLocalIP, writeNetmask, writeGateway, writeBlock]

/-- The case of the `switch` that sets the group. -/
def ConfigGroup.setCase (d : Vector UInt8 32) (s : SerialState) :
    ConfigGroup → SerialState × List UInt8
  | server => setServer d s
  | acuAdd => setACUAdd d s
  | acuSN => setACUSN d s
  | staticIP => setStaticIP d s
  | rfidKey => setRFIDKey d s

theorem serialCommand_set (f : SetFrame) (s : SerialState) :
    serialCommand f.dat s = f.group.setCase f.dat s := by
  obtain ⟨g, d, hcode, -⟩ := f
  cases g <;> (rw [serialCommand, hcode]; rfl)

/-- Every set command writes its value to the place of its group. -/
theorem eeprom_set (f : SetFrame) (s : SerialState) :
    (serialCommand f.dat s).1.eeprom =
      at24cxxWrite f.group.address (f.group.value f.dat) s.eeprom := by
  rw [serialCommand_set]
  cases f.group with
  | server => rw [ConfigGroup.setCase, eeprom_setServer, ConfigGroup.address, ConfigGroup.value]
  | acuAdd =>
      rw [ConfigGroup.setCase, setACUAdd, writeACUAdd, writeBlock, ConfigGroup.address,
        ConfigGroup.value]
  | acuSN =>
      rw [ConfigGroup.setCase, setACUSN, writeACUSN, writeBlock, ConfigGroup.address,
        ConfigGroup.value]
  | staticIP =>
      rw [ConfigGroup.setCase, eeprom_setStaticIP, ConfigGroup.address, ConfigGroup.value]
  | rfidKey =>
      rw [ConfigGroup.setCase, setRFIDKey, queryRFIDKey, writeRFIDKey, writeBlock,
        ConfigGroup.address, ConfigGroup.value]
      simp

namespace ConfigGroup

theorem stored_server (e : Eeprom) :
    server.stored e = (readIPAdd e).toList ++
      [(readPortAdd e / 256).toUInt8, (readPortAdd e % 256).toUInt8] := by
  have hport : (at24cxxRead e 204 2).toList =
      [(at24cxxRead e 204 2).get 0, (at24cxxRead e 204 2).get 1] := by
    rw [at24cxxRead, Vector.toList_ofFn]
    simp [List.ofFn_succ]
  rw [stored, address, size, at24cxxRead_append e 200 4 2, hport, readIPAdd, readPortAdd]
  simp only [(split_joinPort _ _).1, (split_joinPort _ _).2]

theorem stored_staticIP (e : Eeprom) :
    staticIP.stored e =
      (readLocalIP e).toList ++ (readNetmask e).toList ++ (readGateway e).toList := by
  rw [stored, address, size, at24cxxRead_append e 239 9 4, at24cxxRead_append e 239 5 4,
    readLocalIP, readNetmask, readGateway]

theorem drop_stored_staticIP (e : Eeprom) :
    (staticIP.stored e).drop 5 = (readNetmask e).toList ++ (readGateway e).toList := by
  rw [stored_staticIP, List.append_assoc, List.drop_left' (by simp)]

end ConfigGroup

theorem serialCommand_query (f : QueryFrame) (s : SerialState) :
    serialCommand f.dat s =
      (s, f.group.answer f.dat (f.group.stored s.eeprom)) := by
  obtain ⟨g, d, hcode, -⟩ := f
  dsimp only
  cases g with
  | server =>
      have hcmd : d.get 2 = 0xC3 := (Option.some.inj hcode).symm
      have hcase : serialCommand d s = queryServer s := by
        rw [serialCommand, hcmd]
        rfl
      rw [hcase, queryServer, ConfigGroup.answer, ConfigGroup.stored_server]
  | acuAdd =>
      have hcmd : d.get 2 = 0xC5 := (Option.some.inj hcode).symm
      have hcase : serialCommand d s = queryACUAdd s := by
        rw [serialCommand, hcmd]
        rfl
      rw [hcase, queryACUAdd, readACUAdd, ConfigGroup.answer, ConfigGroup.stored,
        ConfigGroup.address, ConfigGroup.size]
  | acuSN => exact absurd hcode (by simp [ConfigGroup.queryCode])
  | staticIP =>
      have hcmd : d.get 2 = 0xC9 := (Option.some.inj hcode).symm
      have hcase : serialCommand d s = queryStaticIP s := by
        rw [serialCommand, hcmd]
        rfl
      rw [hcase, queryStaticIP, ConfigGroup.answer, ConfigGroup.stored_staticIP]
  | rfidKey =>
      have hcmd : d.get 2 = 0x12 := (Option.some.inj hcode).symm
      have hcase : serialCommand d s = queryRFIDKey d s := by
        rw [serialCommand, hcmd]
        rfl
      rw [hcase, queryRFIDKey, readRFIDKey, ConfigGroup.answer, ConfigGroup.stored,
        ConfigGroup.address, ConfigGroup.size, at24cxxRead, Vector.toList_ofFn]
      simp [List.ofFn_succ]

/-! ### Reading back -/

namespace ConfigGroup

theorem length_value (d : Vector UInt8 32) (g : ConfigGroup) : (g.value d).length = g.size := by
  cases g <;> simp [value, size]

theorem length_answer (d : Vector UInt8 32) (e : Eeprom) (g : ConfigGroup) (hg : g ≠ acuSN) :
    (g.answer d (g.stored e)).length + 4 = g.frameLength := by
  cases g <;> simp_all [answer, stored, size, frameLength]

theorem address_size_le (g : ConfigGroup) : g.address + g.size ≤ 252 := by
  cases g <;> decide

theorem apart {g k : ConfigGroup} (h : g ≠ k) :
    k.address + k.size ≤ g.address ∨ g.address + g.size ≤ k.address := by
  revert h
  cases g <;> cases k <;> decide

section Write

variable {g k : ConfigGroup} {bs : List UInt8} (hlen : bs.length = g.size) (e : Eeprom)
include hlen

theorem stored_write_self : g.stored (at24cxxWrite g.address bs e) = bs := by
  have htop := g.address_size_le
  refine List.ext_getElem ?_ fun i _ hi => ?_
  · rw [stored, Vector.length_toList, hlen]
  · simp only [stored, Vector.getElem_toList, at24cxxRead_getElem]
    exact read_write_of_mem bs e (by omega) hi

theorem stored_write_of_ne (h : g ≠ k) :
    k.stored (at24cxxWrite g.address bs e) = k.stored e := by
  have htop := g.address_size_le
  have htop' := k.address_size_le
  have hapart := apart h
  refine congrArg Vector.toList ((at24cxxRead_eq_iff _ _ _ _).mpr fun i hi => ?_)
  exact read_write_of_not_mem bs e (by omega) (by omega) (by omega)

theorem readMarker_write : readMarker (at24cxxWrite g.address bs e) = readMarker e := by
  have htop := g.address_size_le
  exact read_write_of_not_mem bs e (by omega) (by omega) (by omega)

end Write

end ConfigGroup

namespace ConfigFrame

/-- A command sets its own group and leaves the others. -/
theorem stored_sendSerialPort (f : ConfigFrame) (g : ConfigGroup) (s : SerialState) :
    g.stored (sendSerialPort f.dat s).1.eeprom = (f.sets g).getD (g.stored s.eeprom) := by
  cases f with
  | query f => rw [sendSerialPort_fst, dat, serialCommand_query, sets, Option.getD_none]
  | set f =>
      have hlen := ConfigGroup.length_value f.dat f.group
      rw [sendSerialPort_fst, dat, eeprom_set, sets]
      split_ifs with hg
      · subst hg
        exact ConfigGroup.stored_write_self hlen s.eeprom
      · exact ConfigGroup.stored_write_of_ne hlen s.eeprom hg

theorem readMarker_sendSerialPort (f : ConfigFrame) (s : SerialState) :
    readMarker (sendSerialPort f.dat s).1.eeprom = readMarker s.eeprom := by
  cases f with
  | query f => rw [sendSerialPort_fst, dat, serialCommand_query]
  | set f =>
      rw [sendSerialPort_fst, dat, eeprom_set]
      exact ConfigGroup.readMarker_write (ConfigGroup.length_value f.dat f.group) s.eeprom

theorem stored_run (s : SerialState) (fs : List ConfigFrame) (g : ConfigGroup) :
    g.stored (run s fs).eeprom = latest s fs g :=
  Registers.read_foldl (fun g s => ConfigGroup.stored s.eeprom g)
    (fun s f => stored_sendSerialPort f g s) s fs

theorem readMarker_run (s : SerialState) (fs : List ConfigFrame) :
    readMarker (run s fs).eeprom = readMarker s.eeprom := by
  induction fs using List.reverseRecOn with
  | nil => rfl
  | append_singleton fs f ih =>
      rw [run, List.foldl_append, List.foldl_cons, List.foldl_nil, readMarker_sendSerialPort]
      exact ih

end ConfigFrame

/-! ### The globals -/

namespace ConfigGlobals

def maskAndGateway (g : ConfigGlobals) : List UInt8 :=
  g.g_Setnetmask.toList ++ g.g_Setgateway.toList

/-- The other globals have the values of their groups. -/
structure Holds (g : ConfigGlobals) (v : ConfigGroup → List UInt8) : Prop where
  server : g.g_lwipADD.toList ++ [(g.g_lwipPort / 256).toUInt8, (g.g_lwipPort % 256).toUInt8] =
    v .server
  acuAdd : g.g_ACUAdd.toList = v .acuAdd
  acuSN : g.g_ACUSN.toList = v .acuSN
  setip : g.g_Setip.toList = (v .staticIP).take 5
  key : g.fm1702Key.toList = v .rfidKey

theorem Agrees.holds {g : ConfigGlobals} {e : Eeprom} (h : g.Agrees e) :
    g.Holds fun k => k.stored e where
  server := by rw [h.ip, h.port, ConfigGroup.stored_server]
  acuAdd := congrArg Vector.toList h.acuAdd
  acuSN := congrArg Vector.toList h.sn
  setip := by
    rw [h.localIP, ConfigGroup.stored_staticIP, List.append_assoc, List.take_left' (by simp)]
  key := congrArg Vector.toList h.key

/-- `AT24CXX_Check` leaves the mask and the gateway alone unless the flag is set. -/
theorem maskAndGateway_loadConfig (g : ConfigGlobals) (e : Eeprom) :
    (loadConfig g e).maskAndGateway =
      if (loadConfig g e).g_Setip.get 0 = 0xAA then (ConfigGroup.staticIP.stored e).drop 5
      else g.maskAndGateway := by
  rw [ConfigGroup.drop_stored_staticIP]
  by_cases h : (readLocalIP e).get 0 = 0xAA
  · simp [loadConfig, h, maskAndGateway]
  · simp [loadConfig, h, maskAndGateway]

end ConfigGlobals

/-- What a frame sets the mask and the gateway to. -/
def setsMask (f : ConfigFrame) (g : ConfigGroup) : Option (List UInt8) :=
  (f.sets g).map (List.drop 5)

namespace ConfigFrame

theorem maskAndGateway_setStaticIP (d : Vector UInt8 32) (s : SerialState) :
    (setStaticIP d s).1.globals.maskAndGateway =
      (ConfigGroup.staticIP.stored (setStaticIP d s).1.eeprom).drop 5 := by
  rw [ConfigGroup.drop_stored_staticIP]
  rfl

theorem maskAndGateway_sendSerialPort (f : ConfigFrame) (s : SerialState) :
    (sendSerialPort f.dat s).1.globals.maskAndGateway =
      (setsMask f .staticIP).getD s.globals.maskAndGateway := by
  cases f with
  | query f =>
      rw [sendSerialPort_fst, dat, serialCommand_query, setsMask, sets, Option.map_none,
        Option.getD_none]
  | set f =>
      have hstored := stored_sendSerialPort (set f) .staticIP s
      rw [sendSerialPort_fst, dat, serialCommand_set] at hstored ⊢
      rw [setsMask, sets] at *
      cases hg : f.group with
      | staticIP =>
          rw [hg, ConfigGroup.setCase] at hstored
          rw [ConfigGroup.setCase, maskAndGateway_setStaticIP, hstored]
          rfl
      | server => rfl
      | acuAdd => rfl
      | acuSN => rfl
      | rfidKey => rfl

theorem maskAndGateway_run (s : SerialState) (fs : List ConfigFrame) :
    (run s fs).globals.maskAndGateway =
      Registers.latest setsMask .staticIP fs s.globals.maskAndGateway :=
  Registers.read_foldl (fun _ s => s.globals.maskAndGateway)
    (fun s f => maskAndGateway_sendSerialPort f s) s fs

/-- The frame that answers a query whose group has the value `v`. -/
def answerFrame (q : QueryFrame) (v : List UInt8) : List UInt8 :=
  let front := [0xF4, q.dat.get 1, q.dat.get 2 + 1] ++ q.group.answer q.dat v
  front ++ [crc8Table front]

theorem sendSerialPort_query (q : QueryFrame) (s : SerialState) :
    (sendSerialPort q.dat s).2 = answerFrame q (q.group.stored s.eeprom) := by
  have hdata : (serialCommand q.dat s).2 = q.group.answer q.dat (q.group.stored s.eeprom) :=
    congrArg Prod.snd (serialCommand_query q s)
  have hgroup : q.group ≠ .acuSN := fun h => absurd q.code (by simp [h, ConfigGroup.queryCode])
  have hlen := ConfigGroup.length_answer q.dat s.eeprom q.group hgroup
  rw [sendSerialPort_answer (by rw [hdata, hlen, q.length]), hdata]
  rfl

/-- The store keeps what was written last: in the answers to queries, in the other groups
under a command, and in the globals after `AT24CXX_Check`, which loads the mask and the
gateway only if the flag of the static address is set; the commands themselves keep
both up to date in any case. -/
theorem config_lastWriterWins (s : SerialState) (fs : List ConfigFrame) :
    (∀ q : QueryFrame,
      (sendSerialPort q.dat (run s fs)).2 = answerFrame q (latest s fs q.group)) ∧
    (∀ (f : ConfigFrame) (g : ConfigGroup), f.sets g = none →
      g.stored (sendSerialPort f.dat (run s fs)).1.eeprom = g.stored (run s fs).eeprom) ∧
    (readMarker s.eeprom = 0x55 → ∀ g : ConfigGlobals,
      let check := at24cxxCheck g (run s fs).eeprom
      check.1 = 0 ∧ check.2.2 = (run s fs).eeprom ∧ check.2.1.Holds (latest s fs) ∧
        check.2.1.maskAndGateway =
          if check.2.1.g_Setip.get 0 = 0xAA then (latest s fs .staticIP).drop 5
          else g.maskAndGateway) ∧
    (run s fs).globals.maskAndGateway =
      Registers.latest setsMask .staticIP fs s.globals.maskAndGateway := by
  have hstored : (fun k => k.stored (run s fs).eeprom) = latest s fs :=
    funext fun k => stored_run s fs k
  refine ⟨fun q => ?_, fun f g hf => ?_, fun hmarker g => ?_, maskAndGateway_run s fs⟩
  · rw [sendSerialPort_query, stored_run]
  · rw [stored_sendSerialPort, hf, Option.getD_none]
  · rw [at24cxxCheck_eq, readMarker_run, if_pos hmarker]
    have hholds := (loadConfig_agrees g (run s fs).eeprom).holds
    have hmask := ConfigGlobals.maskAndGateway_loadConfig g (run s fs).eeprom
    rw [hstored] at hholds
    rw [stored_run] at hmask
    exact ⟨rfl, rfl, hholds, hmask⟩

/-- A mask set with the flag off. -/
def maskFrame : SetFrame where
  group := .staticIP
  dat := Vector.ofFn fun i =>
    [0xF3, 17, 0x09, 0x00, 192, 168, 1, 9, 255, 255, 255, 0, 192, 168, 1, 1, 0xFD].getD i 0
  code := by decide
  length := by decide

/-- It is not loaded after a restart. -/
theorem disabled_mask_not_loaded : ¬ ∀ (s : SerialState) (fs : List ConfigFrame)
    (g : ConfigGlobals), readMarker s.eeprom = 0x55 →
      (at24cxxCheck g (run s fs).eeprom).2.1.maskAndGateway =
        (latest s fs .staticIP).drop 5 := by
  intro h
  have hmask := h { blankState with eeprom := fun a => if a = 255 then 0x55 else 0 }
    [.set maskFrame] blankState.globals (by decide)
  revert hmask
  decide +kernel

end ConfigFrame

end YckjAcu
