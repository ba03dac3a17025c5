import XeryonShim.Context
import Mathlib.Algebra.BigOperators.Group.List

/-!
# The process-data records and their codec

`soem_write_rxpdo` packs a command record (`DriveRxPDO`) into a slave's output region and
`soem_read_txpdo` unpacks a slave's input region into a status record (`DriveTxPDO`), both
after the same argument and bounds checks.

* `soemWriteRxpdo_ret` and `soemWriteRxpdo_handle` say when the write is accepted and what
  it stores; `unpackRxpdo_packRxpdo` is the round trip through the fixed layout.
* `soemReadTxpdo_ret` says when the read is accepted; `unpackTxpdo_flag` reads every flag
  off the glossary's bit table, and `encodeStatus_unpackTxpdo` re-encodes the record.
-/

namespace XeryonShim

/-- `IO_RX_BYTES`: the size of a slave's output region the command record needs. -/
def ioRxBytes : Int := 20

/-- `IO_TX_BYTES`: the size of a slave's input region the status record needs. -/
def ioTxBytes : Int := 8

/-- `soem_expected_rx_bytes`. -/
def soemExpectedRxBytes : Int := ioRxBytes

/-- `soem_expected_tx_bytes`. -/
def soemExpectedTxBytes : Int := ioTxBytes

/-! ## Little-endian fields -/

theorem leBytes_ofLE (l : List UInt8) : leBytes l.length (ofLE l) = l := by
  induction l with
  | nil => rfl
  | cons b l ih =>
    have hb : b.toNat < 256 := b.toNat_lt_size
    simp only [List.length_cons, leBytes, ofLE]
    congr 1
    · apply UInt8.toNat.inj
      rw [toNat_uint8_ofNat]
      omega
    · rw [show (b.toNat + 256 * ofLE l) / 256 = ofLE l by omega, ih]

/-- A scalar of `w` bytes read back from its little-endian bytes. -/
theorem ofLE_leBytes_of_lt {w n : Nat} (h : n < 256 ^ w) : ofLE (leBytes w n) = n := by
  rw [ofLE_leBytes, Nat.mod_eq_of_lt h]

theorem Bytes.load_store (m : Bytes) (off : Nat) (l : List UInt8) :
    (m.store off l).load off l.length = l := by
  apply List.ext_getElem (by simp)
  intro i h _
  simp only [Bytes.load, List.getElem_map, List.getElem_range, Bytes.store_apply]
  simp only [Bytes.load_length] at h
  rw [if_pos (by omega), Nat.add_sub_cancel_left, List.getD_eq_getElem _ _ h]

theorem Bytes.load_congr {m m' : Bytes} {off n : Nat} (h : m.EqOn m' off (off + n)) :
    m.load off n = m'.load off n := by
  simp only [Bytes.load]
  exact List.map_congr_left fun i hi => h _ (by omega) (by simp at hi; omega)

/-! ## The command record -/

/-- `DriveRxPDO` of `soem_shim.h`; `Parameter` is an `int32_t`. -/
structure DriveRxPDO where
  Command : Fin 32 → UInt8
  Parameter : BitVec 32
  Velocity : UInt32
  Acceleration : UInt16
  Deceleration : UInt16
  Execute : UInt8

/-- The stores of `soem_write_rxpdo` into an output region at `o`, one `memcpy` per field. -/
def packRxpdo (m : Bytes) (o : Nat) (r : DriveRxPDO) : Bytes :=
  let m := m.store o [r.Command 0, r.Command 1, r.Command 2, r.Command 3]
  let m := m.store (o + 4) (leBytes 4 r.Parameter.toNat)
  let m := m.store (o + 8) (leBytes 4 r.Velocity.toNat)
  let m := m.store (o + 12) (leBytes 2 r.Acceleration.toNat)
  let m := m.store (o + 14) (leBytes 2 r.Deceleration.toNat)
  m.store (o + 16) [r.Execute]

/-- The byte ranges those stores write. -/
def rxpdoTouches (o : Nat) : List Event :=
  [.touch .IOmap o 4, .touch .IOmap (o + 4) 4, .touch .IOmap (o + 8) 4,
    .touch .IOmap (o + 12) 2, .touch .IOmap (o + 14) 2, .touch .IOmap (o + 16) 1]

/-- The packing touches only `[o, o + 17)` of the image. -/
theorem rxpdoTouches_within (o : Nat) :
    ∀ e ∈ rxpdoTouches o, ∃ off len, e = .touch .IOmap off len ∧ o ≤ off ∧ off + len ≤ o + 17 := by
  simp only [rxpdoTouches, List.mem_cons, List.mem_singleton, List.not_mem_nil, or_false]
  rintro e (rfl | rfl | rfl | rfl | rfl | rfl) <;> exact ⟨_, _, rfl, by omega, by omega⟩

/-- `soem_write_rxpdo(handle, slave_index, in)`. -/
def soemWriteRxpdo (handle : Option Handle) (slaveIndex : Int) (input : Option DriveRxPDO) :
    Outcome Int :=
  match handle, input with
  | some h, some r =>
    if slaveIndex ≤ 0 ∨ h.context.slavecount < slaveIndex then ⟨0, some h, []⟩
    else
      let slave := h.context.slavelist slaveIndex.toNat
      match slave.outputs with
      | none => ⟨0, some h, [.slave slaveIndex.toNat]⟩
      | some o =>
        if cInt slave.Obytes < ioRxBytes then ⟨0, some h, [.slave slaveIndex.toNat]⟩
        else
          ⟨1, some { h with IOmap := packRxpdo h.IOmap o r },
            .slave slaveIndex.toNat :: rxpdoTouches o⟩
  | _, _ => ⟨0, handle, []⟩

/-- The output region `soem_write_rxpdo` packs into: slave `i`'s, when `i` names a slave whose
output pointer is set and whose `(int)Obytes` is at least `IO_RX_BYTES`. -/
def rxpdoSlot (h : Handle) (i : Int) : Option Nat :=
  if 1 ≤ i ∧ i ≤ h.context.slavecount then
    match (h.context.slavelist i.toNat).outputs with
    | some o => if cInt (h.context.slavelist i.toNat).Obytes < ioRxBytes then none else some o
    | none => none
  else none

/-- **What one write does**: on an accepted slot it packs the record there, otherwise it
changes nothing; the trace names the slave entry whenever the index is in range. -/
theorem soemWriteRxpdo_some (h : Handle) (i : Int) (r : DriveRxPDO) :
    soemWriteRxpdo (some h) i (some r) =
      match rxpdoSlot h i with
      | some o => ⟨1, some { h with IOmap := packRxpdo h.IOmap o r },
          .slave i.toNat :: rxpdoTouches o⟩
      | none => ⟨0, some h, if 1 ≤ i ∧ i ≤ h.context.slavecount then [.slave i.toNat] else []⟩ := by
  by_cases hi : 1 ≤ i ∧ i ≤ h.context.slavecount
  · have hn : ¬(i ≤ 0 ∨ h.context.slavecount < i) := by omega
    cases ho : (h.context.slavelist i.toNat).outputs with
    | none => simp [soemWriteRxpdo, rxpdoSlot, hi, hn, ho]
    | some o =>
      by_cases hb : cInt (h.context.slavelist i.toNat).Obytes < ioRxBytes <;>
        simp [soemWriteRxpdo, rxpdoSlot, hi, hn, ho, hb]
  · have hn : i ≤ 0 ∨ h.context.slavecount < i := by omega
    simp [soemWriteRxpdo, rxpdoSlot, hi, hn]

theorem soemWriteRxpdo_ret (h : Handle) (i : Int) (r : DriveRxPDO) :
    (soemWriteRxpdo (some h) i (some r)).ret = if (rxpdoSlot h i).isSome then 1 else 0 := by
  rw [soemWriteRxpdo_some]
  cases rxpdoSlot h i <;> rfl

theorem soemWriteRxpdo_handle (h : Handle) (i : Int) (r : DriveRxPDO) :
    (soemWriteRxpdo (some h) i (some r)).handle =
      some (match rxpdoSlot h i with
        | some o => { h with IOmap := packRxpdo h.IOmap o r }
        | none => h) := by
  rw [soemWriteRxpdo_some]
  cases rxpdoSlot h i <;> rfl

/-- A NULL handle or record is refused and nothing changes. -/
theorem soemWriteRxpdo_null (handle : Option Handle) (i : Int) (input : Option DriveRxPDO)
    (h : handle = none ∨ input = none) :
    soemWriteRxpdo handle i input = ⟨0, handle, []⟩ := by
  rcases h with rfl | rfl
  · rfl
  · cases handle <;> rfl

/-- A write allocates and releases nothing. -/
theorem soemWriteRxpdo_quiet (handle : Option Handle) (i : Int) (input : Option DriveRxPDO) :
    Quiet (soemWriteRxpdo handle i input).trace := by
  match handle, input with
  | some h, some r =>
    rw [soemWriteRxpdo_some]
    cases rxpdoSlot h i with
    | some o => exact .of_all rfl
    | none => dsimp only; split <;> exact .of_all rfl
  | none, _ | some _, none => exact .of_all rfl

/-! ## Reading a command back -/

/-- The command record read back from an output region at `o` with the same layout; the
command characters past the four on the wire read as zero. -/
def unpackRxpdo (m : Bytes) (o : Nat) : DriveRxPDO where
  Command k := if k.val < 4 then m (o + k.val) else 0
  Parameter := BitVec.ofNat 32 (ofLE (m.load (o + 4) 4))
  Velocity := UInt32.ofNat (ofLE (m.load (o + 8) 4))
  Acceleration := UInt16.ofNat (ofLE (m.load (o + 12) 2))
  Deceleration := UInt16.ofNat (ofLE (m.load (o + 14) 2))
  Execute := m (o + 16)

/-- The command record as the wire carries it: its first four command characters. -/
def DriveRxPDO.onWire (r : DriveRxPDO) : DriveRxPDO :=
  { r with Command := fun k => if k.val < 4 then r.Command k else 0 }

/-- The field at `o + off` of a packed region is the bytes stored there last. -/
theorem packRxpdo_load (m : Bytes) (o : Nat) (r : DriveRxPDO) {off n : Nat}
    (l : List UInt8) (hl : l.length = n)
    (hlast : ∀ k, o + off ≤ k → k < o + off + n → packRxpdo m o r k = l.getD (k - (o + off)) 0) :
    (packRxpdo m o r).load (o + off) n = l := by
  subst hl
  apply List.ext_getElem (by simp)
  intro i h _
  simp only [Bytes.load_length] at h
  simp only [Bytes.load, List.getElem_map, List.getElem_range]
  rw [hlast _ (by omega) (by omega), show o + off + i - (o + off) = i by omega,
    List.getD_eq_getElem _ _ h]

/-- **Pack then unpack is the identity on every field the wire carries.** -/
theorem unpackRxpdo_packRxpdo (m : Bytes) (o : Nat) (r : DriveRxPDO) :
    unpackRxpdo (packRxpdo m o r) o = r.onWire := by
  have hp : (packRxpdo m o r).load (o + 4) 4 = leBytes 4 r.Parameter.toNat :=
    packRxpdo_load m o r _ (length_leBytes 4 _) fun k h₁ h₂ => by
      simp only [packRxpdo, Bytes.store_apply, length_leBytes, List.length_singleton]
      rw [if_neg (by omega), if_neg (by omega), if_neg (by omega), if_neg (by omega),
        if_pos (by omega)]
  have hv : (packRxpdo m o r).load (o + 8) 4 = leBytes 4 r.Velocity.toNat :=
    packRxpdo_load m o r _ (length_leBytes 4 _) fun k h₁ h₂ => by
      simp only [packRxpdo, Bytes.store_apply, length_leBytes, List.length_singleton]
      rw [if_neg (by omega), if_neg (by omega), if_neg (by omega), if_pos (by omega)]
  have ha : (packRxpdo m o r).load (o + 12) 2 = leBytes 2 r.Acceleration.toNat :=
    packRxpdo_load m o r _ (length_leBytes 2 _) fun k h₁ h₂ => by
      simp only [packRxpdo, Bytes.store_apply, length_leBytes, List.length_singleton]
      rw [if_neg (by omega), if_neg (by omega), if_pos (by omega)]
  have hd : (packRxpdo m o r).load (o + 14) 2 = leBytes 2 r.Deceleration.toNat :=
    packRxpdo_load m o r _ (length_leBytes 2 _) fun k h₁ h₂ => by
      simp only [packRxpdo, Bytes.store_apply, length_leBytes, List.length_singleton]
      rw [if_neg (by omega), if_pos (by omega)]
  have hPar := r.Parameter.isLt
  have hVel := r.Velocity.toNat_lt_size
  have hAcc := r.Acceleration.toNat_lt_size
  have hDec := r.Deceleration.toNat_lt_size
  simp only [UInt32.size, UInt16.size] at hVel hAcc hDec
  simp only [unpackRxpdo, DriveRxPDO.onWire, hp, hv, ha, hd, DriveRxPDO.mk.injEq]
  refine ⟨?_, ?_, ?_, ?_, ?_, ?_⟩
  · funext k
    split
    · simp only [packRxpdo, Bytes.store_apply, length_leBytes, List.length_singleton,
        List.length_cons, List.length_nil]
      rw [if_neg (by omega), if_neg (by omega), if_neg (by omega), if_neg (by omega),
        if_neg (by omega), if_pos (by omega), Nat.add_sub_cancel_left]
      match k with
      | ⟨0, _⟩ | ⟨1, _⟩ | ⟨2, _⟩ | ⟨3, _⟩ => rfl
    · rfl
  · rw [ofLE_leBytes_of_lt (by omega), BitVec.ofNat_toNat, BitVec.setWidth_eq]
  · rw [ofLE_leBytes_of_lt (by omega)]
    exact UInt32.toNat.inj (UInt32.toNat_ofNat_of_lt hVel)
  · rw [ofLE_leBytes_of_lt (by omega)]
    exact UInt16.toNat.inj (UInt16.toNat_ofNat_of_lt hAcc)
  · rw [ofLE_leBytes_of_lt (by omega)]
    exact UInt16.toNat.inj (UInt16.toNat_ofNat_of_lt hDec)
  · simp [packRxpdo, Bytes.store_apply]

/-- The unpacking reads only `[o, o + 17)`. -/
theorem unpackRxpdo_congr {m m' : Bytes} {o : Nat} (h : m.EqOn m' o (o + 17)) :
    unpackRxpdo m o = unpackRxpdo m' o := by
  have hl : ∀ off n, off + n ≤ 17 → m.load (o + off) n = m'.load (o + off) n :=
    fun _ _ hn => Bytes.load_congr (h.mono (by omega) (by omega))
  simp only [unpackRxpdo, hl 4 4 (by omega), hl 8 4 (by omega), hl 12 2 (by omega),
    hl 14 2 (by omega), h (o + 16) (by omega) (by omega)]
  congr 1
  funext k
  split
  · exact h _ (by omega) (by omega)
  · rfl

/-- The 17 bytes of a command record on the wire. -/
def rxpdoBytes (r : DriveRxPDO) : List UInt8 :=
  [r.Command 0, r.Command 1, r.Command 2, r.Command 3] ++ leBytes 4 r.Parameter.toNat ++
    leBytes 4 r.Velocity.toNat ++ leBytes 2 r.Acceleration.toNat ++
    leBytes 2 r.Deceleration.toNat ++ [r.Execute]

@[simp] theorem rxpdoBytes_length (r : DriveRxPDO) : (rxpdoBytes r).length = 17 := by
  simp [rxpdoBytes]

/-- The six stores of the packing lay down the record's wire bytes in one piece. -/
theorem packRxpdo_eq_store (m : Bytes) (o : Nat) (r : DriveRxPDO) :
    packRxpdo m o r = m.store o (rxpdoBytes r) := by
  simp only [rxpdoBytes, Bytes.store_append, List.length_append, length_leBytes,
    List.length_cons, List.length_nil, Nat.add_assoc]
  rfl

/-- The packing writes only `[o, o + 17)`. -/
theorem packRxpdo_eqOn (m : Bytes) (o : Nat) (r : DriveRxPDO) {lo hi : Nat}
    (h : hi ≤ o ∨ o + 17 ≤ lo) : (packRxpdo m o r).EqOn m lo hi := by
  intro k hl hh
  simp only [packRxpdo, Bytes.store_apply, length_leBytes, List.length_singleton,
    List.length_cons, List.length_nil]
  rw [if_neg (by omega), if_neg (by omega), if_neg (by omega), if_neg (by omega),
    if_neg (by omega), if_neg (by omega)]

/-! ## Accepted slots -/

/-- The region a record access on slave `i` uses: the one `region` points to, when
`1 ≤ i ≤ slavecount`, the pointer is set and the region's `(int)` length is at least `need`.
`soem_write_rxpdo` and `soem_read_txpdo` make this same check on their own side. -/
def pdoSlot (h : Handle) (i : Int) (region : Slave → Option Nat) (length : Slave → UInt32)
    (need : Int) : Option Nat :=
  if 1 ≤ i ∧ i ≤ h.context.slavecount then
    match region (h.context.slavelist i.toNat) with
    | some o => if cInt (length (h.context.slavelist i.toNat)) < need then none else some o
    | none => none
  else none

theorem pdoSlot_eq_some {h : Handle} {i : Int} {region : Slave → Option Nat}
    {length : Slave → UInt32} {need : Int} {o : Nat} :
    pdoSlot h i region length need = some o ↔
      1 ≤ i ∧ i ≤ h.context.slavecount ∧ region (h.context.slavelist i.toNat) = some o ∧
        need ≤ cInt (length (h.context.slavelist i.toNat)) := by
  unfold pdoSlot
  by_cases hi : 1 ≤ i ∧ i ≤ h.context.slavecount
  · rw [if_pos hi]
    cases region (h.context.slavelist i.toNat) with
    | none => simp
    | some o' =>
      by_cases hb : cInt (length (h.context.slavelist i.toNat)) < need
      · simp [hb, Int.not_le.mpr hb]
      · simp [hb, Int.not_lt.mp hb, hi]
  · rw [if_neg hi]
    simp only [reduceCtorEq, false_iff]
    exact fun h' => hi ⟨h'.1, h'.2.1⟩

theorem rxpdoSlot_eq (h : Handle) (i : Int) :
    rxpdoSlot h i = pdoSlot h i Slave.outputs Slave.Obytes ioRxBytes := rfl

/-! ## The status record -/

/-- `DriveTxPDO` of `soem_shim.h`; `ActualPosition` is an `int32_t`. -/
structure DriveTxPDO where
  ActualPosition : BitVec 32
  AmplifiersEnabled : UInt8
  EndStop : UInt8
  ThermalProtection1 : UInt8
  ThermalProtection2 : UInt8
  ForceZero : UInt8
  MotorOn : UInt8
  ClosedLoop : UInt8
  EncoderIndex : UInt8
  EncoderValid : UInt8
  SearchingIndex : UInt8
  PositionReached : UInt8
  ErrorCompensation : UInt8
  EncoderError : UInt8
  Scanning : UInt8
  LeftEndStop : UInt8
  RightEndStop : UInt8
  ErrorLimit : UInt8
  SearchingOptimalFrequency : UInt8
  SafetyTimeout : UInt8
  ExecuteAck : UInt8
  EmergencyStop : UInt8
  PositionFail : UInt8
  Slot : UInt8
  deriving DecidableEq

/-- `(b >> k) & 0x1` stored in a `uint8_t`: `b` is promoted to `int`, shifted and masked. -/
def bitOf (b : UInt8) (k : Nat) : UInt8 := UInt8.ofNat ((b.toNat >>> k) &&& 1)

/-- The record `soem_read_txpdo` unpacks from an input region at `i`. -/
def unpackTxpdo (m : Bytes) (i : Nat) : DriveTxPDO :=
  let b4 := m (i + 4)
  let b5 := m (i + 5)
  let b6 := m (i + 6)
  { ActualPosition := BitVec.ofNat 32 (ofLE (m.load i 4))
    AmplifiersEnabled := bitOf b4 0
    EndStop := bitOf b4 1
    ThermalProtection1 := bitOf b4 2
    ThermalProtection2 := bitOf b4 3
    ForceZero := bitOf b4 4
    MotorOn := bitOf b4 5
    ClosedLoop := bitOf b4 6
    EncoderIndex := bitOf b4 7
    EncoderValid := bitOf b5 0
    SearchingIndex := bitOf b5 1
    PositionReached := bitOf b5 2
    ErrorCompensation := bitOf b5 3
    EncoderError := bitOf b5 4
    Scanning := bitOf b5 5
    LeftEndStop := bitOf b5 6
    RightEndStop := bitOf b5 7
    ErrorLimit := bitOf b6 0
    SearchingOptimalFrequency := bitOf b6 1
    SafetyTimeout := bitOf b6 2
    ExecuteAck := bitOf b6 3
    EmergencyStop := bitOf b6 4
    PositionFail := bitOf b6 5
    Slot := m (i + 7) }

/-- The byte ranges the unpacking reads. -/
def txpdoTouches (i : Nat) : List Event :=
  [.touch .IOmap i 4, .touch .IOmap (i + 4) 1, .touch .IOmap (i + 5) 1,
    .touch .IOmap (i + 6) 1, .touch .IOmap (i + 7) 1]

/-- The unpacking reads only `[i, i + 8)` of the image. -/
theorem txpdoTouches_within (i : Nat) :
    ∀ e ∈ txpdoTouches i, ∃ off len, e = .touch .IOmap off len ∧ i ≤ off ∧ off + len ≤ i + 8 := by
  simp only [txpdoTouches, List.mem_cons, List.mem_singleton, List.not_mem_nil, or_false]
  rintro e (rfl | rfl | rfl | rfl | rfl) <;> exact ⟨_, _, rfl, by omega, by omega⟩

/-- `soem_read_txpdo(handle, slave_index, out)`; the second component is `*out` afterwards. -/
def soemReadTxpdo (handle : Option Handle) (slaveIndex : Int) (out : Option DriveTxPDO) :
    Outcome (Int × Option DriveTxPDO) :=
  match handle, out with
  | some h, some _ =>
    if slaveIndex ≤ 0 ∨ h.context.slavecount < slaveIndex then ⟨(0, out), some h, []⟩
    else
      let slave := h.context.slavelist slaveIndex.toNat
      match slave.inputs with
      | none => ⟨(0, out), some h, [.slave slaveIndex.toNat]⟩
      | some j =>
        if cInt slave.Ibytes < ioTxBytes then ⟨(0, out), some h, [.slave slaveIndex.toNat]⟩
        else
          ⟨(1, some (unpackTxpdo h.IOmap j)), some h, .slave slaveIndex.toNat :: txpdoTouches j⟩
  | _, _ => ⟨(0, out), handle, []⟩

/-- The input region `soem_read_txpdo` unpacks. -/
def txpdoSlot (h : Handle) (i : Int) : Option Nat := pdoSlot h i Slave.inputs Slave.Ibytes ioTxBytes

/-- **What one read does**: on an accepted slot it unpacks the region into `*out`, otherwise
`*out` keeps its contents; the handle never changes. -/
theorem soemReadTxpdo_some (h : Handle) (i : Int) (x : DriveTxPDO) :
    soemReadTxpdo (some h) i (some x) =
      match txpdoSlot h i with
      | some j => ⟨(1, some (unpackTxpdo h.IOmap j)), some h, .slave i.toNat :: txpdoTouches j⟩
      | none => ⟨(0, some x), some h,
          if 1 ≤ i ∧ i ≤ h.context.slavecount then [.slave i.toNat] else []⟩ := by
  by_cases hi : 1 ≤ i ∧ i ≤ h.context.slavecount
  · have hn : ¬(i ≤ 0 ∨ h.context.slavecount < i) := by omega
    cases ho : (h.context.slavelist i.toNat).inputs with
    | none => simp [soemReadTxpdo, txpdoSlot, pdoSlot, hi, hn, ho]
    | some o =>
      by_cases hb : cInt (h.context.slavelist i.toNat).Ibytes < ioTxBytes <;>
        simp [soemReadTxpdo, txpdoSlot, pdoSlot, hi, hn, ho, hb]
  · have hn : i ≤ 0 ∨ h.context.slavecount < i := by omega
    simp [soemReadTxpdo, txpdoSlot, pdoSlot, hi, hn]

theorem soemReadTxpdo_handle (h : Handle) (i : Int) (x : DriveTxPDO) :
    (soemReadTxpdo (some h) i (some x)).handle = some h := by
  rw [soemReadTxpdo_some]
  cases txpdoSlot h i <;> rfl

/-- A NULL handle or `out` is refused and nothing changes. -/
theorem soemReadTxpdo_null (handle : Option Handle) (i : Int) (out : Option DriveTxPDO)
    (h : handle = none ∨ out = none) :
    soemReadTxpdo handle i out = ⟨(0, out), handle, []⟩ := by
  rcases h with rfl | rfl
  · rfl
  · cases handle <;> rfl

/-- A read allocates and releases nothing. -/
theorem soemReadTxpdo_quiet (handle : Option Handle) (i : Int) (out : Option DriveTxPDO) :
    Quiet (soemReadTxpdo handle i out).trace := by
  match handle, out with
  | some h, some x =>
    rw [soemReadTxpdo_some]
    cases txpdoSlot h i with
    | some j => exact .of_all rfl
    | none => dsimp only; split <;> exact .of_all rfl
  | none, _ | some _, none => exact .of_all rfl

/-! ## The glossary's bit table -/

/-- The 22 status flags of the device status record. -/
inductive Flag where
  | AmplifiersEnabled | EndStop | ThermalProtection1 | ThermalProtection2 | ForceZero
  | MotorOn | ClosedLoop | EncoderIndex | EncoderValid | SearchingIndex | PositionReached
  | ErrorCompensation | EncoderError | Scanning | LeftEndStop | RightEndStop | ErrorLimit
  | SearchingOptimalFrequency | SafetyTimeout | ExecuteAck | EmergencyStop | PositionFail
  deriving DecidableEq, Repr

/-- The glossary's table: the byte of the input region that carries each flag, and its bit. -/
def Flag.place : Flag → Nat × Nat
  | .AmplifiersEnabled => (4, 0)
  | .EndStop => (4, 1)
  | .ThermalProtection1 => (4, 2)
  | .ThermalProtection2 => (4, 3)
  | .ForceZero => (4, 4)
  | .MotorOn => (4, 5)
  | .ClosedLoop => (4, 6)
  | .EncoderIndex => (4, 7)
  | .EncoderValid => (5, 0)
  | .SearchingIndex => (5, 1)
  | .PositionReached => (5, 2)
  | .ErrorCompensation => (5, 3)
  | .EncoderError => (5, 4)
  | .Scanning => (5, 5)
  | .LeftEndStop => (5, 6)
  | .RightEndStop => (5, 7)
  | .ErrorLimit => (6, 0)
  | .SearchingOptimalFrequency => (6, 1)
  | .SafetyTimeout => (6, 2)
  | .ExecuteAck => (6, 3)
  | .EmergencyStop => (6, 4)
  | .PositionFail => (6, 5)

/-- Every flag, in the glossary's order. -/
def Flag.all : List Flag :=
  [.AmplifiersEnabled, .EndStop, .ThermalProtection1, .ThermalProtection2, .ForceZero, .MotorOn,
    .ClosedLoop, .EncoderIndex, .EncoderValid, .SearchingIndex, .PositionReached,
    .ErrorCompensation, .EncoderError, .Scanning, .LeftEndStop, .RightEndStop, .ErrorLimit,
    .SearchingOptimalFrequency, .SafetyTimeout, .ExecuteAck, .EmergencyStop, .PositionFail]

/-- A record's flag field by name. -/
def DriveTxPDO.flag (r : DriveTxPDO) : Flag → UInt8
  | .AmplifiersEnabled => r.AmplifiersEnabled
  | .EndStop => r.EndStop
  | .ThermalProtection1 => r.ThermalProtection1
  | .ThermalProtection2 => r.ThermalProtection2
  | .ForceZero => r.ForceZero
  | .MotorOn => r.MotorOn
  | .ClosedLoop => r.ClosedLoop
  | .EncoderIndex => r.EncoderIndex
  | .EncoderValid => r.EncoderValid
  | .SearchingIndex => r.SearchingIndex
  | .PositionReached => r.PositionReached
  | .ErrorCompensation => r.ErrorCompensation
  | .EncoderError => r.EncoderError
  | .Scanning => r.Scanning
  | .LeftEndStop => r.LeftEndStop
  | .RightEndStop => r.RightEndStop
  | .ErrorLimit => r.ErrorLimit
  | .SearchingOptimalFrequency => r.SearchingOptimalFrequency
  | .SafetyTimeout => r.SafetyTimeout
  | .ExecuteAck => r.ExecuteAck
  | .EmergencyStop => r.EmergencyStop
  | .PositionFail => r.PositionFail

/-- Bit `k` of `b` as a flag value: 1 when set, else 0. -/
def tableBit (b : UInt8) (k : Nat) : UInt8 := if b.toNat.testBit k then 1 else 0

theorem toNat_bitOf (b : UInt8) (k : Nat) : (bitOf b k).toNat = b.toNat / 2 ^ k % 2 := by
  rw [bitOf, toNat_uint8_ofNat, Nat.and_one_is_mod, Nat.shiftRight_eq_div_pow]
  omega

theorem bitOf_eq_tableBit (b : UInt8) (k : Nat) : bitOf b k = tableBit b k := by
  apply UInt8.toNat.inj
  rw [toNat_bitOf, tableBit, Nat.testBit_to_div_mod]
  rcases Nat.mod_two_eq_zero_or_one (b.toNat / 2 ^ k) with h | h <;> simp [h]

/-- **Every flag is its table bit**: the unpacking reads each flag from the byte and bit the
glossary gives it. -/
theorem unpackTxpdo_flag (m : Bytes) (i : Nat) (f : Flag) :
    (unpackTxpdo m i).flag f = tableBit (m (i + f.place.1)) f.place.2 := by
  cases f <;> exact bitOf_eq_tableBit _ _

theorem tableBit_zero_or_one (b : UInt8) (k : Nat) : tableBit b k = 0 ∨ tableBit b k = 1 := by
  unfold tableBit
  split <;> simp

/-- The position is the little-endian two's-complement `int32` of bytes `0..3`. -/
theorem unpackTxpdo_position (m : Bytes) (i : Nat) :
    (unpackTxpdo m i).ActualPosition.toInt = (ofLE (m.load i 4) : Int).bmod (2 ^ 32) := by
  simp [unpackTxpdo, BitVec.toInt_ofNat]

/-- The unpacking reads only `[i, i + 8)`. -/
theorem unpackTxpdo_congr {m m' : Bytes} {i : Nat} (h : m.EqOn m' i (i + 8)) :
    unpackTxpdo m i = unpackTxpdo m' i := by
  have hl : m.load i 4 = m'.load i 4 := Bytes.load_congr (h.mono (Nat.le_refl i) (by omega))
  simp only [unpackTxpdo, hl, h (i + 4) (by omega) (by omega), h (i + 5) (by omega) (by omega),
    h (i + 6) (by omega) (by omega), h (i + 7) (by omega) (by omega)]

/-! ## Re-encoding by the table -/

/-- Byte `n` of the input region as the glossary table lays a record's flags into it. -/
def statusByte (r : DriveTxPDO) (n : Nat) : Nat :=
  ((Flag.all.filter fun f => f.place.1 = n).map fun f => (r.flag f).toNat * 2 ^ f.place.2).sum

/-- The eight bytes of a status record as the glossary lays them out. -/
def encodeStatus (r : DriveTxPDO) : List UInt8 :=
  leBytes 4 r.ActualPosition.toNat ++
    [UInt8.ofNat (statusByte r 4), UInt8.ofNat (statusByte r 5), UInt8.ofNat (statusByte r 6),
      r.Slot]

/-- The low `n` bits of a byte, read one by one, add up to the byte modulo `2 ^ n`. -/
theorem sum_bitOf_range (b : UInt8) (n : Nat) :
    ((List.range n).map fun k => (bitOf b k).toNat * 2 ^ k).sum = b.toNat % 2 ^ n := by
  induction n with
  | zero => simp [Nat.mod_one]
  | succ n ih =>
    rw [List.range_succ, List.map_append, List.sum_append, ih, Nat.mod_pow_succ]
    simp [toNat_bitOf, Nat.mul_comm]

/-- The table lays the unpacked flags back into bytes 4 and 5 whole and into the six low bits
of byte 6. -/
theorem statusByte_unpackTxpdo (m : Bytes) (i : Nat) :
    statusByte (unpackTxpdo m i) 4 = (m (i + 4)).toNat % 2 ^ 8 ∧
      statusByte (unpackTxpdo m i) 5 = (m (i + 5)).toNat % 2 ^ 8 ∧
      statusByte (unpackTxpdo m i) 6 = (m (i + 6)).toNat % 2 ^ 6 := by
  refine ⟨?_, ?_, ?_⟩ <;> rw [← sum_bitOf_range] <;> rfl

/-- **Re-encoding an unpacked record** gives back bytes `0..5` and `7` of the region, and
byte 6 with its two top bits (which carry no flag) cleared. -/
theorem encodeStatus_unpackTxpdo (m : Bytes) (i : Nat) :
    encodeStatus (unpackTxpdo m i) =
      m.load i 4 ++ [m (i + 4), m (i + 5), UInt8.ofNat ((m (i + 6)).toNat % 64), m (i + 7)] := by
  have hpos : leBytes 4 (unpackTxpdo m i).ActualPosition.toNat = m.load i 4 := by
    have := ofLE_lt (m.load i 4)
    simp only [Bytes.load_length] at this
    simp only [unpackTxpdo, BitVec.toNat_ofNat, Nat.mod_eq_of_lt (show _ < 2 ^ 32 from this)]
    simpa using leBytes_ofLE (m.load i 4)
  have hbyte : ∀ b : UInt8, UInt8.ofNat (b.toNat % 2 ^ 8) = b := fun b =>
    UInt8.toNat.inj (by
      rw [toNat_uint8_ofNat, show 2 ^ 8 = 256 from rfl, Nat.mod_mod]
      exact Nat.mod_eq_of_lt b.toNat_lt_size)
  obtain ⟨h4, h5, h6⟩ := statusByte_unpackTxpdo m i
  simp only [encodeStatus, hpos, h4, h5, h6, hbyte]
  rfl

/-! ## The record contracts -/

/-- `DriveRxPDO rx = {0}; memcpy(rx.Command, "NOP", 3);`, the record staged at bring-up. -/
def nopRxpdo : DriveRxPDO where
  Command k := if k.val = 0 then 78 else if k.val = 1 then 79 else if k.val = 2 then 80 else 0
  Parameter := 0
  Velocity := 0
  Acceleration := 0
  Deceleration := 0
  Execute := 0

theorem nopRxpdo_onWire : nopRxpdo.onWire = nopRxpdo := by
  simp only [DriveRxPDO.onWire, nopRxpdo, DriveRxPDO.mk.injEq, and_true]
  funext k
  split_ifs <;> first | rfl | omega

theorem rxpdoBytes_nop : rxpdoBytes nopRxpdo = [78, 79, 80] ++ List.replicate 14 0 := rfl

/-- The write on any handle: it returns 1 exactly when both pointers are set,
`1 ≤ slave_index ≤ slavecount`, the slave's output pointer is set and its `(int)Obytes` is at
least `IO_RX_BYTES`; then the slave's output region, decoded with the fixed layout, gives back
every field of the record the wire carries. -/
theorem soemWriteRxpdo_cInt_contract (handle : Option Handle) (i : Int) (input : Option DriveRxPDO) :
    ((soemWriteRxpdo handle i input).ret = 1 ↔
      ∃ h r o, handle = some h ∧ input = some r ∧ 1 ≤ i ∧ i ≤ h.context.slavecount ∧
        (h.context.slavelist i.toNat).outputs = some o ∧
        ioRxBytes ≤ cInt (h.context.slavelist i.toNat).Obytes) ∧
    (∀ h r, handle = some h → input = some r → (soemWriteRxpdo handle i input).ret = 1 →
      ∃ h' o, (soemWriteRxpdo handle i input).handle = some h' ∧
        (h.context.slavelist i.toNat).outputs = some o ∧ unpackRxpdo h'.IOmap o = r.onWire) := by
  cases handle with
  | none => simp [soemWriteRxpdo_null]
  | some h =>
    cases input with
    | none => simp [soemWriteRxpdo_null]
    | some r =>
      rw [soemWriteRxpdo_some, rxpdoSlot_eq]
      cases hs : pdoSlot h i Slave.outputs Slave.Obytes ioRxBytes with
      | none =>
        refine ⟨⟨fun h0 => by simp at h0, ?_⟩, fun _ _ _ _ h0 => by simp at h0⟩
        rintro ⟨_, _, o, ⟨⟩, ⟨⟩, h₁, h₂, ho, hb⟩
        rw [pdoSlot_eq_some.mpr ⟨h₁, h₂, ho, hb⟩] at hs
        cases hs
      | some o =>
        obtain ⟨h₁, h₂, ho, hb⟩ := pdoSlot_eq_some.mp hs
        refine ⟨iff_of_true rfl ⟨h, r, o, rfl, rfl, h₁, h₂, ho, hb⟩, ?_⟩
        rintro _ _ ⟨⟩ ⟨⟩ -
        exact ⟨_, o, rfl, ho, unpackRxpdo_packRxpdo h.IOmap o r⟩

/-- On a live handle a slave's output region is shorter than `2 ^ 31` bytes, so its
`(int)Obytes` is exact. -/
theorem Live.cInt_slave_Obytes {h : Handle} (hl : Live h) {i o : Nat}
    (ho : (h.context.slavelist i).outputs = some o) :
    cInt (h.context.slavelist i).Obytes = (h.context.slavelist i).Obytes.toNat :=
  cInt_of_lt (by have := hl.mapped.slave_outputs i o ho; have := hl.Obytes_lt; omega)

/-- **The write contract.** On a live handle (or NULL), `soem_write_rxpdo` returns 1 exactly
when both pointers are set, `1 ≤ slave_index ≤ slavecount`, the slave's output pointer is set
and its `Obytes` is at least `IO_RX_BYTES`; then the slave's output region, decoded with the
fixed layout, gives back every field of the record the wire carries. -/
theorem soemWriteRxpdo_contract (handle : Option Handle) (hl : ∀ h, handle = some h → Live h)
    (i : Int) (input : Option DriveRxPDO) :
    ((soemWriteRxpdo handle i input).ret = 1 ↔
      ∃ h r o, handle = some h ∧ input = some r ∧ 1 ≤ i ∧ i ≤ h.context.slavecount ∧
        (h.context.slavelist i.toNat).outputs = some o ∧
        20 ≤ (h.context.slavelist i.toNat).Obytes.toNat) ∧
    (∀ h r, handle = some h → input = some r → (soemWriteRxpdo handle i input).ret = 1 →
      ∃ h' o, (soemWriteRxpdo handle i input).handle = some h' ∧
        (h.context.slavelist i.toNat).outputs = some o ∧ unpackRxpdo h'.IOmap o = r.onWire) := by
  obtain ⟨hiff, hround⟩ := soemWriteRxpdo_cInt_contract handle i input
  -- on a live handle the `(int)` bound is the `uint32` one
  have hbound : ∀ h o, handle = some h → (h.context.slavelist i.toNat).outputs = some o →
      (ioRxBytes ≤ cInt (h.context.slavelist i.toNat).Obytes ↔
        20 ≤ (h.context.slavelist i.toNat).Obytes.toNat) := fun h o hh ho => by
    rw [(hl h hh).cInt_slave_Obytes ho, ioRxBytes]
    omega
  refine ⟨hiff.trans (exists_congr fun h => exists_congr fun _ => exists_congr fun o =>
    and_congr_right fun hh => and_congr_right fun _ => and_congr_right fun _ =>
      and_congr_right fun _ => and_congr_right fun ho => hbound h o hh ho), hround⟩

/-- The write of a NOP record to the one slave of `demoHandle`. -/
theorem soemWriteRxpdo_contract_demo :
    (∀ h, some demoHandle = some h → Live h) ∧
    (((soemWriteRxpdo (some demoHandle) 1 (some nopRxpdo)).ret = 1 ↔
      ∃ h r o, some demoHandle = some h ∧ some nopRxpdo = some r ∧ (1 : Int) ≤ 1 ∧
        (1 : Int) ≤ h.context.slavecount ∧ (h.context.slavelist (1 : Int).toNat).outputs = some o ∧
        20 ≤ (h.context.slavelist (1 : Int).toNat).Obytes.toNat) ∧
    (∀ h r, some demoHandle = some h → some nopRxpdo = some r →
      (soemWriteRxpdo (some demoHandle) 1 (some nopRxpdo)).ret = 1 →
      ∃ h' o, (soemWriteRxpdo (some demoHandle) 1 (some nopRxpdo)).handle = some h' ∧
        (h.context.slavelist (1 : Int).toNat).outputs = some o ∧ unpackRxpdo h'.IOmap o = r.onWire)) :=
  ⟨fun _ hh => Option.some.inj hh ▸ demoHandle_live,
    soemWriteRxpdo_contract (some demoHandle) (fun _ hh => Option.some.inj hh ▸ demoHandle_live) 1 (some nopRxpdo)⟩

/-- The read on any handle: it returns 1 exactly when both pointers are set,
`1 ≤ slave_index ≤ slavecount`, the slave's input pointer is set and its `(int)Ibytes` is at
least `IO_TX_BYTES`; otherwise `*out` is unchanged. On success it reads only bytes `0..7` of
the region, and the record is the glossary's decoding of them: the little-endian `int32`
position, every flag its table bit, the slot byte, so that re-encoding by the table gives
the bytes back with the two unused top bits of byte 6 cleared. -/
theorem soemReadTxpdo_cInt_contract (handle : Option Handle) (i : Int) (out : Option DriveTxPDO) :
    ((soemReadTxpdo handle i out).ret.1 = 1 ↔
      ∃ h x j, handle = some h ∧ out = some x ∧ 1 ≤ i ∧ i ≤ h.context.slavecount ∧
        (h.context.slavelist i.toNat).inputs = some j ∧
        ioTxBytes ≤ cInt (h.context.slavelist i.toNat).Ibytes) ∧
    ((soemReadTxpdo handle i out).ret.1 ≠ 1 → (soemReadTxpdo handle i out).ret.2 = out) ∧
    (∀ h j, handle = some h → (h.context.slavelist i.toNat).inputs = some j →
      (soemReadTxpdo handle i out).ret.1 = 1 →
      (∀ e ∈ (soemReadTxpdo handle i out).trace, ∀ b off len, e = .touch b off len →
        b = .IOmap ∧ j ≤ off ∧ off + len ≤ j + 8) ∧
      ∃ r, (soemReadTxpdo handle i out).ret.2 = some r ∧
        (∀ m : Bytes, h.IOmap.EqOn m j (j + 8) → r = unpackTxpdo m j) ∧
        r.ActualPosition.toInt = (ofLE (h.IOmap.load j 4) : Int).bmod (2 ^ 32) ∧
        (∀ f, r.flag f = tableBit (h.IOmap (j + f.place.1)) f.place.2) ∧
        r.Slot = h.IOmap (j + 7) ∧
        encodeStatus r = h.IOmap.load j 4 ++ [h.IOmap (j + 4), h.IOmap (j + 5),
          UInt8.ofNat ((h.IOmap (j + 6)).toNat % 64), h.IOmap (j + 7)]) := by
  cases handle with
  | none => simp [soemReadTxpdo_null]
  | some h =>
    cases out with
    | none => simp [soemReadTxpdo_null]
    | some x =>
      rw [soemReadTxpdo_some, txpdoSlot]
      cases hs : pdoSlot h i Slave.inputs Slave.Ibytes ioTxBytes with
      | none =>
        refine ⟨⟨fun h0 => by simp at h0, ?_⟩, fun _ => rfl, fun _ _ _ _ h0 => by simp at h0⟩
        rintro ⟨_, _, j, ⟨⟩, ⟨⟩, h₁, h₂, hj, hb⟩
        rw [pdoSlot_eq_some.mpr ⟨h₁, h₂, hj, hb⟩] at hs
        cases hs
      | some j =>
        obtain ⟨h₁, h₂, hj, hb⟩ := pdoSlot_eq_some.mp hs
        refine ⟨iff_of_true rfl ⟨h, x, j, rfl, rfl, h₁, h₂, hj, hb⟩, fun hne => absurd rfl hne, ?_⟩
        rintro _ j' ⟨⟩ hj' -
        rw [hj] at hj'
        cases hj'
        refine ⟨?_, _, rfl, fun m hm => unpackTxpdo_congr hm, unpackTxpdo_position _ _,
          unpackTxpdo_flag _ _, rfl, encodeStatus_unpackTxpdo _ _⟩
        rintro e (_ | ⟨_, he⟩) b off len hbe
        · cases hbe
        · obtain ⟨_, _, rfl, hlo, hhi⟩ := txpdoTouches_within j _ he
          cases hbe
          exact ⟨rfl, hlo, hhi⟩

/-- On a live handle a slave's input region is shorter than `2 ^ 31` bytes, so its
`(int)Ibytes` is exact. -/
theorem Live.cInt_slave_Ibytes {h : Handle} (hl : Live h) {i j : Nat}
    (hj : (h.context.slavelist i).inputs = some j) :
    cInt (h.context.slavelist i).Ibytes = (h.context.slavelist i).Ibytes.toNat :=
  cInt_of_lt (by
    have := (hl.mapped.slave_inputs i j hj).2
    have := hl.mapped.fits
    simp only [iomapSize] at this
    omega)

/-- **The read contract.** On a live handle (or NULL), `soem_read_txpdo` returns 1 exactly
when both pointers are set, `1 ≤ slave_index ≤ slavecount`, the slave's input pointer is set
and its `Ibytes` is at least `IO_TX_BYTES`; otherwise `*out` is unchanged. On success it reads
only bytes `0..7` of the region, and the record is the glossary's decoding of them: the
little-endian `int32` position, every flag its table bit, the slot byte, so that re-encoding
by the table gives the bytes back with the two unused top bits of byte 6 cleared. -/
theorem soemReadTxpdo_contract (handle : Option Handle) (hl : ∀ h, handle = some h → Live h)
    (i : Int) (out : Option DriveTxPDO) :
    ((soemReadTxpdo handle i out).ret.1 = 1 ↔
      ∃ h x j, handle = some h ∧ out = some x ∧ 1 ≤ i ∧ i ≤ h.context.slavecount ∧
        (h.context.slavelist i.toNat).inputs = some j ∧
        8 ≤ (h.context.slavelist i.toNat).Ibytes.toNat) ∧
    ((soemReadTxpdo handle i out).ret.1 ≠ 1 → (soemReadTxpdo handle i out).ret.2 = out) ∧
    (∀ h j, handle = some h → (h.context.slavelist i.toNat).inputs = some j →
      (soemReadTxpdo handle i out).ret.1 = 1 →
      (∀ e ∈ (soemReadTxpdo handle i out).trace, ∀ b off len, e = .touch b off len →
        b = .IOmap ∧ j ≤ off ∧ off + len ≤ j + 8) ∧
      ∃ r, (soemReadTxpdo handle i out).ret.2 = some r ∧
        (∀ m : Bytes, h.IOmap.EqOn m j (j + 8) → r = unpackTxpdo m j) ∧
        r.ActualPosition.toInt = (ofLE (h.IOmap.load j 4) : Int).bmod (2 ^ 32) ∧
        (∀ f, r.flag f = tableBit (h.IOmap (j + f.place.1)) f.place.2) ∧
        r.Slot = h.IOmap (j + 7) ∧
        encodeStatus r = h.IOmap.load j 4 ++ [h.IOmap (j + 4), h.IOmap (j + 5),
          UInt8.ofNat ((h.IOmap (j + 6)).toNat % 64), h.IOmap (j + 7)]) := by
  obtain ⟨hiff, hkeep, hdecode⟩ := soemReadTxpdo_cInt_contract handle i out
  -- on a live handle the `(int)` bound is the `uint32` one
  have hbound : ∀ h j, handle = some h → (h.context.slavelist i.toNat).inputs = some j →
      (ioTxBytes ≤ cInt (h.context.slavelist i.toNat).Ibytes ↔
        8 ≤ (h.context.slavelist i.toNat).Ibytes.toNat) := fun h j hh hj => by
    rw [(hl h hh).cInt_slave_Ibytes hj, ioTxBytes]
    omega
  refine ⟨hiff.trans (exists_congr fun h => exists_congr fun _ => exists_congr fun j =>
    and_congr_right fun hh => and_congr_right fun _ => and_congr_right fun _ =>
      and_congr_right fun _ => and_congr_right fun hj => hbound h j hh hj), hkeep, hdecode⟩

/-- The read of the one slave of `demoHandle`. -/
theorem soemReadTxpdo_contract_demo :
    (∀ h, some demoHandle = some h → Live h) ∧
    (((soemReadTxpdo (some demoHandle) 1 (some (unpackTxpdo (fun _ => 0) 0))).ret.1 = 1 ↔
      ∃ h x j, some demoHandle = some h ∧ some (unpackTxpdo (fun _ => 0) 0) = some x ∧ (1 : Int) ≤ 1 ∧
        (1 : Int) ≤ h.context.slavecount ∧ (h.context.slavelist (1 : Int).toNat).inputs = some j ∧
        8 ≤ (h.context.slavelist (1 : Int).toNat).Ibytes.toNat) ∧
    ((soemReadTxpdo (some demoHandle) 1 (some (unpackTxpdo (fun _ => 0) 0))).ret.1 ≠ 1 →
      (soemReadTxpdo (some demoHandle) 1 (some (unpackTxpdo (fun _ => 0) 0))).ret.2 = some (unpackTxpdo (fun _ => 0) 0)) ∧
    (∀ h j, some demoHandle = some h → (h.context.slavelist (1 : Int).toNat).inputs = some j →
      (soemReadTxpdo (some demoHandle) 1 (some (unpackTxpdo (fun _ => 0) 0))).ret.1 = 1 →
      (∀ e ∈ (soemReadTxpdo (some demoHandle) 1 (some (unpackTxpdo (fun _ => 0) 0))).trace, ∀ b off len,
        e = .touch b off len → b = .IOmap ∧ j ≤ off ∧ off + len ≤ j + 8) ∧
      ∃ r, (soemReadTxpdo (some demoHandle) 1 (some (unpackTxpdo (fun _ => 0) 0))).ret.2 = some r ∧
        (∀ m : Bytes, h.IOmap.EqOn m j (j + 8) → r = unpackTxpdo m j) ∧
        r.ActualPosition.toInt = (ofLE (h.IOmap.load j 4) : Int).bmod (2 ^ 32) ∧
        (∀ f, r.flag f = tableBit (h.IOmap (j + f.place.1)) f.place.2) ∧
        r.Slot = h.IOmap (j + 7) ∧
        encodeStatus r = h.IOmap.load j 4 ++ [h.IOmap (j + 4), h.IOmap (j + 5),
          UInt8.ofNat ((h.IOmap (j + 6)).toNat % 64), h.IOmap (j + 7)])) :=
  ⟨fun _ hh => Option.some.inj hh ▸ demoHandle_live,
    soemReadTxpdo_contract (some demoHandle) (fun _ hh => Option.some.inj hh ▸ demoHandle_live) 1 (some (unpackTxpdo (fun _ => 0) 0))⟩

end XeryonShim
