import XeryonShim.Run

/-!
# What the record calls see of each other

`soem_write_rxpdo` packs 17 bytes at the start of one slave's output region, and the stack
maps every output region before every input region. So a write never changes what a status
read reports, and when the slaves' output regions are disjoint it never changes the record
another slave is sent either. A status read, in turn, sees exactly what the last exchange's
receive delivered for the slave.

* `rxpdoSlot_end_le`, `txpdoSlot_start_ge`: an accepted record slot ends inside the group's
  output region, an accepted status slot starts after it;
* `soemWriteRxpdo_footprint`: a write changes only the 17 bytes of its own slot;
* `soemWriteRxpdo_isolated`: so it changes no read's result and, on disjoint output regions,
  no other slave's record;
* `soemReadTxpdo_after_exchange`: after an exchange a read reports what the stack delivered
  for the slave in that round;
* `soemReadTxpdo_after_run`: over a whole run, reads change only at the calls that receive a
  frame, so a read reports what it reported right after the run's last such call.
-/

namespace XeryonShim

/-- An accepted record slot is the start of the slave's output region, which holds at least
the 17 packed bytes and ends inside the group's output region. -/
theorem rxpdoSlot_end_le {h : Handle} {size : Int}
    (hm : Mapped h.context.group h.context.slavelist size) (hsize : size < 2 ^ 31) {i : Int}
    {o : Nat} (hs : rxpdoSlot h i = some o) :
    (h.context.slavelist i.toNat).outputs = some o ∧
      17 ≤ (h.context.slavelist i.toNat).Obytes.toNat ∧
      o + (h.context.slavelist i.toNat).Obytes.toNat ≤ h.context.group.Obytes.toNat := by
  rw [rxpdoSlot_eq, pdoSlot_eq_some] at hs
  obtain ⟨-, -, ho, hb⟩ := hs
  have hend := hm.slave_outputs _ _ ho
  have hfit := hm.fits
  rw [cInt_of_lt (by omega)] at hb
  simp only [ioRxBytes] at hb
  exact ⟨ho, by omega, hend⟩

/-- An accepted status slot starts after the group's output region. -/
theorem txpdoSlot_start_ge {h : Handle} {size : Int}
    (hm : Mapped h.context.group h.context.slavelist size) {i : Int} {j : Nat}
    (hs : txpdoSlot h i = some j) : h.context.group.Obytes.toNat ≤ j := by
  rw [txpdoSlot, pdoSlot_eq_some] at hs
  exact (hm.slave_inputs _ _ hs.2.2.1).1

/-- An accepted status slot's eight bytes lie inside the group's input region. -/
theorem txpdoSlot_end_le {h : Handle} {size : Int}
    (hm : Mapped h.context.group h.context.slavelist size) (hsize : size < 2 ^ 31) {i : Int}
    {j : Nat} (hs : txpdoSlot h i = some j) :
    j + 8 ≤ h.context.group.Obytes.toNat + h.context.group.Ibytes.toNat := by
  rw [txpdoSlot, pdoSlot_eq_some] at hs
  obtain ⟨-, -, hj, hb⟩ := hs
  have hend := (hm.slave_inputs _ _ hj).2
  have hfit := hm.fits
  rw [cInt_of_lt (by omega)] at hb
  simp only [ioTxBytes] at hb
  omega

/-- A read depends only on the slave table's layout and on the image past the output
region. -/
theorem soemReadTxpdo_congr {h h' : Handle} {size : Int}
    (hm : Mapped h.context.group h.context.slavelist size) (hk : h.context.SameLayout h'.context)
    (he : ∀ k, h.context.group.Obytes.toNat ≤ k → h'.IOmap k = h.IOmap k) (i : Int)
    (out : Option DriveTxPDO) :
    (soemReadTxpdo (some h') i out).ret = (soemReadTxpdo (some h) i out).ret := by
  cases out with
  | none => simp only [soemReadTxpdo_null _ _ _ (.inr rfl)]
  | some x =>
    have hslot : txpdoSlot h' i = txpdoSlot h i := by
      simp only [txpdoSlot, pdoSlot, hk.slavecount, (hk.slave i.toNat).inputs,
        (hk.slave i.toNat).Ibytes]
    rw [soemReadTxpdo_some, soemReadTxpdo_some, hslot]
    cases hj : txpdoSlot h i with
    | none => rfl
    | some q =>
      have hq := txpdoSlot_start_ge hm hj
      dsimp only
      rw [unpackTxpdo_congr fun k hk _ => he k (by omega)]

/-- A write changes no slave entry and no image byte outside the 17 bytes of its slot. -/
theorem soemWriteRxpdo_footprint (h : Handle) (i : Int) (input : Option DriveRxPDO) :
    ∃ h', (soemWriteRxpdo (some h) i input).handle = some h' ∧ h'.context = h.context ∧
      ∀ k, h'.IOmap k ≠ h.IOmap k → ∃ o, rxpdoSlot h i = some o ∧ o ≤ k ∧ k < o + 17 := by
  cases input with
  | none => exact ⟨h, by rw [soemWriteRxpdo_null _ _ _ (.inr rfl)], rfl, fun k hk => absurd rfl hk⟩
  | some r =>
    refine ⟨_, soemWriteRxpdo_handle h i r, ?_⟩
    cases hs : rxpdoSlot h i with
    | none => exact ⟨rfl, fun k hk => absurd rfl hk⟩
    | some o =>
      refine ⟨rfl, fun k hk => ⟨o, rfl, ?_⟩⟩
      by_contra hout
      exact hk (packRxpdo_eqOn h.IOmap o r (show k + 1 ≤ o ∨ o + 17 ≤ k by omega) k le_rfl
        (Nat.lt_succ_self k))

/-- **A record write is isolated.** On a mapping within `2 ^ 31` bytes, whatever slave index
and record `soem_write_rxpdo` is given, every `soem_read_txpdo` afterwards returns what it
returned before, and when the slaves' output regions are pairwise disjoint the record every
other slave is sent is unchanged. -/
theorem soemWriteRxpdo_isolated (h : Handle) {size : Int}
    (hm : Mapped h.context.group h.context.slavelist size) (hsize : size < 2 ^ 31) (i : Int)
    (input : Option DriveRxPDO) :
    ∃ h', (soemWriteRxpdo (some h) i input).handle = some h' ∧
      (∀ j out, (soemReadTxpdo (some h') j out).ret = (soemReadTxpdo (some h) j out).ret) ∧
      (OutputsDisjoint h.context.slavelist h.context.slavecount →
        ∀ j p, j ≠ i → rxpdoSlot h j = some p → unpackRxpdo h'.IOmap p = unpackRxpdo h.IOmap p) := by
  obtain ⟨h', hw, hc, hk⟩ := soemWriteRxpdo_footprint h i input
  -- a changed byte lies in the written slot, inside the output region of slave `i`
  have hchanged : ∀ k, h'.IOmap k ≠ h.IOmap k → ∃ o, rxpdoSlot h i = some o ∧ o ≤ k ∧
      k < o + 17 ∧ k < h.context.group.Obytes.toNat := fun k hne => by
    obtain ⟨o, hs, hlo, hhi⟩ := hk k hne
    have := rxpdoSlot_end_le hm hsize hs
    exact ⟨o, hs, hlo, hhi, by omega⟩
  refine ⟨h', hw, soemReadTxpdo_congr hm (hc ▸ .refl _) fun k hk => by_contra fun hne => ?_,
    fun hd j p hji hp => ?_⟩
  · obtain ⟨o, -, -, -, hk'⟩ := hchanged k hne
    omega
  · apply unpackRxpdo_congr
    intro k hlo hhi
    by_contra hne
    obtain ⟨o, hs, hok, hko, -⟩ := hchanged k hne
    obtain ⟨hoi, hOi, -⟩ := rxpdoSlot_end_le hm hsize hs
    obtain ⟨hpj, hOj, -⟩ := rxpdoSlot_end_le hm hsize hp
    obtain ⟨hi₁, hi₂, -⟩ := pdoSlot_eq_some.mp ((rxpdoSlot_eq h i).symm.trans hs)
    obtain ⟨hj₁, hj₂, -⟩ := pdoSlot_eq_some.mp ((rxpdoSlot_eq h j).symm.trans hp)
    have hne' : j.toNat ≠ i.toNat := fun he => hji (by omega)
    have := hd j.toNat (mem_slaveRange.mpr ⟨by omega, by omega⟩) i.toNat
      (mem_slaveRange.mpr ⟨by omega, by omega⟩) hne' p o hpj hoi
    omega

/-- **A status read reports the last round.** On a mapping within `2 ^ 31` bytes, after an
exchange with any arguments, `soem_read_txpdo` for any slave index and `out` reports the
decoding of the eight bytes the stack delivered into that slave's input region in the
round, or, when the send failed, what it reported before the exchange. -/
theorem soemReadTxpdo_after_exchange (h : Handle) {size : Int}
    (hm : Mapped h.context.group h.context.slavelist size) (hsize : size < 2 ^ 31)
    (outputs : Option Bytes) (outputsLen : Int) (inputs : Option Bytes) (inputsLen timeoutUs : Int)
    (bus : Cycle) (i : Int) (out : Option DriveTxPDO) :
    (soemReadTxpdo (soemExchangeProcessData (some h) outputs outputsLen inputs inputsLen timeoutUs
        bus).handle i out).ret =
      match out, txpdoSlot h i with
      | some _, some j => (1, some (unpackTxpdo
          (if bus.sent < 0 then h.IOmap else bus.deliver (sentImage h outputs outputsLen)) j))
      | _, _ => (0, out) := by
  rw [soemExchangeProcessData_handle]
  cases out with
  | none => rfl
  | some x =>
    have hslot : txpdoSlot (exchangeNext h outputs outputsLen bus) i = txpdoSlot h i := by
      simp only [txpdoSlot, pdoSlot, exchangeNext_context]
    rw [soemReadTxpdo_some, hslot]
    cases hj : txpdoSlot h i with
    | none => rfl
    | some j =>
      have hlo := txpdoSlot_start_ge hm hj
      have hhi := txpdoSlot_end_le hm hsize hj
      have hout := hm.outputs_at
      have hin := hm.inputs_at
      -- the status bytes lie in the input region, which staging leaves alone and the
      -- receive copies over from the delivered frame
      have heq : (exchangeNext h outputs outputsLen bus).IOmap.EqOn
          (if bus.sent < 0 then h.IOmap else bus.deliver (sentImage h outputs outputsLen))
          j (j + 8) := fun k hk₁ hk₂ => by
        unfold exchangeNext
        split
        · exact stageOutputs_fst_of_ge _ _ _ _ (by omega)
        · simp only [receiveImage, Bytes.copy_apply]
          rw [if_pos (by omega), Nat.add_sub_cancel' (by omega)]
      dsimp only
      rw [unpackTxpdo_congr heq]

/-- A read of slave 1 of `demoHandle` after a round without caller buffers. -/
theorem soemReadTxpdo_after_exchange_demo :
    Mapped demoHandle.context.group demoHandle.context.slavelist iomapSize ∧
      (iomapSize : Int) < 2 ^ 31 ∧
      (soemReadTxpdo (soemExchangeProcessData (some demoHandle) none 0 none 0 1000
          ⟨1, 3, id⟩).handle 1 (some (unpackTxpdo demoHandle.IOmap 20))).ret =
        match some (unpackTxpdo demoHandle.IOmap 20), txpdoSlot demoHandle 1 with
        | some _, some j => (1, some (unpackTxpdo
            (if (1 : Int) < 0 then demoHandle.IOmap else id (sentImage demoHandle none 0)) j))
        | _, _ => (0, some (unpackTxpdo demoHandle.IOmap 20)) :=
  ⟨demoHandle_live.mapped, by decide,
    soemReadTxpdo_after_exchange demoHandle demoHandle_live.mapped (by decide) none 0 none 0 1000
      ⟨1, 3, id⟩ 1 (some (unpackTxpdo demoHandle.IOmap 20))⟩

/-- The write of a NOP record to the one slave of `demoHandle`. -/
theorem soemWriteRxpdo_isolated_demo :
    Mapped demoHandle.context.group demoHandle.context.slavelist iomapSize ∧
      (iomapSize : Int) < 2 ^ 31 ∧
      ∃ h', (soemWriteRxpdo (some demoHandle) 1 (some nopRxpdo)).handle = some h' ∧
        (∀ j out, (soemReadTxpdo (some h') j out).ret = (soemReadTxpdo (some demoHandle) j out).ret) ∧
        (OutputsDisjoint demoHandle.context.slavelist demoHandle.context.slavecount →
          ∀ j p, j ≠ 1 → rxpdoSlot demoHandle j = some p →
            unpackRxpdo h'.IOmap p = unpackRxpdo demoHandle.IOmap p) :=
  ⟨demoHandle_live.mapped, by decide,
    soemWriteRxpdo_isolated demoHandle demoHandle_live.mapped (by decide) 1 (some nopRxpdo)⟩

/-! ## Reads over a run -/

/-- The calls that receive a frame into the image: an exchange that gets past its send, and a
recovery, whose settle rounds receive. -/
def Op.receives : Op → Bool
  | .exchange _ _ _ _ _ bus => decide (0 ≤ bus.sent)
  | .tryRecover _ _ => true
  | _ => false

/-- A run up to and including its last call that receives a frame; empty when none does. -/
def untilLastReceive : List Op → List Op
  | [] => []
  | op :: rest =>
    let p := untilLastReceive rest
    if !op.receives && p.isEmpty then [] else op :: p

/-- A call that receives no frame changes no byte past the output region: a failed send
stages only the outputs, a record write packs inside the output region, and the other calls
leave the image. -/
theorem Op.next_eq_of_receives_false (ec : EcConst) {h : Handle} (hl : Live h) {op : Op}
    (hr : op.receives = false) :
    ∀ k, h.context.group.Obytes.toNat ≤ k → (op.next ec h).IOmap k = h.IOmap k := by
  intro k hk
  cases op with
  | exchange outputs outputsLen inputs inputsLen timeoutUs bus =>
    have hs : bus.sent < 0 := by simpa [Op.receives] using hr
    simp only [Op.next, exchangeNext, if_pos hs]
    exact stageOutputs_fst_of_ge _ _ _ _ (by rw [hl.mapped.outputs_at]; omega)
  | writeRxpdo i input =>
    obtain ⟨h', hw, -, hch⟩ := soemWriteRxpdo_footprint h i input
    cases (Op.call_fst ec h (.writeRxpdo i input)).symm.trans hw
    by_contra hne
    obtain ⟨o, hs, -, hko⟩ := hch k hne
    have := rxpdoSlot_end_le hl.mapped (by decide) hs
    omega
  | readTxpdo => rfl
  | tryRecover => cases hr
  | getHealth out r => cases out <;> rfl

/-- **Reads change only at receives.** On a live handle, after any run of calls, every
`soem_read_txpdo`, for any slave index and `out`, returns what it returns right after the
run's last call that receives a frame, or before the run when no call does: record writes,
reads, health queries and exchanges whose send fails change no read. -/
theorem soemReadTxpdo_after_run (ec : EcConst) {h : Handle} (hl : Live h) (ops : List Op)
    (i : Int) (out : Option DriveTxPDO) :
    (soemReadTxpdo (run ec (some h) ops).1 i out).ret =
      (soemReadTxpdo (run ec (some h) (untilLastReceive ops)).1 i out).ret := by
  rw [run_fst, run_fst]
  induction ops generalizing h with
  | nil => rfl
  | cons op rest ih =>
    have hl' := hl.of_keeps (op.next_keeps ec h)
    simp only [runNext, untilLastReceive]
    split
    · case isTrue hq =>
      obtain ⟨hr, hp⟩ : op.receives = false ∧ (untilLastReceive rest).isEmpty = true := by
        simpa using hq
      rw [ih hl', List.isEmpty_iff.mp hp, runNext, runNext]
      exact soemReadTxpdo_congr hl.mapped (op.next_keeps ec h).layout
        (Op.next_eq_of_receives_false ec hl hr) i out
    · exact ih hl'

/-- A record write and a read between two exchanges on `demoHandle`: the reads afterwards
are those after the second exchange. -/
theorem soemReadTxpdo_after_run_demo :
    Live demoHandle ∧
      (soemReadTxpdo (run soemEc (some demoHandle) [.exchange none 0 none 0 1000 ⟨1, 3, id⟩,
          .exchange none 0 none 0 1000 ⟨1, 3, id⟩, .writeRxpdo 1 (some nopRxpdo), .readTxpdo 1 none]).1
          1 (some (unpackTxpdo demoHandle.IOmap 20))).ret =
        (soemReadTxpdo (run soemEc (some demoHandle) (untilLastReceive
          [.exchange none 0 none 0 1000 ⟨1, 3, id⟩, .exchange none 0 none 0 1000 ⟨1, 3, id⟩,
            .writeRxpdo 1 (some nopRxpdo), .readTxpdo 1 none])).1
          1 (some (unpackTxpdo demoHandle.IOmap 20))).ret :=
  ⟨demoHandle_live, soemReadTxpdo_after_run soemEc demoHandle_live _ 1 _⟩

end XeryonShim
