import XeryonShim.Session
import XeryonShim.Recover

/-!
# Sessions

A session is one bring-up, any sequence of calls on the handle it returned, and one
teardown. The calls are the five that act on a live handle: exchange, record write, record
read, recovery and the health query, each with the stack's answers to it.

* `Op.next` says once what each call does to the handle; `run_fst` and `runNext` lift it to
  whole runs of the shim's calls;
* `runNext_live`: every run keeps a handle live;
* `run_sends_design_image`: at every send of a run the group's output region is the
  image the design describes, call by call;
* `session_inBounds`: every byte and every slave entry any call of a session uses lies
  within the image, the table and the caller's lengths;
* `soemInitialize_lifecycle`: every block is freed exactly once over create and destroy;
* `soemGetHealth_after_run`: what a health query reports after any run since bring-up, and
  `soemGetProcessSizes_after_run`: the slave count and process sizes a session reports.
-/

namespace XeryonShim

/-! ## Calls on a handle -/

/-- One call a caller makes on a session's handle, with the stack's answers to it. -/
inductive Op where
  | exchange (outputs : Option Bytes) (outputsLen : Int) (inputs : Option Bytes)
      (inputsLen : Int) (timeoutUs : Int) (bus : Cycle)
  | writeRxpdo (slaveIndex : Int) (input : Option DriveRxPDO)
  | readTxpdo (slaveIndex : Int) (out : Option DriveTxPDO)
  | tryRecover (timeoutMs : Int) (rec : Recovery)
  | getHealth (out : Option Health) (r : Readout)

/-- The handle after a call and the call's events. -/
def Op.call (ec : EcConst) (handle : Option Handle) : Op → Option Handle × List Event
  | .exchange outputs outputsLen inputs inputsLen timeoutUs bus =>
    let x := soemExchangeProcessData handle outputs outputsLen inputs inputsLen timeoutUs bus
    (x.handle, x.trace)
  | .writeRxpdo i input =>
    let x := soemWriteRxpdo handle i input
    (x.handle, x.trace)
  | .readTxpdo i out =>
    let x := soemReadTxpdo handle i out
    (x.handle, x.trace)
  | .tryRecover timeoutMs rec =>
    let x := soemTryRecover ec handle timeoutMs rec
    (x.handle, x.trace)
  | .getHealth out r =>
    let x := soemGetHealth ec handle out r
    (x.handle, x.trace)

/-- Calls one after the other, with their events in order. -/
def run (ec : EcConst) (handle : Option Handle) : List Op → Option Handle × List Event
  | [] => (handle, [])
  | op :: rest =>
    let s := op.call ec handle
    let r := run ec s.1 rest
    (r.1, s.2 ++ r.2)

/-- The handle a call on `h` leaves. -/
def Op.next (ec : EcConst) (h : Handle) : Op → Handle
  | .exchange outputs outputsLen _ _ _ bus => exchangeNext h outputs outputsLen bus
  | .writeRxpdo i (some r) =>
    match rxpdoSlot h i with
    | some o => { h with IOmap := packRxpdo h.IOmap o r }
    | none => h
  | .writeRxpdo _ none => h
  | .readTxpdo _ _ => h
  | .tryRecover _ rec => recoverNext ec h rec
  | .getHealth (some _) r => { h with context := h.context.readstate r }
  | .getHealth none _ => h

theorem Op.call_fst (ec : EcConst) (h : Handle) (op : Op) :
    (op.call ec (some h)).1 = some (op.next ec h) := by
  cases op with
  | exchange => exact soemExchangeProcessData_handle ..
  | writeRxpdo i input =>
    cases input with
    | none => rfl
    | some r => exact soemWriteRxpdo_handle h i r
  | readTxpdo i out =>
    cases out with
    | none => rfl
    | some x => exact soemReadTxpdo_handle h i x
  | tryRecover t rec => exact soemTryRecover_handle ec h t rec
  | getHealth out r =>
    cases out with
    | none => rfl
    | some x => simp only [Op.call, Op.next, soemGetHealth_spec]

/-- The handle after a run from `h`. -/
def runNext (ec : EcConst) (h : Handle) : List Op → Handle
  | [] => h
  | op :: rest => runNext ec (op.next ec h) rest

theorem run_fst (ec : EcConst) (h : Handle) (ops : List Op) :
    (run ec (some h) ops).1 = some (runNext ec h ops) := by
  induction ops generalizing h with
  | nil => rfl
  | cons op rest ih => simp only [run, Op.call_fst, ih, runNext]

/-- Every call of a run allocates and releases nothing. -/
theorem run_quiet (ec : EcConst) (handle : Option Handle) (ops : List Op) :
    Quiet (run ec handle ops).2 := by
  induction ops generalizing handle with
  | nil => exact .of_all rfl
  | cons op rest ih =>
    refine Quiet.append ?_ (ih _)
    cases op with
    | exchange => exact soemExchangeProcessData_quiet _ _ _ _ _ _ _
    | writeRxpdo => exact soemWriteRxpdo_quiet _ _ _
    | readTxpdo => exact soemReadTxpdo_quiet _ _ _
    | tryRecover => exact soemTryRecover_quiet _ _ _ _
    | getHealth => exact soemGetHealth_quiet _ _ _ _

/-! ## What every call keeps -/

/-- What every call keeps: the slave table's layout, group 0 and the cached sizes. -/
structure Keeps (h h' : Handle) : Prop where
  layout : h.context.SameLayout h'.context
  outputLength : h'.outputLength = h.outputLength
  inputLength : h'.inputLength = h.inputLength

theorem Keeps.refl (h : Handle) : Keeps h h :=
  ⟨.refl _, rfl, rfl⟩

theorem Keeps.trans {h₁ h₂ h₃ : Handle} (a : Keeps h₁ h₂) (b : Keeps h₂ h₃) : Keeps h₁ h₃ :=
  ⟨a.layout.trans b.layout, b.outputLength.trans a.outputLength,
    b.inputLength.trans a.inputLength⟩

theorem exchangeNext_keeps (h : Handle) (outputs : Option Bytes) (outputsLen : Int) (bus : Cycle) :
    Keeps h (exchangeNext h outputs outputsLen bus) := by
  unfold exchangeNext
  split <;> exact ⟨.refl _, rfl, rfl⟩

theorem Op.next_keeps (ec : EcConst) (h : Handle) (op : Op) : Keeps h (op.next ec h) := by
  cases op with
  | exchange => exact exchangeNext_keeps ..
  | writeRxpdo i input =>
    rcases input with _ | r
    · exact .refl h
    · simp only [Op.next]
      split <;> exact ⟨.refl _, rfl, rfl⟩
  | readTxpdo => exact .refl h
  | tryRecover t rec => exact ⟨recoverNext_layout ec h rec, rfl, rfl⟩
  | getHealth out r =>
    rcases out with _ | x
    · exact .refl h
    · exact ⟨h.context.sameLayout_readstate r, rfl, rfl⟩

theorem runNext_keeps (ec : EcConst) (h : Handle) (ops : List Op) : Keeps h (runNext ec h ops) := by
  induction ops generalizing h with
  | nil => exact .refl h
  | cons op rest ih => exact (op.next_keeps ec h).trans (ih _)

theorem Live.of_keeps {h h' : Handle} (hl : Live h) (hk : Keeps h h') : Live h' where
  populated := hk.layout.slavecount ▸ hl.populated
  mapped := Mapped.of_sameLayout hk.layout hl.mapped
  outputLength := by rw [hk.outputLength, hl.outputLength, hk.layout.group]
  inputLength := by rw [hk.inputLength, hl.inputLength, hk.layout.group]

/-- **Every run keeps a handle live.** -/
theorem runNext_live (ec : EcConst) {h : Handle} (hl : Live h) (ops : List Op) :
    Live (runNext ec h ops) :=
  hl.of_keeps (runNext_keeps ec h ops)

/-- A record slot depends on the layout alone. -/
theorem rxpdoSlot_of_sameLayout {h h' : Handle} (hk : h.context.SameLayout h'.context) (i : Int) :
    rxpdoSlot h' i = rxpdoSlot h i := by
  simp only [rxpdoSlot, hk.slavecount, (hk.slave i.toNat).outputs, (hk.slave i.toNat).Obytes]

/-! ## The cached counters -/

/-- The receive result of a call, if it is an exchange that got past its send. -/
def Op.received : Op → List Int
  | .exchange _ _ _ _ _ bus => if bus.sent < 0 then [] else [bus.received]
  | _ => []

/-- The receive results of the exchanges of a run that got past their sends, in order. -/
def receivedAll : List Op → List Int
  | [] => []
  | op :: rest => op.received ++ receivedAll rest

theorem getLastD_append (l l' : List Int) (d : Int) :
    (l ++ l').getLastD d = l'.getLastD (l.getLastD d) := by
  induction l generalizing d with
  | nil => rfl
  | cons b l ih => rw [List.cons_append, List.getLastD_cons, List.getLastD_cons, ih]

theorem Op.next_counters (ec : EcConst) (h : Handle) (op : Op) :
    (op.next ec h).lastWkc = op.received.getLastD h.lastWkc ∧
      (op.next ec h).lastExpectedWkc =
        if op.received = [] then h.lastExpectedWkc else expectedWkc h.context.group := by
  cases op with
  | exchange outputs outputsLen inputs inputsLen timeoutUs bus =>
    simp only [Op.next, Op.received, exchangeNext]
    split <;> simp
  | writeRxpdo i input =>
    rcases input with _ | r
    · exact ⟨rfl, rfl⟩
    · simp only [Op.next, Op.received]
      split <;> exact ⟨rfl, rfl⟩
  | readTxpdo | tryRecover | getHealth out r =>
    first | exact ⟨rfl, rfl⟩ | (rcases out with _ | x <;> exact ⟨rfl, rfl⟩)

/-- Over a run the cached counter is the receive result of the last exchange that got past
its send, and the cached expected counter is the group's once there was one. -/
theorem runNext_counters (ec : EcConst) (h : Handle) (ops : List Op) :
    (runNext ec h ops).lastWkc = (receivedAll ops).getLastD h.lastWkc ∧
      (runNext ec h ops).lastExpectedWkc =
        if receivedAll ops = [] then h.lastExpectedWkc else expectedWkc h.context.group := by
  induction ops generalizing h with
  | nil => exact ⟨rfl, rfl⟩
  | cons op rest ih =>
    obtain ⟨hw, he⟩ := op.next_counters ec h
    obtain ⟨ihw, ihe⟩ := ih (op.next ec h)
    have hg := (op.next_keeps ec h).layout.group
    refine ⟨by rw [runNext, ihw, hw, receivedAll, getLastD_append], ?_⟩
    rw [runNext, ihe, he, hg, receivedAll]
    by_cases h₁ : op.received = [] <;> by_cases h₂ : receivedAll rest = [] <;> simp [h₁, h₂]

/-! ## The output image -/

/-- The output region after an exchange's staging, in the design's words: with a payload of
positive length and a non-empty region, the payload's first `min(outputs_len, Obytes)`
bytes followed by zeros, whatever the region held; otherwise the image as it was. -/
def designStage (g : Group) (img : Bytes) (outputs : Option Bytes) (outputsLen : Int) : Bytes :=
  match outputs with
  | some src =>
    if 0 < outputsLen ∧ g.Obytes ≠ 0 then
      fun k => if k < min outputsLen.toNat g.Obytes.toNat then src k else 0
    else img
  | none => img

/-- The output image the design describes after one call on a session laid out as `h0`: an
accepted record write lays the record's 17 wire bytes at the start of the slave's region, an
exchange stages its payload, and every other call leaves the image. -/
def Op.designOut (h0 : Handle) (img : Bytes) : Op → Bytes
  | .exchange outputs outputsLen _ _ _ _ => designStage h0.context.group img outputs outputsLen
  | .writeRxpdo i (some r) =>
    match rxpdoSlot h0 i with
    | some o => img.store o (rxpdoBytes r)
    | none => img
  | _ => img

/-- The design's output image after a run. -/
def designRun (h0 : Handle) (img : Bytes) : List Op → Bytes
  | [] => img
  | op :: rest => designRun h0 (op.designOut h0 img) rest

theorem Bytes.EqOn.store {m m' : Bytes} {lo hi : Nat} (h : m.EqOn m' lo hi) (off : Nat)
    (l : List UInt8) : (m.store off l).EqOn (m'.store off l) lo hi := by
  intro k hl hh
  simp only [Bytes.store_apply]
  split
  · rfl
  · exact h k hl hh

/-- Receives write only the input region, which starts where the output region ends. -/
theorem receiveImage_eqOn {g : Group} {slaves : Nat → Slave} {size : Int} (hm : Mapped g slaves size)
    (m : Bytes) (c : Cycle) : (receiveImage g m c).EqOn m 0 g.Obytes.toNat :=
  Bytes.copy_eqOn_of_disjoint _ _ (.inl (le_of_eq hm.inputs_at.symm))

theorem settleImage_eqOn {g : Group} {slaves : Nat → Slave} {size : Int} (hm : Mapped g slaves size)
    (m : Bytes) (settle : Fin 3 → Cycle) : (settleImage g m settle).EqOn m 0 g.Obytes.toNat := by
  simp only [settleImage, List.foldl]
  exact ((receiveImage_eqOn hm _ _).trans (receiveImage_eqOn hm _ _)).trans (receiveImage_eqOn hm _ _)

/-- **The staging refines the design's.** On the group's output region the image an exchange
sends is the design's staged image. -/
theorem sentImage_eqOn_designStage {h : Handle} (hl : Live h) {img : Bytes}
    (he : h.IOmap.EqOn img 0 h.context.group.Obytes.toNat) (outputs : Option Bytes)
    (outputsLen : Int) :
    (sentImage h outputs outputsLen).EqOn (designStage h.context.group img outputs outputsLen) 0
      h.context.group.Obytes.toNat := by
  unfold sentImage designStage
  rcases outputs with _ | src
  · rw [stageOutputs_of_not _ _ (.inl rfl)]
    exact he
  · dsimp only
    by_cases hc : 0 < outputsLen ∧ h.context.group.Obytes ≠ 0
    · rw [if_pos hc]
      intro k _ hk
      rw [stageOutputs_apply _ _ _ hc.1 hl.Obytes_lt, hl.mapped.outputs_at, if_pos ⟨Nat.zero_le _, by omega⟩,
        Nat.sub_zero]
    · have hn : outputsLen ≤ 0 ∨ h.context.group.Obytes = 0 := by
        by_cases h₀ : 0 < outputsLen
        · exact .inr (not_not.mp fun hne => hc ⟨h₀, hne⟩)
        · exact .inl (by omega)
      rw [if_neg hc, stageOutputs_of_not _ _ (.inr hn)]
      exact he

theorem Op.next_eqOn_design (ec : EcConst) {h0 h : Handle} (hl : Live h0) (hk : Keeps h0 h)
    {img : Bytes} (he : h.IOmap.EqOn img 0 h0.context.group.Obytes.toNat) (op : Op) :
    (op.next ec h).IOmap.EqOn (op.designOut h0 img) 0 h0.context.group.Obytes.toNat := by
  have hl' := hl.of_keeps hk
  have hg := hk.layout.group
  cases op with
  | exchange outputs outputsLen inputs inputsLen timeoutUs bus =>
    have hs := sentImage_eqOn_designStage hl' (hg ▸ he) outputs outputsLen
    simp only [Op.next, Op.designOut, ← hg]
    unfold exchangeNext
    split
    · exact hs
    · exact (receiveImage_eqOn hl'.mapped _ _).trans hs
  | writeRxpdo i input =>
    rcases input with _ | r
    · exact he
    · simp only [Op.next, Op.designOut, rxpdoSlot_of_sameLayout hk.layout]
      split
      · rw [packRxpdo_eq_store]
        exact he.store _ _
      · exact he
  | readTxpdo => exact he
  | tryRecover t rec =>
    intro k hk₀ hk
    exact (settleImage_eqOn hl'.mapped h.IOmap rec.settle k hk₀ (by rw [hg]; exact hk)).trans
      (he k hk₀ hk)
  | getHealth out r =>
    rcases out with _ | x <;> exact he

/-- The design's image tracks the handle's over every run. -/
theorem runNext_eqOn_design (ec : EcConst) {h0 : Handle} (hl : Live h0) (ops : List Op) :
    ∀ {h : Handle} {img : Bytes}, Keeps h0 h → h.IOmap.EqOn img 0 h0.context.group.Obytes.toNat →
      (runNext ec h ops).IOmap.EqOn (designRun h0 img ops) 0 h0.context.group.Obytes.toNat := by
  induction ops with
  | nil => exact fun _ he => he
  | cons op rest ih =>
    intro h img hk he
    exact ih (hk.trans (op.next_keeps ec h)) (op.next_eqOn_design ec hl hk he)

/-- **At every send of a run the output region is the design's image.** For a live handle
whose slave output regions are pairwise disjoint, after any run the image the next exchange
hands to `ecx_send_processdata` is, on the group's output region, the design's image: the
run's accepted writes and staged payloads applied in order, and this exchange's payload
staged over them. In the design an accepted write changes only the first 17 bytes of its
slave's region, so the rest of that region and every other slave's region keep their
bytes. -/
theorem run_sends_design_image (ec : EcConst) (h0 : Handle) (hl : Live h0)
    (hdisj : OutputsDisjoint h0.context.slavelist h0.context.slavecount) :
    (∀ (pre : List Op) (outputs : Option Bytes) (outputsLen : Int),
      ∃ h, (run ec (some h0) pre).1 = some h ∧ (sentImage h outputs outputsLen).EqOn
        (designStage h0.context.group (designRun h0 h0.IOmap pre) outputs outputsLen) 0
        h0.context.group.Obytes.toNat) ∧
    ∀ (img : Bytes) (i : Nat) (r : DriveRxPDO) (o : Nat), rxpdoSlot h0 i = some o →
      (∀ k, o + 17 ≤ k → k < o + (h0.context.slavelist i).Obytes.toNat →
        (Op.writeRxpdo i (some r)).designOut h0 img k = img k) ∧
      ∀ j ∈ slaveRange h0.context.slavecount, j ≠ i → ∀ p, (h0.context.slavelist j).outputs = some p →
        (img.store o (rxpdoBytes r)).EqOn img p (p + (h0.context.slavelist j).Obytes.toNat) := by
  refine ⟨fun pre outputs outputsLen => ⟨_, run_fst ec h0 pre, ?_⟩,
    fun img i r o hs => ⟨fun k hk _ => ?_, ?_⟩⟩
  · have hk := runNext_keeps ec h0 pre
    have he := runNext_eqOn_design ec hl pre (Keeps.refl h0) (Bytes.EqOn.refl h0.IOmap _ _)
    have hs := sentImage_eqOn_designStage (runNext_live ec hl pre) (hk.layout.group ▸ he)
      outputs outputsLen
    rwa [hk.layout.group] at hs
  · simp only [Op.designOut, hs, Bytes.store_apply, rxpdoBytes_length]
    rw [if_neg (by omega)]
  · intro j hj hji p hp
    obtain ⟨hi, ho, hb⟩ := (rxpdoSlot_eq_some_iff hl.mapped hl.Obytes_lt i o).mp hs
    have := hdisj i hi j hj (Ne.symm hji) o p ho hp
    simp only [ioRxBytes] at hb
    exact Bytes.store_eqOn_of_disjoint _ _ (by simp only [rxpdoBytes_length]; omega)

theorem demoHandle_disjoint : OutputsDisjoint demoHandle.context.slavelist demoHandle.context.slavecount := by
  intro i hi j hj hij
  rw [mem_slaveRange] at hi hj
  exact absurd (by simp only [demoHandle] at hi hj; omega) hij

theorem run_sends_design_image_demo :
    Live demoHandle ∧ OutputsDisjoint demoHandle.context.slavelist demoHandle.context.slavecount ∧
    (∀ (pre : List Op) (outputs : Option Bytes) (outputsLen : Int),
      ∃ h, (run soemEc (some demoHandle) pre).1 = some h ∧ (sentImage h outputs outputsLen).EqOn
        (designStage demoHandle.context.group (designRun demoHandle demoHandle.IOmap pre) outputs
          outputsLen) 0 demoHandle.context.group.Obytes.toNat) ∧
    ∀ (img : Bytes) (i : Nat) (r : DriveRxPDO) (o : Nat), rxpdoSlot demoHandle i = some o →
      (∀ k, o + 17 ≤ k → k < o + (demoHandle.context.slavelist i).Obytes.toNat →
        (Op.writeRxpdo i (some r)).designOut demoHandle img k = img k) ∧
      ∀ j ∈ slaveRange demoHandle.context.slavecount, j ≠ i → ∀ p,
        (demoHandle.context.slavelist j).outputs = some p →
        (img.store o (rxpdoBytes r)).EqOn img p (p + (demoHandle.context.slavelist j).Obytes.toNat) :=
  ⟨demoHandle_live, demoHandle_disjoint,
    run_sends_design_image soemEc demoHandle demoHandle_live demoHandle_disjoint⟩

/-! ## Bounds of every access -/

/-- An event stays within what the shim may use: the 64 KiB process image, the slave table
`0..n`, and the first `outputsLen` and `inputsLen` bytes of the caller's arrays. -/
def Event.InBounds (n outputsLen inputsLen : Int) : Event → Prop
  | .touch .IOmap off len => off + len ≤ iomapSize
  | .touch .outputs off len => (off : Int) + len ≤ outputsLen
  | .touch .inputs off len => (off : Int) + len ≤ inputsLen
  | .slave i => (i : Int) ≤ n
  | .writestate i _ => (i : Int) ≤ n
  | .statecheck i _ _ => (i : Int) ≤ n
  | _ => True

/-- The caller's `outputs_len` and `inputs_len` of a call; the calls other than the exchange
take no caller array the bounds speak of. -/
def Op.outputsLen : Op → Int
  | .exchange _ outputsLen _ _ _ _ => outputsLen
  | _ => 0

def Op.inputsLen : Op → Int
  | .exchange _ _ _ inputsLen _ _ => inputsLen
  | _ => 0

/-- A record access on an accepted slot `[o, o + size)`: it names slave `i` and touches only
the slot's bytes, all inside the image. -/
theorem slotAccess_inBounds {n ol il i : Int} {o size : Nat} (hi : 1 ≤ i ∧ i ≤ n)
    (hfit : o + size ≤ iomapSize) {ts : List Event}
    (hts : ∀ e ∈ ts, ∃ off len, e = .touch .IOmap off len ∧ o ≤ off ∧ off + len ≤ o + size) :
    ∀ e ∈ Event.slave i.toNat :: ts, e.InBounds n ol il := by
  rintro e (_ | ⟨_, he⟩)
  · show ((i.toNat : Nat) : Int) ≤ n
    omega
  · obtain ⟨off, len, rfl, -, hhi⟩ := hts e he
    show off + len ≤ iomapSize
    omega

/-- A refused record access names slave `i` when the index is in range, and nothing else. -/
theorem refusedAccess_inBounds {n ol il : Int} (i : Int) :
    ∀ e ∈ (if 1 ≤ i ∧ i ≤ n then [Event.slave i.toNat] else []), e.InBounds n ol il := by
  split
  · intro e he
    rw [List.mem_singleton.mp he]
    show ((i.toNat : Nat) : Int) ≤ n
    omega
  · intro e he
    cases he

section Bounds

variable {h : Handle} (hm : Mapped h.context.group h.context.slavelist iomapSize)
include hm

theorem Mapped.Obytes_le_iomapSize : h.context.group.Obytes.toNat + h.context.group.Ibytes.toNat ≤ iomapSize := by
  have := hm.fits
  omega

theorem soemExchangeProcessData_inBounds (outputs : Option Bytes) (outputsLen : Int)
    (inputs : Option Bytes) (inputsLen timeoutUs : Int) (bus : Cycle) :
    ∀ e ∈ (soemExchangeProcessData (some h) outputs outputsLen inputs inputsLen timeoutUs bus).trace,
      e.InBounds h.context.slavecount outputsLen inputsLen := by
  have hfit := hm.Obytes_le_iomapSize
  simp only [iomapSize] at hfit
  have hstage : ∀ e ∈ (stageOutputs h.context.group h.IOmap outputs outputsLen).2,
      e.InBounds h.context.slavecount outputsLen inputsLen := fun e he => by
    rcases stageOutputs_touches _ _ _ _ (by omega) e he with ⟨len, rfl, hl⟩ | ⟨len, rfl, hl⟩
    · show h.context.group.outputs + len ≤ iomapSize
      rw [hm.outputs_at, iomapSize]
      omega
    · show ((0 : Nat) : Int) + len ≤ outputsLen
      omega
  have hcopy : ∀ m, ∀ e ∈ (copyInputs h.context.group m inputs inputsLen).2,
      e.InBounds h.context.slavecount outputsLen inputsLen := fun m e he => by
    rcases copyInputs_touches _ m _ _ (by omega) e he with ⟨len, rfl, hl⟩ | ⟨len, rfl, hl⟩
    · show h.context.group.inputs + len ≤ iomapSize
      rw [hm.inputs_at, iomapSize]
      omega
    · show ((0 : Nat) : Int) + len ≤ inputsLen
      omega
  intro e he
  rcases soemExchangeProcessData_mem_trace h _ _ _ _ _ _ he with he | rfl | ⟨t, rfl⟩ | ⟨m, he⟩
  · exact hstage e he
  · trivial
  · trivial
  · exact hcopy m e he

/-- The slot of an accepted record lies inside the 64 KiB image. -/
theorem rxpdoSlot_fits {i : Int} {o : Nat} (hs : rxpdoSlot h i = some o) :
    1 ≤ i ∧ i ≤ h.context.slavecount ∧ o + 17 ≤ iomapSize := by
  have hfit := hm.Obytes_le_iomapSize
  rw [rxpdoSlot_eq, pdoSlot_eq_some] at hs
  obtain ⟨h₁, h₂, ho, hb⟩ := hs
  have := hm.slave_outputs _ _ ho
  rw [cInt_of_lt (by simp only [iomapSize] at hfit; omega)] at hb
  simp only [ioRxBytes] at hb
  exact ⟨h₁, h₂, by omega⟩

theorem txpdoSlot_fits {i : Int} {j : Nat} (hs : txpdoSlot h i = some j) :
    1 ≤ i ∧ i ≤ h.context.slavecount ∧ j + 8 ≤ iomapSize := by
  have hfit := hm.Obytes_le_iomapSize
  rw [txpdoSlot, pdoSlot_eq_some] at hs
  obtain ⟨h₁, h₂, ho, hb⟩ := hs
  have := hm.slave_inputs _ _ ho
  rw [cInt_of_lt (by simp only [iomapSize] at hfit; omega)] at hb
  simp only [ioTxBytes] at hb
  exact ⟨h₁, h₂, by omega⟩

theorem soemWriteRxpdo_inBounds (i : Int) (input : Option DriveRxPDO) (ol il : Int) :
    ∀ e ∈ (soemWriteRxpdo (some h) i input).trace, e.InBounds h.context.slavecount ol il := by
  rcases input with _ | r
  · intro e he
    cases he
  rw [soemWriteRxpdo_some]
  cases hs : rxpdoSlot h i with
  | some o =>
    obtain ⟨h₁, h₂, hfit⟩ := rxpdoSlot_fits hm hs
    exact slotAccess_inBounds ⟨h₁, h₂⟩ hfit (rxpdoTouches_within o)
  | none => exact refusedAccess_inBounds i

theorem soemReadTxpdo_inBounds (i : Int) (out : Option DriveTxPDO) (ol il : Int) :
    ∀ e ∈ (soemReadTxpdo (some h) i out).trace, e.InBounds h.context.slavecount ol il := by
  rcases out with _ | x
  · intro e he
    cases he
  rw [soemReadTxpdo_some]
  cases hs : txpdoSlot h i with
  | some j =>
    obtain ⟨h₁, h₂, hfit⟩ := txpdoSlot_fits hm hs
    exact slotAccess_inBounds ⟨h₁, h₂⟩ hfit (txpdoTouches_within j)
  | none => exact refusedAccess_inBounds i

end Bounds

theorem soemTryRecover_inBounds (ec : EcConst) {h : Handle} (hn : 0 ≤ h.context.slavecount)
    (timeoutMs : Int) (rec : Recovery) (ol il : Int) :
    ∀ e ∈ (soemTryRecover ec (some h) timeoutMs rec).trace, e.InBounds h.context.slavecount ol il := by
  have hslave : ∀ i ∈ slaveRange h.context.slavecount, (i : Int) ≤ h.context.slavecount :=
    fun i hi => (mem_slaveRange.mp hi).2
  have hack : ∀ c : Context, c.slavecount = h.context.slavecount →
      ∀ e ∈ (ackLoop ec c (slaveRange c.slavecount)).2, e.InBounds h.context.slavecount ol il := by
    intro c hc e he
    rw [hc] at he
    obtain ⟨i, hi, rfl | ⟨s, rfl⟩⟩ := ackLoop_snd_mem he <;> exact hslave i hi
  have hver : ∀ c : Context, c.slavecount = h.context.slavecount →
      ∀ e ∈ (verifyLoop ec c (slaveRange c.slavecount)).2, e.InBounds h.context.slavecount ol il := by
    intro c hc e he
    rw [hc] at he
    obtain ⟨i, hi, rfl⟩ := verifyLoop_snd_mem he
    exact hslave i hi
  have hzero : ((0 : Nat) : Int) ≤ h.context.slavecount := hn
  simp only [soemTryRecover]
  split
  all_goals
    simp only [List.forall_mem_append, List.forall_mem_cons, List.not_mem_nil, false_implies,
      implies_true, and_true]
    constructorm* _ ∧ _
  all_goals first
    | trivial
    | exact hzero
    | exact hack _ rfl
    | (refine hver _ ?_
       rw [ackLoop_fst]
       rfl)

theorem soemGetHealth_inBounds (ec : EcConst) (h : Handle) (out : Option Health) (r : Readout)
    (ol il : Int) :
    ∀ e ∈ (soemGetHealth ec (some h) out r).trace, e.InBounds h.context.slavecount ol il := by
  rcases out with _ | x
  · intro e he
    cases he
  rw [soemGetHealth_spec]
  intro e he
  simp only [List.mem_append, List.mem_singleton, List.mem_map] at he
  rcases he with (rfl | ⟨i, hi, rfl⟩) | he
  · trivial
  · exact (mem_slaveRange.mp hi).2
  · split at he
    · rw [List.mem_singleton.mp he]
      show ((1 : Nat) : Int) ≤ _
      omega
    · cases he

/-- **Every call on a mapped handle stays in bounds.** -/
theorem Op.call_inBounds (ec : EcConst) {h : Handle}
    (hm : Mapped h.context.group h.context.slavelist iomapSize) (hn : 0 ≤ h.context.slavecount)
    (op : Op) : ∀ e ∈ (op.call ec (some h)).2, e.InBounds h.context.slavecount op.outputsLen op.inputsLen := by
  cases op with
  | exchange => exact soemExchangeProcessData_inBounds hm _ _ _ _ _ _
  | writeRxpdo => exact soemWriteRxpdo_inBounds hm _ _ _ _
  | readTxpdo => exact soemReadTxpdo_inBounds hm _ _ _ _
  | tryRecover => exact soemTryRecover_inBounds ec hn _ _ _ _
  | getHealth => exact soemGetHealth_inBounds ec _ _ _ _ _

/-! ## Bring-up in bounds -/

theorem stageNop_inBounds (H : Handle) (hm : Mapped H.context.group H.context.slavelist iomapSize)
    (l : List Nat) : ∀ m, ∀ e ∈ (stageNop (some { H with IOmap := m }) l).2,
      e.InBounds H.context.slavecount 0 0 := by
  induction l with
  | nil => exact fun _ e he => absurd he (List.not_mem_nil e)
  | cons i rest ih =>
    intro m e he
    simp only [stageNop, List.mem_append] at he
    rcases he with he | he
    · exact soemWriteRxpdo_inBounds (h := { H with IOmap := m }) hm _ _ _ _ e he
    · rw [soemWriteRxpdo_handle] at he
      split at he
      · exact ih _ e he
      · exact ih m e he

theorem readBack_inBounds {h : Handle} (hm : Mapped h.context.group h.context.slavelist iomapSize)
    (l : List Nat) : ∀ e ∈ (readBack (some h) l).2, e.InBounds h.context.slavecount 0 0 := by
  induction l with
  | nil => exact fun e he => absurd he (List.not_mem_nil e)
  | cons i rest ih =>
    intro e he
    simp only [readBack, List.mem_append, soemReadTxpdo_handle] at he
    rcases he with he | he
    · exact soemReadTxpdo_inBounds hm _ _ _ _ e he
    · exact ih e he

theorem startMapped_inBounds (ec : EcConst) {b : Bringup} (hb : b.Succeeds) :
    ∀ e ∈ (startMapped ec b).2, e.InBounds b.slavesFound 0 0 := by
  have hm : Mapped (mappedHandle b).context.group (mappedHandle b).context.slavelist iomapSize :=
    b.mapping.mapped.mono hb.2.2.2.2.2
  have hzero : ((0 : Nat) : Int) ≤ b.slavesFound := by
    have := hb.2.2.1
    omega
  have hprobe := soemExchangeProcessData_inBounds (h := stagedHandle b) hm none 0 none 0 2000 b.probe
  have hread := readBack_inBounds (h := probedHandle b)
    (by rw [probedHandle, exchangeNext_context]; exact hm) (slaveRange b.slavesFound)
  rw [probedHandle, exchangeNext_context] at hread
  simp only [startMapped, soemGetSlaveCount, stageNop_fst, soemExchangeProcessData_handle,
    readBack_fst, bringOperational, List.forall_mem_append, List.forall_mem_cons, List.not_mem_nil,
    false_implies, implies_true, and_true]
  refine ⟨⟨⟨⟨trivial, stageNop_inBounds _ hm _ _⟩, hprobe⟩, hread⟩, hzero, hzero, hzero, hzero⟩

/-- Bring-up that goes through stays in bounds, its probe and staging included. -/
theorem soemInitialize_inBounds (ec : EcConst) {b : Bringup} (hb : b.Succeeds) :
    ∀ e ∈ (soemInitialize ec b).2, e.InBounds b.slavesFound 0 0 := by
  have hs := startMapped_inBounds ec hb
  obtain ⟨h₁, h₂, h₃, h₄, h₅, h₆⟩ := hb
  simp only [soemInitialize, h₁, h₂, h₄, not_true_eq_false, if_false, if_neg (Int.not_le.mpr h₃),
    if_neg (Int.not_le.mpr h₅), if_neg (Int.not_lt.mpr h₆), List.forall_mem_append,
    List.forall_mem_cons, List.not_mem_nil, false_implies, implies_true, and_true]
  constructorm* _ ∧ _
  all_goals first
    | trivial
    | exact hs
    | exact Nat.le_of_eq (Nat.zero_add _)

/-- A handle bring-up returns has the layout the stack mapped. -/
theorem soemInitialize_layout (ec : EcConst) {b : Bringup} {h : Handle}
    (hh : (soemInitialize ec b).1 = some h) : (mappedHandle b).context.SameLayout h.context := by
  have hb : b.Succeeds := by
    by_contra hb
    rw [(soemInitialize_null_iff ec b).mpr hb] at hh
    cases hh
  rw [(soemInitialize_of_succeeds ec hb).1] at hh
  cases hh
  have hl := bringOperational_layout ec b (probedHandle b)
  rwa [probedHandle, exchangeNext_context] at hl

theorem soemInitialize_slavecount (ec : EcConst) {b : Bringup} {h : Handle}
    (hh : (soemInitialize ec b).1 = some h) : h.context.slavecount = b.slavesFound :=
  (soemInitialize_layout ec hh).slavecount

/-- **Every access of a session stays in bounds.** For every mapping the stack may return:
when bring-up hands out a handle, every byte of the image it and every later call reads or
writes lies in the 64 KiB image, every slave entry in `0..slavecount`, and every byte of a
caller's array below the length the caller passed; a mapped size of exactly 65536 bytes is
accepted, and a non-positive or larger one ends bring-up with NULL before any call on the
handle. -/
theorem session_inBounds (ec : EcConst) (b : Bringup) :
    (∀ h, (soemInitialize ec b).1 = some h →
      (∀ e ∈ (soemInitialize ec b).2, e.InBounds h.context.slavecount 0 0) ∧
      ∀ (pre : List Op) (op : Op), ∀ e ∈ (op.call ec (run ec (some h) pre).1).2,
        e.InBounds h.context.slavecount op.outputsLen op.inputsLen) ∧
    (b.handleAlloc ∧ b.init ∧ 0 < b.slavesFound ∧ b.iomapAlloc →
      ((soemInitialize ec b).1.isSome ↔ 0 < b.mapping.size ∧ b.mapping.size ≤ 65536)) ∧
    (b.mapping.size ≤ 0 ∨ 65536 < b.mapping.size →
      (soemInitialize ec b).1 = none ∧ ∀ e ∈ (soemInitialize ec b).2, e.IsSetup) := by
  have hsize : (iomapSize : Int) = 65536 := rfl
  refine ⟨fun h hh => ?_, fun ⟨h₁, h₂, h₃, h₄⟩ => ?_, fun hbad => ?_⟩
  · have hb : b.Succeeds := by
      by_contra hb
      rw [(soemInitialize_null_iff ec b).mpr hb] at hh
      cases hh
    have hl := soemInitialize_live ec b hh
    refine ⟨soemInitialize_slavecount ec hh ▸ soemInitialize_inBounds ec hb, fun pre op => ?_⟩
    have hl' := runNext_live ec hl pre
    rw [run_fst, ← (runNext_keeps ec h pre).layout.slavecount]
    exact Op.call_inBounds ec hl'.mapped hl'.populated.le op
  · by_cases hin : 0 < b.mapping.size ∧ b.mapping.size ≤ 65536
    · have hb : b.Succeeds := ⟨h₁, h₂, h₃, h₄, hin.1, hsize ▸ hin.2⟩
      simp only [(soemInitialize_of_succeeds ec hb).1, Option.isSome_some, true_iff]
      exact hin
    · have hb : ¬b.Succeeds := fun hb => hin ⟨hb.2.2.2.2.1, hsize ▸ hb.2.2.2.2.2⟩
      simp only [(soemInitialize_of_not_succeeds ec hb).1, Option.isSome_none, Bool.false_eq_true,
        false_iff]
      exact hin
  · have hb : ¬b.Succeeds := fun hb => by
      have h₅ := hb.2.2.2.2.1
      have h₆ := hb.2.2.2.2.2
      rw [hsize] at h₆
      omega
    exact ⟨(soemInitialize_of_not_succeeds ec hb).1, (soemInitialize_of_not_succeeds ec hb).2.2⟩

/-! ## Create and destroy -/

/-- The events of a whole session: bring-up, the calls `ops` on the handle it returned, and
teardown. -/
def sessionTrace (ec : EcConst) (b : Bringup) (ops : List Op) : List Event :=
  match (soemInitialize ec b).1 with
  | none => (soemInitialize ec b).2
  | some h =>
    let r := run ec (some h) ops
    (soemInitialize ec b).2 ++ r.2 ++ soemShutdown ec r.1

theorem count_quiet_middle {p q r : List Event} (hq : Quiet q) {e : Event}
    (he : e.IsResource = true) : (p ++ q ++ r).count e = p.count e + r.count e := by
  rw [List.count_append, List.count_append, hq.count_eq_zero he, Nat.add_zero]

/-- **No block leaks and none is freed twice.** Bring-up returns NULL exactly when one of
its steps fails, the handle's allocation included; over every session, whether bring-up
failed or the handle went through any calls and was destroyed, each block is freed exactly
as often as it was allocated, at most once, and the stack is closed exactly when it was
brought up. A handle bring-up returns is live and owns the image, and teardown writes INIT
to the group before it closes the stack. -/
theorem soemInitialize_lifecycle (ec : EcConst) (b : Bringup) (ops : List Op) :
    ((soemInitialize ec b).1 = none ↔ ¬b.Succeeds) ∧
    Balanced (sessionTrace ec b ops) ∧
    ∀ h, (soemInitialize ec b).1 = some h →
      Live h ∧
      (∀ blk, (soemInitialize ec b).2.count (.alloc blk true) = 1 ∧
        (soemInitialize ec b).2.count (.free blk) = 0) ∧
      (∀ blk, (sessionTrace ec b ops).count (.alloc blk true) = 1) ∧
      ∃ pre post, sessionTrace ec b ops = pre ++ .writestate 0 ec.stateInit :: post ∧
        Event.close ∉ pre ∧ Event.close ∈ post := by
  by_cases hb : b.Succeeds
  · obtain ⟨hfst, rest, htr, hq⟩ := soemInitialize_of_succeeds ec hb
    -- between bring-up's allocations and teardown's frees every event is quiet
    have hcalls : Quiet (rest ++ (run ec (some (bringOperational ec b (probedHandle b)).1) ops).2) :=
      hq.append (run_quiet _ _ _)
    have hmid : Quiet (rest ++ (run ec (some (bringOperational ec b (probedHandle b)).1) ops).2 ++
        [.slave 0, .writestate 0 ec.stateInit]) :=
      hcalls.append (.of_all rfl)
    have hses : sessionTrace ec b ops = bringupPrefix ++
        (rest ++ (run ec (some (bringOperational ec b (probedHandle b)).1) ops).2 ++
          [.slave 0, .writestate 0 ec.stateInit]) ++ [.close, .free .IOmap, .free .handle] := by
      simp only [sessionTrace, hfst, htr, run_fst, soemShutdown, List.append_assoc,
        List.cons_append, List.nil_append]
    have hinit : ∀ e : Event, e.IsResource = true →
        (soemInitialize ec b).2.count e = bringupPrefix.count e := fun e he => by
      rw [htr, List.count_append, hq.count_eq_zero he, Nat.add_zero]
    refine ⟨soemInitialize_null_iff ec b, ?_,
      fun h hh => ⟨soemInitialize_live ec b hh, fun blk => ?_, fun blk => ?_, ?_⟩⟩
    · rw [hses]
      exact .of_quiet_middle hmid (by decide)
    · rw [hinit (.alloc blk true) rfl, hinit (.free blk) rfl]
      cases blk <;> decide
    · rw [hses, count_quiet_middle hmid (e := .alloc blk true) rfl]
      cases blk <;> decide
    · rw [hses]
      refine ⟨bringupPrefix ++ (rest ++ (run ec (some (bringOperational ec b (probedHandle b)).1)
        ops).2) ++ [.slave 0], [.close, .free .IOmap, .free .handle], by simp, ?_, by simp⟩
      intro hc
      rcases List.mem_append.mp hc with hc | hc
      · rcases List.mem_append.mp hc with hc | hc
        · exact absurd hc (by decide)
        · exact absurd (hcalls _ hc) (by decide)
      · exact absurd hc (by decide)
  · have hfail := soemInitialize_of_not_succeeds ec hb
    have hses : sessionTrace ec b ops = (soemInitialize ec b).2 := by
      simp only [sessionTrace, hfail.1]
    refine ⟨soemInitialize_null_iff ec b, hses ▸ hfail.2.1, fun h hh => ?_⟩
    rw [hfail.1] at hh
    cases hh

/-- Bring-up of the one-slave bus where only the handle's `calloc` fails: every other step
would succeed and the mapped size is in range, yet bring-up returns NULL. -/
theorem soemInitialize_null_on_handle_calloc :
    ({ demoBringup with handleAlloc := false } : Bringup).init = true ∧
      0 < ({ demoBringup with handleAlloc := false } : Bringup).slavesFound ∧
      ({ demoBringup with handleAlloc := false } : Bringup).iomapAlloc = true ∧
      0 < ({ demoBringup with handleAlloc := false } : Bringup).mapping.size ∧
      ({ demoBringup with handleAlloc := false } : Bringup).mapping.size ≤ 65536 ∧
      (soemInitialize soemEc { demoBringup with handleAlloc := false }).1 = none :=
  ⟨rfl, by decide, rfl, by decide, by decide, rfl⟩

/-! ## Health after any calls -/

/-- The probe exchange of bring-up, as a call. -/
def probeOp (b : Bringup) : Op := .exchange none 0 none 0 2000 b.probe

/-- The counters a handle leaves bring-up with: those of its probe exchange, over the `-1`
and `0` set after `calloc`. -/
theorem soemInitialize_counters (ec : EcConst) {b : Bringup} {h : Handle}
    (hh : (soemInitialize ec b).1 = some h) :
    h.lastWkc = (probeOp b).received.getLastD (-1) ∧
      h.lastExpectedWkc = if (probeOp b).received = [] then 0 else expectedWkc h.context.group := by
  have hb : b.Succeeds := by
    by_contra hb
    rw [(soemInitialize_null_iff ec b).mpr hb] at hh
    cases hh
  rw [(soemInitialize_of_succeeds ec hb).1] at hh
  cases hh
  have hc := (probeOp b).next_counters ec (stagedHandle b)
  have hg : (bringOperational ec b (probedHandle b)).1.context.group = (stagedHandle b).context.group := by
    rw [(bringOperational_layout ec b _).group, probedHandle, exchangeNext_context]
  exact ⟨hc.1, by rw [hg]; exact hc.2⟩

/-- A health record as the design describes it, for a handle `h` whose exchanges that got
past their send received `past`, read against the states `r`. -/
structure HealthReport (ec : EcConst) (h : Handle) (r : Readout) (past : List Int) (x : Health) :
    Prop where
  slavesFound : x.slavesFound = h.context.slavecount
  groupExpectedWkc :
    x.groupExpectedWkc = 2 * h.context.group.outputsWKC.toNat + h.context.group.inputsWKC.toNat
  cached : past ≠ [] → x.groupExpectedWkc = h.lastExpectedWkc
  lastWkc : x.lastWkc = past.getLastD (-1)
  bytesOut : x.bytesOut = h.context.group.Obytes.toNat
  bytesIn : x.bytesIn = h.context.group.Ibytes.toNat
  slavesOp : x.slavesOp = ((slaveRange h.context.slavecount).filter fun i =>
    ((h.context.readstate r).slavelist i).state = ec.stateOperational).length
  slavesOp_le : 0 ≤ x.slavesOp ∧ x.slavesOp ≤ x.slavesFound
  alStatusCode : x.alStatusCode =
    if 1 ≤ h.context.slavecount then ((h.context.readstate r).slavelist 1).ALstatuscode.toUInt32
    else 0

/-- **What a health query reports after any calls since bring-up.** It returns 1 with the
slave count, the group's expected counter (the cached one as soon as an exchange, the probe
included, got past its send), the receive result of the last such exchange or `-1`, the
group's sizes, the number of slaves freshly read as OPERATIONAL and slave 1's status code;
it writes no state and changes nothing but what `ecx_readstate` refreshes. -/
theorem soemGetHealth_after_run (ec : EcConst) (b : Bringup) {h₀ : Handle}
    (hh : (soemInitialize ec b).1 = some h₀) (ops : List Op) (x : Health) (r : Readout) :
    ∃ h, (run ec (some h₀) ops).1 = some h ∧
      ∃ report, (soemGetHealth ec (some h) (some x) r).ret = (1, some report) ∧
        HealthReport ec h r (receivedAll (probeOp b :: ops)) report ∧
        (soemGetHealth ec (some h) (some x) r).handle = some { h with context := h.context.readstate r } ∧
        ∀ i s, Event.writestate i s ∉ (soemGetHealth ec (some h) (some x) r).trace := by
  refine ⟨_, run_fst ec h₀ ops, ?_⟩
  have hl := runNext_live ec (soemInitialize_live ec b hh) ops
  have hk := runNext_keeps ec h₀ ops
  obtain ⟨hw₀, he₀⟩ := soemInitialize_counters ec hh
  obtain ⟨hw, he⟩ := runNext_counters ec h₀ ops
  rw [soemGetHealth_spec]
  refine ⟨_, rfl, ⟨rfl, ?_, fun hp => ?_, ?_, cInt_of_lt hl.Obytes_lt, cInt_of_lt hl.Ibytes_lt, rfl,
    ⟨Int.natCast_nonneg _, opCount_le ec r _ hl.populated.le⟩, rfl⟩, rfl, fun i s hi => ?_⟩
  · simp only [expectedWkc]
    omega
  · show expectedWkc _ = _
    rw [he, ← hk.layout.group]
    split
    · rw [he₀, if_neg]
      · rw [hk.layout.group]
      · intro hn
        exact hp (by simp only [receivedAll, hn, List.nil_append, ‹receivedAll ops = []›])
    · rfl
  · show (runNext ec h₀ ops).lastWkc = _
    rw [hw, hw₀, receivedAll, getLastD_append]
  · simp only [List.mem_append, List.mem_singleton, List.mem_map] at hi
    rcases hi with (hi | ⟨j, -, hj⟩) | hi
    · cases hi
    · cases hj
    · split at hi
      · cases List.mem_singleton.mp hi
      · cases hi

/-- The handle bring-up of the one-slave bus returns. -/
def demoSession : Handle := (bringOperational soemEc demoBringup (probedHandle demoBringup)).1

theorem soemGetHealth_after_run_demo :
    (soemInitialize soemEc demoBringup).1 = some demoSession ∧
      ∃ h, (run soemEc (some demoSession) []).1 = some h ∧
        ∃ report, (soemGetHealth soemEc (some h) (some ⟨0, 0, 0, 0, 0, 0, 0⟩)
            ⟨fun _ => 8, fun _ => 0⟩).ret = (1, some report) ∧
          HealthReport soemEc h ⟨fun _ => 8, fun _ => 0⟩ (receivedAll [probeOp demoBringup]) report ∧
          (soemGetHealth soemEc (some h) (some ⟨0, 0, 0, 0, 0, 0, 0⟩) ⟨fun _ => 8, fun _ => 0⟩).handle =
            some { h with context := h.context.readstate ⟨fun _ => 8, fun _ => 0⟩ } ∧
          ∀ i s, Event.writestate i s ∉ (soemGetHealth soemEc (some h) (some ⟨0, 0, 0, 0, 0, 0, 0⟩)
            ⟨fun _ => 8, fun _ => 0⟩).trace :=
  ⟨(soemInitialize_of_succeeds soemEc demoBringup_succeeds).1,
    soemGetHealth_after_run soemEc demoBringup
      (soemInitialize_of_succeeds soemEc demoBringup_succeeds).1 [] _ _⟩

/-- **The sizes a session reports never change.** After bring-up and any calls on the handle,
`soem_get_slave_count` returns the count `ecx_config_init` found and
`soem_get_process_sizes` returns 1 with the group's output and input sizes. -/
theorem soemGetProcessSizes_after_run (ec : EcConst) (b : Bringup) {h₀ : Handle}
    (hh : (soemInitialize ec b).1 = some h₀) (ops : List Op) (outputs inputs : Int) :
    soemGetSlaveCount (run ec (some h₀) ops).1 = b.slavesFound ∧
      soemGetProcessSizes (run ec (some h₀) ops).1 (some outputs) (some inputs) =
        (1, some (b.mapping.group.Obytes.toNat : Int), some (b.mapping.group.Ibytes.toNat : Int)) := by
  rw [run_fst]
  have hk := runNext_keeps ec h₀ ops
  have hl := runNext_live ec (soemInitialize_live ec b hh) ops
  have hlay := (soemInitialize_layout ec hh).trans hk.layout
  refine ⟨hlay.slavecount, ?_⟩
  simp only [soemGetProcessSizes, hl.outputLength, hl.inputLength, hlay.group]
  rfl

theorem soemGetProcessSizes_after_run_demo :
    (soemInitialize soemEc demoBringup).1 = some demoSession ∧
      soemGetSlaveCount (run soemEc (some demoSession) []).1 = 1 ∧
      soemGetProcessSizes (run soemEc (some demoSession) []).1 (some 0) (some 0) = (1, some 20, some 8) :=
  ⟨(soemInitialize_of_succeeds soemEc demoBringup_succeeds).1,
    soemGetProcessSizes_after_run soemEc demoBringup
      (soemInitialize_of_succeeds soemEc demoBringup_succeeds).1 [] 0 0⟩

end XeryonShim
