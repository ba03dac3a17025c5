import XeryonShim.Session

/-!
# The legacy shim

`src/native/soemshim/soem_shim.c` is an earlier variant of the shim. Its process image is a
4096-byte array inside the handle, its bring-up maps the group into that array without
looking at the size `ecx_config_map_group` returns, and its exchange copies
`min(outputs_length, (int)Obytes)` bytes into the output region and
`min(inputs_length, (int)Ibytes)` bytes out of the input region.

* `soemInitialize_fst_isSome`: bring-up returns a handle whatever size the stack mapped;
* `exchange_touches_regions`: each copy of an exchange stays at the start of its own region,
  so `soemExchangeProcessData_within_mapping`: an exchange touches only the mapped region;
* `soemExchangeProcessData_overruns`: so a bus whose image exceeds 4096 bytes makes an
  exchange write past the array;
* `session_within_array_iff`: a session, bring-up and any sequence of exchanges, stays
  inside the array exactly when the bus's mapped outputs and inputs fit it;
* `lifecycle_balanced`: bring-up, any calls that allocate nothing, and teardown free the
  handle exactly as often as it was allocated and close the stack exactly when it came up.
-/

namespace XeryonShim.Legacy

/-- `soem_handle_t` of the legacy shim: the stack's context, the 4096-byte process image
and the cached process sizes. -/
structure LegacyHandle where
  context : Context
  IOmap : Bytes
  outputLength : Int
  inputLength : Int

/-- The length of the handle's `IOmap` array. -/
def iomapLength : Nat := 4096

/-- What the allocator and the stack answer during the legacy `soem_initialize`. -/
structure LegacyBringup where
  handleAlloc : Bool
  init : Bool
  slavesFound : Int
  mapping : Mapping
  safeOp : StateReply
  operational : StateReply

/-- `soem_initialize(ifname)` of the legacy shim: the return of `ecx_config_map_group` is
dropped. -/
def soemInitialize (ec : EcConst) (b : LegacyBringup) : Option LegacyHandle × List Event :=
  if ¬b.handleAlloc then (none, [.alloc .handle false]) else
  let t := [Event.alloc .handle true, .init b.init]
  if ¬b.init then (none, t ++ [.free .handle]) else
  let t := t ++ [.configInit]
  if b.slavesFound ≤ 0 then (none, t ++ [.close, .free .handle]) else
  let c : Context :=
    { slavecount := b.slavesFound, slavelist := b.mapping.slavelist, group := b.mapping.group }
  let c := c.statecheck 0 b.safeOp
  let c := c.setState 0 ec.stateOperational
  let c := c.statecheck 0 b.operational
  (some ⟨c, fun _ => 0, cInt c.group.Obytes, cInt c.group.Ibytes⟩,
    t ++ [.configMapGroup, .configdc, .statecheck 0 ec.stateSafeOp (ec.timeoutState * 4),
      .slave 0, .writestate 0 ec.stateOperational,
      .statecheck 0 ec.stateOperational ec.timeoutState])

/-- The output copy of the legacy exchange: no zeroing, `(size_t)copy` bytes. -/
def stageOutputs (g : Group) (m : Bytes) (outputs : Option Bytes) (outputsLength : Int) :
    Bytes × List Event :=
  match outputs with
  | some src =>
    if 0 < outputsLength ∧ g.Obytes ≠ 0 then
      let copy := if cInt g.Obytes < outputsLength then cInt g.Obytes else outputsLength
      (m.copy g.outputs src 0 (sizeT copy),
        [.touch .IOmap g.outputs (sizeT copy), .touch .outputs 0 (sizeT copy)])
    else (m, [])
  | none => (m, [])

/-- With caller outputs of positive length and an output region below `2 ^ 31` bytes, the
legacy staging copies the payload's first `min(outputs_length, Obytes)` bytes to the start
of the region and leaves every other byte. -/
theorem stageOutputs_apply (g : Group) (m src : Bytes) {outputsLength : Int}
    (hlen : 0 < outputsLength) (hO : g.Obytes.toNat < 2 ^ 31) (k : Nat) :
    (stageOutputs g m (some src) outputsLength).1 k =
      if g.outputs ≤ k ∧ k < g.outputs + min outputsLength.toNat g.Obytes.toNat then
        src (k - g.outputs)
      else m k := by
  by_cases hz : g.Obytes = 0
  · simp only [stageOutputs, hz, ne_eq, not_true_eq_false, and_false, if_false,
      UInt32.toNat_zero, Nat.min_zero, Nat.add_zero]
    rw [if_neg (by omega)]
  · simp only [stageOutputs, hlen, ne_eq, hz, not_false_eq_true, and_self, if_true,
      Bytes.copy_apply, Nat.zero_add, cInt_of_lt hO]
    rw [show sizeT (if (g.Obytes.toNat : Int) < outputsLength then (g.Obytes.toNat : Int)
        else outputsLength) = min outputsLength.toNat g.Obytes.toNat by
      split <;> rw [sizeT_of_nonneg (by omega) (by omega)] <;> omega]

/-- The input copy of the legacy exchange. -/
def copyInputs (g : Group) (m : Bytes) (inputs : Option Bytes) (inputsLength : Int) :
    Option Bytes × List Event :=
  match inputs with
  | some dst =>
    if 0 < inputsLength ∧ g.Ibytes ≠ 0 then
      let copy := if cInt g.Ibytes < inputsLength then cInt g.Ibytes else inputsLength
      (some (dst.copy 0 m g.inputs (sizeT copy)),
        [.touch .IOmap g.inputs (sizeT copy), .touch .inputs 0 (sizeT copy)])
    else (inputs, [])
  | none => (inputs, [])

/-- `soem_exchange_process_data(handle, outputs, outputs_length, inputs, inputs_length,
timeout)` of the legacy shim: the result with the caller's `inputs` afterwards, the handle
afterwards and the events. -/
def soemExchangeProcessData (handle : Option LegacyHandle) (outputs : Option Bytes)
    (outputsLength : Int) (inputs : Option Bytes) (inputsLength : Int) (timeout : Int)
    (bus : Cycle) : (Int × Option Bytes) × Option LegacyHandle × List Event :=
  match handle with
  | none => ((-1, inputs), none, [])
  | some h =>
    let g := h.context.group
    let staged := stageOutputs g h.IOmap outputs outputsLength
    if bus.sent < 0 then ((bus.sent, inputs), some { h with IOmap := staged.1 }, staged.2 ++ [.send])
    else
      let image := receiveImage g staged.1 bus
      let copied := copyInputs g image inputs inputsLength
      ((bus.received, copied.1), some { h with IOmap := image },
        staged.2 ++ [.send, .receive timeout] ++ copied.2)

/-- `soem_shutdown(handle)` of the legacy shim: INIT written to the group, the stack closed
and the handle, with the image inside it, freed. -/
def soemShutdown (ec : EcConst) (handle : Option LegacyHandle) : List Event :=
  match handle with
  | none => []
  | some _ => [.slave 0, .writestate 0 ec.stateInit, .close, .free .handle]

/-- `soem_get_slave_count(handle)` of the legacy shim. -/
def soemGetSlaveCount (handle : Option LegacyHandle) : Int :=
  match handle with
  | none => 0
  | some h => h.context.slavecount

/-- `soem_get_process_sizes(handle, outputs, inputs)` of the legacy shim: the return value and
`*outputs`, `*inputs` afterwards. -/
def soemGetProcessSizes (handle : Option LegacyHandle) (outputs inputs : Option Int) :
    Int × Option Int × Option Int :=
  match handle, outputs, inputs with
  | some h, some _, some _ => (1, some h.outputLength, some h.inputLength)
  | _, _, _ => (0, outputs, inputs)

/-! ## Bring-up ignores the mapped size -/

/-- When bring-up returns a handle: the allocation and `ecx_init` succeed and slaves are
found. -/
theorem soemInitialize_fst_isSome (ec : EcConst) (b : LegacyBringup) :
    (soemInitialize ec b).1.isSome = (b.handleAlloc && b.init && decide (0 < b.slavesFound)) := by
  unfold soemInitialize
  by_cases h : 0 < b.slavesFound
  · cases b.handleAlloc <;> cases b.init <;> simp [h, Int.not_le.mpr h]
  · cases b.handleAlloc <;> cases b.init <;> simp [h, Int.not_lt.mp h]

/-! ## What an exchange touches -/

/-- Either copy of the legacy exchange touches the image only at the start `base` of its
region, for `(size_t)copy` bytes, which on a region below `2 ^ 31` bytes are at most `n`. -/
theorem copy_touches_le {base off len : Nat} {n : UInt32} {length : Int} {b : Buf}
    (hb : b ≠ .IOmap) (hn : n.toNat < 2 ^ 31) (hlength : 0 < length)
    (he : Event.touch .IOmap off len ∈
      [.touch .IOmap base (sizeT (if cInt n < length then cInt n else length)),
        .touch b 0 (sizeT (if cInt n < length then cInt n else length))]) :
    off = base ∧ len ≤ n.toNat := by
  have hcopy : sizeT (if cInt n < length then cInt n else length) ≤ n.toNat := by
    rw [cInt_of_lt hn]
    split <;> rw [sizeT_of_nonneg (by omega) (by omega)] <;> omega
  simp only [List.mem_cons, Event.touch.injEq, List.mem_singleton, List.not_mem_nil,
    or_false] at he
  rcases he with ⟨-, rfl, rfl⟩ | ⟨hb', -, -⟩
  · exact ⟨rfl, hcopy⟩
  · exact absurd hb'.symm hb

/-- The step of a legacy session: on regions below `2 ^ 31` bytes, every image range an
exchange touches starts its group's output region and spans at most `Obytes` bytes, or
starts the input region and spans at most `Ibytes` bytes. -/
theorem exchange_touches_regions (h : LegacyHandle)
    (hO : h.context.group.Obytes.toNat < 2 ^ 31) (hI : h.context.group.Ibytes.toNat < 2 ^ 31)
    (outputs : Option Bytes) (outputsLength : Int) (inputs : Option Bytes) (inputsLength timeout : Int)
    (bus : Cycle) :
    ∀ off len, Event.touch .IOmap off len ∈
        (soemExchangeProcessData (some h) outputs outputsLength inputs inputsLength timeout bus).2.2 →
      (off = h.context.group.outputs ∧ len ≤ h.context.group.Obytes.toNat) ∨
        (off = h.context.group.inputs ∧ len ≤ h.context.group.Ibytes.toNat) := by
  have hstage : ∀ off len, Event.touch .IOmap off len ∈
      (stageOutputs h.context.group h.IOmap outputs outputsLength).2 →
        off = h.context.group.outputs ∧ len ≤ h.context.group.Obytes.toNat := by
    intro off len he
    unfold stageOutputs at he
    split at he
    · split at he
      · exact copy_touches_le (by decide) hO ‹_ ∧ _›.1 he
      · cases he
    · cases he
  have hcopy : ∀ m off len, Event.touch .IOmap off len ∈
      (copyInputs h.context.group m inputs inputsLength).2 →
        off = h.context.group.inputs ∧ len ≤ h.context.group.Ibytes.toNat := by
    intro m off len he
    unfold copyInputs at he
    split at he
    · split at he
      · exact copy_touches_le (by decide) hI ‹_ ∧ _›.1 he
      · cases he
    · cases he
  intro off len he
  simp only [soemExchangeProcessData] at he
  split at he
  · rcases List.mem_append.mp he with he | he
    · exact .inl (hstage off len he)
    · simp at he
  · simp only [List.mem_append] at he
    rcases he with (he | he) | he
    · exact .inl (hstage off len he)
    · simp at he
    · exact .inr (hcopy _ off len he)

/-- On a mapping, the start of either region plus at most its length ends inside the mapped
region `[0, Obytes + Ibytes)`. -/
theorem end_le_of_regions {g : Group} {slaves : Nat → Slave} {size : Int}
    (hm : Mapped g slaves size) {off len : Nat}
    (h : (off = g.outputs ∧ len ≤ g.Obytes.toNat) ∨ (off = g.inputs ∧ len ≤ g.Ibytes.toNat)) :
    off + len ≤ g.Obytes.toNat + g.Ibytes.toNat := by
  have := hm.outputs_at
  have := hm.inputs_at
  omega

/-- **An exchange touches only the mapped region.** On a mapping within `2 ^ 31` bytes,
every byte of the image the legacy exchange reads or writes lies in the group's mapped
region `[0, Obytes + Ibytes)`: within the 4096-byte array exactly when the mapping is. -/
theorem soemExchangeProcessData_within_mapping (h : LegacyHandle) {size : Int}
    (hm : Mapped h.context.group h.context.slavelist size) (hsize : size < 2 ^ 31)
    (outputs : Option Bytes) (outputsLength : Int) (inputs : Option Bytes) (inputsLength timeout : Int)
    (bus : Cycle) :
    ∀ off len, Event.touch .IOmap off len ∈
        (soemExchangeProcessData (some h) outputs outputsLength inputs inputsLength timeout bus).2.2 →
      off + len ≤ h.context.group.Obytes.toNat + h.context.group.Ibytes.toNat := by
  have hfit := hm.fits
  exact fun off len he => end_le_of_regions hm (exchange_touches_regions h (by omega) (by omega)
    outputs outputsLength inputs inputsLength timeout bus off len he)

/-! ## A bus larger than the array -/

/-- One slave with 5000 output bytes and 8 input bytes: the stack maps 5008 bytes. -/
def wideMapping : Mapping where
  size := 5008
  group := ⟨0, 5000, 5000, 8, 1, 1⟩
  slavelist := fun _ =>
    { state := 0, ALstatuscode := 0, Obytes := 5000, outputs := some 0, Ibytes := 8,
      inputs := some 5000, eepMan := 0, eepId := 0, eepRev := 0, name := fun _ => 0 }
  size_lt := by decide
  mapped :=
    { outputs_at := rfl
      inputs_at := rfl
      fits := by decide
      slave_outputs := by rintro _ _ ⟨⟩; exact (by decide : 0 + 5000 ≤ 5000)
      slave_inputs := by rintro _ _ ⟨⟩; exact (by decide : 5000 ≤ 5000 ∧ 5000 + 8 ≤ 5000 + 8) }

/-- A bring-up on that bus where every call succeeds. -/
def wideBringup : LegacyBringup where
  handleAlloc := true
  init := true
  slavesFound := 1
  mapping := wideMapping
  safeOp := ⟨4, 4⟩
  operational := ⟨8, 8⟩

/-- A legacy handle on that bus. -/
def wideLegacyHandle : LegacyHandle :=
  ⟨{ slavecount := 1, slavelist := wideMapping.slavelist, group := wideMapping.group },
    fun _ => 0, 5000, 8⟩

/-- On that handle an exchange of 5000 output bytes stays within the 5008 mapped bytes. -/
theorem soemExchangeProcessData_within_mapping_wide :
    Mapped wideLegacyHandle.context.group wideLegacyHandle.context.slavelist wideMapping.size ∧
      wideMapping.size < 2 ^ 31 ∧
      Event.touch .IOmap 0 5000 ∈
        (soemExchangeProcessData (some wideLegacyHandle) (some fun _ => 0) 5000 none 0 1000
          ⟨1, 3, fun m => m⟩).2.2 ∧
      0 + 5000 ≤ wideLegacyHandle.context.group.Obytes.toNat + wideLegacyHandle.context.group.Ibytes.toNat :=
  ⟨wideMapping.mapped, by decide, by decide,
    soemExchangeProcessData_within_mapping wideLegacyHandle wideMapping.mapped (by decide)
      (some fun _ => 0) 5000 none 0 1000 ⟨1, 3, fun m => m⟩ 0 5000 (by decide)⟩

/-- **The legacy exchange writes past the array.** Bring-up returns a handle for the 5008-byte
mapping, and an exchange with 5000 output bytes copies them into `IOmap[0, 5000)`. -/
theorem soemExchangeProcessData_overruns :
    ∃ h, (soemInitialize soemEc wideBringup).1 = some h ∧
      Event.touch .IOmap 0 5000 ∈
        (soemExchangeProcessData (some h) (some fun _ => 0) 5000 none 0 1000 ⟨1, 3, fun m => m⟩).2.2 ∧
      iomapLength < 0 + 5000 :=
  ⟨_, (Option.some_get (by decide)).symm, by decide, by decide⟩

/-! ## Sessions -/

/-- The arguments of one legacy exchange and the stack's round during it. -/
structure ExchangeCall where
  outputs : Option Bytes
  outputsLength : Int
  inputs : Option Bytes
  inputsLength : Int
  timeout : Int
  bus : Cycle

/-- The exchange `x` on the handle `h`. -/
def ExchangeCall.run (h : LegacyHandle) (x : ExchangeCall) :
    (Int × Option Bytes) × Option LegacyHandle × List Event :=
  soemExchangeProcessData (some h) x.outputs x.outputsLength x.inputs x.inputsLength x.timeout x.bus

/-- A sequence of exchanges on one handle: the handle afterwards and every event in order.
The legacy shim's other calls on a handle change nothing in it and touch no image byte. -/
def runExchanges (h : LegacyHandle) : List ExchangeCall → LegacyHandle × List Event
  | [] => (h, [])
  | x :: rest =>
    let r := x.run h
    let s := runExchanges (r.2.1.getD h) rest
    (s.1, r.2.2 ++ s.2)

/-- An exchange changes only the image of the handle. -/
theorem ExchangeCall.run_handle (h : LegacyHandle) (x : ExchangeCall) :
    ∃ m, (x.run h).2.1 = some { h with IOmap := m } := by
  simp only [ExchangeCall.run, soemExchangeProcessData]
  split <;> exact ⟨_, rfl⟩

/-- Every exchange of a session on a mapping within `2 ^ 31` bytes touches only
`[0, Obytes + Ibytes)`. -/
theorem runExchanges_touch_le (h : LegacyHandle) {size : Int}
    (hm : Mapped h.context.group h.context.slavelist size) (hsize : size < 2 ^ 31)
    (calls : List ExchangeCall) : ∀ off len, Event.touch .IOmap off len ∈ (runExchanges h calls).2 →
      off + len ≤ h.context.group.Obytes.toNat + h.context.group.Ibytes.toNat := by
  induction calls generalizing h with
  | nil => exact fun _ _ he => absurd he (List.not_mem_nil _)
  | cons x rest ih =>
    intro off len he
    obtain ⟨m, hx⟩ := x.run_handle h
    simp only [runExchanges, hx, Option.getD_some, List.mem_append] at he
    rcases he with he | he
    · have hfit := hm.fits
      exact end_le_of_regions hm (exchange_touches_regions h (by omega) (by omega) _ _ _ _ _ _ off len he)
    · exact ih { h with IOmap := m } hm off len he

/-- The handle bring-up returns carries the stack's group and its mapping. -/
theorem soemInitialize_some {ec : EcConst} {b : LegacyBringup} {h : LegacyHandle}
    (hb : (soemInitialize ec b).1 = some h) :
    h.context.group = b.mapping.group ∧ Mapped h.context.group h.context.slavelist b.mapping.size := by
  unfold soemInitialize at hb
  split_ifs at hb
  cases hb
  exact ⟨rfl, Mapped.of_sameLayout (((Context.sameLayout_statecheck _ _ _).trans
    (Context.sameLayout_setState _ _ _)).trans (Context.sameLayout_statecheck _ _ _))
    b.mapping.mapped⟩

/-- Bring-up touches no byte of the image. -/
theorem soemInitialize_no_touch (ec : EcConst) (b : LegacyBringup) (buf : Buf) (off len : Nat) :
    Event.touch buf off len ∉ (soemInitialize ec b).2 := by
  unfold soemInitialize
  split_ifs <;> simp

/-- One exchange moving the whole output region out and the whole input region in. -/
def fullCall (g : Group) : ExchangeCall :=
  ⟨some fun _ => 0, g.Obytes.toNat, some fun _ => 0, g.Ibytes.toNat, 0, ⟨0, 0, id⟩⟩

/-- That exchange reaches the end of the mapped region. -/
theorem fullCall_touch (h : LegacyHandle) {size : Int}
    (hm : Mapped h.context.group h.context.slavelist size) (hsize : size < 2 ^ 31)
    (hpos : 0 < h.context.group.Obytes.toNat + h.context.group.Ibytes.toNat) :
    ∃ off len, Event.touch .IOmap off len ∈ ((fullCall h.context.group).run h).2.2 ∧
      off + len = h.context.group.Obytes.toNat + h.context.group.Ibytes.toNat := by
  have hfit := hm.fits
  have hO : h.context.group.Obytes.toNat < 2 ^ 31 := by omega
  have hI : h.context.group.Ibytes.toNat < 2 ^ 31 := by omega
  have hcopy : ∀ n : UInt32, n.toNat < 2 ^ 31 →
      sizeT (if cInt n < (n.toNat : Int) then cInt n else (n.toNat : Int)) = n.toNat := fun n hn => by
    rw [cInt_of_lt hn, if_neg (Int.lt_irrefl _), sizeT_of_nonneg (by omega) (by omega)]
    rfl
  by_cases hI0 : h.context.group.Ibytes = 0
  · have hO0 : h.context.group.Obytes ≠ 0 := fun h0 => by simp [h0, hI0] at hpos
    refine ⟨h.context.group.outputs, h.context.group.Obytes.toNat, ?_, by simp [hm.outputs_at, hI0]⟩
    simp only [ExchangeCall.run, soemExchangeProcessData, fullCall, stageOutputs, hcopy _ hO]
    simp [hO0, toNat_pos_of_ne_zero hO0]
  · refine ⟨h.context.group.inputs, h.context.group.Ibytes.toNat, ?_, by rw [hm.inputs_at]⟩
    simp only [ExchangeCall.run, soemExchangeProcessData, fullCall, copyInputs, hcopy _ hI]
    simp [hI0, toNat_pos_of_ne_zero hI0]

/-- **A legacy session stays inside the array exactly when the bus fits it.** For a bring-up
that returns a handle, the bring-up and every sequence of exchanges on the handle, with any
arguments and any answers of the stack, touch only `IOmap[0, 4096)` if and only if the
group's mapped outputs and inputs together take at most 4096 bytes. -/
theorem session_within_array_iff (ec : EcConst) {b : LegacyBringup} {h : LegacyHandle}
    (hb : (soemInitialize ec b).1 = some h) :
    (∀ calls : List ExchangeCall, ∀ off len,
        Event.touch .IOmap off len ∈ (soemInitialize ec b).2 ++ (runExchanges h calls).2 →
          off + len ≤ iomapLength) ↔
      b.mapping.group.Obytes.toNat + b.mapping.group.Ibytes.toNat ≤ iomapLength := by
  obtain ⟨hg, hm⟩ := soemInitialize_some hb
  have hsize := b.mapping.size_lt
  rw [← hg]
  constructor
  · intro hall
    by_contra hbig
    obtain ⟨off, len, he, hend⟩ := fullCall_touch h hm hsize (by simp only [iomapLength] at hbig; omega)
    have := hall [fullCall h.context.group] off len
      (List.mem_append_right _ (by simpa [runExchanges] using he))
    omega
  · intro hfit calls off len he
    rcases List.mem_append.mp he with he | he
    · exact absurd he (soemInitialize_no_touch ec b _ _ _)
    · have := runExchanges_touch_le h hm hsize calls off len he
      omega

/-- On the 5008-byte bus of `wideBringup` no session bound holds. -/
theorem session_within_array_iff_wide :
    (soemInitialize soemEc wideBringup).1 =
        some ((soemInitialize soemEc wideBringup).1.getD wideLegacyHandle) ∧
      ((∀ calls : List ExchangeCall, ∀ off len,
        Event.touch .IOmap off len ∈ (soemInitialize soemEc wideBringup).2 ++
          (runExchanges ((soemInitialize soemEc wideBringup).1.getD wideLegacyHandle) calls).2 →
            off + len ≤ iomapLength) ↔
        wideBringup.mapping.group.Obytes.toNat + wideBringup.mapping.group.Ibytes.toNat ≤
          iomapLength) :=
  ⟨rfl, session_within_array_iff soemEc rfl⟩

/-! ## Create and destroy -/

/-- A legacy exchange allocates and releases nothing. -/
theorem soemExchangeProcessData_quiet (handle : Option LegacyHandle) (outputs : Option Bytes)
    (outputsLength : Int) (inputs : Option Bytes) (inputsLength timeout : Int) (bus : Cycle) :
    Quiet (soemExchangeProcessData handle outputs outputsLength inputs inputsLength timeout
      bus).2.2 := by
  have hs : ∀ g m, Quiet (stageOutputs g m outputs outputsLength).2 := by
    intro g m
    unfold stageOutputs
    repeat' split
    all_goals exact .of_all (by rfl)
  have hc : ∀ g m, Quiet (copyInputs g m inputs inputsLength).2 := by
    intro g m
    unfold copyInputs
    repeat' split
    all_goals exact .of_all (by rfl)
  cases handle with
  | none => exact .of_all rfl
  | some h =>
    simp only [soemExchangeProcessData]
    split
    · exact (hs _ _).append (.of_all (by rfl))
    · exact ((hs _ _).append (.of_all (by rfl))).append (hc _ _)

/-- **The legacy shim leaks nothing.** Whatever the allocator and the stack answer, a bring-up,
any calls that allocate and release nothing (as every exchange does), and the teardown of
the handle bring-up returned free the handle exactly as often as it was allocated, allocate
it at most once, and close the stack exactly when it was brought up. -/
theorem lifecycle_balanced (ec : EcConst) (b : LegacyBringup) {t : List Event}
    (ht : Quiet t) :
    Balanced ((soemInitialize ec b).2 ++ t ++ soemShutdown ec (soemInitialize ec b).1) := by
  cases h₁ : b.handleAlloc
  · simp only [soemInitialize, h₁, Bool.false_eq_true, not_false_eq_true, if_true, soemShutdown]
    exact .of_quiet_middle ht (by decide)
  cases h₂ : b.init
  · simp only [soemInitialize, h₁, h₂, Bool.false_eq_true, not_false_eq_true, not_true_eq_false,
      if_true, if_false, soemShutdown]
    exact .of_quiet_middle ht (by decide)
  by_cases h₃ : b.slavesFound ≤ 0
  · simp only [soemInitialize, h₁, h₂, h₃, not_true_eq_false, if_true, if_false, soemShutdown]
    exact .of_quiet_middle ht (by decide)
  simp only [soemInitialize, h₁, h₂, h₃, not_true_eq_false, not_false_eq_true, if_false,
    soemShutdown, List.append_assoc, List.cons_append, List.nil_append]
  -- between the stack's bring-up and its close only quiet events happen
  have hq : Quiet ([.configMapGroup, .configdc, .statecheck 0 ec.stateSafeOp (ec.timeoutState * 4),
      .slave 0, .writestate 0 ec.stateOperational, .statecheck 0 ec.stateOperational ec.timeoutState] ++
      t ++ [.slave 0, .writestate 0 ec.stateInit]) :=
    ((Quiet.of_all (by rfl)).append ht).append (.of_all (by rfl))
  have := Balanced.of_quiet_middle (p := [.alloc .handle true, .init true, .configInit])
    (r := [.close, .free .handle]) hq (by decide)
  simpa only [List.append_assoc, List.cons_append, List.nil_append] using this

/-- Bring-up on the wide bus followed at once by teardown. -/
theorem lifecycle_balanced_wide :
    Quiet [] ∧ Balanced ((soemInitialize soemEc wideBringup).2 ++ [] ++
      soemShutdown soemEc (soemInitialize soemEc wideBringup).1) :=
  ⟨.of_all rfl, lifecycle_balanced soemEc wideBringup (.of_all rfl)⟩

end XeryonShim.Legacy
