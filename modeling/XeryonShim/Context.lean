import XeryonShim.Basic

/-!
# The stack's context, the session handle and what a call leaves

The shim keeps a protocol-stack context and a process image in one handle (`soem_handle_t`
of `soem_shim.h`). Of the stack's context it uses `slavecount`, the slave table `slavelist`
(entry 0 stands for the whole group) and group 0; a pointer into the process image is an
`IOmap` offset here, and `none` where the pointer may be NULL.

The stack is not part of the repository. Each of its calls is answered by an explicit
value: a `Cycle` for a send/receive round, a `StateReply` for `ecx_statecheck`, a `Readout`
for `ecx_readstate` and a `Mapping` for `ecx_config_map_group`. What the stack promises
about a mapping travels with it (`Mapped`), and a receive writes only the group's input
region (`receiveImage`).

A call leaves an `Outcome`: its return value, the handle afterwards and its `Event`s in
order, which are every stack and allocator call, every `slavelist` entry the shim uses and
every byte range of a buffer it reads or writes.
-/

namespace XeryonShim

/-- The constants of the stack's headers that the shim uses (`EC_STATE_*`,
`EC_TIMEOUTSTATE`, `EC_MAXNAME`). The headers are not in the repository, so they are
parameters of the model. -/
structure EcConst where
  stateInit : UInt16
  stateSafeOp : UInt16
  stateOperational : UInt16
  stateAck : UInt16
  stateError : UInt16
  timeoutState : Int
  maxName : Nat

/-- The values the stack's headers give these constants. -/
def soemEc : EcConst where
  stateInit := 0x01
  stateSafeOp := 0x04
  stateOperational := 0x08
  stateAck := 0x10
  stateError := 0x10
  timeoutState := 2000000
  maxName := 40

/-- The fields of the stack's `ec_slavet` that the shim reads or writes. -/
structure Slave where
  state : UInt16
  ALstatuscode : UInt16
  Obytes : UInt32
  outputs : Option Nat
  Ibytes : UInt32
  inputs : Option Nat
  eepMan : UInt32
  eepId : UInt32
  eepRev : UInt32
  name : Bytes

/-- The fields of `ec_groupt` that the shim reads; only group 0 is used. -/
structure Group where
  outputs : Nat
  Obytes : UInt32
  inputs : Nat
  Ibytes : UInt32
  outputsWKC : UInt16
  inputsWKC : UInt16

/-- The part of `ecx_contextt` the shim uses; `group` is `grouplist[0]`. -/
structure Context where
  slavecount : Int
  slavelist : Nat → Slave
  group : Group

/-- `soem_handle_t` of the Linux shim. -/
structure Handle where
  context : Context
  IOmap : Bytes
  outputLength : Int
  inputLength : Int
  lastWkc : Int
  lastExpectedWkc : Int

/-- The slave indices of a loop `for (int i = 1; i <= n; ++i)`. -/
def slaveRange (n : Int) : List Nat := List.range' 1 n.toNat

theorem mem_slaveRange {n : Int} {i : Nat} : i ∈ slaveRange n ↔ 1 ≤ i ∧ (i : Int) ≤ n := by
  simp only [slaveRange, List.mem_range'_1]
  omega

/-- The working counter group 0 expects from one frame,
`(int)(g->outputsWKC * 2 + g->inputsWKC)`, computed in `int`. -/
def expectedWkc (g : Group) : Int := g.outputsWKC.toNat * 2 + g.inputsWKC.toNat

/-- `c.slavelist[i].state = s`. -/
def Context.setState (c : Context) (i : Nat) (s : UInt16) : Context :=
  { c with slavelist := fun j => if j = i then { c.slavelist j with state := s } else c.slavelist j }

@[simp] theorem Context.setState_slavecount (c : Context) (i : Nat) (s : UInt16) :
    (c.setState i s).slavecount = c.slavecount := rfl

@[simp] theorem Context.setState_group (c : Context) (i : Nat) (s : UInt16) :
    (c.setState i s).group = c.group := rfl

@[simp] theorem Context.setState_slavelist_of_ne (c : Context) {i j : Nat} (s : UInt16)
    (h : j ≠ i) : (c.setState i s).slavelist j = c.slavelist j := by
  simp [Context.setState, h]

@[simp] theorem Context.setState_slavelist_self (c : Context) (i : Nat) (s : UInt16) :
    (c.setState i s).slavelist i = { c.slavelist i with state := s } := by
  simp [Context.setState]

/-- What `ecx_readstate` reads back for every entry: its AL state and AL status code. -/
structure Readout where
  state : Nat → UInt16
  ALstatuscode : Nat → UInt16

/-- The context after `ecx_readstate`. -/
def Context.readstate (c : Context) (r : Readout) : Context :=
  { c with slavelist := fun i =>
      { c.slavelist i with state := r.state i, ALstatuscode := r.ALstatuscode i } }

/-- What `ecx_statecheck` on one entry answers: the state it returns and the AL status it
leaves in that entry (the only entry it refreshes). -/
structure StateReply where
  ret : UInt16
  status : UInt16

/-- The context after `ecx_statecheck` on entry `i`. -/
def Context.statecheck (c : Context) (i : Nat) (r : StateReply) : Context :=
  c.setState i r.status

/-- Two slaves have the same identity and the same process-image regions. -/
structure Slave.SameRegions (s t : Slave) : Prop where
  Obytes : t.Obytes = s.Obytes
  outputs : t.outputs = s.outputs
  Ibytes : t.Ibytes = s.Ibytes
  inputs : t.inputs = s.inputs

/-- Two contexts differ at most in the slaves' states and status codes. -/
structure Context.SameLayout (c d : Context) : Prop where
  slavecount : d.slavecount = c.slavecount
  group : d.group = c.group
  slave : ∀ i, (c.slavelist i).SameRegions (d.slavelist i)

theorem Context.SameLayout.refl (c : Context) : c.SameLayout c :=
  ⟨rfl, rfl, fun _ => ⟨rfl, rfl, rfl, rfl⟩⟩

theorem Context.SameLayout.trans {c d e : Context} (h₁ : c.SameLayout d) (h₂ : d.SameLayout e) :
    c.SameLayout e :=
  ⟨h₂.slavecount.trans h₁.slavecount, h₂.group.trans h₁.group, fun i =>
    ⟨(h₂.slave i).Obytes.trans (h₁.slave i).Obytes, (h₂.slave i).outputs.trans (h₁.slave i).outputs,
      (h₂.slave i).Ibytes.trans (h₁.slave i).Ibytes, (h₂.slave i).inputs.trans (h₁.slave i).inputs⟩⟩

theorem Context.sameLayout_setState (c : Context) (i : Nat) (s : UInt16) :
    c.SameLayout (c.setState i s) := by
  refine ⟨rfl, rfl, fun j => ?_⟩
  by_cases h : j = i <;> simp [Context.setState, h] <;> exact ⟨rfl, rfl, rfl, rfl⟩

theorem Context.sameLayout_readstate (c : Context) (r : Readout) :
    c.SameLayout (c.readstate r) :=
  ⟨rfl, rfl, fun _ => ⟨rfl, rfl, rfl, rfl⟩⟩

theorem Context.sameLayout_statecheck (c : Context) (i : Nat) (r : StateReply) :
    c.SameLayout (c.statecheck i r) :=
  c.sameLayout_setState i r.status

/-! ## The process image -/

/-- One send/receive round: what `ecx_send_processdata` and `ecx_receive_processdata`
return, and the bytes the receive delivers into the group's input region, as a function of
the image it finds. -/
structure Cycle where
  sent : Int
  received : Int
  deliver : Bytes → Bytes

/-- The process image after `ecx_receive_processdata`: the group's input region holds what
the bus delivered and every other byte is unchanged. -/
def receiveImage (g : Group) (m : Bytes) (c : Cycle) : Bytes :=
  m.copy g.inputs (c.deliver m) g.inputs g.Ibytes.toNat

/-- The stack's promise about a mapping of `size` bytes: group 0's outputs at offset 0 and
its inputs right after them, both within `size`, and each slave's regions inside the
group's. -/
structure Mapped (g : Group) (slaves : Nat → Slave) (size : Int) : Prop where
  outputs_at : g.outputs = 0
  inputs_at : g.inputs = g.Obytes.toNat
  fits : (g.Obytes.toNat + g.Ibytes.toNat : Int) ≤ size
  slave_outputs : ∀ i o, (slaves i).outputs = some o →
    o + (slaves i).Obytes.toNat ≤ g.Obytes.toNat
  slave_inputs : ∀ i o, (slaves i).inputs = some o →
    g.Obytes.toNat ≤ o ∧ o + (slaves i).Ibytes.toNat ≤ g.Obytes.toNat + g.Ibytes.toNat

theorem Mapped.of_sameLayout {c d : Context} {size : Int} (h : c.SameLayout d)
    (hm : Mapped c.group c.slavelist size) : Mapped d.group d.slavelist size := by
  obtain ⟨-, hg, hs⟩ := h
  rw [hg]
  refine ⟨hm.outputs_at, hm.inputs_at, hm.fits, fun i o ho => ?_, fun i o ho => ?_⟩
  · rw [(hs i).Obytes]
    exact hm.slave_outputs i o ((hs i).outputs.symm.trans ho)
  · rw [(hs i).Ibytes]
    exact hm.slave_inputs i o ((hs i).inputs.symm.trans ho)

theorem Mapped.mono {g : Group} {slaves : Nat → Slave} {size size' : Int}
    (hm : Mapped g slaves size) (h : size ≤ size') : Mapped g slaves size' :=
  { hm with fits := Int.le_trans hm.fits h }

/-- What `ecx_config_map_group` returns (an `int`) and configures: group 0 and the slave
table with its process-image regions. -/
structure Mapping where
  size : Int
  group : Group
  slavelist : Nat → Slave
  size_lt : size < 2 ^ 31
  mapped : Mapped group slavelist size

/-! ## Live handles -/

/-- `iomap_size` of `soem_initialize`: the bytes allocated for the process image. -/
def iomapSize : Nat := 64 * 1024

/-- A live handle, as `soem_initialize` hands it out: slaves were found, the stack's mapping
fits the allocated process image, and the cached process sizes are the group's. -/
structure Live (h : Handle) : Prop where
  populated : 0 < h.context.slavecount
  mapped : Mapped h.context.group h.context.slavelist iomapSize
  outputLength : h.outputLength = h.context.group.Obytes.toNat
  inputLength : h.inputLength = h.context.group.Ibytes.toNat

theorem Live.Obytes_lt {h : Handle} (hl : Live h) : h.context.group.Obytes.toNat < 2 ^ 31 := by
  have := hl.mapped.fits
  simp only [iomapSize] at this
  omega

theorem Live.Ibytes_lt {h : Handle} (hl : Live h) : h.context.group.Ibytes.toNat < 2 ^ 31 := by
  have := hl.mapped.fits
  simp only [iomapSize] at this
  omega

/-- One slave with a 20-byte output region at offset 0 and an 8-byte input region right after
it; group 0 expects a working counter of 3. -/
def demoHandle : Handle where
  context :=
    { slavecount := 1
      slavelist := fun _ =>
        { state := 0, ALstatuscode := 0, Obytes := 20, outputs := some 0, Ibytes := 8,
          inputs := some 20, eepMan := 0, eepId := 0, eepRev := 0, name := fun _ => 0 }
      group := ⟨0, 20, 20, 8, 1, 1⟩ }
  IOmap := fun _ => 0
  outputLength := 20
  inputLength := 8
  lastWkc := -1
  lastExpectedWkc := 0

theorem demoHandle_live : Live demoHandle where
  populated := by decide
  mapped :=
    { outputs_at := rfl
      inputs_at := rfl
      fits := by decide
      slave_outputs := by rintro _ _ ⟨⟩; exact (by decide : 0 + 20 ≤ 20)
      slave_inputs := by rintro _ _ ⟨⟩; exact (by decide : 20 ≤ 20 ∧ 20 + 8 ≤ 20 + 8) }
  outputLength := rfl
  inputLength := rfl

/-! ## Events and outcomes -/

/-- The buffers whose bytes the shim reads or writes: the process image and the caller's
`outputs` and `inputs` arrays of an exchange. -/
inductive Buf where
  | IOmap
  | outputs
  | inputs
  deriving DecidableEq, Repr

/-- The blocks the shim allocates. -/
inductive Block where
  | handle
  | IOmap
  deriving DecidableEq, Repr

/-- One observable step of a shim call. `touch b off len` is a read or write of the bytes
`[off, off + len)` of `b`, `slave i` a use of `slavelist[i]`; the others are calls into the
allocator and the stack, with the arguments and results that matter. -/
inductive Event where
  | touch (buf : Buf) (off len : Nat)
  | slave (i : Nat)
  | alloc (block : Block) (ok : Bool)
  | free (block : Block)
  | init (ok : Bool)
  | configInit
  | configMapGroup
  | configdc
  | readstate
  | writestate (i : Nat) (state : UInt16)
  | statecheck (i : Nat) (state : UInt16) (timeout : Int)
  | send
  | receive (timeout : Int)
  | close
  deriving DecidableEq, Repr

/-- What a call on a handle leaves: its return value, the handle afterwards (`none` for a
NULL handle) and its events in order. -/
structure Outcome (α : Type) where
  ret : α
  handle : Option Handle
  trace : List Event

/-- The allocator and lifetime events: allocations, frees, `ecx_init` and `ecx_close`. -/
def Event.IsResource : Event → Bool
  | .alloc _ _ | .free _ | .init _ | .close => true
  | _ => false

/-- A trace with no allocator or lifetime event, as every call on a handle leaves. -/
def Quiet (t : List Event) : Prop := ∀ e ∈ t, e.IsResource = false

/-- A trace is quiet when checking it event by event finds no resource event; on a trace of
known events this check is a computation. -/
theorem Quiet.of_all {t : List Event} (h : (t.all fun e => !e.IsResource) = true) : Quiet t :=
  fun e he => by simpa using List.all_eq_true.mp h e he

theorem Quiet.append {s t : List Event} (hs : Quiet s) (ht : Quiet t) : Quiet (s ++ t) := by
  intro e he
  rcases List.mem_append.mp he with he | he
  · exact hs e he
  · exact ht e he

theorem Quiet.count_eq_zero {t : List Event} (ht : Quiet t) {e : Event}
    (he : e.IsResource = true) : t.count e = 0 :=
  List.count_eq_zero.mpr fun hm => by simp [ht e hm] at he

/-! ## Return codes of `soem_shim.h` -/

def soemErrBadArgs : Int := -13
def soemErrSendFail : Int := -11
def soemErrRecvFail : Int := -12
def soemErrWkcLow : Int := -10

end XeryonShim
