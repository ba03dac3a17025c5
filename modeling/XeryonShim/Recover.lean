import XeryonShim.Context
import Mathlib.Data.List.GetD

/-!
# Recovery and health

`soem_try_recover` reads every slave's state, asks each slave flagged ERROR for SAFE_OP with
an acknowledge, requests OPERATIONAL for the group, runs three settle rounds, checks the
group's state and then walks the slave table. `soem_get_health` reads every slave's state
and reports the group's figures with the number of slaves in OPERATIONAL.

The stack's calls refresh only what they are documented to refresh: `ecx_readstate` every
entry, `ecx_statecheck` on entry 0 only entry 0, `ecx_writestate` and the process-data calls
no entry. So the walk at the end of recovery reads what the table held after the shim's own
writes, not what the bus reached.

* `soemTryRecover_ret` is the verdict as the code computes it: the group check, and every
  slave's entry state after the acknowledge rewrite;
* `soemTryRecover_ret_eq_one_iff` reads it with the stack's constants: recovery reports
  success exactly when the group check passed and every slave was OPERATIONAL on entry;
* `soemGetHealth_spec` is what one health query reports and changes.
-/

namespace XeryonShim

/-! ## `soem_try_recover` -/

/-- What the stack answers during `soem_try_recover`: the states `ecx_readstate` reads on
entry, the three settle rounds and the group state check. -/
structure Recovery where
  entry : Readout
  settle : Fin 3 → Cycle
  group : StateReply

/-- The entry state a slave is left with by the acknowledge loop: `SAFE_OP | ACK` if the
ERROR bit is set, its state otherwise. -/
def ackedState (ec : EcConst) (s : UInt16) : UInt16 :=
  if s &&& ec.stateError ≠ 0 then ec.stateSafeOp ||| ec.stateAck else s

/-- The acknowledge loop over the slave entries `l`. -/
def ackLoop (ec : EcConst) (c : Context) : List Nat → Context × List Event
  | [] => (c, [])
  | i :: rest =>
    if (c.slavelist i).state &&& ec.stateError ≠ 0 then
      let r := ackLoop ec (c.setState i (ec.stateSafeOp ||| ec.stateAck)) rest
      (r.1, .slave i :: .writestate i (ec.stateSafeOp ||| ec.stateAck) :: r.2)
    else
      let r := ackLoop ec c rest
      (r.1, .slave i :: r.2)

/-- The three settle rounds: each receive refreshes the group's input region. -/
def settleImage (g : Group) (m : Bytes) (settle : Fin 3 → Cycle) : Bytes :=
  [0, 1, 2].foldl (fun m k => receiveImage g m (settle k)) m

/-- The verify loop: 1 if every entry of `l` is cached as OPERATIONAL, else 0 at the first
that is not. -/
def verifyLoop (ec : EcConst) (c : Context) : List Nat → Int × List Event
  | [] => (1, [])
  | i :: rest =>
    if (c.slavelist i).state ≠ ec.stateOperational then (0, [.slave i])
    else
      let r := verifyLoop ec c rest
      (r.1, .slave i :: r.2)

/-- `soem_try_recover(h, timeout_ms)` against the stack's answers `rec`. -/
def soemTryRecover (ec : EcConst) (handle : Option Handle) (timeoutMs : Int) (rec : Recovery) :
    Outcome Int :=
  match handle with
  | none => ⟨0, none, []⟩
  | some h =>
    let c := h.context.readstate rec.entry
    let acked := ackLoop ec c (slaveRange c.slavecount)
    let c := acked.1.setState 0 ec.stateOperational
    let image := settleImage c.group h.IOmap rec.settle
    let c := c.statecheck 0 rec.group
    let h := { h with context := c, IOmap := image }
    let t := [Event.readstate] ++ acked.2 ++ [.slave 0, .writestate 0 ec.stateOperational] ++
      [.send, .receive 1000, .send, .receive 1000, .send, .receive 1000] ++
      [.statecheck 0 ec.stateOperational (timeoutMs * 1000)]
    if rec.group.ret ≠ ec.stateOperational then ⟨0, some h, t⟩
    else
      let v := verifyLoop ec c (slaveRange c.slavecount)
      ⟨v.1, some h, t ++ v.2⟩

/-! ## What the loops compute -/

theorem ackedState_idem (ec : EcConst) (s : UInt16) :
    ackedState ec (ackedState ec s) = ackedState ec s := by
  by_cases hs : s &&& ec.stateError ≠ 0 <;> simp [ackedState, hs]

/-- The table with the entries of `l` rewritten to their acknowledged states. -/
def Context.acked (ec : EcConst) (c : Context) (l : List Nat) : Context :=
  { c with slavelist := fun i =>
      if i ∈ l then { c.slavelist i with state := ackedState ec (c.slavelist i).state }
      else c.slavelist i }

/-- The acknowledge loop rewrites only the states of the entries it visits, each to its
`ackedState`. -/
theorem ackLoop_fst (ec : EcConst) (c : Context) (l : List Nat) :
    (ackLoop ec c l).1 = c.acked ec l := by
  induction l generalizing c with
  | nil => rfl
  | cons j rest ih =>
    simp only [ackLoop]
    split
    all_goals
      rw [ih]
      simp only [Context.acked, Context.setState_slavecount, Context.setState_group]
      congr 1
      funext i
      by_cases hij : i = j
      · subst hij
        simp [ackedState, *]
      · simp [hij]

theorem Context.sameLayout_acked (ec : EcConst) (c : Context) (l : List Nat) :
    c.SameLayout (c.acked ec l) := by
  refine ⟨rfl, rfl, fun i => ?_⟩
  simp only [Context.acked]
  split <;> exact ⟨rfl, rfl, rfl, rfl⟩

theorem verifyLoop_fst (ec : EcConst) (c : Context) (l : List Nat) :
    (verifyLoop ec c l).1 =
      if ∀ i ∈ l, (c.slavelist i).state = ec.stateOperational then 1 else 0 := by
  induction l with
  | nil => simp [verifyLoop]
  | cons j rest ih =>
    simp only [verifyLoop]
    split
    · rw [if_neg (fun h => ‹¬_› (h j (List.mem_cons_self _ _)))]
    · simp_all

/-- The table recovery walks at the end: entry 0 aside, the acknowledge loop's rewrite of
the table read on entry. -/
theorem acked_statecheck_state (ec : EcConst) (c : Context) (l : List Nat) (s : UInt16)
    (r : StateReply) {i : Nat} (hi : i ≠ 0) :
    ((((c.acked ec l).setState 0 s).statecheck 0 r).slavelist i).state =
      if i ∈ l then ackedState ec (c.slavelist i).state else (c.slavelist i).state := by
  simp only [Context.statecheck, Context.setState_slavelist_of_ne _ _ hi, Context.acked]
  split <;> rfl

/-- **The verdict of recovery, as the code computes it**: the group check returned
OPERATIONAL and every slave's state read on entry, after the acknowledge rewrite, is
OPERATIONAL. -/
theorem soemTryRecover_ret (ec : EcConst) (h : Handle) (timeoutMs : Int) (rec : Recovery) :
    (soemTryRecover ec (some h) timeoutMs rec).ret =
      if rec.group.ret = ec.stateOperational ∧ ∀ i ∈ slaveRange h.context.slavecount,
          ackedState ec (rec.entry.state i) = ec.stateOperational then 1 else 0 := by
  simp only [soemTryRecover, ackLoop_fst]
  by_cases hg : rec.group.ret = ec.stateOperational
  · simp only [hg, ne_eq, not_true_eq_false, if_false, verifyLoop_fst, true_and]
    refine if_congr (forall₂_congr fun i hi => ?_) rfl rfl
    have hi' : i ∈ slaveRange h.context.slavecount := hi
    rw [acked_statecheck_state _ _ _ _ _ (Nat.pos_iff_ne_zero.mp (mem_slaveRange.mp hi').1)]
    simp only [Context.readstate]
    rw [if_pos hi']
  · simp only [hg, ne_eq, not_false_eq_true, if_true, false_and, if_false]

/-- With the stack's constants an acknowledged entry is never OPERATIONAL, so recovery
reports success exactly when the group check passed and every slave was OPERATIONAL when
recovery began. -/
theorem soemTryRecover_ret_eq_one_iff (h : Handle) (timeoutMs : Int) (rec : Recovery) :
    (soemTryRecover soemEc (some h) timeoutMs rec).ret = 1 ↔
      rec.group.ret = 8 ∧ ∀ i ∈ slaveRange h.context.slavecount, rec.entry.state i = 8 := by
  have hack : ∀ s : UInt16, ackedState soemEc s = 8 ↔ s = 8 := by
    intro s
    unfold ackedState
    split
    · refine iff_of_false (by decide) fun hs => ?_
      subst hs
      exact absurd ‹_› (by decide)
    · exact Iff.rfl
  rw [soemTryRecover_ret]
  by_cases hc : rec.group.ret = soemEc.stateOperational ∧ ∀ i ∈ slaveRange h.context.slavecount,
      ackedState soemEc (rec.entry.state i) = soemEc.stateOperational
  · rw [if_pos hc]
    exact iff_of_true rfl ⟨hc.1, fun i hi => (hack _).mp (hc.2 i hi)⟩
  · rw [if_neg hc]
    exact iff_of_false (by decide) fun h' => hc ⟨h'.1, fun i hi => (hack _).mpr (h'.2 i hi)⟩

/-- The handle recovery leaves: the table read on entry and acknowledged, entry 0 as the
group check left it, and the image after the settle rounds. -/
def recoverNext (ec : EcConst) (h : Handle) (rec : Recovery) : Handle :=
  { h with
    context := (((h.context.readstate rec.entry).acked ec (slaveRange h.context.slavecount)).setState
      0 ec.stateOperational).statecheck 0 rec.group
    IOmap := settleImage h.context.group h.IOmap rec.settle }

theorem soemTryRecover_handle (ec : EcConst) (h : Handle) (timeoutMs : Int) (rec : Recovery) :
    (soemTryRecover ec (some h) timeoutMs rec).handle = some (recoverNext ec h rec) := by
  simp only [soemTryRecover, ackLoop_fst]
  split <;> rfl

theorem recoverNext_layout (ec : EcConst) (h : Handle) (rec : Recovery) :
    h.context.SameLayout (recoverNext ec h rec).context :=
  (((h.context.sameLayout_readstate _).trans (Context.sameLayout_acked _ _ _)).trans
    (Context.sameLayout_setState _ _ _)).trans (Context.sameLayout_statecheck _ _ _)

theorem ackLoop_snd_mem {ec : EcConst} {c : Context} {l : List Nat} {e : Event}
    (he : e ∈ (ackLoop ec c l).2) : ∃ i ∈ l, e = .slave i ∨ ∃ s, e = .writestate i s := by
  induction l generalizing c with
  | nil => cases he
  | cons j rest ih =>
    have hj : j ∈ j :: rest := List.mem_cons_self _ _
    simp only [ackLoop] at he
    split at he
    · rcases List.mem_cons.mp he with rfl | he
      · exact ⟨j, hj, .inl rfl⟩
      rcases List.mem_cons.mp he with rfl | he
      · exact ⟨j, hj, .inr ⟨_, rfl⟩⟩
      obtain ⟨i, hi, h⟩ := ih he
      exact ⟨i, List.mem_cons_of_mem _ hi, h⟩
    · rcases List.mem_cons.mp he with rfl | he
      · exact ⟨j, hj, .inl rfl⟩
      obtain ⟨i, hi, h⟩ := ih he
      exact ⟨i, List.mem_cons_of_mem _ hi, h⟩

theorem verifyLoop_snd_mem {ec : EcConst} {c : Context} {l : List Nat} {e : Event}
    (he : e ∈ (verifyLoop ec c l).2) : ∃ i ∈ l, e = .slave i := by
  induction l with
  | nil => cases he
  | cons j rest ih =>
    simp only [verifyLoop] at he
    split at he
    · simp only [List.mem_singleton] at he
      exact ⟨j, List.mem_cons_self _ _, he⟩
    · rcases List.mem_cons.mp he with rfl | he
      · exact ⟨j, List.mem_cons_self _ _, rfl⟩
      · obtain ⟨i, hi, h⟩ := ih he
        exact ⟨i, List.mem_cons_of_mem _ hi, h⟩

/-- Recovery allocates and releases nothing. -/
theorem soemTryRecover_quiet (ec : EcConst) (handle : Option Handle) (timeoutMs : Int)
    (rec : Recovery) : Quiet (soemTryRecover ec handle timeoutMs rec).trace := by
  have hack : ∀ c l, Quiet (ackLoop ec c l).2 := fun c l e he => by
    obtain ⟨i, -, rfl | ⟨s, rfl⟩⟩ := ackLoop_snd_mem he <;> rfl
  have hver : ∀ c l, Quiet (verifyLoop ec c l).2 := fun c l e he => by
    obtain ⟨i, -, rfl⟩ := verifyLoop_snd_mem he
    rfl
  have hfix : ∀ t : List Event, Quiet t → Quiet ([Event.readstate] ++ t ++
      [.slave 0, .writestate 0 ec.stateOperational] ++
      [.send, .receive 1000, .send, .receive 1000, .send, .receive 1000] ++
      [.statecheck 0 ec.stateOperational (timeoutMs * 1000)]) := fun t ht =>
    (((Quiet.append (.of_all (by rfl)) ht).append (.of_all (by rfl))).append
      (.of_all (by rfl))).append (.of_all (by rfl))
  cases handle with
  | none => exact .of_all rfl
  | some h =>
    simp only [soemTryRecover]
    split
    · exact hfix _ (hack _ _)
    · exact (hfix _ (hack _ _)).append (hver _ _)

/-! ## The stack calls of recovery -/

/-- The calls into the stack: every event but the shim's uses of the slave table, its
memory accesses and the allocator's calls. -/
def Event.IsStackCall : Event → Bool
  | .touch _ _ _ | .slave _ | .alloc _ _ | .free _ => false
  | _ => true

/-- The acknowledge loop over distinct entries calls the stack once for each entry flagged
ERROR when the loop starts, in the loop's order, asking it for `SAFE_OP | ACK`. -/
theorem ackLoop_stackCalls (ec : EcConst) (c : Context) {l : List Nat} (hl : l.Nodup) :
    (ackLoop ec c l).2.filter Event.IsStackCall =
      (l.filter fun i => (c.slavelist i).state &&& ec.stateError ≠ 0).map
        fun i => .writestate i (ec.stateSafeOp ||| ec.stateAck) := by
  induction l generalizing c with
  | nil => rfl
  | cons j rest ih =>
    obtain ⟨hj, hrest⟩ := List.nodup_cons.mp hl
    have hkeep : (rest.filter fun i => ((c.setState j (ec.stateSafeOp ||| ec.stateAck)).slavelist
        i).state &&& ec.stateError ≠ 0) = rest.filter fun i => (c.slavelist i).state &&& ec.stateError ≠ 0 :=
      List.filter_congr fun i hi => by rw [c.setState_slavelist_of_ne _ (ne_of_mem_of_not_mem hi hj)]
    simp only [ackLoop]
    split
    next hf =>
      rw [List.filter_cons_of_neg Bool.false_ne_true, List.filter_cons_of_pos rfl, ih _ hrest,
        hkeep, List.filter_cons_of_pos (by simpa using hf), List.map_cons]
    next hf =>
      rw [List.filter_cons_of_neg Bool.false_ne_true, ih _ hrest,
        List.filter_cons_of_neg (by simpa using hf)]

theorem verifyLoop_stackCalls (ec : EcConst) (c : Context) (l : List Nat) :
    (verifyLoop ec c l).2.filter Event.IsStackCall = [] :=
  List.filter_eq_nil_iff.mpr fun e he => by
    obtain ⟨i, -, rfl⟩ := verifyLoop_snd_mem he
    exact Bool.false_ne_true

/-- **The stack calls of recovery, in order**: one `ecx_readstate`; one
`ecx_writestate(i)` asking for `SAFE_OP | ACK` for exactly the slaves `1..n` whose entry
state has the ERROR bit, by increasing `i`; `ecx_writestate(0)` asking for OPERATIONAL;
three send/receive rounds with a 1000 us receive timeout; the group's `ecx_statecheck`; and
nothing after it. -/
theorem soemTryRecover_stackCalls (ec : EcConst) (h : Handle) (timeoutMs : Int) (rec : Recovery) :
    (soemTryRecover ec (some h) timeoutMs rec).trace.filter Event.IsStackCall =
      .readstate :: ((slaveRange h.context.slavecount).filter fun i =>
          rec.entry.state i &&& ec.stateError ≠ 0).map
          (fun i => .writestate i (ec.stateSafeOp ||| ec.stateAck)) ++
        [.writestate 0 ec.stateOperational, .send, .receive 1000, .send, .receive 1000, .send,
          .receive 1000, .statecheck 0 ec.stateOperational (timeoutMs * 1000)] := by
  have hack := ackLoop_stackCalls ec (h.context.readstate rec.entry)
    (l := slaveRange (h.context.readstate rec.entry).slavecount) (List.nodup_range' _ _)
  simp only [soemTryRecover]
  split
  all_goals
    simp only [List.filter_append, verifyLoop_stackCalls, List.append_nil, List.append_assoc]
    rw [hack]
    rfl

/-- The group's state check waits `timeout_ms * 1000`, computed in `int`. -/
theorem soemTryRecover_statecheck_mem (ec : EcConst) (h : Handle) (timeoutMs : Int)
    (rec : Recovery) : .statecheck 0 ec.stateOperational (timeoutMs * 1000) ∈
      (soemTryRecover ec (some h) timeoutMs rec).trace := by
  simp only [soemTryRecover]
  split <;> simp

/-- With `timeout_ms = 2147484`, an `int`, every recovery asks the group's state check for
`2147484000` us, which is not an `int`: the multiplication overflows, and wrapped to 32 bits
it is negative. -/
theorem soemTryRecover_timeout_overflows (ec : EcConst) (h : Handle) (rec : Recovery) :
    IsInt 2147484 ∧ .statecheck 0 ec.stateOperational (2147484 * 1000) ∈
        (soemTryRecover ec (some h) 2147484 rec).trace ∧
      ¬ IsInt (2147484 * 1000) ∧ Int.bmod (2147484 * 1000) (2 ^ 32) < 0 :=
  ⟨by decide, soemTryRecover_statecheck_mem ec h 2147484 rec, by decide, by decide⟩

/-- The verdict the design asks of recovery: the group check reached OPERATIONAL and every
slave `1..n` is OPERATIONAL on the bus once the recovery writes and the settle rounds are
done. The shim never reads the bus's states after its writes, so they are a parameter. -/
def recoverIntended (ec : EcConst) (group : StateReply) (bus : Nat → UInt16) (n : Int) : Int :=
  if group.ret = ec.stateOperational ∧ ∀ i ∈ slaveRange n, bus i = ec.stateOperational then 1
  else 0

/-- The stack's answers when the one slave entered recovery in SAFE_OP with the ERROR flag
(`0x14`) and has reached OPERATIONAL since: the group check returns OPERATIONAL. -/
def staleRecovery : Recovery where
  entry := ⟨fun _ => 0x14, fun _ => 0⟩
  settle := fun _ => ⟨1, 3, fun m => m⟩
  group := ⟨8, 8⟩

/-- Recovery from a slave flagged ERROR on entry reports failure although the group check
and the bus report OPERATIONAL: the walk reads the `SAFE_OP | ACK` the shim itself wrote. -/
theorem soemTryRecover_reports_stale_state :
    (soemTryRecover soemEc (some demoHandle) 100 staleRecovery).ret = 0 ∧
      recoverIntended soemEc staleRecovery.group (fun _ => 8) demoHandle.context.slavecount = 1 := by
  rw [soemTryRecover_ret]
  exact ⟨by decide, by decide⟩

/-! ## `soem_get_health` -/

/-- `soem_health_t`. -/
structure Health where
  slavesFound : Int
  groupExpectedWkc : Int
  lastWkc : Int
  bytesOut : Int
  bytesIn : Int
  slavesOp : Int
  alStatusCode : UInt32
  deriving DecidableEq, Repr

/-- The `++op` loop over the entries `l`. -/
def countOp (ec : EcConst) (c : Context) (op : Int) : List Nat → Int
  | [] => op
  | i :: rest =>
    countOp ec c (if (c.slavelist i).state = ec.stateOperational then op + 1 else op) rest

/-- `soem_get_health(h, out)` against what `ecx_readstate` reads; the second component is
`*out` afterwards. -/
def soemGetHealth (ec : EcConst) (handle : Option Handle) (out : Option Health) (r : Readout) :
    Outcome (Int × Option Health) :=
  match handle, out with
  | some h, some _ =>
    let g := h.context.group
    let c := h.context.readstate r
    let op := countOp ec c 0 (slaveRange c.slavecount)
    let health : Health :=
      { slavesFound := h.context.slavecount
        groupExpectedWkc := expectedWkc g
        lastWkc := h.lastWkc
        bytesOut := cInt g.Obytes
        bytesIn := cInt g.Ibytes
        slavesOp := op
        alStatusCode := if 1 ≤ c.slavecount then (c.slavelist 1).ALstatuscode.toUInt32 else 0 }
    ⟨(1, some health), some { h with context := c },
      [.readstate] ++ (slaveRange c.slavecount).map .slave ++
        (if 1 ≤ c.slavecount then [.slave 1] else [])⟩
  | _, _ => ⟨(0, out), handle, []⟩

theorem countOp_eq (ec : EcConst) (c : Context) (op : Int) (l : List Nat) :
    countOp ec c op l = op + (l.filter fun i => (c.slavelist i).state = ec.stateOperational).length := by
  induction l generalizing op with
  | nil => simp [countOp]
  | cons i rest ih =>
    by_cases hi : (c.slavelist i).state = ec.stateOperational
    · simp only [countOp, ih, List.filter_cons, hi, decide_True, if_true, List.length_cons]
      omega
    · simp only [countOp, ih, List.filter_cons, hi, decide_False, Bool.false_eq_true, if_false]

/-- The slaves a health query counts: those whose freshly read state is exactly
OPERATIONAL. -/
def opCount (ec : EcConst) (r : Readout) (n : Int) : Nat :=
  ((slaveRange n).filter fun i => r.state i = ec.stateOperational).length

theorem opCount_le (ec : EcConst) (r : Readout) (n : Int) (hn : 0 ≤ n) : (opCount ec r n : Int) ≤ n := by
  have := List.length_filter_le (fun i => decide (r.state i = ec.stateOperational)) (slaveRange n)
  simp only [slaveRange, List.length_range'] at this
  unfold opCount slaveRange
  omega

/-- **What one health query reports and changes**: the group's figures and the cached
counter as they stand, the slaves read as OPERATIONAL, slave 1's status code; the query
writes no state and changes nothing but the states and codes `ecx_readstate` refreshes. -/
theorem soemGetHealth_spec (ec : EcConst) (h : Handle) (x : Health) (r : Readout) :
    soemGetHealth ec (some h) (some x) r =
      ⟨(1, some
        { slavesFound := h.context.slavecount
          groupExpectedWkc := expectedWkc h.context.group
          lastWkc := h.lastWkc
          bytesOut := cInt h.context.group.Obytes
          bytesIn := cInt h.context.group.Ibytes
          slavesOp := opCount ec r h.context.slavecount
          alStatusCode := if 1 ≤ h.context.slavecount then (r.ALstatuscode 1).toUInt32 else 0 }),
        some { h with context := h.context.readstate r },
        [.readstate] ++ (slaveRange h.context.slavecount).map .slave ++
          (if 1 ≤ h.context.slavecount then [.slave 1] else [])⟩ := by
  simp only [soemGetHealth, countOp_eq, Int.zero_add, opCount]
  rfl

/-- A health query allocates and releases nothing. -/
theorem soemGetHealth_quiet (ec : EcConst) (handle : Option Handle) (out : Option Health)
    (r : Readout) : Quiet (soemGetHealth ec handle out r).trace := by
  match handle, out with
  | some h, some x =>
    rw [soemGetHealth_spec]
    intro e he
    simp only [List.mem_append, List.mem_singleton, List.mem_map] at he
    rcases he with (rfl | ⟨i, -, rfl⟩) | he
    · rfl
    · rfl
    · split at he
      · rw [List.mem_singleton.mp he]
        rfl
      · cases he
  | none, _ | some _, none => exact .of_all rfl

end XeryonShim
