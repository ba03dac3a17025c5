import XeryonShim.Legacy

/-!
# The two shims' exchanges compared

Both shim variants implement `soem_exchange_process_data` over the same two stack calls.
The Linux variant zeroes the group's output region before it copies the caller's bytes,
answers a failed send or receive with its own error code, copies no inputs after a failed
receive, and judges the round by its working counter; the legacy variant does none of
these. Started from the same context and image, the two calls agree exactly as far as this
module says.

* `stageOutputs_eq_legacy`: the Linux frame is the legacy frame with the output region past
  the caller's bytes zeroed (`ZeroTail`);
* `copyInputs_fst_eq_legacy`: the two input copies hand the caller the same bytes;
* `soemExchangeProcessData_variants`: whenever the two frames are equal, the calls leave the
  same image and, after a successful receive, the same caller inputs, the Linux result being
  the legacy one through the working-counter verdict; a failed send or receive is where they
  part;
* `soemInitialize_variants`: on the same answers of the stack, the Linux bring-up hands out a
  handle only where the legacy one does, with the same slave table, group and sizes.
-/

namespace XeryonShim

/-- The legacy handle with the context, image and process sizes of `h`. -/
def Handle.toLegacy (h : Handle) : Legacy.LegacyHandle :=
  ⟨h.context, h.IOmap, h.outputLength, h.inputLength⟩

/-- The image bytes the Linux staging zeroes and the legacy staging leaves: with caller
outputs of positive length, the output region past the first `min(outputs_len, Obytes)`
bytes. -/
def ZeroTail (g : Group) (outputs : Option Bytes) (outputsLen : Int) (k : Nat) : Prop :=
  outputs.isSome = true ∧ 0 < outputsLen ∧
    g.outputs + min outputsLen.toNat g.Obytes.toNat ≤ k ∧ k < g.outputs + g.Obytes.toNat

instance (g : Group) (outputs : Option Bytes) (outputsLen : Int) (k : Nat) :
    Decidable (ZeroTail g outputs outputsLen k) :=
  inferInstanceAs (Decidable (_ ∧ _ ∧ _ ∧ _))

/-- The Linux staging is the legacy staging with the zero tail cleared. -/
theorem stageOutputs_eq_legacy (g : Group) (m : Bytes) (outputs : Option Bytes)
    (outputsLen : Int) (hO : g.Obytes.toNat < 2 ^ 31) (k : Nat) :
    (stageOutputs g m outputs outputsLen).1 k =
      if ZeroTail g outputs outputsLen k then 0 else (Legacy.stageOutputs g m outputs outputsLen).1 k := by
  cases outputs with
  | none => simp [ZeroTail, stageOutputs_of_not g m (.inl rfl), Legacy.stageOutputs]
  | some src =>
    by_cases hL : 0 < outputsLen
    · rw [stageOutputs_apply g m src hL hO, Legacy.stageOutputs_apply g m src hL hO]
      simp only [ZeroTail, Option.isSome_some, hL, true_and]
      split_ifs <;> first | rfl | omega
    · rw [stageOutputs_of_not g m (.inr (.inl (by omega)))]
      simp [ZeroTail, hL, Legacy.stageOutputs]

/-- On an input region below `2 ^ 31` bytes the two input copies agree. -/
theorem copyInputs_fst_eq_legacy (g : Group) (m : Bytes) (inputs : Option Bytes)
    (inputsLen : Int) (hI : g.Ibytes.toNat < 2 ^ 31) :
    (copyInputs g m inputs inputsLen).1 = (Legacy.copyInputs g m inputs inputsLen).1 := by
  cases inputs with
  | none => rfl
  | some dst =>
    by_cases hc : 0 < inputsLen ∧ g.Ibytes ≠ 0
    · rw [copyInputs_of_lt g m dst hc.1 hI hc.2]
      simp only [Legacy.copyInputs, if_pos hc, cInt_of_lt hI]
      rw [show sizeT (if (g.Ibytes.toNat : Int) < inputsLen then (g.Ibytes.toNat : Int)
          else inputsLen) = min inputsLen.toNat g.Ibytes.toNat by
        split <;> rw [sizeT_of_nonneg (by omega) (by omega)] <;> omega]
    · have hno : inputsLen ≤ 0 ∨ g.Ibytes = 0 := (not_and_or.mp hc).imp (by omega) not_not.mp
      rw [copyInputs_fst_of_not g m _ _ (.inr hno)]
      simp only [Legacy.copyInputs, if_neg hc]

/-- How a Linux exchange `x` and a legacy exchange `y` started from the handle `h` relate. -/
structure ExchangeVariants (h : Handle) (outputs : Option Bytes) (outputsLen : Int)
    (inputs : Option Bytes) (inputsLen : Int) (bus : Cycle) (x : Outcome (Int × Option Bytes))
    (y : (Int × Option Bytes) × Option Legacy.LegacyHandle × List Event) : Prop where
  /-- The Linux frame is the legacy frame with the zero tail cleared. -/
  sent : ∀ k, sentImage h outputs outputsLen k =
    if ZeroTail h.context.group outputs outputsLen k then 0
    else (Legacy.stageOutputs h.context.group h.IOmap outputs outputsLen).1 k
  /-- With equal frames and a successful send both leave the same image; after a successful
  receive both hand the caller the same inputs, and the Linux result is the legacy one
  through the working-counter verdict. -/
  same_frame : sentImage h outputs outputsLen =
      (Legacy.stageOutputs h.context.group h.IOmap outputs outputsLen).1 → 0 ≤ bus.sent →
    x.handle.map Handle.IOmap = y.2.1.map Legacy.LegacyHandle.IOmap ∧
      (0 ≤ bus.received → x.ret = (wkcVerdict (expectedWkc h.context.group) y.1.1, y.1.2))
  /-- A failed send: the Linux error code against the stack's result, no inputs either way. -/
  send_fail : bus.sent < 0 → x.ret = (soemErrSendFail, inputs) ∧ y.1 = (bus.sent, inputs)
  /-- A failed receive: the Linux error code and no inputs, against the stack's result and a
  copy of the input region all the same. -/
  recv_fail : 0 ≤ bus.sent → bus.received < 0 → x.ret = (soemErrRecvFail, inputs) ∧
    ∃ lh, y.2.1 = some lh ∧ y.1 = (bus.received, (copyInputs h.context.group lh.IOmap inputs inputsLen).1)

/-- **The Linux exchange against the legacy one.** From the same context and image, with
regions below `2 ^ 31` bytes, for every argument tuple and every answer of the stack, the two
variants of `soem_exchange_process_data` relate as `ExchangeVariants` says. -/
theorem soemExchangeProcessData_variants (h : Handle) (hO : h.context.group.Obytes.toNat < 2 ^ 31)
    (hI : h.context.group.Ibytes.toNat < 2 ^ 31) (outputs : Option Bytes) (outputsLen : Int)
    (inputs : Option Bytes) (inputsLen timeoutUs timeout : Int) (bus : Cycle) :
    ExchangeVariants h outputs outputsLen inputs inputsLen bus
      (soemExchangeProcessData (some h) outputs outputsLen inputs inputsLen timeoutUs bus)
      (Legacy.soemExchangeProcessData (some h.toLegacy) outputs outputsLen inputs inputsLen
        timeout bus) where
  sent := stageOutputs_eq_legacy _ _ _ _ hO
  same_frame hf hs := by
    have hf' : (stageOutputs h.context.group h.IOmap outputs outputsLen).1 =
        (Legacy.stageOutputs h.context.group h.IOmap outputs outputsLen).1 := hf
    simp only [soemExchangeProcessData, Legacy.soemExchangeProcessData, Handle.toLegacy,
      if_neg (Int.not_lt.mpr hs), hf']
    refine ⟨by split <;> rfl, fun hr => ?_⟩
    simp only [if_neg (Int.not_lt.mpr hr), copyInputs_fst_eq_legacy _ _ _ _ hI]
  send_fail hs := by
    simp only [soemExchangeProcessData, Legacy.soemExchangeProcessData, Handle.toLegacy,
      if_pos hs]
    exact ⟨trivial, trivial⟩
  recv_fail hs hr := by
    simp only [soemExchangeProcessData, Legacy.soemExchangeProcessData, Handle.toLegacy,
      if_neg (Int.not_lt.mpr hs), if_pos hr, copyInputs_fst_eq_legacy _ _ _ _ hI]
    exact ⟨trivial, _, rfl, rfl⟩

/-- The two variants on `demoHandle`, for a round without caller buffers. -/
theorem soemExchangeProcessData_variants_demo :
    demoHandle.context.group.Obytes.toNat < 2 ^ 31 ∧ demoHandle.context.group.Ibytes.toNat < 2 ^ 31 ∧
      ExchangeVariants demoHandle none 0 none 0 ⟨1, 3, id⟩
        (soemExchangeProcessData (some demoHandle) none 0 none 0 1000 ⟨1, 3, id⟩)
        (Legacy.soemExchangeProcessData (some demoHandle.toLegacy) none 0 none 0 1000 ⟨1, 3, id⟩) :=
  ⟨by decide, by decide,
    soemExchangeProcessData_variants demoHandle (by decide) (by decide) none 0 none 0 1000 1000
      ⟨1, 3, id⟩⟩

/-! ## Bring-up -/

/-- The stack's and the allocator's answers as the legacy bring-up sees them: it allocates no
image, so it gets no fresh image and runs no probe round. -/
def Bringup.toLegacy (b : Bringup) : Legacy.LegacyBringup :=
  ⟨b.handleAlloc, b.init, b.slavesFound, b.mapping, b.safeOp, b.operational⟩

/-- **The Linux bring-up refines the legacy one.** On the same answers of the allocator and
the stack, every handle the Linux `soem_initialize` returns is matched by one the legacy
`soem_initialize` returns, with the same slave table, group and process sizes; the legacy
shim returns a handle where the Linux one returns NULL exactly when the image allocation
fails or the mapped size is not in `(0, 65536]`. -/
theorem soemInitialize_variants (ec : EcConst) (b : Bringup) :
    (∀ h, (soemInitialize ec b).1 = some h → ∃ lh, (Legacy.soemInitialize ec b.toLegacy).1 = some lh ∧
      lh.context = h.context ∧ lh.outputLength = h.outputLength ∧ lh.inputLength = h.inputLength) ∧
    ((Legacy.soemInitialize ec b.toLegacy).1.isSome ∧ (soemInitialize ec b).1 = none ↔
      b.handleAlloc ∧ b.init ∧ 0 < b.slavesFound ∧
        (¬b.iomapAlloc ∨ b.mapping.size ≤ 0 ∨ (iomapSize : Int) < b.mapping.size)) := by
  have hleg : (Legacy.soemInitialize ec b.toLegacy).1.isSome ↔
      b.handleAlloc ∧ b.init ∧ 0 < b.slavesFound := by
    rw [Legacy.soemInitialize_fst_isSome]
    simp [Bringup.toLegacy, and_assoc]
  refine ⟨fun h hh => ?_, ?_⟩
  · have hb : b.Succeeds := by
      by_contra hb
      rw [(soemInitialize_null_iff ec b).mpr hb] at hh
      cases hh
    rw [(soemInitialize_of_succeeds ec hb).1] at hh
    cases hh
    obtain ⟨lh, hlh⟩ := Option.isSome_iff_exists.mp (hleg.mpr ⟨hb.1, hb.2.1, hb.2.2.1⟩)
    have hctx : (probedHandle b).context = (mappedHandle b).context := exchangeNext_context ..
    refine ⟨lh, hlh, ?_⟩
    obtain ⟨h₁, h₂, h₃, -⟩ := hb
    simp only [Legacy.soemInitialize, Bringup.toLegacy, h₁, h₂, Int.not_le.mpr h₃,
      not_true_eq_false, if_false, Option.some.injEq] at hlh
    subst hlh
    simp only [bringOperational, hctx]
    exact ⟨rfl, rfl, rfl⟩
  · rw [hleg, soemInitialize_null_iff, Bringup.Succeeds]
    constructor
    · rintro ⟨⟨h₁, h₂, h₃⟩, hn⟩
      refine ⟨h₁, h₂, h₃, ?_⟩
      by_contra hc
      exact hn ⟨h₁, h₂, h₃, by simpa using (not_or.mp hc).1, by omega, by omega⟩
    · rintro ⟨h₁, h₂, h₃, h₄⟩
      refine ⟨⟨h₁, h₂, h₃⟩, fun ⟨_, _, _, h₅, h₆, h₇⟩ => ?_⟩
      rcases h₄ with h₄ | h₄ | h₄
      · exact h₄ h₅
      · omega
      · omega

end XeryonShim
