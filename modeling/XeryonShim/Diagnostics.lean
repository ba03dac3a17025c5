import XeryonShim.Legacy

/-!
# Slave scan and error text

`soem_scan_slaves` copies the identity of the first `min(slavecount, max_count)` slaves
into the caller's `soem_slave_info_t` array; both shim variants have this body, each over
its own handle. `soem_drain_error_list` copies the text `ecx_elist2string` returns into the
caller's buffer, cut to the buffer's size and NUL-terminated.

* `scanLoop_buffer`: the loop writes entry `i` from `slavelist[i + 1]` for each index it
  visits and leaves every other entry;
* `scanSlaves_meets`: a scan reports `min(n, max_count)` entries, each describing its slave
  (`SlaveInfo.Describes`), with a name that is a C string of at most `EC_MAXNAME` bytes
  (`SlaveInfo.Describes.name_isCString`), or refuses and writes nothing;
* `soemDrainErrorList_meets`: a drain leaves the first `min(strlen(s), buf_sz - 1)` bytes
  of the text and a NUL, writing only below `buf_sz`, or refuses and writes nothing.
-/

namespace XeryonShim

/-! ## `soem_scan_slaves` -/

/-- `soem_slave_info_t`; `name` is its `char name[EC_MAXNAME + 1]` array. -/
structure SlaveInfo where
  position : Int
  vendorId : UInt32
  productCode : UInt32
  revision : UInt32
  name : Bytes

/-- The loop body for entry `i` of the array: the identity of `slave` (`slavelist[i + 1]`),
its name copied by `strncpy(.., EC_MAXNAME)` and cut by `name[EC_MAXNAME] = '\0'`. -/
def scanEntry (ec : EcConst) (slave : Slave) (i : Nat) (old : SlaveInfo) : SlaveInfo where
  position := i + 1
  vendorId := slave.eepMan
  productCode := slave.eepId
  revision := slave.eepRev
  name := (old.name.strncpy slave.name ec.maxName).fill ec.maxName 1 0

/-- The loop `for (int i = 0; i < count; ++i)` over the indices `l`: the array afterwards,
the slave entries read and the array entries written, in order. -/
def scanLoop (ec : EcConst) (c : Context) (buffer : Nat → SlaveInfo) :
    List Nat → (Nat → SlaveInfo) × List Event × List Nat
  | [] => (buffer, [], [])
  | i :: rest =>
    let r := scanLoop ec c
      (Function.update buffer i (scanEntry ec (c.slavelist (i + 1)) i (buffer i))) rest
    (r.1, .slave (i + 1) :: r.2.1, i :: r.2.2)

/-- What a scan leaves: its return value, the caller's array afterwards, the slave entries
read and the array entries written. -/
structure Scan where
  ret : Int
  buffer : Option (Nat → SlaveInfo)
  trace : List Event
  written : List Nat

/-- `soem_scan_slaves(h, buffer, max_count)` over the context of the handle (`none` for a
NULL handle). -/
def scanSlaves (ec : EcConst) (context : Option Context) (buffer : Option (Nat → SlaveInfo))
    (maxCount : Int) : Scan :=
  match context, buffer with
  | some c, some b =>
    if maxCount ≤ 0 then ⟨0, buffer, [], []⟩
    else
      let count := if c.slavecount > maxCount then maxCount else c.slavecount
      let r := scanLoop ec c b (List.range count.toNat)
      ⟨count, some r.1, r.2.1, r.2.2⟩
  | _, _ => ⟨0, buffer, [], []⟩

/-- `soem_scan_slaves` of the Linux shim. -/
def soemScanSlaves (ec : EcConst) (handle : Option Handle) (buffer : Option (Nat → SlaveInfo))
    (maxCount : Int) : Scan :=
  scanSlaves ec (handle.map Handle.context) buffer maxCount

/-- `soem_scan_slaves` of the legacy shim. -/
def Legacy.soemScanSlaves (ec : EcConst) (handle : Option Legacy.LegacyHandle)
    (buffer : Option (Nat → SlaveInfo)) (maxCount : Int) : Scan :=
  scanSlaves ec (handle.map Legacy.LegacyHandle.context) buffer maxCount

/-- Entry `j` of the array describes the slave `s` (`slavelist[j + 1]`): its position, its
identity from the EEPROM, and its name cut to at most `EC_MAXNAME` bytes and NUL-padded
through index `EC_MAXNAME`. -/
structure SlaveInfo.Describes (ec : EcConst) (s : Slave) (j : Nat) (e : SlaveInfo) : Prop where
  position : e.position = j + 1
  vendorId : e.vendorId = s.eepMan
  productCode : e.productCode = s.eepId
  revision : e.revision = s.eepRev
  name_prefix : ∀ k < s.name.strnlen ec.maxName, e.name k = s.name k
  name_pad : ∀ k, s.name.strnlen ec.maxName ≤ k → k ≤ ec.maxName → e.name k = 0

/-- The copied name is a NUL-terminated text of `strnlen(name, EC_MAXNAME)` bytes, so it
ends within the `EC_MAXNAME + 1` bytes of the array. -/
theorem SlaveInfo.Describes.name_isCString {ec : EcConst} {s : Slave} {j : Nat} {e : SlaveInfo}
    (hd : e.Describes ec s j) : e.name.IsCString (s.name.strnlen ec.maxName) :=
  ⟨fun k hk => hd.name_prefix k hk ▸ Bytes.ne_zero_of_lt_strnlen hk,
    hd.name_pad _ le_rfl (s.name.strnlen_le _)⟩

/-- A slave name that is a text of `L` bytes is copied as its first `min L EC_MAXNAME`. -/
theorem SlaveInfo.Describes.name_of_isCString {ec : EcConst} {s : Slave} {j : Nat}
    {e : SlaveInfo} (hd : e.Describes ec s j) {L : Nat} (hs : s.name.IsCString L) :
    e.name.IsCString (min L ec.maxName) ∧ ∀ k < min L ec.maxName, e.name k = s.name k := by
  rw [← Bytes.strnlen_of_isCString hs]
  exact ⟨hd.name_isCString, hd.name_prefix⟩

theorem scanEntry_describes (ec : EcConst) (s : Slave) (j : Nat) (old : SlaveInfo) :
    (scanEntry ec s j old).Describes ec s j where
  position := rfl
  vendorId := rfl
  productCode := rfl
  revision := rfl
  name_prefix k hk := by
    have := s.name.strnlen_le ec.maxName
    simp only [scanEntry, Bytes.fill_apply, Bytes.strncpy_apply]
    rw [if_neg (by omega), if_pos (by omega), if_pos hk]
  name_pad k hk hkn := by
    simp only [scanEntry, Bytes.fill_apply, Bytes.strncpy_apply]
    split
    · rfl
    · rw [if_pos (by omega), if_neg (by omega)]

/-- The loop over distinct indices writes entry `i` from `slavelist[i + 1]` exactly for the
indices it visits. -/
theorem scanLoop_buffer (ec : EcConst) (c : Context) (b : Nat → SlaveInfo) {l : List Nat}
    (hl : l.Nodup) : (scanLoop ec c b l).1 =
      fun j => if j ∈ l then scanEntry ec (c.slavelist (j + 1)) j (b j) else b j := by
  induction l generalizing b with
  | nil => rfl
  | cons i rest ih =>
    obtain ⟨hi, hrest⟩ := List.nodup_cons.mp hl
    simp only [scanLoop, ih _ hrest]
    funext j
    by_cases hji : j = i
    · subst hji
      rw [if_neg hi, if_pos (List.mem_cons_self _ _), Function.update_same]
    · have hj : j ∈ i :: rest ↔ j ∈ rest := by simp [hji]
      simp only [hj, Function.update_noteq hji]

theorem scanLoop_log (ec : EcConst) (c : Context) (b : Nat → SlaveInfo) (l : List Nat) :
    (scanLoop ec c b l).2 = (l.map fun i => .slave (i + 1), l) := by
  induction l generalizing b with
  | nil => rfl
  | cons i rest ih => simp only [scanLoop, ih, List.map_cons]

/-- What the design asks of a scan of the table `c` into the array `b` with `max_count`:
`min(n, max_count)` returned, entries `0..k-1` written in order and each describing its
slave, every other entry as it was. -/
structure Scan.Copies (ec : EcConst) (c : Context) (maxCount : Int) (b : Nat → SlaveInfo)
    (r : Scan) : Prop where
  ret : r.ret = min c.slavecount maxCount
  written : r.written = List.range (min c.slavecount maxCount).toNat
  buffer : ∃ b', r.buffer = some b' ∧
    (∀ j < (min c.slavecount maxCount).toNat, (b' j).Describes ec (c.slavelist (j + 1)) j) ∧
    ∀ j, (min c.slavecount maxCount).toNat ≤ j → b' j = b j

/-- A refused call: it returns 0 and writes nothing. -/
structure Scan.Refused (buffer : Option (Nat → SlaveInfo)) (r : Scan) : Prop where
  ret : r.ret = 0
  buffer : r.buffer = buffer
  written : r.written = []

/-- The scan the design asks for: with a table, an array and a positive `max_count` the
copy of `Scan.Copies`, otherwise a refusal. -/
def Scan.Meets (ec : EcConst) (context : Option Context) (buffer : Option (Nat → SlaveInfo))
    (maxCount : Int) (r : Scan) : Prop :=
  match context, buffer with
  | some c, some b => if 0 < maxCount then r.Copies ec c maxCount b else r.Refused buffer
  | _, _ => r.Refused buffer

/-- A scan writes only entries below `max_count`: inside an array of `max_count` entries. -/
theorem Scan.Copies.written_lt {ec : EcConst} {c : Context} {maxCount : Int}
    {b : Nat → SlaveInfo} {r : Scan} (hr : r.Copies ec c maxCount b) :
    ∀ j ∈ r.written, (j : Int) < maxCount := by
  intro j hj
  rw [hr.written, List.mem_range] at hj
  omega

theorem scanSlaves_meets (ec : EcConst) (context : Option Context)
    (buffer : Option (Nat → SlaveInfo)) (maxCount : Int) :
    (scanSlaves ec context buffer maxCount).Meets ec context buffer maxCount := by
  match context, buffer with
  | some c, some b =>
    simp only [scanSlaves, Scan.Meets]
    by_cases hm : 0 < maxCount
    · have hk : (if c.slavecount > maxCount then maxCount else c.slavecount) =
          min c.slavecount maxCount := by
        split <;> omega
      rw [if_pos hm, if_neg (show ¬maxCount ≤ 0 by omega), hk]
      refine ⟨rfl, (scanLoop_log ..).symm ▸ rfl, _, rfl, fun j hj => ?_, fun j hj => ?_⟩
      · simp only [scanLoop_buffer _ _ _ (List.nodup_range _), List.mem_range, hj, if_true]
        exact scanEntry_describes ..
      · simp only [scanLoop_buffer _ _ _ (List.nodup_range _), List.mem_range,
          Nat.not_lt.mpr hj, if_false]
    · rw [if_neg hm, if_pos (show maxCount ≤ 0 by omega)]
      exact ⟨rfl, rfl, rfl⟩
  | none, _ | some _, none => exact ⟨rfl, rfl, rfl⟩

/-- Five slaves scanned into an array of two entries: positions 1 and 2, and no third. -/
example :
    let r := scanSlaves soemEc (some { demoHandle.context with slavecount := 5 })
      (some fun _ => ⟨0, 0, 0, 0, fun _ => 0⟩) 2
    r.ret = 2 ∧ r.written = [0, 1] ∧
      r.buffer.map (fun b => [(b 0).position, (b 1).position]) = some [1, 2] := by
  decide

/-- **The scan of both shim variants**: with a handle, an array and a positive `max_count`,
`min(n, max_count)` returned and entries `0..k-1`, and only they, written, entry `j`
describing `slavelist[j + 1]`; with a NULL handle or array or `max_count ≤ 0`, 0 returned
and nothing written. -/
theorem soemScanSlaves_meets (ec : EcConst) (handle : Option Handle)
    (legacy : Option Legacy.LegacyHandle) (buffer : Option (Nat → SlaveInfo)) (maxCount : Int) :
    (soemScanSlaves ec handle buffer maxCount).Meets ec (handle.map Handle.context) buffer
        maxCount ∧
      (Legacy.soemScanSlaves ec legacy buffer maxCount).Meets ec
        (legacy.map Legacy.LegacyHandle.context) buffer maxCount :=
  ⟨scanSlaves_meets .., scanSlaves_meets ..⟩

/-! ## `soem_drain_error_list` -/

/-- What a drain leaves: its return value, the caller's buffer afterwards and the ranges of
it written, as `(offset, length)`. -/
structure Drain where
  ret : Int
  buf : Option Bytes
  writes : List (Nat × Nat)

/-- `soem_drain_error_list(h, buf, buf_sz)` against the text `ecx_elist2string` returns
(`none` for NULL). After the `buf_sz <= 0` guard, `(size_t)buf_sz - 1` is
`buf_sz - 1`. -/
def soemDrainErrorList (handle : Option Handle) (buf : Option Bytes) (bufSz : Int)
    (err : Option Bytes) : Drain :=
  match handle, buf with
  | some _, some b =>
    if bufSz ≤ 0 then ⟨0, buf, []⟩
    else
      match err with
      | none => ⟨1, some (b.fill 0 1 0), [(0, 1)]⟩
      | some s =>
        let n := s.strnlen (bufSz.toNat - 1)
        ⟨1, some ((b.copy 0 s 0 n).fill n 1 0), [(0, n), (n, 1)]⟩
  | _, _ => ⟨0, buf, []⟩

/-- A drain that delivers the text `t` into a buffer of `bufSz` bytes: it returns 1, the
buffer holds `t` and a NUL from index 0 on and every other byte as before, and no write
reaches index `bufSz`. -/
structure Drain.Delivers (b : Bytes) (bufSz : Nat) (t : List UInt8) (r : Drain) : Prop where
  ret : r.ret = 1
  buf : r.buf = some (b.store 0 (t ++ [0]))
  writes : ∀ w ∈ r.writes, w.1 + w.2 ≤ bufSz

/-- A refused drain: it returns 0 and writes nothing. -/
structure Drain.Refused (buf : Option Bytes) (r : Drain) : Prop where
  ret : r.ret = 0
  buf : r.buf = buf
  writes : r.writes = []

/-- The drain the design asks for: with a handle, a buffer and `buf_sz ≥ 1`, the first
`min(strlen(s), buf_sz - 1)` bytes of the text `s` (none when there is no text) and a
NUL; otherwise a refusal. -/
def Drain.Meets (handle : Option Handle) (buf : Option Bytes) (bufSz : Int) (err : Option Bytes)
    (r : Drain) : Prop :=
  match handle, buf with
  | some _, some b =>
    if 0 < bufSz then
      (err = none → r.Delivers b bufSz.toNat []) ∧
        ∀ s L, err = some s → s.IsCString L →
          r.Delivers b bufSz.toNat (s.load 0 (min L (bufSz.toNat - 1)))
    else r.Refused buf
  | _, _ => r.Refused buf

/-- Setting one byte is the store of that byte. -/
theorem Bytes.fill_one_eq_store (b : Bytes) (off : Nat) (v : UInt8) :
    b.fill off 1 v = b.store off [v] := by
  funext k
  simp only [Bytes.fill_apply, Bytes.store_apply, List.length_singleton]
  split
  · rw [show k - off = 0 by omega]
    rfl
  · rfl

/-- `memcpy` of `n` bytes then a NUL at `n` is the store of the `n` bytes and the NUL. -/
theorem Bytes.copy_fill_eq_store (b s : Bytes) (n : Nat) :
    (b.copy 0 s 0 n).fill n 1 0 = b.store 0 (s.load 0 n ++ [0]) := by
  funext k
  simp only [Bytes.fill_apply, Bytes.copy_apply, Bytes.store_apply, List.length_append,
    Bytes.load_length, List.length_singleton, Nat.zero_le, true_and, Nat.zero_add, Nat.sub_zero]
  by_cases hk : k < n
  · rw [if_neg (by omega), if_pos hk, if_pos (by omega), List.getD_append _ _ _ _ (by simpa),
      Bytes.load, List.getD_eq_getElem _ _ (by simpa), List.getElem_map, List.getElem_range,
      Nat.zero_add]
  · by_cases hkn : k = n
    · subst hkn
      rw [if_pos (by omega), if_pos (by omega), List.getD_append_right _ _ _ _ (by simp)]
      simp
    · rw [if_neg (by omega), if_neg hk, if_neg (by omega)]

/-- **The drain**: with a handle, a buffer and `buf_sz ≥ 1` it returns 1 and leaves the first
`min(strlen(s), buf_sz - 1)` bytes of the text and a NUL, writing nothing at or past
`buf_sz`; with a NULL handle or buffer or `buf_sz ≤ 0` it returns 0 and writes nothing. -/
theorem soemDrainErrorList_meets (handle : Option Handle) (buf : Option Bytes) (bufSz : Int)
    (err : Option Bytes) :
    (soemDrainErrorList handle buf bufSz err).Meets handle buf bufSz err := by
  match handle, buf with
  | some h, some b =>
    simp only [soemDrainErrorList, Drain.Meets]
    by_cases hsz : 0 < bufSz
    · rw [if_pos hsz, if_neg (show ¬bufSz ≤ 0 by omega)]
      refine ⟨fun he => ?_, fun s L he hs => ?_⟩
      · subst he
        refine ⟨rfl, congrArg some (b.fill_one_eq_store 0 0), ?_⟩
        simp only [List.mem_singleton]
        rintro _ rfl
        omega
      · subst he
        have hn := Bytes.strnlen_of_isCString hs (bufSz.toNat - 1)
        refine ⟨rfl, by rw [← hn, ← Bytes.copy_fill_eq_store], ?_⟩
        simp only [List.mem_cons, List.mem_singleton, List.not_mem_nil, or_false]
        rintro _ (rfl | rfl) <;> dsimp only <;> omega
    · rw [if_neg hsz, if_pos (show bufSz ≤ 0 by omega)]
      exact ⟨rfl, rfl, rfl⟩
  | none, _ | some _, none => exact ⟨rfl, rfl, rfl⟩

end XeryonShim
