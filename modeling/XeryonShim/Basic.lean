import Mathlib.Algebra.Order.Ring.Nat
import Mathlib.Algebra.Group.Int
import Mathlib.Data.List.GetD

/-!
# C scalars and byte buffers

The shim computes in C `int` on values it reads from the stack's `uint16` and `uint32`
fields, and it moves bytes with `memset` and `memcpy`. This module fixes how both are read:

* `cInt` — the `(int)` conversion of a `uint32` on the target (modulo `2 ^ 32`, two's
  complement), exact below `2 ^ 31` (`cInt_of_lt`);
* `Bytes` with `Bytes.fill` (`memset`), `Bytes.copy` (`memcpy` between buffers) and
  `Bytes.store` (`memcpy` of a scalar's bytes), each with its pointwise equation;
* `Bytes.strnlen` and `Bytes.strncpy` — the C string functions the shim calls, with the
  length of a NUL-terminated text (`Bytes.strnlen_of_isCString`);
* `leBytes` and `ofLE` — the little-endian order a scalar has in host memory, with the
  round trip `ofLE_leBytes`.
-/

namespace XeryonShim

/-! ## C integers -/

/-- `(int)x` for a `uint32` `x`: its value modulo `2 ^ 32`, read in two's complement. -/
def cInt (x : UInt32) : Int :=
  if x.toNat < 2 ^ 31 then x.toNat else x.toNat - 2 ^ 32

theorem cInt_of_lt {x : UInt32} (h : x.toNat < 2 ^ 31) : cInt x = x.toNat := if_pos h

theorem cInt_neg_of_le {x : UInt32} (h : 2 ^ 31 ≤ x.toNat) : cInt x < 0 := by
  have := x.toNat_lt_size
  simp only [cInt, if_neg (Nat.not_lt.mpr h)]
  simp only [UInt32.size] at this
  omega

theorem toNat_pos_of_ne_zero {x : UInt32} (h : x ≠ 0) : 0 < x.toNat :=
  Nat.pos_of_ne_zero fun h0 => h (UInt32.toNat.inj (h0.trans UInt32.toNat_zero.symm))

/-- `(size_t)x` for an `int` `x`: its value modulo `2 ^ 64`. -/
def sizeT (x : Int) : Nat := (x % 2 ^ 64).toNat

theorem sizeT_of_nonneg {x : Int} (h0 : 0 ≤ x) (h : x < 2 ^ 64) : sizeT x = x.toNat := by
  simp only [sizeT, Int.emod_eq_of_lt h0 h]

/-- The values of the target's `int` (32 bits, two's complement). An arithmetic result of
type `int` outside them is an overflow, which C leaves undefined. -/
def IsInt (x : Int) : Prop := -2 ^ 31 ≤ x ∧ x < 2 ^ 31

instance (x : Int) : Decidable (IsInt x) := inferInstanceAs (Decidable (_ ∧ _))

/-! ## Byte buffers -/

/-- The bytes of a buffer, by index. -/
abbrev Bytes := Nat → UInt8

/-- `memset(m + off, v, len)`. -/
def Bytes.fill (m : Bytes) (off len : Nat) (v : UInt8) : Bytes :=
  fun k => if off ≤ k ∧ k < off + len then v else m k

/-- `memcpy(m + off, src + soff, len)`. -/
def Bytes.copy (m : Bytes) (off : Nat) (src : Bytes) (soff len : Nat) : Bytes :=
  fun k => if off ≤ k ∧ k < off + len then src (soff + (k - off)) else m k

/-- `memcpy(m + off, p, l.length)` where `p` holds the bytes `l`. -/
def Bytes.store (m : Bytes) (off : Nat) (l : List UInt8) : Bytes :=
  fun k => if off ≤ k ∧ k < off + l.length then l.getD (k - off) 0 else m k

/-- The `n` bytes from `off` on. -/
def Bytes.load (m : Bytes) (off n : Nat) : List UInt8 :=
  (List.range n).map fun i => m (off + i)

/-- Two buffers agree on the indices `[lo, hi)`. -/
def Bytes.EqOn (m m' : Bytes) (lo hi : Nat) : Prop :=
  ∀ k, lo ≤ k → k < hi → m k = m' k

theorem Bytes.fill_apply (m : Bytes) (off len : Nat) (v : UInt8) (k : Nat) :
    m.fill off len v k = if off ≤ k ∧ k < off + len then v else m k := rfl

theorem Bytes.copy_apply (m : Bytes) (off : Nat) (src : Bytes) (soff len k : Nat) :
    m.copy off src soff len k = if off ≤ k ∧ k < off + len then src (soff + (k - off)) else m k :=
  rfl

theorem Bytes.store_apply (m : Bytes) (off : Nat) (l : List UInt8) (k : Nat) :
    m.store off l k = if off ≤ k ∧ k < off + l.length then l.getD (k - off) 0 else m k := rfl

@[simp] theorem Bytes.load_length (m : Bytes) (off n : Nat) : (m.load off n).length = n := by
  simp [Bytes.load]

theorem Bytes.EqOn.refl (m : Bytes) (lo hi : Nat) : m.EqOn m lo hi := fun _ _ _ => rfl

theorem Bytes.EqOn.trans {m₁ m₂ m₃ : Bytes} {lo hi : Nat} (h₁ : m₁.EqOn m₂ lo hi)
    (h₂ : m₂.EqOn m₃ lo hi) : m₁.EqOn m₃ lo hi :=
  fun k hl hh => (h₁ k hl hh).trans (h₂ k hl hh)

theorem Bytes.EqOn.mono {m m' : Bytes} {lo hi lo' hi' : Nat} (h : m.EqOn m' lo hi)
    (hlo : lo ≤ lo') (hhi : hi' ≤ hi) : m.EqOn m' lo' hi' :=
  fun k hl hh => h k (by omega) (by omega)

/-- A write to `[off, off + len)` leaves every range outside it alone. -/
theorem Bytes.fill_eqOn_of_disjoint (m : Bytes) {off len lo hi : Nat} (v : UInt8)
    (h : hi ≤ off ∨ off + len ≤ lo) : (m.fill off len v).EqOn m lo hi := by
  intro k hl hh
  simp only [Bytes.fill_apply]
  rw [if_neg (by omega)]

theorem Bytes.copy_eqOn_of_disjoint (m src : Bytes) {off soff len lo hi : Nat}
    (h : hi ≤ off ∨ off + len ≤ lo) : (m.copy off src soff len).EqOn m lo hi := by
  intro k hl hh
  simp only [Bytes.copy_apply]
  rw [if_neg (by omega)]

theorem Bytes.EqOn.symm {m m' : Bytes} {lo hi : Nat} (h : m.EqOn m' lo hi) : m'.EqOn m lo hi :=
  fun k hl hh => (h k hl hh).symm

/-- A store decides its own range, whatever the buffer held before. -/
theorem Bytes.store_eqOn_store (m m' : Bytes) (off : Nat) (l : List UInt8) :
    (m.store off l).EqOn (m'.store off l) off (off + l.length) := by
  intro k hl hh
  simp only [Bytes.store_apply]
  rw [if_pos ⟨hl, hh⟩, if_pos ⟨hl, hh⟩]

theorem Bytes.store_eqOn_of_disjoint (m : Bytes) {off lo hi : Nat} (l : List UInt8)
    (h : hi ≤ off ∨ off + l.length ≤ lo) : (m.store off l).EqOn m lo hi := by
  intro k hl hh
  simp only [Bytes.store_apply]
  rw [if_neg (by omega)]

/-- One store of two lists is the store of the first followed by the store of the second. -/
theorem Bytes.store_append (m : Bytes) (off : Nat) (l₁ l₂ : List UInt8) :
    m.store off (l₁ ++ l₂) = (m.store off l₁).store (off + l₁.length) l₂ := by
  funext k
  simp only [Bytes.store_apply, List.length_append]
  by_cases h₂ : off + l₁.length ≤ k ∧ k < off + l₁.length + l₂.length
  · rw [if_pos h₂, if_pos (by omega), List.getD_append_right _ _ _ _ (by omega), Nat.sub_sub]
  · rw [if_neg h₂]
    by_cases h₁ : off ≤ k ∧ k < off + l₁.length
    · rw [if_pos h₁, if_pos (by omega), List.getD_append _ _ _ _ (by omega)]
    · rw [if_neg h₁, if_neg (by omega)]

/-! ## C strings -/

/-- `strnlen(s, n)`: the number of bytes of `s` before its first NUL, at most `n`. -/
def Bytes.strnlen (s : Bytes) : Nat → Nat
  | 0 => 0
  | n + 1 => if s 0 = 0 then 0 else Bytes.strnlen (fun k => s (k + 1)) n + 1

/-- `s` holds a C string of length `L`: `L` bytes other than NUL, then a NUL. -/
def Bytes.IsCString (s : Bytes) (L : Nat) : Prop := (∀ k < L, s k ≠ 0) ∧ s L = 0

theorem Bytes.strnlen_le (s : Bytes) (n : Nat) : s.strnlen n ≤ n := by
  induction n generalizing s with
  | zero => exact Nat.le_refl 0
  | succ n ih =>
    simp only [Bytes.strnlen]
    split
    · exact Nat.zero_le _
    · exact Nat.succ_le_succ (ih _)

theorem Bytes.ne_zero_of_lt_strnlen {s : Bytes} {n k : Nat} (hk : k < s.strnlen n) : s k ≠ 0 := by
  induction n generalizing s k with
  | zero => exact absurd hk (Nat.not_lt_zero k)
  | succ n ih =>
    simp only [Bytes.strnlen] at hk
    split at hk
    · exact absurd hk (Nat.not_lt_zero k)
    · cases k with
      | zero => assumption
      | succ k => exact ih (s := fun k => s (k + 1)) (by omega)

theorem Bytes.eq_zero_of_strnlen_lt {s : Bytes} {n : Nat} (h : s.strnlen n < n) :
    s (s.strnlen n) = 0 := by
  induction n generalizing s with
  | zero => exact absurd h (Nat.not_lt_zero _)
  | succ n ih =>
    simp only [Bytes.strnlen] at h ⊢
    split
    · assumption
    · rw [if_neg ‹_›] at h
      exact ih (Nat.lt_of_succ_lt_succ h)

/-- On a C string `strnlen` is the string's length, capped at `n`. -/
theorem Bytes.strnlen_of_isCString {s : Bytes} {L : Nat} (hs : s.IsCString L) (n : Nat) :
    s.strnlen n = min L n := by
  have hle := s.strnlen_le n
  rcases Nat.lt_trichotomy (s.strnlen n) (min L n) with h | h | h
  · exact absurd (Bytes.eq_zero_of_strnlen_lt (show s.strnlen n < n by omega)) (hs.1 _ (by omega))
  · exact h
  · exact absurd hs.2 (Bytes.ne_zero_of_lt_strnlen (show L < s.strnlen n by omega))

/-- `strncpy(dst, src, n)`: the bytes of `src` before its first NUL, at most `n` of them,
then NULs up to `n` bytes. -/
def Bytes.strncpy (dst src : Bytes) (n : Nat) : Bytes :=
  (dst.copy 0 src 0 (src.strnlen n)).fill (src.strnlen n) (n - src.strnlen n) 0

theorem Bytes.strncpy_apply (dst src : Bytes) (n k : Nat) :
    dst.strncpy src n k = if k < n then (if k < src.strnlen n then src k else 0) else dst k := by
  have := src.strnlen_le n
  simp only [Bytes.strncpy, Bytes.fill_apply, Bytes.copy_apply, Nat.zero_le, true_and,
    Nat.zero_add, Nat.sub_zero]
  by_cases hk : k < src.strnlen n
  · rw [if_neg (by omega), if_pos hk, if_pos (by omega), if_pos hk]
  · by_cases hn : k < n
    · rw [if_pos (by omega), if_pos hn, if_neg hk]
    · rw [if_neg (by omega), if_neg hk, if_neg hn]

/-! ## Little-endian scalars -/

/-- The `w` bytes of `n` in little-endian order: what `memcpy` of a `w`-byte scalar
writes on the host. -/
def leBytes : Nat → Nat → List UInt8
  | 0, _ => []
  | w + 1, n => UInt8.ofNat n :: leBytes w (n / 256)

/-- The number whose little-endian bytes are `l`. -/
def ofLE : List UInt8 → Nat
  | [] => 0
  | b :: l => b.toNat + 256 * ofLE l

@[simp] theorem length_leBytes (w n : Nat) : (leBytes w n).length = w := by
  induction w generalizing n with
  | zero => rfl
  | succ w ih => simp [leBytes, ih]

theorem toNat_uint8_ofNat (n : Nat) : (UInt8.ofNat n).toNat = n % 256 := by
  simp [UInt8.toNat, UInt8.ofNat, BitVec.toNat_ofNat]

theorem ofLE_leBytes (w n : Nat) : ofLE (leBytes w n) = n % 256 ^ w := by
  induction w generalizing n with
  | zero => simp [leBytes, ofLE, Nat.mod_one]
  | succ w ih =>
    rw [leBytes, ofLE, ih, toNat_uint8_ofNat, Nat.pow_succ', Nat.mod_mul]

theorem ofLE_lt (l : List UInt8) : ofLE l < 256 ^ l.length := by
  induction l with
  | nil => simp [ofLE]
  | cons b l ih =>
    have hb : b.toNat < 256 := b.toNat_lt_size
    simp only [ofLE, List.length_cons, Nat.pow_succ]
    omega

end XeryonShim
