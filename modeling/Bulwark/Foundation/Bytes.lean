import Mathlib.Data.List.Basic
import Mathlib.Tactic.Common
import Mathlib.Tactic.Ring

/-!
# Byte buffers

Buffers are lists of bytes addressed by position.  Reads return `none` outside
the buffer; `overwrite` replaces bytes in place and keeps the length.
-/

namespace Bulwark.Foundation

abbrev Bytes := List UInt8

/-! ## Numbers -/

def be16 (hi lo : UInt8) : UInt16 := UInt16.ofNat (hi.toNat * 256 + lo.toNat)

def be32 (a b c d : UInt8) : UInt32 :=
  UInt32.ofNat (((a.toNat * 256 + b.toNat) * 256 + c.toNat) * 256 + d.toNat)

def toBe16 (x : UInt16) : Bytes := [UInt8.ofNat (x.toNat / 256), UInt8.ofNat x.toNat]

def toBe32 (x : UInt32) : Bytes :=
  [UInt8.ofNat (x.toNat / 2 ^ 24), UInt8.ofNat (x.toNat / 2 ^ 16),
    UInt8.ofNat (x.toNat / 2 ^ 8), UInt8.ofNat x.toNat]

def u16At (buf : Bytes) (pos : Nat) : Option UInt16 := do
  let hi ← buf[pos]?
  let lo ← buf[pos + 1]?
  some (be16 hi lo)

def u32At (buf : Bytes) (pos : Nat) : Option UInt32 := do
  let a ← buf[pos]?
  let b ← buf[pos + 1]?
  let c ← buf[pos + 2]?
  let d ← buf[pos + 3]?
  some (be32 a b c d)

/-- `Ord::max` and `Ord::min` on `u32`. -/
def u32Max (a b : UInt32) : UInt32 := if a ≤ b then b else a

def u32Min (a b : UInt32) : UInt32 := if a ≤ b then a else b

@[simp] theorem toNat_u32Max (a b : UInt32) : (u32Max a b).toNat = max a.toNat b.toNat := by
  unfold u32Max
  split <;> rename_i h <;> rw [UInt32.le_iff_toNat_le] at h <;> omega

@[simp] theorem toNat_u32Min (a b : UInt32) : (u32Min a b).toNat = min a.toNat b.toNat := by
  unfold u32Min
  split <;> rename_i h <;> rw [UInt32.le_iff_toNat_le] at h <;> omega

/-- The `k` little-endian bytes of a number, without what does not fit. -/
def toLe : Nat → Nat → Bytes
  | 0, _ => []
  | k + 1, n => UInt8.ofNat n :: toLe k (n / 256)

def ofLe : Bytes → Nat
  | [] => 0
  | b :: bs => b.toNat + 256 * ofLe bs

theorem be16_toBe16 (x : UInt16) :
    be16 (UInt8.ofNat (x.toNat / 256)) (UInt8.ofNat x.toNat) = x := by
  have hx := x.toNat_lt
  apply UInt16.toNat_inj.mp
  simp only [be16, UInt16.toNat_ofNat', UInt8.toNat_ofNat']
  omega

theorem be32_toBe32 (x : UInt32) :
    be32 (UInt8.ofNat (x.toNat / 2 ^ 24)) (UInt8.ofNat (x.toNat / 2 ^ 16))
      (UInt8.ofNat (x.toNat / 2 ^ 8)) (UInt8.ofNat x.toNat) = x := by
  have hx := x.toNat_lt
  apply UInt32.toNat_inj.mp
  simp only [be32, UInt32.toNat_ofNat', UInt8.toNat_ofNat']
  omega

@[simp] theorem length_toLe (k n : Nat) : (toLe k n).length = k := by
  induction k generalizing n with
  | zero => rfl
  | succ k ih => rw [toLe, List.length_cons, ih]

theorem ofLe_toLe (k n : Nat) : ofLe (toLe k n) = n % 256 ^ k := by
  induction k generalizing n with
  | zero => rw [toLe, ofLe, pow_zero, Nat.mod_one]
  | succ k ih =>
      have hpow : 256 ^ (k + 1) = 256 * 256 ^ k := pow_succ' 256 k
      rw [toLe, ofLe, ih, UInt8.toNat_ofNat', hpow, Nat.mod_mul]

theorem forall_byte {P : UInt8 → Prop} (h : ∀ n ∈ List.range 256, P (UInt8.ofNat n))
    (b : UInt8) : P b := by
  have hb := h b.toNat (List.mem_range.mpr b.toNat_lt)
  rwa [UInt8.ofNat_toNat] at hb

/-! ## Slices -/

/-- `&buf[start..start + len]`, `none` outside the buffer. -/
def slice (buf : Bytes) (start len : Nat) : Option Bytes :=
  if start + len ≤ buf.length then some ((buf.drop start).take len) else none

theorem length_of_slice {buf bytes : Bytes} {start len : Nat}
    (h : slice buf start len = some bytes) : bytes.length = len := by
  rw [slice] at h
  split at h
  · cases h
    rw [List.length_take, List.length_drop]
    omega
  · cases h

theorem slice_append {buf left right : Bytes} {pos : Nat} :
    slice buf pos (left ++ right).length = some (left ++ right) ↔
      slice buf pos left.length = some left ∧
        slice buf (pos + left.length) right.length = some right := by
  simp only [slice, List.length_append]
  constructor
  · intro h
    split at h
    · rename_i hlen
      rw [Option.some.injEq, List.take_add, List.drop_drop] at h
      have hleft : ((buf.drop pos).take left.length).length = left.length := by
        simp
        omega
      obtain ⟨htake, hdrop⟩ := List.append_inj h hleft
      rw [if_pos (by omega), if_pos (by omega), htake, hdrop]
      simp
    · cases h
  · rintro ⟨hleft, hright⟩
    split at hright
    · rename_i hlen
      rw [Option.some.injEq] at hright
      rw [if_pos (by omega), Option.some.injEq] at hleft
      rw [if_pos (by omega), List.take_add, List.drop_drop, hleft, hright]
    · cases hright

theorem slice_singleton {buf : Bytes} {pos : Nat} {b : UInt8} :
    slice buf pos 1 = some [b] ↔ buf[pos]? = some b := by
  rw [slice]
  split
  · rename_i hlen
    rw [Option.some.injEq, List.take_one, List.head?_drop]
    cases buf[pos]? <;> simp
  · rename_i hlen
    rw [List.getElem?_eq_none (by omega)]
    simp

theorem slice_congr {buf buf' : Bytes} {start len : Nat}
    (hlen : buf'.length = buf.length)
    (h : ∀ p, start ≤ p → p < start + len → buf'[p]? = buf[p]?) :
    slice buf' start len = slice buf start len := by
  rw [slice, slice, hlen]
  split
  · congr 1
    apply List.ext_getElem?
    intro i
    rw [List.getElem?_take, List.getElem?_take, List.getElem?_drop, List.getElem?_drop]
    split
    · exact h _ (by omega) (by omega)
    · rfl
  · rfl

theorem u16At_congr {buf buf' : Bytes} {pos : Nat}
    (h : ∀ p, pos ≤ p → p < pos + 2 → buf'[p]? = buf[p]?) : u16At buf' pos = u16At buf pos := by
  rw [u16At, u16At, h pos (by omega) (by omega), h (pos + 1) (by omega) (by omega)]

theorem u32At_congr {buf buf' : Bytes} {pos : Nat}
    (h : ∀ p, pos ≤ p → p < pos + 4 → buf'[p]? = buf[p]?) : u32At buf' pos = u32At buf pos := by
  rw [u32At, u32At, h pos (by omega) (by omega), h (pos + 1) (by omega) (by omega),
    h (pos + 2) (by omega) (by omega), h (pos + 3) (by omega) (by omega)]

/-! ## Writing in place -/

/-- `buf[pos..pos + new.len()].copy_from_slice(new)`, nothing where that is outside. -/
def overwrite (buf : Bytes) (pos : Nat) (new : Bytes) : Bytes :=
  if pos + new.length ≤ buf.length then
    buf.take pos ++ new ++ buf.drop (pos + new.length)
  else buf

@[simp] theorem length_overwrite (buf : Bytes) (pos : Nat) (new : Bytes) :
    (overwrite buf pos new).length = buf.length := by
  rw [overwrite]
  split
  · simp only [List.length_append, List.length_take, List.length_drop]
    omega
  · rfl

theorem overwrite_outside {buf new : Bytes} {pos p : Nat}
    (h : p < pos ∨ pos + new.length ≤ p) : (overwrite buf pos new)[p]? = buf[p]? := by
  rw [overwrite]
  split
  · rename_i hle
    rw [List.append_assoc, List.getElem?_append]
    have htake : (buf.take pos).length = pos := by
      rw [List.length_take]
      omega
    rw [htake]
    split
    · rename_i hp
      rw [List.getElem?_take, if_pos hp]
    · rw [List.getElem?_append, if_neg (by omega), List.getElem?_drop]
      congr 1
      omega
  · rfl

theorem overwrite_inside {buf new : Bytes} {pos i : Nat}
    (hle : pos + new.length ≤ buf.length) (hi : i < new.length) :
    (overwrite buf pos new)[pos + i]? = new[i]? := by
  have htake : (buf.take pos).length = pos := by
    rw [List.length_take]
    omega
  rw [overwrite, if_pos hle, List.append_assoc, List.getElem?_append, htake,
    if_neg (by omega), List.getElem?_append, if_pos (by omega)]
  congr 1
  omega

end Bulwark.Foundation
