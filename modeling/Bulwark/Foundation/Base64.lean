import Mathlib.Data.List.Basic
import Mathlib.Tactic.Common
import Bulwark.Foundation.Bytes
import Bulwark.Foundation.Text

/-!
# Base64 for URLs, without padding

Three bytes are four digits of six bits; what is left over at the end gets two digits or
three, and the bits that are not used are zero.  Bytes have one text, and a text that is no
text of bytes is refused.
-/

namespace Bulwark.Foundation.Base64

def alphabet : Text :=
  "ABCDEFGHIJKLMNOPQRSTUVWXYZabcdefghijklmnopqrstuvwxyz0123456789-_".toList

def digit (n : Nat) : Char := alphabet.getD n 'A'

def value (c : Char) : Option Nat := alphabet.idxOf? c

/-! ## Digits -/

theorem value_digit {n : Nat} (h : n < 64) : value (digit n) = some n := by
  have hall : ∀ n : Fin 64, value (digit n) = some n.val := by decide +kernel
  exact hall ⟨n, h⟩

theorem digit_value {c : Char} {n : Nat} (h : value c = some n) : n < 64 ∧ digit n = c := by
  unfold value at h
  obtain ⟨hlt, hget, -⟩ := List.idxOf?_eq_some_iff.mp h
  have hlength : alphabet.length = 64 := by decide +kernel
  refine ⟨by omega, ?_⟩
  simpa [digit, hlt] using hget

/-! ## Texts -/

def encode : Bytes → Text
  | [] => []
  | [a] => [digit (a.toNat / 4), digit (a.toNat % 4 * 16)]
  | [a, b] =>
      [digit (a.toNat / 4), digit (a.toNat % 4 * 16 + b.toNat / 16), digit (b.toNat % 16 * 4)]
  | a :: b :: c :: rest =>
      digit (a.toNat / 4) :: digit (a.toNat % 4 * 16 + b.toNat / 16) ::
        digit (b.toNat % 16 * 4 + c.toNat / 64) :: digit (c.toNat % 64) :: encode rest

def decode : Text → Option Bytes
  | [] => some []
  | [_] => none
  | [p, q] => do
      let p ← value p
      let q ← value q
      if q % 16 = 0 then some [.ofNat (p * 4 + q / 16)] else none
  | [p, q, r] => do
      let p ← value p
      let q ← value q
      let r ← value r
      if r % 4 = 0 then some [.ofNat (p * 4 + q / 16), .ofNat (q % 16 * 16 + r / 4)] else none
  | p :: q :: r :: s :: rest => do
      let p ← value p
      let q ← value q
      let r ← value r
      let s ← value s
      let bytes ← decode rest
      some (.ofNat (p * 4 + q / 16) :: .ofNat (q % 16 * 16 + r / 4) :: .ofNat (r % 4 * 64 + s) ::
        bytes)

theorem ofNat_eq {a : UInt8} {n : Nat} (h : n = a.toNat) : UInt8.ofNat n = a := by
  subst h
  simp

theorem decode_encode (bytes : Bytes) : decode (encode bytes) = some bytes := by
  induction bytes using encode.induct with
  | case1 => rfl
  | case2 a =>
      have := a.toNat_lt
      simp only [encode, decode, value_digit (show a.toNat / 4 < 64 by omega),
        value_digit (show a.toNat % 4 * 16 < 64 by omega), Option.bind_eq_bind, Option.bind_some]
      rw [if_pos (by omega), ofNat_eq (a := a) (by omega)]
  | case3 a b =>
      have := a.toNat_lt
      have := b.toNat_lt
      simp only [encode, decode, value_digit (show a.toNat / 4 < 64 by omega),
        value_digit (show a.toNat % 4 * 16 + b.toNat / 16 < 64 by omega),
        value_digit (show b.toNat % 16 * 4 < 64 by omega), Option.bind_eq_bind, Option.bind_some]
      rw [if_pos (by omega), ofNat_eq (a := a) (by omega), ofNat_eq (a := b) (by omega)]
  | case4 a b c rest ih =>
      have := a.toNat_lt
      have := b.toNat_lt
      have := c.toNat_lt
      simp only [encode, decode, value_digit (show a.toNat / 4 < 64 by omega),
        value_digit (show a.toNat % 4 * 16 + b.toNat / 16 < 64 by omega),
        value_digit (show b.toNat % 16 * 4 + c.toNat / 64 < 64 by omega),
        value_digit (show c.toNat % 64 < 64 by omega), ih, Option.bind_eq_bind, Option.bind_some]
      rw [ofNat_eq (a := a) (by omega), ofNat_eq (a := b) (by omega), ofNat_eq (a := c) (by omega)]

theorem toNat_ofNat {n : Nat} (h : n < 256) : (UInt8.ofNat n).toNat = n := by
  simp
  omega

/-- A text that decodes is the one text of its bytes. -/
theorem encode_of_decode {t : Text} {bytes : Bytes} (h : decode t = some bytes) :
    encode bytes = t := by
  induction t using decode.induct generalizing bytes with
  | case1 =>
      cases h
      rfl
  | case2 => cases h
  | case3 p q =>
      simp only [decode, Option.bind_eq_bind, Option.bind_eq_some_iff] at h
      obtain ⟨m, hp, n, hq, h⟩ := h
      obtain ⟨hm, rfl⟩ := digit_value hp
      obtain ⟨hn, rfl⟩ := digit_value hq
      split at h <;> cases h
      have hfirst : (m * 4 + n / 16) / 4 = m := by omega
      have hsecond : (m * 4 + n / 16) % 4 * 16 = n := by omega
      simp only [encode, toNat_ofNat (show m * 4 + n / 16 < 256 by omega), hfirst, hsecond]
  | case4 p q r =>
      simp only [decode, Option.bind_eq_bind, Option.bind_eq_some_iff] at h
      obtain ⟨m, hp, n, hq, o, hr, h⟩ := h
      obtain ⟨hm, rfl⟩ := digit_value hp
      obtain ⟨hn, rfl⟩ := digit_value hq
      obtain ⟨ho, rfl⟩ := digit_value hr
      split at h <;> cases h
      have hfirst : (m * 4 + n / 16) / 4 = m := by omega
      have hsecond : (m * 4 + n / 16) % 4 * 16 + (n % 16 * 16 + o / 4) / 16 = n := by omega
      have hthird : (n % 16 * 16 + o / 4) % 16 * 4 = o := by omega
      simp only [encode, toNat_ofNat (show m * 4 + n / 16 < 256 by omega),
        toNat_ofNat (show n % 16 * 16 + o / 4 < 256 by omega), hfirst, hsecond, hthird]
  | case5 p q r s rest ih =>
      simp only [decode, Option.bind_eq_bind, Option.bind_eq_some_iff, Option.some.injEq] at h
      obtain ⟨m, hp, n, hq, o, hr, u, hs, more, hmore, rfl⟩ := h
      obtain ⟨hm, rfl⟩ := digit_value hp
      obtain ⟨hn, rfl⟩ := digit_value hq
      obtain ⟨ho, rfl⟩ := digit_value hr
      obtain ⟨hu, rfl⟩ := digit_value hs
      have hfirst : (m * 4 + n / 16) / 4 = m := by omega
      have hsecond : (m * 4 + n / 16) % 4 * 16 + (n % 16 * 16 + o / 4) / 16 = n := by omega
      have hthird : (n % 16 * 16 + o / 4) % 16 * 4 + (o % 4 * 64 + u) / 64 = o := by omega
      have hfourth : (o % 4 * 64 + u) % 64 = u := by omega
      simp only [encode, toNat_ofNat (show m * 4 + n / 16 < 256 by omega),
        toNat_ofNat (show n % 16 * 16 + o / 4 < 256 by omega),
        toNat_ofNat (show o % 4 * 64 + u < 256 by omega), hfirst, hsecond, hthird, hfourth,
        ih hmore]

theorem mem_encode {bytes : Bytes} {c : Char} (h : c ∈ encode bytes) : c ∈ alphabet := by
  have hdigit : ∀ n, n < 64 → digit n ∈ alphabet := by decide +kernel
  induction bytes using encode.induct with
  | case1 => simp [encode] at h
  | case2 a =>
      have := a.toNat_lt
      simp only [encode, List.mem_cons, List.not_mem_nil, or_false] at h
      rcases h with rfl | rfl <;> exact hdigit _ (by omega)
  | case3 a b =>
      have := a.toNat_lt
      have := b.toNat_lt
      simp only [encode, List.mem_cons, List.not_mem_nil, or_false] at h
      rcases h with rfl | rfl | rfl <;> exact hdigit _ (by omega)
  | case4 a b c rest ih =>
      have := a.toNat_lt
      have := b.toNat_lt
      have := c.toNat_lt
      simp only [encode, List.mem_cons] at h
      rcases h with rfl | rfl | rfl | rfl | h
      · exact hdigit _ (by omega)
      · exact hdigit _ (by omega)
      · exact hdigit _ (by omega)
      · exact hdigit _ (by omega)
      · exact ih h

end Bulwark.Foundation.Base64
