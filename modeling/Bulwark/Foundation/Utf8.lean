import Bulwark.Foundation.Bytes
import Bulwark.Foundation.Text

/-!
# UTF-8

Texts as bytes and back.  Reading never fails: what is not a character becomes the
replacement character, one for each longest beginning of a character.
-/

namespace Bulwark.Foundation

/-- `str::as_bytes` -/
def utf8Bytes (t : Text) : Bytes := t.flatMap String.utf8EncodeChar

def replacement : Char := Char.ofNat 0xFFFD

def isContinuation (b : UInt8) : Bool := 128 ≤ b.toNat && b.toNat < 192

/-- Second bytes of characters of three or four, by the first one. -/
def isSecond (a b : UInt8) : Bool :=
  if a.toNat = 0xE0 then 0xA0 ≤ b.toNat && b.toNat < 192
  else if a.toNat = 0xED then 128 ≤ b.toNat && b.toNat < 0xA0
  else if a.toNat = 0xF0 then 0x90 ≤ b.toNat && b.toNat < 192
  else if a.toNat = 0xF4 then 128 ≤ b.toNat && b.toNat < 0x90
  else isContinuation b

def sixBits (b : UInt8) : Nat := b.toNat % 64

/-- The character at the front, or the replacement character, and the bytes it takes. -/
def utf8Front (a : UInt8) (bs : Bytes) : Char × Nat :=
  if a.toNat < 128 then (Char.ofNat a.toNat, 1)
  else if a.toNat < 0xC2 then (replacement, 1)
  else if a.toNat < 0xE0 then
    match bs with
    | b :: _ =>
        if isContinuation b then (Char.ofNat (a.toNat % 32 * 64 + sixBits b), 2)
        else (replacement, 1)
    | [] => (replacement, 1)
  else if a.toNat < 0xF0 then
    match bs with
    | b :: c :: _ =>
        if !isSecond a b then (replacement, 1)
        else if !isContinuation c then (replacement, 2)
        else (Char.ofNat ((a.toNat % 16 * 64 + sixBits b) * 64 + sixBits c), 3)
    | [b] => (replacement, if isSecond a b then 2 else 1)
    | [] => (replacement, 1)
  else if a.toNat < 0xF5 then
    match bs with
    | b :: c :: d :: _ =>
        if !isSecond a b then (replacement, 1)
        else if !isContinuation c then (replacement, 2)
        else if !isContinuation d then (replacement, 3)
        else
          (Char.ofNat (((a.toNat % 8 * 64 + sixBits b) * 64 + sixBits c) * 64 + sixBits d), 4)
    | [b, c] => (replacement, if !isSecond a b then 1 else if isContinuation c then 3 else 2)
    | [b] => (replacement, if isSecond a b then 2 else 1)
    | [] => (replacement, 1)
  else (replacement, 1)

def fromUtf8LossyFrom : Nat → Bytes → Text
  | 0, _ => []
  | _ + 1, [] => []
  | fuel + 1, a :: bs =>
      let (c, n) := utf8Front a bs
      c :: fromUtf8LossyFrom fuel (bs.drop (n - 1))

/-- `String::from_utf8_lossy` -/
def fromUtf8Lossy (bytes : Bytes) : Text := fromUtf8LossyFrom bytes.length bytes

/-! ## Round trip -/

private theorem toNat_byte {n : Nat} (h : n < 256) : (UInt8.ofNat n).toNat = n := by
  rw [UInt8.toNat_ofNat']
  exact Nat.mod_eq_of_lt h

private theorem isContinuation_byte {n : Nat} (h : n < 64) :
    isContinuation (UInt8.ofNat (n + 128)) = true := by
  rw [isContinuation, toNat_byte (by omega)]
  simp only [Bool.and_eq_true, decide_eq_true_eq]
  omega

private theorem sixBits_byte {n : Nat} (h : n < 64) : sixBits (UInt8.ofNat (n + 128)) = n := by
  rw [sixBits, toNat_byte (by omega)]
  omega

private theorem front_two {v : Nat} (hlo : 0x7f < v) (hhi : v ≤ 0x7ff) (bs : Bytes) :
    utf8Front (UInt8.ofNat (v / 64 % 0x20 + 0xc0)) (UInt8.ofNat (v % 0x40 + 0x80) :: bs) =
      (Char.ofNat v, 2) := by
  have hv : (v / 64 % 0x20 + 0xc0) % 32 * 64 + v % 0x40 = v := by omega
  rw [utf8Front, toNat_byte (by omega), if_neg (by omega), if_neg (by omega), if_pos (by omega)]
  rw [if_pos (isContinuation_byte (by omega)), sixBits_byte (by omega), hv]

private theorem front_three {v : Nat} (hlo : 0x7ff < v) (hhi : v ≤ 0xffff)
    (hvalid : v < 0xD800 ∨ 0xDFFF < v) (bs : Bytes) :
    utf8Front (UInt8.ofNat (v / 4096 % 0x10 + 0xe0))
        (UInt8.ofNat (v / 64 % 0x40 + 0x80) :: UInt8.ofNat (v % 0x40 + 0x80) :: bs) =
      (Char.ofNat v, 3) := by
  have hv : ((v / 4096 % 0x10 + 0xe0) % 16 * 64 + v / 64 % 0x40) * 64 + v % 0x40 = v := by omega
  have hsecond : isSecond (UInt8.ofNat (v / 4096 % 0x10 + 0xe0))
      (UInt8.ofNat (v / 64 % 0x40 + 0x80)) = true := by
    rw [isSecond, isContinuation, toNat_byte (by omega), toNat_byte (by omega)]
    split_ifs
    all_goals simp only [Bool.and_eq_true, decide_eq_true_eq]; omega
  rw [utf8Front, toNat_byte (by omega), if_neg (by omega), if_neg (by omega), if_neg (by omega),
    if_pos (by omega)]
  dsimp only
  rw [hsecond, isContinuation_byte (by omega), sixBits_byte (by omega), sixBits_byte (by omega), hv]
  rfl

private theorem front_four {v : Nat} (hlo : 0xffff < v) (hhi : v < 0x110000) (bs : Bytes) :
    utf8Front (UInt8.ofNat (v / 262144 % 0x08 + 0xf0))
        (UInt8.ofNat (v / 4096 % 0x40 + 0x80) :: UInt8.ofNat (v / 64 % 0x40 + 0x80) ::
          UInt8.ofNat (v % 0x40 + 0x80) :: bs) =
      (Char.ofNat v, 4) := by
  have hv : (((v / 262144 % 0x08 + 0xf0) % 8 * 64 + v / 4096 % 0x40) * 64 + v / 64 % 0x40) * 64 +
      v % 0x40 = v := by omega
  have hsecond : isSecond (UInt8.ofNat (v / 262144 % 0x08 + 0xf0))
      (UInt8.ofNat (v / 4096 % 0x40 + 0x80)) = true := by
    rw [isSecond, isContinuation, toNat_byte (by omega), toNat_byte (by omega)]
    split_ifs
    all_goals simp only [Bool.and_eq_true, decide_eq_true_eq]; omega
  rw [utf8Front, toNat_byte (by omega), if_neg (by omega), if_neg (by omega), if_neg (by omega),
    if_neg (by omega), if_pos (by omega)]
  dsimp only
  rw [hsecond, isContinuation_byte (by omega), isContinuation_byte (by omega),
    sixBits_byte (by omega), sixBits_byte (by omega), sixBits_byte (by omega), hv]
  rfl

theorem utf8Front_encode (c : Char) (bs : Bytes) :
    ∃ a tail, String.utf8EncodeChar c = a :: tail ∧
      utf8Front a (tail ++ bs) = (c, tail.length + 1) := by
  have hchar : Char.ofNat c.val.toNat = c := Char.ofNat_toNat c
  have hvalid : c.val.toNat < 0xD800 ∨ 0xDFFF < c.val.toNat := by
    rcases c.valid with h | h
    · exact .inl h
    · exact .inr h.1
  have hbound : c.val.toNat < 0x110000 := by
    rcases c.valid with h | h
    · have h' : c.val.toNat < 0xD800 := h
      omega
    · exact h.2
  rw [String.utf8EncodeChar]
  generalize c.val.toNat = v at hchar hvalid hbound
  split_ifs with h1 h2 h3
  · refine ⟨_, _, rfl, ?_⟩
    rw [utf8Front.eq_def, toNat_byte (by omega), if_pos (by omega), hchar]
    rfl
  · refine ⟨_, _, rfl, ?_⟩
    exact (front_two (by omega) h2 bs).trans (by rw [hchar]; rfl)
  · refine ⟨_, _, rfl, ?_⟩
    exact (front_three (by omega) h3 hvalid bs).trans (by rw [hchar]; rfl)
  · refine ⟨_, _, rfl, ?_⟩
    exact (front_four (by omega) hbound bs).trans (by rw [hchar]; rfl)

private theorem fromUtf8LossyFrom_utf8Bytes {fuel : Nat} {t : Text}
    (h : (utf8Bytes t).length ≤ fuel) : fromUtf8LossyFrom fuel (utf8Bytes t) = t := by
  induction t generalizing fuel with
  | nil => cases fuel <;> rfl
  | cons c t ih =>
      obtain ⟨a, tail, hencode, hfront⟩ := utf8Front_encode c (utf8Bytes t)
      have hbytes : utf8Bytes (c :: t) = a :: (tail ++ utf8Bytes t) := by
        rw [utf8Bytes, List.flatMap_cons, hencode]
        rfl
      rw [hbytes, List.length_cons, List.length_append] at h
      cases fuel with
      | zero => omega
      | succ fuel =>
          rw [hbytes, fromUtf8LossyFrom, hfront]
          dsimp only
          rw [Nat.add_sub_cancel, List.drop_left, ih (by omega)]

theorem fromUtf8Lossy_utf8Bytes (t : Text) : fromUtf8Lossy (utf8Bytes t) = t :=
  fromUtf8LossyFrom_utf8Bytes (Nat.le_refl _)

theorem utf8Bytes_injective : Function.Injective utf8Bytes :=
  Function.LeftInverse.injective fromUtf8Lossy_utf8Bytes

/-! ## End marks -/

theorem encoded_lt {c : Char} {b : UInt8} (h : b ∈ String.utf8EncodeChar c) :
    b.toNat < 0xf8 := by
  rw [String.utf8EncodeChar] at h
  generalize c.val.toNat = v at h
  split_ifs at h with h1 h2 h3
  all_goals
    simp only [List.mem_cons, List.not_mem_nil, or_false] at h
    rcases h with rfl | rfl | rfl | rfl <;> rw [toNat_byte (by omega)] <;> omega

theorem notMem_utf8Bytes (t : Text) : (0xff : UInt8) ∉ utf8Bytes t := by
  intro h
  obtain ⟨c, -, hc⟩ := List.mem_flatMap.mp h
  have hlt := encoded_lt hc
  revert hlt
  decide

/-- The byte `0xff` ends a text: what comes before and after it is determined. -/
theorem utf8Bytes_mark_inj {t u : Text} {r s : Bytes}
    (h : utf8Bytes t ++ 0xff :: r = utf8Bytes u ++ 0xff :: s) : t = u ∧ r = s := by
  have hfront : ∀ (t : Text) (r : Bytes),
      (utf8Bytes t ++ 0xff :: r).takeWhile (· ≠ 0xff) = utf8Bytes t := by
    intro t r
    rw [List.takeWhile_append_of_pos, List.takeWhile_cons_of_neg (by simp), List.append_nil]
    intro b hb
    rw [decide_eq_true_eq]
    rintro rfl
    exact notMem_utf8Bytes t hb
  have hbytes : utf8Bytes t = utf8Bytes u := by rw [← hfront t r, h, hfront]
  refine ⟨utf8Bytes_injective hbytes, ?_⟩
  rw [hbytes, List.append_cancel_left_eq] at h
  exact (List.cons.inj h).2

end Bulwark.Foundation
