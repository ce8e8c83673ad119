import Mathlib.Data.List.DropRight
import Mathlib.Data.List.Sort
import Mathlib.Tactic.Common
import Mathlib.Tactic.Ring

/-!
# Text with byte offsets

A string is its list of Unicode characters.  Lengths and offsets are counted
in UTF-8 bytes, so that cutting a string at an offset can fail: the offset may
lie past the end or inside a character.  `splitBytes` returns `none` exactly
there.  The scanning functions follow the documented behaviour of the string
methods of the same name.
-/

namespace Bulwark.Foundation

abbrev Text := List Char

instance : LawfulBEq Text := inferInstance

/-! ## Characters -/

/-- The Unicode `White_Space` property. -/
def isWhitespace (c : Char) : Bool :=
  let n := c.toNat
  (9 ≤ n && n ≤ 13) || n == 0x20 || n == 0x85 || n == 0xA0 || n == 0x1680 ||
    (0x2000 ≤ n && n ≤ 0x200A) || n == 0x2028 || n == 0x2029 ||
    n == 0x202F || n == 0x205F || n == 0x3000

def isAsciiChar (c : Char) : Bool := c.toNat < 128

def toAsciiLowercase (t : Text) : Text := t.map Char.toLower

def toAsciiUppercase (t : Text) : Text := t.map Char.toUpper

def isAscii (t : Text) : Bool := t.all isAsciiChar

theorem toNat_toLower (c : Char) :
    c.toLower.toNat =
      if 65 ≤ c.toNat ∧ c.toNat ≤ 90 then c.toNat + 32 else c.toNat := by
  have hc : c.toLower.toNat = c.toLower.val.toNat := rfl
  have hn : c.toNat = c.val.toNat := rfl
  rw [hc, hn]
  unfold Char.toLower
  have ha : ('a'.val - 'A'.val).toNat = 32 := rfl
  have hA : 'A'.val = 65 := rfl
  have hZ : 'Z'.val = 90 := rfl
  by_cases h : c.val ≥ 'A'.val ∧ c.val ≤ 'Z'.val
  · rw [dif_pos h]
    simp only [ge_iff_le, hA, hZ, UInt32.le_iff_toNat_le, UInt32.reduceToNat] at h
    rw [if_pos h, UInt32.toNat_add, ha]
    omega
  · rw [dif_neg h]
    simp only [ge_iff_le, hA, hZ, UInt32.le_iff_toNat_le, UInt32.reduceToNat] at h
    rw [if_neg h]

theorem toNat_toUpper (c : Char) :
    c.toUpper.toNat =
      if 97 ≤ c.toNat ∧ c.toNat ≤ 122 then c.toNat - 32 else c.toNat := by
  have hc : c.toUpper.toNat = c.toUpper.val.toNat := rfl
  have hn : c.toNat = c.val.toNat := rfl
  rw [hc, hn]
  unfold Char.toUpper
  have hA : ('A'.val - 'a'.val).toNat = 2 ^ 32 - 32 := rfl
  have ha : 'a'.val = 97 := rfl
  have hz : 'z'.val = 122 := rfl
  by_cases h : 'a'.val ≤ c.val ∧ c.val ≤ 'z'.val
  · rw [dif_pos h]
    simp only [ha, hz, UInt32.le_iff_toNat_le, UInt32.reduceToNat] at h
    rw [if_pos h, UInt32.toNat_add, hA]
    omega
  · rw [dif_neg h]
    simp only [ha, hz, UInt32.le_iff_toNat_le, UInt32.reduceToNat] at h
    rw [if_neg h]

theorem toLower_eq_self {c : Char} (h : ¬ (65 ≤ c.toNat ∧ c.toNat ≤ 90)) :
    c.toLower = c := by
  apply Char.ext
  apply UInt32.toNat_inj.mp
  have := toNat_toLower c
  rw [if_neg h] at this
  exact this

@[simp] theorem toLower_toLower (c : Char) : c.toLower.toLower = c.toLower := by
  apply toLower_eq_self
  rw [toNat_toLower]
  split <;> omega

@[simp] theorem toAsciiLowercase_idem (t : Text) :
    toAsciiLowercase (toAsciiLowercase t) = toAsciiLowercase t := by
  simp [toAsciiLowercase]

@[simp] theorem toAsciiLowercase_append (t u : Text) :
    toAsciiLowercase (t ++ u) = toAsciiLowercase t ++ toAsciiLowercase u := by
  simp [toAsciiLowercase]

theorem isAsciiChar_toLower (c : Char) :
    isAsciiChar c.toLower = isAsciiChar c := by
  simp only [isAsciiChar, toNat_toLower, decide_eq_decide]
  split <;> omega

/-- Neither an upper-case nor a lower-case ASCII letter. -/
def isCaseless (c : Char) : Bool :=
  !(65 ≤ c.toNat && c.toNat ≤ 90) && !(97 ≤ c.toNat && c.toNat ≤ 122)

theorem toLower_eq_iff {c d : Char} (hd : isCaseless d = true) :
    c.toLower = d ↔ c = d := by
  simp only [isCaseless, Bool.and_eq_true, Bool.not_eq_true', Bool.and_eq_false_iff,
    decide_eq_false_iff_not] at hd
  constructor
  · intro h
    have hn := toNat_toLower c
    rw [h] at hn
    split at hn
    · omega
    · rename_i hc
      rw [← h, toLower_eq_self hc]
  · rintro rfl
    exact toLower_eq_self (by omega)

/-! ## Trimming, splitting, matching -/

def trimStart (t : Text) : Text := t.dropWhile isWhitespace

def trimEnd (t : Text) : Text := t.rdropWhile isWhitespace

def trim (t : Text) : Text := trimEnd (trimStart t)

def trimEndMatches (c : Char) (t : Text) : Text := t.rdropWhile (· == c)

def trimMatches (c : Char) (t : Text) : Text :=
  (t.dropWhile (· == c)).rdropWhile (· == c)

def splitWhitespace (t : Text) : List Text :=
  (t.splitOnP isWhitespace).filter (· ≠ [])

/-- The parts before and after the first occurrence of `sep`. -/
def splitOnce (sep : Char) : Text → Option (Text × Text)
  | [] => none
  | c :: t =>
      if c = sep then some ([], t)
      else (splitOnce sep t).map fun (before, after) => (c :: before, after)

/-- The parts before and after the last occurrence of `sep`. -/
def rsplitOnce (sep : Char) (t : Text) : Option (Text × Text) :=
  (splitOnce sep t.reverse).map fun (after, before) => (before.reverse, after.reverse)

/-- The parts before and after the first occurrence of the string `sep`. -/
def splitOnceStr (sep : Text) : Text → Option (Text × Text)
  | [] => none
  | c :: t =>
      match sep.isPrefixOf? (c :: t) with
      | some after => some ([], after)
      | none =>
          (splitOnceStr sep t).map fun (before, after) => (c :: before, after)

/-- At most `n` pieces; the last one keeps the remaining separators. -/
def splitn (sep : Char) : Nat → Text → List Text
  | 0, _ => []
  | 1, t => [t]
  | n + 1, t =>
      match splitOnce sep t with
      | none => [t]
      | some (before, after) => before :: splitn sep n after

/--
The lines of a text: a line feed ends a line, a carriage return before it
belongs to the ending, and there is no line after a final line feed.
-/
def linesFrom : Text → Text → List Text
  | acc, [] => if acc = [] then [] else [acc]
  | acc, '\n' :: t =>
      (match acc.getLast? with
        | some '\r' => acc.dropLast
        | _ => acc) :: linesFrom [] t
  | acc, c :: t => linesFrom (acc ++ [c]) t

def lines (t : Text) : List Text := linesFrom [] t

def contains (c : Char) (t : Text) : Bool := t.any (· == c)

def startsWith (p t : Text) : Bool := p.isPrefixOf t

def endsWith (s t : Text) : Bool := s.isSuffixOf t

def joinWith (sep : Text) : List Text → Text
  | [] => []
  | [t] => t
  | t :: u :: rest => t ++ sep ++ joinWith sep (u :: rest)

/-- Byte order of strings: for UTF-8 it is the order of the code points. -/
def textLe : Text → Text → Bool
  | [], _ => true
  | _ :: _, [] => false
  | a :: t, b :: u => a.toNat < b.toNat || (a == b && textLe t u)

theorem textLe_total (t u : Text) : textLe t u || textLe u t := by
  induction t generalizing u with
  | nil => simp [textLe]
  | cons a t ih =>
      cases u with
      | nil => simp [textLe]
      | cons b u =>
          rcases Nat.lt_trichotomy a.toNat b.toNat with hlt | heq | hgt
          · simp [textLe, hlt]
          · have hab : a = b := Char.toNat_inj.mp heq
            simpa [textLe, hab] using ih u
          · simp [textLe, hgt]

theorem textLe_trans (t u v : Text) (h : textLe t u) (h' : textLe u v) : textLe t v := by
  induction t generalizing u v with
  | nil => rfl
  | cons a t ih =>
      cases u with
      | nil => cases h
      | cons b u =>
          cases v with
          | nil => cases h'
          | cons c v =>
              simp only [textLe, Bool.or_eq_true, decide_eq_true_eq, Bool.and_eq_true,
                beq_iff_eq] at h h' ⊢
              rcases h with hlt | ⟨rfl, ht⟩
              · rcases h' with hlt' | ⟨rfl, -⟩
                · exact .inl (hlt.trans hlt')
                · exact .inl hlt
              · rcases h' with hlt' | ⟨rfl, hu⟩
                · exact .inl hlt'
                · exact .inr ⟨rfl, ih u v ht hu⟩

def parseDecimal (t : Text) : Option Nat :=
  if t ≠ [] ∧ t.all Char.isDigit then
    some (t.foldl (fun n c => 10 * n + (c.toNat - 48)) 0)
  else none

def renderDecimal (n : Nat) : Text := Nat.toDigits 10 n

theorem isPrefixOf?_eq_some {p t rest : Text} (h : p.isPrefixOf? t = some rest) :
    t = p ++ rest := by
  induction p generalizing t with
  | nil =>
      rw [List.isPrefixOf?, Option.some.injEq] at h
      simp [h]
  | cons c p ih =>
      cases t with
      | nil => simp [List.isPrefixOf?] at h
      | cons d t =>
          rw [List.isPrefixOf?] at h
          split at h
          · rename_i hcd
            rw [ih h, beq_iff_eq.mp hcd, List.cons_append]
          · simp at h

theorem isSuffixOf?_eq_some {p t rest : Text} (h : p.isSuffixOf? t = some rest) :
    t = rest ++ p := by
  rw [List.isSuffixOf?, Option.map_eq_some_iff] at h
  obtain ⟨back, hback, rfl⟩ := h
  have ht := congrArg List.reverse (isPrefixOf?_eq_some hback)
  simpa using ht

theorem splitOnce_eq_some {sep : Char} {t before after : Text}
    (h : splitOnce sep t = some (before, after)) :
    t = before ++ sep :: after ∧ sep ∉ before := by
  induction t generalizing before with
  | nil => simp [splitOnce] at h
  | cons c t ih =>
      rw [splitOnce] at h
      split at h
      · rename_i hc
        simp only [Option.some.injEq, Prod.mk.injEq] at h
        obtain ⟨rfl, rfl⟩ := h
        simp [hc]
      · rename_i hc
        obtain ⟨⟨before', after'⟩, hsplit, heq⟩ := Option.map_eq_some_iff.mp h
        simp only [Prod.mk.injEq] at heq
        obtain ⟨rfl, rfl⟩ := heq
        obtain ⟨rfl, hnot⟩ := ih hsplit
        exact ⟨rfl, by simpa [Ne.symm hc] using hnot⟩

theorem splitOnce_append {sep : Char} {before : Text} (h : sep ∉ before) (after : Text) :
    splitOnce sep (before ++ sep :: after) = some (before, after) := by
  induction before with
  | nil => simp [splitOnce]
  | cons c before ih =>
      simp only [List.mem_cons, not_or] at h
      rw [List.cons_append, splitOnce, if_neg (Ne.symm h.1), ih h.2]
      rfl

/-- Two lists that are equal are so around the first separator. -/
theorem append_cons_inj {α : Type} {sep : α} {a b x y : List α} (ha : sep ∉ a) (hb : sep ∉ b)
    (h : a ++ sep :: x = b ++ sep :: y) : a = b ∧ x = y := by
  induction a generalizing b with
  | nil =>
      cases b with
      | nil => simpa using h
      | cons d b =>
          obtain ⟨rfl, -⟩ := List.cons.inj h
          exact absurd List.mem_cons_self hb
  | cons c a ih =>
      cases b with
      | nil =>
          obtain ⟨rfl, -⟩ := List.cons.inj h
          exact absurd List.mem_cons_self ha
      | cons d b =>
          obtain ⟨rfl, htail⟩ := List.cons.inj h
          obtain ⟨rfl, rfl⟩ := ih (fun hmem => ha (List.mem_cons_of_mem _ hmem))
            (fun hmem => hb (List.mem_cons_of_mem _ hmem)) htail
          exact ⟨rfl, rfl⟩

theorem splitOnce_eq_none {sep : Char} {t : Text} (h : splitOnce sep t = none) :
    sep ∉ t := by
  induction t with
  | nil => exact List.not_mem_nil
  | cons c t ih =>
      rw [splitOnce] at h
      split at h
      · cases h
      · rename_i hc
        rw [Option.map_eq_none_iff] at h
        simpa [Ne.symm hc] using ih h

theorem rsplitOnce_eq_some {sep : Char} {t before after : Text}
    (h : rsplitOnce sep t = some (before, after)) :
    t = before ++ sep :: after ∧ sep ∉ after := by
  obtain ⟨⟨after', before'⟩, hsplit, heq⟩ := Option.map_eq_some_iff.mp h
  simp only [Prod.mk.injEq] at heq
  obtain ⟨rfl, rfl⟩ := heq
  obtain ⟨hreverse, hnot⟩ := splitOnce_eq_some hsplit
  exact ⟨by simpa using congrArg List.reverse hreverse, by simpa using hnot⟩

theorem rsplitOnce_append {sep : Char} {after : Text} (before : Text) (h : sep ∉ after) :
    rsplitOnce sep (before ++ sep :: after) = some (before, after) := by
  have hreverse : (before ++ sep :: after).reverse = after.reverse ++ sep :: before.reverse := by
    simp
  rw [rsplitOnce, hreverse, splitOnce_append (by simpa using h)]
  simp

theorem rsplitOnce_eq_none {sep : Char} {t : Text} (h : rsplitOnce sep t = none) : sep ∉ t := by
  rw [rsplitOnce, Option.map_eq_none_iff] at h
  simpa using splitOnce_eq_none h

theorem splitOnceStr_eq_some {sep t before after : Text}
    (h : splitOnceStr sep t = some (before, after)) :
    t = before ++ sep ++ after := by
  induction t generalizing before with
  | nil => simp [splitOnceStr] at h
  | cons c t ih =>
      rw [splitOnceStr] at h
      split at h
      · rename_i rest hprefix
        simp only [Option.some.injEq, Prod.mk.injEq] at h
        obtain ⟨rfl, rfl⟩ := h
        simpa using isPrefixOf?_eq_some hprefix
      · obtain ⟨⟨before', after'⟩, hsplit, heq⟩ := Option.map_eq_some_iff.mp h
        simp only [Prod.mk.injEq] at heq
        obtain ⟨rfl, rfl⟩ := heq
        rw [ih hsplit]
        simp

theorem isPrefixOf?_append (p rest : Text) : p.isPrefixOf? (p ++ rest) = some rest := by
  induction p with
  | nil => rfl
  | cons c p ih => simp [List.isPrefixOf?, ih]

theorem splitOnceStr_append {c : Char} {sep before : Text} (h : c ∉ before) (after : Text) :
    splitOnceStr (c :: sep) (before ++ (c :: sep) ++ after) = some (before, after) := by
  induction before with
  | nil =>
      have hstrip : (c :: sep).isPrefixOf? (c :: (sep ++ after)) = some after :=
        isPrefixOf?_append _ _
      rw [List.nil_append, List.cons_append, splitOnceStr, hstrip]
  | cons d before ih =>
      simp only [List.mem_cons, not_or] at h
      have hstrip : (c :: sep).isPrefixOf? (d :: (before ++ (c :: sep) ++ after)) = none := by
        simp [List.isPrefixOf?, h.1]
      rw [List.cons_append, List.cons_append, splitOnceStr, hstrip, ih h.2]
      rfl

theorem trimEnd_isPrefix (t : Text) : trimEnd t <+: t := List.rdropWhile_prefix _ t

theorem trimEndMatches_subset (c : Char) (t : Text) : trimEndMatches c t ⊆ t := by
  have h := List.rdropWhile_prefix (· == c) t
  exact h.subset

theorem trim_subset (t : Text) : trim t ⊆ t := by
  intro c hc
  have hstart := (trimEnd_isPrefix (trimStart t)).subset hc
  exact (t.dropWhile_suffix _).subset hstart

theorem trim_of_ends {t : Text}
    (hfirst : ∀ c, t.head? = some c → isWhitespace c = false)
    (hlast : ∀ c, t.getLast? = some c → isWhitespace c = false) : trim t = t := by
  have hstart : trimStart t = t := by
    cases t with
    | nil => rfl
    | cons c t => simp [trimStart, hfirst c rfl]
  rw [trim, hstart, trimEnd, List.rdropWhile_eq_self_iff]
  intro hne
  simp [hlast _ (List.getLast?_eq_some_getLast hne)]

theorem trim_isPrefix {t u : Text} (h : t <+: u) (hstart : trimStart u = u) :
    trim t <+: u := by
  have ht : trimStart t = t := by
    cases t with
    | nil => rfl
    | cons c t =>
        obtain ⟨back, rfl⟩ := h
        rw [trimStart, List.dropWhile_eq_self_iff] at hstart
        simpa [trimStart] using hstart (by simp)
  rw [trim, ht]
  exact (trimEnd_isPrefix t).trans h

theorem trimStart_trim (t : Text) : trimStart (trim t) = trim t := by
  rw [trimStart, List.dropWhile_eq_self_iff]
  intro hpos
  obtain ⟨back, hback⟩ := trimEnd_isPrefix (trimStart t)
  have hfirst : (trim t).head? = (trimStart t).head? := by
    rw [← hback, trim, List.head?_append_of_ne_nil]
    exact List.ne_nil_of_length_pos hpos
  have hdrop := List.head?_dropWhile_not isWhitespace t
  rw [← trimStart, ← hfirst, List.head?_eq_getElem?, List.getElem?_eq_getElem hpos] at hdrop
  simpa using hdrop

theorem head?_trim_cons {c : Char} (t : Text) (hc : isWhitespace c = false) :
    (trim (c :: t)).head? = some c := by
  have hstart : trimStart (c :: t) = c :: t := by simp [trimStart, hc]
  have hne : trim (c :: t) ≠ [] := by
    rw [trim, hstart, trimEnd, Ne, List.rdropWhile_eq_nil_iff]
    intro hall
    rw [hall c List.mem_cons_self] at hc
    cases hc
  obtain ⟨back, hback⟩ := trim_isPrefix List.prefix_rfl hstart
  rw [← List.head?_append_of_ne_nil _ hne, hback, List.head?_cons]

theorem startsWith_singleton (c : Char) (t : Text) :
    startsWith [c] t = (t.head? == some c) := by
  cases t with
  | nil => rfl
  | cons d t =>
      rw [startsWith, List.isPrefixOf, List.isPrefixOf_nil_left, Bool.and_true,
        List.head?_cons, Option.some_beq_some, Bool.beq_comm]

theorem mem_of_mem_splitOnP {p : Char → Bool} {t piece : Text} {c : Char}
    (h : piece ∈ t.splitOnP p) (hc : c ∈ piece) : c ∈ t ∧ p c = false := by
  induction t generalizing piece with
  | nil =>
      obtain rfl : piece = [] := by simpa using h
      simp at hc
  | cons d t ih =>
      rw [List.splitOnP_cons_eq_if_modifyHead] at h
      split at h
      · rcases List.mem_cons.mp h with rfl | h
        · simp at hc
        · exact (ih h hc).imp (List.mem_cons_of_mem _) id
      · rename_i hd
        cases hpieces : t.splitOnP p with
        | nil =>
            rw [hpieces] at h
            simp at h
        | cons first rest =>
            rw [hpieces, List.modifyHead_cons, List.mem_cons] at h
            rw [hpieces] at ih
            rcases h with rfl | h
            · rcases List.mem_cons.mp hc with rfl | hc
              · exact ⟨List.mem_cons_self, by simpa using hd⟩
              · exact (ih List.mem_cons_self hc).imp (List.mem_cons_of_mem _) id
            · exact (ih (List.mem_cons_of_mem _ h) hc).imp (List.mem_cons_of_mem _) id

theorem trim_trim (t : Text) : trim (trim t) = trim t := by
  have hend : trimEnd (trim t) = trim t := List.rdropWhile_idempotent _ _
  rw [trim, trimStart_trim, hend]

theorem of_mem_splitWhitespace {t word : Text} (h : word ∈ splitWhitespace t) :
    word ≠ [] ∧ ∀ c ∈ word, isWhitespace c = false := by
  rw [splitWhitespace, List.mem_filter] at h
  exact ⟨by simpa using h.2, fun c hc => (mem_of_mem_splitOnP h.1 hc).2⟩

theorem head?_first_word {t first : Text} {rest : List Text} (hstart : trimStart t = t)
    (h : splitWhitespace t = first :: rest) : first.head? = t.head? := by
  cases t with
  | nil => simp [splitWhitespace] at h
  | cons c t =>
      have hc : isWhitespace c = false := by
        rw [Bool.eq_false_iff]
        intro hblank
        have hlen := (t.dropWhile_suffix isWhitespace).length_le
        rw [trimStart, List.dropWhile_cons_of_pos hblank] at hstart
        rw [hstart, List.length_cons] at hlen
        omega
      rw [splitWhitespace, List.splitOnP_cons_eq_if_modifyHead, hc] at h
      cases hpieces : t.splitOnP isWhitespace with
      | nil => exact absurd hpieces (List.splitOnP_ne_nil _ _)
      | cons piece pieces =>
          simp only [hpieces, Bool.false_eq_true, if_false, List.modifyHead_cons] at h
          rw [List.filter_cons_of_pos (by simp)] at h
          obtain ⟨rfl, -⟩ := List.cons.inj h
          rfl

section

variable {a b : Text} (ha : a ≠ []) (hb : b ≠ []) (hwa : ∀ c ∈ a, isWhitespace c = false)
  (hwb : ∀ c ∈ b, isWhitespace c = false)

include ha hb hwa hwb

theorem splitWhitespace_pair : splitWhitespace (a ++ ' ' :: b) = [a, b] := by
  rw [splitWhitespace, List.splitOnP_append_cons_of_forall_mem hwa ' ' (by decide),
    List.splitOnP_eq_singleton hwb]
  simp [ha, hb]

theorem trim_pair : trim (a ++ ' ' :: b) = a ++ ' ' :: b := by
  apply trim_of_ends
  · intro c hc
    rw [List.head?_append_of_ne_nil _ ha] at hc
    exact hwa c (List.mem_of_mem_head? hc)
  · intro c hc
    rw [List.getLast?_append_of_ne_nil _ (List.cons_ne_nil _ _),
      List.getLast?_cons_of_ne_nil hb] at hc
    exact hwb c (List.mem_of_mem_getLast? hc)

end

theorem joinWith_eq_intercalate (sep : Text) (parts : List Text) :
    joinWith sep parts = sep.intercalate parts := by
  induction parts with
  | nil => rfl
  | cons t parts ih =>
      cases parts with
      | nil => simp [joinWith]
      | cons u rest => rw [joinWith, ih, List.intercalate_cons_cons]

theorem mem_joinWith {sep : Text} {ps : List Text} {c : Char} (h : c ∈ joinWith sep ps) :
    c ∈ sep ∨ ∃ t ∈ ps, c ∈ t := by
  induction ps with
  | nil => cases h
  | cons p ps ih =>
      cases ps with
      | nil => exact .inr ⟨p, List.mem_cons_self, h⟩
      | cons p' ps =>
          rw [joinWith, List.append_assoc] at h
          rcases List.mem_append.mp h with h | h
          · exact .inr ⟨p, List.mem_cons_self, h⟩
          · rcases List.mem_append.mp h with h | h
            · exact .inl h
            · rcases ih h with h | ⟨t, ht, hc⟩
              · exact .inl h
              · exact .inr ⟨t, List.mem_cons_of_mem _ ht, hc⟩

/-- Joined with a character none of the parts has, the parts can be read back. -/
theorem joinWith_inj {sep : Char} {ps qs : List Text}
    (hp : ∀ t ∈ ps, t ≠ [] ∧ sep ∉ t) (hq : ∀ t ∈ qs, t ≠ [] ∧ sep ∉ t)
    (h : joinWith [sep] ps = joinWith [sep] qs) : ps = qs := by
  have hread : ∀ {ts : List Text}, (∀ t ∈ ts, t ≠ [] ∧ sep ∉ t) → ts ≠ [] →
      (joinWith [sep] ts).splitOn sep = ts := by
    intro ts hts hne
    rw [joinWith_eq_intercalate, List.splitOn_intercalate _ (fun t ht => (hts t ht).2) hne]
  have hempty : ∀ {ts : List Text}, (∀ t ∈ ts, t ≠ [] ∧ sep ∉ t) →
      joinWith [sep] ts = [] → ts = [] := by
    intro ts hts hnil
    by_contra hne
    have hts' := hread hts hne
    rw [hnil] at hts'
    have hmem : [] ∈ ts := by
      rw [← hts']
      simp
    exact (hts _ hmem).1 rfl
  by_cases hps : ps = []
  · rw [hps] at h ⊢
    exact (hempty hq h.symm).symm
  · by_cases hqs : qs = []
    · rw [hqs] at h ⊢
      exact hempty hp h
    · rw [← hread hp hps, h, hread hq hqs]

theorem linesFrom_line {acc t rest : Text} (hfeed : '\n' ∉ t)
    (hreturn : (acc ++ t).getLast? ≠ some '\r') :
    linesFrom acc (t ++ '\n' :: rest) = (acc ++ t) :: linesFrom [] rest := by
  induction t generalizing acc with
  | nil =>
      rw [List.nil_append, linesFrom]
      rw [List.append_nil] at hreturn ⊢
      split
      · rename_i heq
        exact absurd heq hreturn
      · rfl
  | cons c t ih =>
      simp only [List.mem_cons, not_or] at hfeed
      have hc : ¬ c = '\n' := fun h => hfeed.1 h.symm
      rw [List.cons_append, linesFrom.eq_3 _ _ _ hc, ih hfeed.2 (by simpa using hreturn)]
      simp

theorem lines_eq_singleton {t : Text} (hfeed : '\n' ∉ t) (hne : t ≠ []) :
    lines t = [t] := by
  have hfrom : ∀ acc : Text, linesFrom acc t =
      if acc ++ t = [] then [] else [acc ++ t] := by
    clear hne
    induction t with
    | nil =>
        intro acc
        rw [linesFrom, List.append_nil]
    | cons c t ih =>
        intro acc
        simp only [List.mem_cons, not_or] at hfeed
        have hc : ¬ c = '\n' := fun h => hfeed.1 h.symm
        rw [linesFrom.eq_3 _ _ _ hc, ih hfeed.2]
        simp
  rw [lines, hfrom, if_neg (by simpa using hne), List.nil_append]

/-! ## Byte lengths and byte offsets -/

def utf8Len (t : Text) : Nat := (t.map Char.utf8Size).sum

/-- Cut a text at a byte offset; `none` when that is not a boundary in it. -/
def splitBytes : Text → Nat → Option (Text × Text)
  | t, 0 => some ([], t)
  | [], _ + 1 => none
  | c :: t, n + 1 =>
      if c.utf8Size ≤ n + 1 then
        (splitBytes t (n + 1 - c.utf8Size)).map fun (front, back) =>
          (c :: front, back)
      else none

def isCharBoundary (t : Text) (n : Nat) : Bool := (splitBytes t n).isSome

/-- `&t[start..start + len]`, `none` where the slice panics. -/
def sliceBytes (t : Text) (start len : Nat) : Option Text := do
  let (_, back) ← splitBytes t start
  let (front, _) ← splitBytes back len
  some front

@[simp] theorem utf8Len_nil : utf8Len [] = 0 := rfl

@[simp] theorem utf8Len_cons (c : Char) (t : Text) :
    utf8Len (c :: t) = c.utf8Size + utf8Len t := by
  simp [utf8Len]

@[simp] theorem utf8Len_append (t u : Text) :
    utf8Len (t ++ u) = utf8Len t + utf8Len u := by
  simp [utf8Len]

theorem utf8Size_of_isAsciiChar {c : Char} (h : isAsciiChar c = true) :
    c.utf8Size = 1 := by
  rw [Char.utf8Size_eq_one_iff, UInt32.le_iff_toNat_le]
  have hc : c.toNat < 128 := by simpa [isAsciiChar] using h
  exact Nat.le_of_lt_succ hc

theorem utf8Len_of_isAscii {t : Text} (h : isAscii t = true) :
    utf8Len t = t.length := by
  induction t with
  | nil => rfl
  | cons c t ih =>
      simp only [isAscii, List.all_cons, Bool.and_eq_true] at h
      rw [utf8Len_cons, utf8Size_of_isAsciiChar h.1, ih h.2, List.length_cons]
      omega

@[simp] theorem splitBytes_zero (t : Text) : splitBytes t 0 = some ([], t) := by
  cases t <;> rfl

theorem splitBytes_cons (c : Char) (t : Text) (n : Nat)
    (h : c.utf8Size ≤ n) :
    splitBytes (c :: t) n =
      (splitBytes t (n - c.utf8Size)).map fun (front, back) =>
        (c :: front, back) := by
  have hpos := Char.utf8Size_pos c
  obtain ⟨m, rfl⟩ : ∃ m, n = m + 1 := ⟨n - 1, by omega⟩
  rw [splitBytes, if_pos h]

theorem splitBytes_append_add (t u : Text) (n : Nat) :
    splitBytes (t ++ u) (utf8Len t + n) =
      (splitBytes u n).map fun (front, back) => (t ++ front, back) := by
  induction t with
  | nil => simp
  | cons c t ih =>
      rw [List.cons_append, splitBytes_cons _ _ _ (by simp; omega)]
      have hsub : utf8Len (c :: t) + n - c.utf8Size = utf8Len t + n := by
        simp; omega
      rw [hsub, ih]
      cases splitBytes u n <;> simp

@[simp] theorem splitBytes_append (t u : Text) :
    splitBytes (t ++ u) (utf8Len t) = some (t, u) := by
  have h := splitBytes_append_add t u 0
  simpa using h

theorem splitBytes_eq_some {t front back : Text} {n : Nat}
    (h : splitBytes t n = some (front, back)) :
    t = front ++ back ∧ n = utf8Len front := by
  induction t generalizing n front with
  | nil =>
      cases n with
      | zero =>
          simp only [splitBytes_zero, Option.some.injEq, Prod.mk.injEq] at h
          obtain ⟨rfl, rfl⟩ := h
          simp
      | succ n => simp [splitBytes] at h
  | cons c t ih =>
      cases n with
      | zero =>
          simp only [splitBytes_zero, Option.some.injEq, Prod.mk.injEq] at h
          obtain ⟨rfl, rfl⟩ := h
          simp
      | succ n =>
          rw [splitBytes] at h
          split at h
          · rename_i hle
            obtain ⟨⟨front', back'⟩, hsplit, heq⟩ := Option.map_eq_some_iff.mp h
            simp only [Prod.mk.injEq] at heq
            obtain ⟨rfl, rfl⟩ := heq
            obtain ⟨rfl, hn⟩ := ih hsplit
            refine ⟨rfl, ?_⟩
            rw [utf8Len_cons]
            omega
          · simp at h

theorem splitBytes_take (t u : Text) {n : Nat} (h : n ≤ utf8Len t) :
    splitBytes (t ++ u) n =
      (splitBytes t n).map fun (front, back) => (front, back ++ u) := by
  induction t generalizing n with
  | nil =>
      obtain rfl : n = 0 := by simpa using h
      simp
  | cons c t ih =>
      cases n with
      | zero => simp
      | succ n =>
          rw [List.cons_append, splitBytes, splitBytes]
          split
          · rename_i hle
            rw [utf8Len_cons] at h
            rw [ih (by omega)]
            cases splitBytes t (n + 1 - c.utf8Size) <;> simp
          · rfl

/-- A slice that starts where `before` ends only looks at what follows. -/
theorem sliceBytes_append (before t : Text) (len : Nat) :
    sliceBytes (before ++ t) (utf8Len before) len =
      (splitBytes t len).map Prod.fst := by
  rw [sliceBytes, splitBytes_append]
  cases h : splitBytes t len <;> simp [h]

theorem isSome_sliceBytes_iff {t : Text} {start len : Nat} :
    (sliceBytes t start len).isSome = true ↔
      isCharBoundary t start = true ∧ isCharBoundary t (start + len) = true := by
  rw [sliceBytes, isCharBoundary, isCharBoundary]
  cases hsplit : splitBytes t start with
  | none => simp
  | some parts =>
      obtain ⟨front, back⟩ := parts
      obtain ⟨rfl, rfl⟩ := splitBytes_eq_some hsplit
      rw [splitBytes_append_add]
      cases hback : splitBytes back len <;> simp [hback]

end Bulwark.Foundation
