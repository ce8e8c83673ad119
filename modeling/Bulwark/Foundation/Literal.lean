import Bulwark.Foundation.Net

/-!
# The text of address literals

What characters an address is written with, and that its display can be told from every
other.
-/

namespace Bulwark.Foundation

/-! ## Characters -/

def isLiteralChar (c : Char) : Bool := (digitValue 16 c).isSome || c = ':' || c = '.'

/-- The reader takes only characters of literals. -/
def Spans {α : Type} (reader : Reader α) : Prop :=
  ∀ t value rest, reader t = some (value, rest) →
    ∃ front, t = front ++ rest ∧ front.all isLiteralChar = true

section

variable {α β : Type}

theorem Spans.bind {r : Reader α} {f : α → Reader β} (hr : Spans r) (hf : ∀ a, Spans (f a)) :
    Spans fun t => (r t).bind fun p => f p.1 p.2 := by
  intro t value rest h
  obtain ⟨⟨a, u⟩, hread, hnext⟩ := Option.bind_eq_some_iff.mp h
  obtain ⟨front, rfl, hfront⟩ := hr t a u hread
  obtain ⟨back, rfl, hback⟩ := hf a u value rest hnext
  exact ⟨front ++ back, by simp, by rw [List.all_append, hfront, hback]; rfl⟩

theorem spans_pure (a : α) : Spans fun t => some (a, t) := by
  intro t value rest h
  cases h
  exact ⟨[], rfl, rfl⟩

theorem readGivenChar_eq_some {c : Char} {t rest : Text} (h : readGivenChar c t = some rest) :
    t = c :: rest := by
  cases t with
  | nil => cases h
  | cons d t =>
      rw [readGivenChar] at h
      split at h
      · rename_i hd
        cases h
        rw [hd]
      · cases h

theorem spans_readSeparator {sep : Char} (hsep : isLiteralChar sep = true) (first : Bool)
    {inner : Reader α} (h : Spans inner) : Spans (readSeparator sep first inner) := by
  intro t value rest hread
  cases first with
  | true => exact h t value rest hread
  | false =>
      obtain ⟨u, hchar, hinner⟩ := Option.bind_eq_some_iff.mp hread
      obtain ⟨front, rfl, hfront⟩ := h u value rest hinner
      rw [readGivenChar_eq_some hchar]
      exact ⟨sep :: front, rfl, by rw [List.all_cons, hsep, hfront]; rfl⟩

end

theorem isLiteralChar_digit {radix : Nat} (hradix : radix ≤ 16) {c : Char}
    (h : (digitValue radix c).isSome = true) : isLiteralChar c = true := by
  have hdigit : (digitValue 16 c).isSome = true := by
    obtain ⟨v, hv⟩ := Option.isSome_iff_exists.mp h
    obtain ⟨hsome, hlt⟩ := Option.filter_eq_some_iff.mp hv
    rw [Option.isSome_iff_exists]
    exact ⟨v, Option.filter_eq_some_iff.mpr ⟨hsome, by simp at hlt ⊢; omega⟩⟩
  rw [isLiteralChar, hdigit, Bool.true_or, Bool.true_or]

theorem spans_readNumber {radix : Nat} (hradix : radix ≤ 16) (maxDigits : Nat) (zero : Bool)
    (bound : Nat) : Spans (readNumber radix maxDigits zero bound) := by
  intro t value rest h
  simp only [readNumber] at h
  set digits := t.takeWhile fun c => (digitValue radix c).isSome with hdigits
  have hprefix : digits ++ t.drop digits.length = t := by
    obtain ⟨back, hback⟩ := List.takeWhile_prefix (p := fun c => (digitValue radix c).isSome)
      (l := t)
    rw [← hdigits] at hback
    rw [← hback, List.drop_left]
  split at h
  · cases h
  split at h
  · cases h
  split at h
  · cases h
    refine ⟨digits, hprefix.symm, ?_⟩
    rw [List.all_eq_true]
    intro c hc
    have hdigit := List.mem_takeWhile_imp (p := fun c => (digitValue radix c).isSome) hc
    exact isLiteralChar_digit hradix hdigit
  · cases h

theorem spans_readIpv4Addr : Spans readIpv4Addr := by
  have hoctet : Spans readOctet := spans_readNumber (by decide) _ _ _
  have hdot : Spans (readSeparator '.' false readOctet) :=
    spans_readSeparator (by decide) false hoctet
  exact hoctet.bind fun a => hdot.bind fun b => hdot.bind fun c => hdot.bind fun d =>
    spans_pure (BitVec.ofNat 32 (((a * 256 + b) * 256 + c) * 256 + d))

theorem readGroups_spans (limit : Nat) (first : Bool) (t : Text) :
    ∃ front, t = front ++ (readGroups limit first t).2.2 ∧ front.all isLiteralChar = true := by
  induction limit generalizing first t with
  | zero => exact ⟨[], rfl, rfl⟩
  | succ left ih =>
      have hcolon : isLiteralChar ':' = true := by decide
      rw [readGroups]
      split
      · rename_i addr rest hquad
        split at hquad
        · exact spans_readSeparator hcolon first spans_readIpv4Addr t addr rest hquad
        · cases hquad
      · split
        · rename_i group rest hgroup
          obtain ⟨front, hfront, hall⟩ := spans_readSeparator hcolon first
            (spans_readNumber (by decide) 4 true 65536) t group rest hgroup
          obtain ⟨back, hback, hall'⟩ := ih false rest
          refine ⟨front ++ back, ?_, by rw [List.all_append, hall, hall']; rfl⟩
          rw [hfront, List.append_assoc]
          exact congrArg (front ++ ·) hback
        · exact ⟨[], rfl, rfl⟩

theorem spans_readIpv6Addr : Spans readIpv6Addr := by
  intro t value rest h
  obtain ⟨front, hfront, hall⟩ := readGroups_spans 8 true t
  rw [readIpv6Addr] at h
  generalize readGroups 8 true t = groups at h hfront
  obtain ⟨head, quad, u⟩ := groups
  dsimp only at h hfront
  split at h
  · cases h
    exact ⟨front, hfront, hall⟩
  split at h
  · cases h
  obtain ⟨v, hv, h⟩ := Option.bind_eq_some_iff.mp h
  obtain ⟨w, hw, h⟩ := Option.bind_eq_some_iff.mp h
  obtain ⟨back, hback, hall'⟩ := readGroups_spans (8 - (head.length + 1)) true w
  cases h
  refine ⟨front ++ (':' :: ':' :: back), ?_, ?_⟩
  · rw [hfront, readGivenChar_eq_some hv, readGivenChar_eq_some hw, List.append_assoc]
    exact congrArg (fun t => front ++ ':' :: ':' :: t) hback
  · rw [List.all_append, hall, List.all_cons, List.all_cons, hall']
    rfl

theorem spans_readIpAddr : Spans readIpAddr := by
  intro t value rest h
  rw [readIpAddr] at h
  split at h
  · rename_i addr u hquad
    cases h
    exact spans_readIpv4Addr t addr rest hquad
  · obtain ⟨⟨addr, u⟩, hsix, heq⟩ := Option.map_eq_some_iff.mp h
    cases heq
    exact spans_readIpv6Addr t addr rest hsix

theorem parseIpAddr_chars {t : Text} {ip : IpAddr} (h : parseIpAddr t = some ip) :
    t.all isLiteralChar = true := by
  rw [parseIpAddr, parseWith] at h
  split at h
  · rename_i value hread
    cases h
    obtain ⟨front, hfront, hall⟩ := spans_readIpAddr t ip [] hread
    rwa [hfront, List.append_nil]
  · cases h

theorem literal_not_mem {t : Text} {ip : IpAddr} (h : parseIpAddr t = some ip) {c : Char}
    (hc : isLiteralChar c = false) : c ∉ t := by
  intro hmem
  rw [List.all_eq_true.mp (parseIpAddr_chars h) c hmem] at hc
  cases hc

theorem readNumber_none {radix : Nat} {c : Char} (h : digitValue radix c = none)
    (maxDigits bound : Nat) (zero : Bool) (t : Text) :
    readNumber radix maxDigits zero bound (c :: t) = none := by
  simp [readNumber, h]

section

variable {c : Char} (h : digitValue 16 c = none)

include h

theorem readIpv4Addr_none (t : Text) : readIpv4Addr (c :: t) = none := by
  have hdecimal : digitValue 10 c = none := by
    unfold digitValue at h ⊢
    rw [Option.filter_eq_none_iff] at h ⊢
    intro n hn
    have := h n hn
    simp at this ⊢
    omega
  have hoctet : readOctet (c :: t) = none := readNumber_none hdecimal 3 256 false t
  simp [readIpv4Addr, hoctet]

theorem readGroups_none (t : Text) : readGroups 8 true (c :: t) = ([], false, c :: t) := by
  have hgroup := readNumber_none h 4 65536 true t
  simp [readGroups, readSeparator, readIpv4Addr_none h, hgroup]

end

/-! ## Numbers -/

theorem digitChar_inj : ∀ a < 16, ∀ b < 16, Nat.digitChar a = Nat.digitChar b → a = b := by
  decide

theorem toDigits_inj {base : Nat} (hbase : 1 < base) (hle : base ≤ 16) {m n : Nat}
    (h : Nat.toDigits base m = Nat.toDigits base n) : m = n := by
  induction m using Nat.strong_induction_on generalizing n with
  | _ m ih =>
      rw [Nat.toDigits_eq_if hbase, Nat.toDigits_eq_if hbase (n := n)] at h
      have hlast : ∀ k, k % base < 16 := fun k => lt_of_lt_of_le (Nat.mod_lt k (by omega)) hle
      split at h
      · rename_i hm
        split at h
        · rename_i hn
          exact digitChar_inj m (by omega) n (by omega) (by simpa using h)
        · have hlen := congrArg List.length h
          simp at hlen
      · rename_i hm
        split at h
        · have hlen := congrArg List.length h
          simp at hlen
        · obtain ⟨hfront, hback⟩ := List.append_inj' h rfl
          have hdiv : m / base = n / base :=
            ih (m / base) (Nat.div_lt_self (by omega) hbase) hfront
          have hmod : m % base = n % base :=
            digitChar_inj _ (hlast m) _ (hlast n) (by simpa using hback)
          rw [← Nat.div_add_mod m base, ← Nat.div_add_mod n base, hdiv, hmod]

theorem mem_toDigits {base n : Nat} (hbase : 1 < base) {c : Char} (h : c ∈ Nat.toDigits base n) :
    ∃ d < base, c = Nat.digitChar d := by
  induction n using Nat.strong_induction_on with
  | _ n ih =>
      rw [Nat.toDigits_eq_if hbase] at h
      split at h
      · rename_i hn
        exact ⟨n, hn, by simpa using h⟩
      · rcases List.mem_append.mp h with hfront | hback
        · exact ih (n / base) (Nat.div_lt_self (by omega) hbase) hfront
        · exact ⟨n % base, Nat.mod_lt n (by omega), by simpa using hback⟩

theorem hexDigit_chars {n : Nat} {c : Char} (h : c ∈ Nat.toDigits 16 n) :
    isLiteralChar c = true ∧ c ≠ ':' ∧ c ≠ '.' := by
  have hdigits : ∀ d < 16, isLiteralChar (Nat.digitChar d) = true ∧ Nat.digitChar d ≠ ':' ∧
      Nat.digitChar d ≠ '.' := by decide
  obtain ⟨d, hd, rfl⟩ := mem_toDigits (by decide) h
  exact hdigits d hd

theorem renderDecimal_chars {n : Nat} {c : Char} (h : c ∈ renderDecimal n) : c.isDigit = true :=
  Nat.isDigit_of_mem_toDigits (by decide) (by decide) h

theorem renderDecimal_ne_nil (n : Nat) : renderDecimal n ≠ [] := Nat.toDigits_ne_nil

def octets (addr : Ipv4Addr) : List Nat :=
  [addr.toNat / 2 ^ 24, addr.toNat / 2 ^ 16 % 256, addr.toNat / 2 ^ 8 % 256, addr.toNat % 256]

theorem octets_inj {a b : Ipv4Addr} (h : octets a = octets b) : a = b := by
  simp only [octets, List.cons.injEq, and_true] at h
  apply BitVec.eq_of_toNat_eq
  omega

theorem renderIpv4Addr_inj {a b : Ipv4Addr} (h : renderIpv4Addr a = renderIpv4Addr b) : a = b := by
  have hparts : ∀ ns : List Nat, ∀ t ∈ ns.map renderDecimal, t ≠ [] ∧ '.' ∉ t := by
    intro ns t ht
    obtain ⟨n, -, rfl⟩ := List.mem_map.mp ht
    refine ⟨renderDecimal_ne_nil n, fun hdot => ?_⟩
    have hdigit := renderDecimal_chars hdot
    cases hdigit
  have hmap : (octets a).map renderDecimal = (octets b).map renderDecimal :=
    joinWith_inj (hparts _) (hparts _) h
  apply octets_inj
  exact List.map_injective_iff.mpr (fun m n => toDigits_inj (by decide) (by decide)) hmap

theorem octet_digits : ∀ n < 256,
    ((renderDecimal n).all fun c => (digitValue 10 c).isSome) = true ∧
      (renderDecimal n).foldl (fun m c => m * 10 + (digitValue 10 c).getD 0) 0 = n ∧
        (renderDecimal n).length ≤ 3 ∧
          ((renderDecimal n).head? = some '0' → (renderDecimal n).length = 1) := by
  decide +kernel

theorem readOctet_renderDecimal {n : Nat} (hn : n < 256) {rest : Text}
    (hrest : ∀ c, rest.head? = some c → (digitValue 10 c).isSome = false) :
    readOctet (renderDecimal n ++ rest) = some (n, rest) := by
  obtain ⟨hall, hvalue, hlen, hzero⟩ := octet_digits n hn
  have hpos : 0 < (renderDecimal n).length := List.length_pos_iff.mpr (renderDecimal_ne_nil n)
  have htake : (renderDecimal n ++ rest).takeWhile (fun c => (digitValue 10 c).isSome) =
      renderDecimal n := by
    rw [List.takeWhile_append_of_pos (List.all_eq_true.mp hall)]
    cases rest with
    | nil => simp
    | cons c rest => simp [hrest c rfl]
  have hlong : ¬ ((renderDecimal n).length = 0 ∨ 3 < (renderDecimal n).length) := by omega
  have hlead : ¬ (True ∧ (renderDecimal n).head? = some '0' ∧
      1 < (renderDecimal n).length) := by
    rintro ⟨-, hhead, hlong⟩
    rw [hzero hhead] at hlong
    omega
  simp only [readOctet, readNumber, htake]
  rw [if_neg hlong, if_neg hlead, if_pos (by rw [hvalue]; exact hn), hvalue, List.drop_left]

theorem readDotOctet_renderDecimal {n : Nat} (hn : n < 256) {rest : Text}
    (hrest : ∀ c, rest.head? = some c → (digitValue 10 c).isSome = false) :
    readSeparator '.' false readOctet ('.' :: (renderDecimal n ++ rest)) = some (n, rest) :=
  readOctet_renderDecimal hn hrest

theorem parseIpAddr_renderIpv4Addr (addr : Ipv4Addr) :
    parseIpAddr (renderIpv4Addr addr) = some (.v4 addr) := by
  have hlt := addr.isLt
  set n := addr.toNat with hn
  have hform : renderIpv4Addr addr = renderDecimal (n / 2 ^ 24) ++ '.' ::
      (renderDecimal (n / 2 ^ 16 % 256) ++ '.' ::
        (renderDecimal (n / 2 ^ 8 % 256) ++ '.' :: (renderDecimal (n % 256) ++ []))) := by
    simp [renderIpv4Addr, joinWith, ← hn]
  have hdot : ∀ (t : Text) c, ('.' :: t).head? = some c → (digitValue 10 c).isSome = false := by
    intro t c hc
    cases hc
    rfl
  have hread : readIpv4Addr (renderIpv4Addr addr) = some (addr, []) := by
    rw [hform, readIpv4Addr, readOctet_renderDecimal (by omega) (hdot _)]
    simp only [Option.bind_eq_bind, Option.bind_some]
    rw [readDotOctet_renderDecimal (by omega) (hdot _)]
    simp only [Option.bind_some]
    rw [readDotOctet_renderDecimal (by omega) (hdot _)]
    simp only [Option.bind_some]
    rw [readDotOctet_renderDecimal (by omega) (by simp)]
    simp only [Option.bind_some, Option.some.injEq, Prod.mk.injEq, and_true]
    apply BitVec.eq_of_toNat_eq
    rw [BitVec.toNat_ofNat]
    omega
  rw [parseIpAddr, parseWith, readIpAddr, hread]

/-! ## IPv6 -/

/-- All segments of the span are zero. -/
def ZeroSpan.Within (span : ZeroSpan) (segs : List Nat) : Prop :=
  ∀ i, span.start ≤ i → i < span.start + span.len → segs[i]? = some 0

theorem ZeroSpan.Within.append {span : ZeroSpan} {segs : List Nat} (h : span.Within segs)
    (more : List Nat) : span.Within (segs ++ more) := by
  intro i hstart hend
  have hi := h i hstart hend
  rw [List.getElem?_append_left, hi]
  exact (List.getElem?_eq_some_iff.mp hi).1

/-- The longest span and the one that is not ended yet, after some of the segments. -/
structure SpansOf (segs : List Nat) (spans : ZeroSpan × ZeroSpan) : Prop where
  longest : spans.1.Within segs
  current : spans.2.Within segs
  ends : spans.2.len ≠ 0 → spans.2.start + spans.2.len = segs.length

theorem spansOf_foldl (segs done : List Nat) (spans : ZeroSpan × ZeroSpan)
    (h : SpansOf done spans) :
    SpansOf (done ++ segs) ((segs.zipIdx done.length).foldl
      (fun (spans : ZeroSpan × ZeroSpan) entry =>
        let (longest, current) := spans
        if entry.1 = 0 then
          let current : ZeroSpan :=
            ⟨if current.len = 0 then entry.2 else current.start, current.len + 1⟩
          (if longest.len < current.len then current else longest, current)
        else (longest, {})) spans) := by
  induction segs generalizing done spans with
  | nil => simpa using h
  | cons seg segs ih =>
      have hform : done ++ seg :: segs = (done ++ [seg]) ++ segs := by simp
      have hlen : done.length + 1 = (done ++ [seg]).length := by simp
      rw [hform, List.zipIdx_cons, List.foldl_cons, hlen]
      apply ih
      obtain ⟨longest, current⟩ := spans
      dsimp only
      by_cases hseg : seg = 0
      · subst hseg
        rw [if_pos rfl]
        have hcurrent : (⟨if current.len = 0 then done.length else current.start,
            current.len + 1⟩ : ZeroSpan).Within (done ++ [0]) := by
          intro i hstart hend
          have hends := h.ends
          have hbefore : current.Within done := h.current
          dsimp only at hstart hend hends
          by_cases hlast : i = done.length
          · simp [hlast]
          · split at hstart
            · rename_i hzero
              rw [if_pos hzero] at hend
              omega
            · rename_i hzero
              rw [if_neg hzero] at hend
              have hsum := hends hzero
              exact hbefore.append [0] i hstart (by omega)
        refine ⟨?_, hcurrent, fun _ => ?_⟩
        · dsimp only
          split
          · exact hcurrent
          · exact h.longest.append [0]
        · have hends := h.ends
          dsimp only at hends ⊢
          rw [List.length_append, List.length_singleton]
          split
          · rename_i hzero
            omega
          · rename_i hzero
            have hsum := hends hzero
            omega
      · rw [if_neg hseg]
        refine ⟨h.longest.append _, fun i hstart hend => ?_, fun hne => absurd rfl hne⟩
        exact absurd hend (by simp)

theorem longestZeros_within (segs : List Nat) : (longestZeros segs).Within segs := by
  have hnone : ∀ i, (({} : ZeroSpan).start ≤ i) →
      ¬ i < ({} : ZeroSpan).start + ({} : ZeroSpan).len := by
    simp
  have hinit : SpansOf [] ({}, {}) :=
    ⟨fun i hstart hend => absurd hend (hnone i hstart),
      fun i hstart hend => absurd hend (hnone i hstart), fun hne => absurd rfl hne⟩
  exact (spansOf_foldl segs [] ({}, {}) hinit).longest

theorem take_zeros_drop {segs : List Nat} {span : ZeroSpan} (h : span.Within segs)
    (hne : span.len ≠ 0) :
    segs = segs.take span.start ++ List.replicate span.len 0 ++
      segs.drop (span.start + span.len) := by
  have hlen : span.start + span.len ≤ segs.length := by
    have hlast := h (span.start + span.len - 1) (by omega) (by omega)
    have hlt := (List.getElem?_eq_some_iff.mp hlast).1
    omega
  have hzeros : (segs.drop span.start).take span.len = List.replicate span.len 0 := by
    rw [List.eq_replicate_iff]
    refine ⟨by simp; omega, fun v hv => ?_⟩
    obtain ⟨i, hi, rfl⟩ := List.getElem_of_mem hv
    rw [List.length_take] at hi
    have hzero := h (span.start + i) (by omega) (by omega)
    rw [List.getElem_take, List.getElem_drop]
    exact Option.some.inj ((List.getElem?_eq_getElem _).symm.trans hzero)
  rw [← hzeros, List.append_assoc, ← List.drop_drop, List.take_append_drop, List.take_append_drop]

theorem length_segments (addr : Ipv6Addr) : (segments addr).length = 8 := by
  simp [segments]

theorem segments_inj {a b : Ipv6Addr} (h : segments a = segments b) : a = b := by
  apply BitVec.eq_of_toNat_eq
  have ha := a.isLt
  have hb := b.isLt
  simp [segments, List.range_succ] at h
  omega

theorem eq_of_mapped {a b : Ipv6Addr} (ha : (segments a).take 6 = [0, 0, 0, 0, 0, 0xffff])
    (hb : (segments b).take 6 = [0, 0, 0, 0, 0, 0xffff])
    (h : BitVec.ofNat 32 a.toNat = BitVec.ofNat 32 b.toNat) : a = b := by
  have hlow := congrArg BitVec.toNat h
  rw [BitVec.toNat_ofNat, BitVec.toNat_ofNat] at hlow
  apply BitVec.eq_of_toNat_eq
  have hlta := a.isLt
  have hltb := b.isLt
  simp [segments, List.range_succ] at ha hb
  omega

/-- The parts of a display between colons; where there is none, it is empty. -/
def colonParts (segs : List Nat) : List Text :=
  if segs = [] then [[]] else segs.map (Nat.toDigits 16)

def ipv6Parts (segs : List Nat) : List Text :=
  let zeros := longestZeros segs
  if 1 < zeros.len then
    colonParts (segs.take zeros.start) ++ [] :: colonParts (segs.drop (zeros.start + zeros.len))
  else segs.map (Nat.toDigits 16)

theorem colonParts_ne_nil (segs : List Nat) : colonParts segs ≠ [] := by
  unfold colonParts
  split <;> simp_all

theorem nil_not_mem_digits (segs : List Nat) : [] ∉ segs.map (Nat.toDigits 16) := by
  intro h
  obtain ⟨n, -, hn⟩ := List.mem_map.mp h
  exact Nat.toDigits_ne_nil hn

theorem digits_inj {a b : List Nat} (h : a.map (Nat.toDigits 16) = b.map (Nat.toDigits 16)) :
    a = b :=
  List.map_injective_iff.mpr (fun m n => toDigits_inj (by decide) (by decide)) h

theorem joinWith_append {sep : Text} {ps qs : List Text} (hp : ps ≠ []) (hq : qs ≠ []) :
    joinWith sep (ps ++ qs) = joinWith sep ps ++ sep ++ joinWith sep qs := by
  obtain ⟨q, qs, rfl⟩ := List.exists_cons_of_ne_nil hq
  induction ps with
  | nil => exact absurd rfl hp
  | cons p ps ih =>
      cases ps with
      | nil => simp [joinWith]
      | cons p' ps =>
          rw [List.cons_append, List.cons_append, joinWith, ← List.cons_append,
            ih (List.cons_ne_nil _ _), joinWith]
          simp

theorem joinWith_colonParts (segs : List Nat) :
    joinWith [':'] (colonParts segs) = renderSegments segs := by
  unfold colonParts renderSegments
  cases segs <;> simp [joinWith]

theorem renderIpv6Addr_eq {addr : Ipv6Addr}
    (h : (segments addr).take 6 ≠ [0, 0, 0, 0, 0, 0xffff]) :
    renderIpv6Addr addr = joinWith [':'] (ipv6Parts (segments addr)) := by
  have hnil : ∀ segs, joinWith [':'] ([] :: colonParts segs) = ':' :: renderSegments segs := by
    intro segs
    rw [← joinWith_colonParts]
    exact @joinWith_append [':'] [[]] _ (by simp) (colonParts_ne_nil segs)
  simp only [renderIpv6Addr, ipv6Parts, if_neg h]
  split
  · rw [joinWith_append (colonParts_ne_nil _) (List.cons_ne_nil _ _), hnil, joinWith_colonParts]
    simp
  · rfl

theorem colonParts_inj {a b : List Nat} (h : colonParts a = colonParts b) : a = b := by
  have hnil : ∀ {segs : List Nat}, segs ≠ [] → [[]] ≠ segs.map (Nat.toDigits 16) := by
    intro segs _ heq
    exact nil_not_mem_digits segs (heq ▸ List.mem_singleton_self _)
  unfold colonParts at h
  split at h <;> split at h
  · rename_i ha hb
    rw [ha, hb]
  · rename_i ha hb
    exact absurd h (hnil hb)
  · rename_i ha hb
    exact absurd h.symm (hnil ha)
  · exact digits_inj h

theorem colonParts_of_ne {segs : List Nat} (h : segs ≠ []) :
    colonParts segs = segs.map (Nat.toDigits 16) := if_neg h

theorem digits_ne_nil_cons {segs : List Nat} (h : segs ≠ []) (rest rest' : List Text) :
    segs.map (Nat.toDigits 16) ++ rest ≠ [] :: rest' := by
  obtain ⟨n, segs, rfl⟩ := List.exists_cons_of_ne_nil h
  intro heq
  rw [List.map_cons, List.cons_append] at heq
  exact Nat.toDigits_ne_nil (List.cons.inj heq).1

theorem colonParts_split {a b c d : List Nat}
    (h : colonParts a ++ [] :: colonParts b = colonParts c ++ [] :: colonParts d) :
    a = c ∧ b = d := by
  by_cases ha : a = [] <;> by_cases hc : c = []
  · subst ha hc
    have hrest : [] :: colonParts b = [] :: colonParts d := (List.cons.inj h).2
    exact ⟨rfl, colonParts_inj (List.cons.inj hrest).2⟩
  · subst ha
    rw [colonParts_of_ne hc] at h
    exact absurd h.symm (digits_ne_nil_cons hc _ _)
  · subst hc
    rw [colonParts_of_ne ha] at h
    exact absurd h (digits_ne_nil_cons ha _ _)
  · rw [colonParts_of_ne ha, colonParts_of_ne hc] at h
    obtain ⟨hfront, hback⟩ := append_cons_inj (nil_not_mem_digits a) (nil_not_mem_digits c) h
    exact ⟨digits_inj hfront, colonParts_inj hback⟩

theorem ipv6Parts_inj {a b : List Nat} (hlen : a.length = b.length)
    (h : ipv6Parts a = ipv6Parts b) : a = b := by
  unfold ipv6Parts at h
  dsimp only at h
  split at h <;> split at h
  · rename_i ha hb
    obtain ⟨hfront, hback⟩ := colonParts_split h
    have hza := take_zeros_drop (longestZeros_within a) (by omega)
    have hzb := take_zeros_drop (longestZeros_within b) (by omega)
    have hzeros : (longestZeros a).len = (longestZeros b).len := by
      have hla := congrArg List.length hza
      have hlb := congrArg List.length hzb
      rw [List.length_append, List.length_append, List.length_replicate] at hla hlb
      rw [hfront, hback] at hla
      omega
    rw [hza, hzb, hfront, hback, hzeros]
  · have hmem : [] ∈ b.map (Nat.toDigits 16) := by
      rw [← h]
      simp
    exact absurd hmem (nil_not_mem_digits b)
  · have hmem : [] ∈ a.map (Nat.toDigits 16) := by
      rw [h]
      simp
    exact absurd hmem (nil_not_mem_digits a)
  · exact digits_inj h

theorem ipv6Parts_chars (segs : List Nat) :
    ∀ t ∈ ipv6Parts segs, ∀ c ∈ t, isLiteralChar c = true ∧ c ≠ ':' ∧ c ≠ '.' := by
  have hdigits : ∀ segs : List Nat, ∀ t ∈ segs.map (Nat.toDigits 16), ∀ c ∈ t,
      isLiteralChar c = true ∧ c ≠ ':' ∧ c ≠ '.' := by
    intro segs t ht c hc
    obtain ⟨n, -, rfl⟩ := List.mem_map.mp ht
    exact hexDigit_chars hc
  have hparts : ∀ segs : List Nat, ∀ t ∈ colonParts segs, ∀ c ∈ t,
      isLiteralChar c = true ∧ c ≠ ':' ∧ c ≠ '.' := by
    intro segs t ht c hc
    unfold colonParts at ht
    split at ht
    · rw [List.mem_singleton.mp ht] at hc
      cases hc
    · exact hdigits segs t ht c hc
  intro t ht c hc
  unfold ipv6Parts at ht
  dsimp only at ht
  split at ht
  · rcases List.mem_append.mp ht with ht | ht
    · exact hparts _ t ht c hc
    · rcases List.mem_cons.mp ht with rfl | ht
      · cases hc
      · exact hparts _ t ht c hc
  · exact hdigits _ t ht c hc

theorem ipv6Parts_ne_nil {segs : List Nat} (h : segs ≠ []) : ipv6Parts segs ≠ [] := by
  unfold ipv6Parts
  dsimp only
  split <;> simp [h]

theorem renderIpv4Addr_chars (addr : Ipv4Addr) :
    ∀ c ∈ renderIpv4Addr addr, c.isDigit = true ∨ c = '.' := by
  intro c hc
  rcases mem_joinWith hc with hsep | ⟨t, ht, hc⟩
  · exact .inr (List.mem_singleton.mp hsep)
  · obtain ⟨n, -, rfl⟩ := List.mem_map.mp ht
    exact .inl (renderDecimal_chars hc)

theorem dot_mem_renderIpv4Addr (addr : Ipv4Addr) : '.' ∈ renderIpv4Addr addr := by
  simp [renderIpv4Addr, joinWith]

theorem dot_not_mem_parts (segs : List Nat) : '.' ∉ joinWith [':'] (ipv6Parts segs) := by
  intro h
  rcases mem_joinWith h with hsep | ⟨t, ht, hc⟩
  · simp at hsep
  · exact (ipv6Parts_chars segs t ht '.' hc).2.2 rfl

theorem renderIpv6Addr_inj {a b : Ipv6Addr} (h : renderIpv6Addr a = renderIpv6Addr b) :
    a = b := by
  have hmapped : ∀ {addr : Ipv6Addr}, (segments addr).take 6 = [0, 0, 0, 0, 0, 0xffff] →
      renderIpv6Addr addr = "::ffff:".toList ++ renderIpv4Addr (BitVec.ofNat 32 addr.toNat) := by
    intro addr haddr
    rw [renderIpv6Addr]
    exact if_pos haddr
  have hdot : ∀ {addr : Ipv6Addr}, (segments addr).take 6 = [0, 0, 0, 0, 0, 0xffff] →
      '.' ∈ renderIpv6Addr addr := by
    intro addr haddr
    rw [hmapped haddr]
    exact List.mem_append_right _ (dot_mem_renderIpv4Addr _)
  by_cases ha : (segments a).take 6 = [0, 0, 0, 0, 0, 0xffff] <;>
    by_cases hb : (segments b).take 6 = [0, 0, 0, 0, 0, 0xffff]
  · rw [hmapped ha, hmapped hb] at h
    exact eq_of_mapped ha hb (renderIpv4Addr_inj (List.append_cancel_left h))
  · have hmem := hdot ha
    rw [h, renderIpv6Addr_eq hb] at hmem
    exact absurd hmem (dot_not_mem_parts _)
  · have hmem := hdot hb
    rw [← h, renderIpv6Addr_eq ha] at hmem
    exact absurd hmem (dot_not_mem_parts _)
  · have hne : ∀ addr, segments addr ≠ [] := fun addr hnil => by
      have hlen := length_segments addr
      rw [hnil] at hlen
      cases hlen
    have hread : ∀ addr, (joinWith [':'] (ipv6Parts (segments addr))).splitOn ':' =
        ipv6Parts (segments addr) := by
      intro addr
      rw [joinWith_eq_intercalate, List.splitOn_intercalate _ (fun t ht hc =>
        (ipv6Parts_chars _ t ht ':' hc).2.1 rfl) (ipv6Parts_ne_nil (hne addr))]
    rw [renderIpv6Addr_eq ha, renderIpv6Addr_eq hb] at h
    have hparts := hread a
    rw [h, hread b] at hparts
    exact segments_inj (ipv6Parts_inj (by rw [length_segments, length_segments]) hparts.symm)

theorem isLiteralChar_of_isDigit {c : Char} (h : c.isDigit = true) : isLiteralChar c = true := by
  have hrange : 48 ≤ c.toNat ∧ c.toNat ≤ 57 := by
    simpa [Char.isDigit, UInt32.le_iff_toNat_le] using h
  have hdigit : (digitValue 10 c).isSome = true := by
    simp [digitValue, hrange]
    omega
  exact isLiteralChar_digit (by decide) hdigit

/-- A display has only characters of literals. -/
theorem renderIpAddr_chars (ip : IpAddr) : ∀ c ∈ renderIpAddr ip, isLiteralChar c = true := by
  have hfour : ∀ addr, ∀ c ∈ renderIpv4Addr addr, isLiteralChar c = true := by
    intro addr c hc
    rcases renderIpv4Addr_chars addr c hc with hdigit | rfl
    · exact isLiteralChar_of_isDigit hdigit
    · rfl
  intro c hc
  cases ip with
  | v4 addr => exact hfour addr c hc
  | v6 addr =>
      by_cases hmapped : (segments addr).take 6 = [0, 0, 0, 0, 0, 0xffff]
      · rw [renderIpAddr, renderIpv6Addr] at hc
        dsimp only at hc
        rw [if_pos hmapped] at hc
        rcases List.mem_append.mp hc with hc | hc
        · have hprefix : "::ffff:".toList.all isLiteralChar = true := by decide
          exact List.all_eq_true.mp hprefix c hc
        · exact hfour _ c hc
      · rw [renderIpAddr, renderIpv6Addr_eq hmapped] at hc
        rcases mem_joinWith hc with hsep | ⟨t, ht, hc⟩
        · rw [List.mem_singleton.mp hsep]
          rfl
        · exact (ipv6Parts_chars _ t ht c hc).1

end Bulwark.Foundation
