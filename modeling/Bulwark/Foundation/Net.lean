import Bulwark.Foundation.Text

/-!
# Internet addresses as text

Parsing and display of IPv4 and IPv6 literals, following the standard
library's address parser: at most three decimal digits without a leading zero
for each IPv4 octet, at most four hexadecimal digits for each IPv6 group, one
`::`, and an optional trailing dotted quad.  A reader returns the value with
the unread rest.
-/

namespace Bulwark.Foundation

abbrev Ipv4Addr := BitVec 32

abbrev Ipv6Addr := BitVec 128

inductive IpAddr where
  | v4 (addr : Ipv4Addr)
  | v6 (addr : Ipv6Addr)
  deriving DecidableEq, Repr

namespace IpAddr

def isUnspecified : IpAddr → Bool
  | .v4 addr => addr == 0
  | .v6 addr => addr == 0

/-- `127.0.0.0/8` for IPv4, `::1` for IPv6. -/
def isLoopback : IpAddr → Bool
  | .v4 addr => addr.toNat / 2 ^ 24 == 127
  | .v6 addr => addr == 1

end IpAddr

/-! ## Readers -/

abbrev Reader (α : Type) := Text → Option (α × Text)

def digitValue (radix : Nat) (c : Char) : Option Nat :=
  let n := c.toNat
  let value :=
    if 48 ≤ n ∧ n ≤ 57 then some (n - 48)
    else if 97 ≤ n ∧ n ≤ 122 then some (n - 97 + 10)
    else if 65 ≤ n ∧ n ≤ 90 then some (n - 65 + 10)
    else none
  value.filter (· < radix)

def readGivenChar (c : Char) : Text → Option Text
  | [] => none
  | d :: t => if d = c then some t else none

def readSeparator {α : Type} (sep : Char) (first : Bool) (inner : Reader α) :
    Reader α := fun t =>
  if first then inner t else readGivenChar sep t >>= inner

def readNumber (radix maxDigits : Nat) (allowZeroPrefix : Bool) (bound : Nat) :
    Reader Nat := fun t =>
  let digits := (t.takeWhile fun c => (digitValue radix c).isSome)
  let value := digits.foldl (fun n c => n * radix + (digitValue radix c).getD 0) 0
  if digits.length = 0 ∨ maxDigits < digits.length then none
  else if allowZeroPrefix = false ∧ digits.head? = some '0' ∧ 1 < digits.length then none
  else if value < bound then some (value, t.drop digits.length)
  else none

def readOctet : Reader Nat := readNumber 10 3 false 256

def readIpv4Addr : Reader Ipv4Addr := fun t => do
  let (a, t) ← readOctet t
  let (b, t) ← readSeparator '.' false readOctet t
  let (c, t) ← readSeparator '.' false readOctet t
  let (d, t) ← readSeparator '.' false readOctet t
  some (BitVec.ofNat 32 (((a * 256 + b) * 256 + c) * 256 + d), t)

/--
Read at most `limit` groups; the flag tells whether they end in a dotted quad,
which needs room for two groups.
-/
def readGroups : Nat → Bool → Text → List Nat × Bool × Text
  | 0, _, t => ([], false, t)
  | left + 1, first, t =>
      match (if 1 ≤ left then readSeparator ':' first readIpv4Addr t else none) with
      | some (addr, rest) =>
          ([addr.toNat / 65536, addr.toNat % 65536], true, rest)
      | none =>
          match readSeparator ':' first (readNumber 16 4 true 65536) t with
          | some (group, rest) =>
              let (groups, quad, rest) := readGroups left false rest
              (group :: groups, quad, rest)
          | none => ([], false, t)

def ofSegments (segments : List Nat) : Ipv6Addr :=
  BitVec.ofNat 128 (segments.foldl (fun n g => n * 65536 + g) 0)

def readIpv6Addr : Reader Ipv6Addr := fun t =>
  match readGroups 8 true t with
  | (head, headQuad, t) =>
      if head.length = 8 then some (ofSegments head, t)
      else if headQuad then none
      else do
        let t ← readGivenChar ':' t
        let t ← readGivenChar ':' t
        let (tail, _, t) := readGroups (8 - (head.length + 1)) true t
        let zeros := List.replicate (8 - head.length - tail.length) 0
        some (ofSegments (head ++ zeros ++ tail), t)

def readIpAddr : Reader IpAddr := fun t =>
  match readIpv4Addr t with
  | some (addr, rest) => some (.v4 addr, rest)
  | none => (readIpv6Addr t).map fun (addr, rest) => (.v6 addr, rest)

def parseWith {α : Type} (reader : Reader α) (t : Text) : Option α :=
  match reader t with
  | some (value, []) => some value
  | _ => none

def parseIpv4Addr (t : Text) : Option Ipv4Addr :=
  if 15 < utf8Len t then none else parseWith readIpv4Addr t

def parseIpv6Addr (t : Text) : Option Ipv6Addr := parseWith readIpv6Addr t

def parseIpAddr (t : Text) : Option IpAddr := parseWith readIpAddr t

/-! ## Display -/

def renderIpv4Addr (addr : Ipv4Addr) : Text :=
  let n := addr.toNat
  joinWith ['.'] ([n / 2 ^ 24, n / 2 ^ 16 % 256, n / 2 ^ 8 % 256, n % 256].map
    renderDecimal)

def segments (addr : Ipv6Addr) : List Nat :=
  (List.range 8).map fun i => addr.toNat / 65536 ^ (7 - i) % 65536

structure ZeroSpan where
  start : Nat := 0
  len : Nat := 0
  deriving DecidableEq, Repr

def longestZeros (segs : List Nat) : ZeroSpan :=
  (segs.zipIdx.foldl (fun (spans : ZeroSpan × ZeroSpan) entry =>
    let (longest, current) := spans
    if entry.1 = 0 then
      let current : ZeroSpan :=
        ⟨if current.len = 0 then entry.2 else current.start, current.len + 1⟩
      (if longest.len < current.len then current else longest, current)
    else (longest, {})) ({}, {})).1

def renderSegments (segs : List Nat) : Text :=
  joinWith [':'] (segs.map (Nat.toDigits 16))

def renderIpv6Addr (addr : Ipv6Addr) : Text :=
  let segs := segments addr
  if segs.take 6 = [0, 0, 0, 0, 0, 0xffff] then
    "::ffff:".toList ++ renderIpv4Addr (BitVec.ofNat 32 addr.toNat)
  else
    let zeros := longestZeros segs
    if 1 < zeros.len then
      renderSegments (segs.take zeros.start) ++ "::".toList ++
        renderSegments (segs.drop (zeros.start + zeros.len))
    else renderSegments segs

def renderIpAddr : IpAddr → Text
  | .v4 addr => renderIpv4Addr addr
  | .v6 addr => renderIpv6Addr addr

example : parseIpAddr "2001:0DB8::0001".toList =
    some (.v6 0x20010db8000000000000000000000001) := by decide +kernel

example : renderIpAddr (.v6 0x20010db8000000000000000000000001) =
    "2001:db8::1".toList := by decide +kernel

example : parseIpAddr "127.0.00.1".toList = none := by decide +kernel

/-! ## Letter case -/

def CaseBlind {α : Type} (reader : Reader α) : Prop :=
  ∀ t, reader (toAsciiLowercase t) =
    (reader t).map fun (value, rest) => (value, toAsciiLowercase rest)

theorem digitValue_toLower (radix : Nat) (c : Char) :
    digitValue radix c.toLower = digitValue radix c := by
  simp only [digitValue, toNat_toLower]
  congr 1
  split_ifs <;> first | rfl | omega

theorem readGivenChar_lower {c : Char} (hc : isCaseless c = true) (t : Text) :
    readGivenChar c (toAsciiLowercase t) = (readGivenChar c t).map toAsciiLowercase := by
  cases t with
  | nil => rfl
  | cons d t =>
      simp only [toAsciiLowercase, List.map_cons, readGivenChar, toLower_eq_iff hc]
      split <;> rfl

theorem caseBlind_readSeparator {α : Type} {sep : Char} (hsep : isCaseless sep = true)
    (first : Bool) {inner : Reader α} (h : CaseBlind inner) :
    CaseBlind (readSeparator sep first inner) := by
  intro t
  cases first with
  | true => exact h t
  | false =>
      simp only [readSeparator, readGivenChar_lower hsep, Bool.false_eq_true, if_false]
      cases readGivenChar sep t with
      | none => rfl
      | some rest => exact h rest

theorem caseBlind_readNumber (radix maxDigits : Nat) (zero : Bool) (bound : Nat) :
    CaseBlind (readNumber radix maxDigits zero bound) := by
  intro t
  have htake : (toAsciiLowercase t).takeWhile (fun c => (digitValue radix c).isSome) =
      toAsciiLowercase (t.takeWhile fun c => (digitValue radix c).isSome) := by
    rw [toAsciiLowercase, toAsciiLowercase, List.takeWhile_map]
    congr 2
    funext c
    simp [digitValue_toLower]
  set digits := t.takeWhile fun c => (digitValue radix c).isSome with hdigits
  have hlen : (toAsciiLowercase digits).length = digits.length := by
    simp [toAsciiLowercase]
  have hhead : (toAsciiLowercase digits).head? = some '0' ↔ digits.head? = some '0' := by
    cases digits with
    | nil => simp [toAsciiLowercase]
    | cons d rest =>
        have hzero : isCaseless '0' = true := by decide
        simp [toAsciiLowercase, toLower_eq_iff hzero]
  have hvalue : (toAsciiLowercase digits).foldl
      (fun n c => n * radix + (digitValue radix c).getD 0) 0 =
      digits.foldl (fun n c => n * radix + (digitValue radix c).getD 0) 0 := by
    rw [toAsciiLowercase, List.foldl_map]
    simp only [digitValue_toLower]
  simp only [readNumber, htake, ← hdigits, hlen, hhead, hvalue]
  split
  · rfl
  split
  · rfl
  split
  · simp [toAsciiLowercase, List.map_drop]
  · rfl

theorem CaseBlind.bind {α β : Type} {r : Reader α} {f : α → Reader β} (hr : CaseBlind r)
    (hf : ∀ a, CaseBlind (f a)) : CaseBlind fun t => (r t).bind fun p => f p.1 p.2 := by
  intro t
  simp only [hr t]
  cases r t with
  | none => rfl
  | some p => exact hf p.1 p.2

theorem caseBlind_readIpv4Addr : CaseBlind readIpv4Addr := by
  have hoctet : CaseBlind readOctet := caseBlind_readNumber _ _ _ _
  have hdot : CaseBlind (readSeparator '.' false readOctet) :=
    caseBlind_readSeparator (by decide) false hoctet
  have hdef : readIpv4Addr = fun t => (readOctet t).bind fun a =>
      (readSeparator '.' false readOctet a.2).bind fun b =>
      (readSeparator '.' false readOctet b.2).bind fun c =>
      (readSeparator '.' false readOctet c.2).bind fun d =>
      some (BitVec.ofNat 32 (((a.1 * 256 + b.1) * 256 + c.1) * 256 + d.1), d.2) := rfl
  have hlast : ∀ n, CaseBlind fun t : Text => some (BitVec.ofNat 32 n, t) := fun _ _ => rfl
  rw [hdef]
  exact hoctet.bind fun a => hdot.bind fun b => hdot.bind fun c =>
    hdot.bind fun d => hlast (((a * 256 + b) * 256 + c) * 256 + d)

theorem readGroups_lower (limit : Nat) (first : Bool) (t : Text) :
    readGroups limit first (toAsciiLowercase t) =
      ((readGroups limit first t).1, (readGroups limit first t).2.1,
        toAsciiLowercase (readGroups limit first t).2.2) := by
  induction limit generalizing first t with
  | zero => rfl
  | succ left ih =>
      have hcolon : isCaseless ':' = true := by decide
      have hquad : (if 1 ≤ left then readSeparator ':' first readIpv4Addr
            (toAsciiLowercase t) else none) =
          (if 1 ≤ left then readSeparator ':' first readIpv4Addr t else none).map
            fun (value, rest) => (value, toAsciiLowercase rest) := by
        split
        · exact caseBlind_readSeparator hcolon first caseBlind_readIpv4Addr t
        · rfl
      have hgroup := caseBlind_readSeparator hcolon first
        (caseBlind_readNumber 16 4 true 65536) t
      rw [readGroups, readGroups, hquad]
      cases (if 1 ≤ left then readSeparator ':' first readIpv4Addr t else none) with
      | some quad => rfl
      | none =>
          simp only [Option.map_none]
          rw [hgroup]
          cases readSeparator ':' first (readNumber 16 4 true 65536) t with
          | none => rfl
          | some group =>
              simp only [Option.map_some, ih]

theorem caseBlind_readIpv6Addr : CaseBlind readIpv6Addr := by
  intro t
  have hcolon : ∀ t : Text, readGivenChar ':' (toAsciiLowercase t) =
      (readGivenChar ':' t).map toAsciiLowercase :=
    readGivenChar_lower (by decide)
  rw [readIpv6Addr, readIpv6Addr, readGroups_lower]
  obtain ⟨head, quad, rest⟩ := readGroups 8 true t
  simp only
  split
  · rfl
  split
  · rfl
  rw [hcolon]
  cases readGivenChar ':' rest with
  | none => rfl
  | some rest =>
      simp only [Option.map_some, Option.bind_eq_bind, Option.bind_some]
      rw [hcolon]
      cases readGivenChar ':' rest with
      | none => rfl
      | some rest =>
          simp only [Option.map_some, Option.bind_some, readGroups_lower]

theorem caseBlind_readIpAddr : CaseBlind readIpAddr := by
  intro t
  rw [readIpAddr, readIpAddr, caseBlind_readIpv4Addr t]
  cases readIpv4Addr t with
  | some p => rfl
  | none =>
      simp only [Option.map_none, caseBlind_readIpv6Addr t]
      cases readIpv6Addr t <;> rfl

theorem parseIpAddr_lower (t : Text) :
    parseIpAddr (toAsciiLowercase t) = parseIpAddr t := by
  rw [parseIpAddr, parseIpAddr, parseWith, parseWith, caseBlind_readIpAddr t]
  cases readIpAddr t with
  | none => rfl
  | some p =>
      obtain ⟨ip, rest⟩ := p
      cases rest <;> rfl

/-! ## Networks -/

structure IpNet where
  addr : IpAddr
  prefixLen : Nat
  deriving DecidableEq, Repr

/-- Same family and the same leading `prefixLen` bits. -/
def IpNet.contains (net : IpNet) : IpAddr → Bool
  | .v4 ip =>
      match net.addr with
      | .v4 base => ip >>> (32 - net.prefixLen) == base >>> (32 - net.prefixLen)
      | .v6 _ => false
  | .v6 ip =>
      match net.addr with
      | .v6 base => ip >>> (128 - net.prefixLen) == base >>> (128 - net.prefixLen)
      | .v4 _ => false

def IpAddr.width : IpAddr → Nat
  | .v4 _ => 32
  | .v6 _ => 128

/-- An address as a `/32` or `/128` network. -/
def IpAddr.hostNet (ip : IpAddr) : IpNet := ⟨ip, ip.width⟩

theorem IpNet.width_of_contains {net : IpNet} {ip : IpAddr} (h : net.contains ip = true) :
    net.addr.width = ip.width := by
  obtain ⟨base, len⟩ := net
  cases ip <;> cases base <;> simp [IpNet.contains] at h <;> rfl

theorem IpAddr.contains_hostNet (base ip : IpAddr) :
    base.hostNet.contains ip = true ↔ base = ip := by
  cases base <;> cases ip <;>
    simp only [IpAddr.hostNet, IpAddr.width, IpNet.contains, Nat.sub_self,
      BitVec.ushiftRight_zero, beq_iff_eq, IpAddr.v4.injEq, IpAddr.v6.injEq, reduceCtorEq,
      Bool.false_eq_true]
  · exact eq_comm
  · exact eq_comm

end Bulwark.Foundation
