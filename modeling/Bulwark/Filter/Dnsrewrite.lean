import Bulwark.Foundation.Literal
import Bulwark.Filter.Parser

/-!
# The forms of `$dnsrewrite`

A value is a response code, an address, a hostname, or a response code with a record.
The parser tells the forms apart by their shape and looks at fewer parts than the last
form has: the response code of the full form is not read, and neither are hostnames.
-/

namespace Bulwark.Filter

open Bulwark.Foundation

/-! ## The documented forms -/

def isKeyword (v : Text) : Bool := (rewriteRcode (toAsciiUppercase v)).isSome

/-- A hostname in the sense of rule patterns. -/
def isHostname (v : Text) : Bool := isDnsHostname (normDomain v)

def mxValid (words : List Text) : Bool :=
  match words with
  | [preference, exchange] => (parseU16 preference).isSome && isHostname exchange
  | _ => false

/-- The value of a record of this type. -/
def validValue (rtype data : Text) : Bool :=
  if rtype = "A".toList then (parseIpv4Addr data).isSome
  else if rtype = "AAAA".toList then (parseIpv6Addr data).isSome
  else if rtype = "CNAME".toList then isHostname data
  else if rtype = "TXT".toList then true
  else if rtype = "PTR".toList then isHostname data
  else if rtype = "MX".toList then mxValid (splitWhitespace data)
  else false

def fullForm (code rtype data : Text) : Text := code ++ ';' :: (rtype ++ ';' :: data)

inductive Documented : Text → Prop where
  | keyword {v : Text} (h : isKeyword v = true) : Documented v
  | address {v : Text} {ip : IpAddr} (h : parseIpAddr v = some ip) : Documented v
  | hostname {v : Text} (h : isHostname v = true) : Documented v
  | full {code rtype data : Text} (hcode : isKeyword code = true)
      (hvalue : validValue (toAsciiUppercase rtype) data = true) :
      Documented (fullForm code rtype data)

/-- The documented forms are accepted, and no others; a response code of error is answered. -/
structure Honoured (value : Text) : Prop where
  accepts : (∃ data, parseDnsrewrite value = .ok data) ↔ Documented (trim value)
  answers : ∀ code rtype data c, trim value = fullForm code rtype data →
    rewriteRcode (toAsciiUppercase code) = some c → c ≠ .noError →
    validValue (toAsciiUppercase rtype) data = true → parseDnsrewrite value = .ok (.rcode c)

/-! ## What is read of a value -/

def mxRead (words : List Text) : Bool :=
  match words with
  | preference :: _ :: _ => (parseU16 preference).isSome
  | _ => false

/-- What the parser asks of the value of a record. -/
def readValue (rtype data : Text) : Bool :=
  if rtype = "A".toList then (parseIpv4Addr data).isSome
  else if rtype = "AAAA".toList then (parseIpv6Addr data).isSome
  else if rtype = "CNAME".toList then true
  else if rtype = "TXT".toList then true
  else if rtype = "PTR".toList then true
  else if rtype = "MX".toList then mxRead (splitWhitespace data)
  else false

/--
No part of the value is misread: where a record is read its response code is no error
and its value is one of the type, and a name has a dot exactly where it is a hostname.
-/
def Faithful (v : Text) : Prop :=
  isKeyword v = true ∨ (parseIpAddr v).isSome = true ∨
    match splitn ';' 3 v with
    | [code, rtype, data] => readValue (toAsciiUppercase rtype) data = true →
        rewriteRcode (toAsciiUppercase code) = some .noError ∧
          validValue (toAsciiUppercase rtype) data = true
    | [name] => '.' ∈ name ↔ isHostname name = true
    | _ => True

/-! ## Parts and separators -/

theorem splitn_three {t : Text} :
    (∃ a b c, splitn ';' 3 t = [a, b, c] ∧ t = fullForm a b c ∧ ';' ∉ a ∧ ';' ∉ b) ∨
      (∃ a b, splitn ';' 3 t = [a, b] ∧ t = a ++ ';' :: b ∧ ';' ∉ b) ∨
      (splitn ';' 3 t = [t] ∧ ';' ∉ t) := by
  simp only [splitn]
  cases h : splitOnce ';' t with
  | none => exact .inr (.inr ⟨rfl, splitOnce_eq_none h⟩)
  | some pair =>
      obtain ⟨a, rest⟩ := pair
      obtain ⟨rfl, ha⟩ := splitOnce_eq_some h
      cases h' : splitOnce ';' rest with
      | none => exact .inr (.inl ⟨a, rest, by simp [h'], rfl, splitOnce_eq_none h'⟩)
      | some pair =>
          obtain ⟨b, c⟩ := pair
          obtain ⟨rfl, hb⟩ := splitOnce_eq_some h'
          exact .inl ⟨a, b, c, by simp [h'], rfl, ha, hb⟩

theorem splitn_fullForm {code rtype : Text} (hcode : ';' ∉ code) (hrtype : ';' ∉ rtype)
    (data : Text) : splitn ';' 3 (fullForm code rtype data) = [code, rtype, data] := by
  simp [splitn, fullForm, splitOnce_append hcode, splitOnce_append hrtype]

theorem semicolon_mem_fullForm (code rtype data : Text) : ';' ∈ fullForm code rtype data := by
  simp [fullForm]

theorem contains_iff {c : Char} {t : Text} : contains c t = true ↔ c ∈ t := by
  simp [contains]

theorem notMem_of_upper {v : Text} (h : ';' ∉ toAsciiUppercase v) : ';' ∉ v := by
  intro hmem
  exact h (List.mem_map.mpr ⟨';', hmem, by decide⟩)

theorem keyword_of_rcode {k : Text} {c : RewriteRcode} (h : rewriteRcode k = some c) :
    k = "NOERROR".toList ∨ k = "NXDOMAIN".toList ∨ k = "REFUSED".toList ∨
      k = "SERVFAIL".toList := by
  unfold rewriteRcode at h
  split at h
  · exact .inl ‹_›
  split at h
  · exact .inr (.inl ‹_›)
  split at h
  · exact .inr (.inr (.inl ‹_›))
  split at h
  · exact .inr (.inr (.inr ‹_›))
  · cases h

theorem keyword_noSemicolon {v : Text} (h : isKeyword v = true) : ';' ∉ v := by
  obtain ⟨c, hc⟩ := Option.isSome_iff_exists.mp h
  apply notMem_of_upper
  rcases keyword_of_rcode hc with h | h | h | h <;> rw [h] <;> decide

def recordTypes : List Text := ["A", "AAAA", "CNAME", "TXT", "PTR", "MX"].map String.toList

theorem notMem_of_recordType {rtype : Text} (h : toAsciiUppercase rtype ∈ recordTypes) :
    ';' ∉ rtype := by
  apply notMem_of_upper
  have hall : recordTypes.all (fun k => !contains ';' k) = true := by decide
  have hnot := List.all_eq_true.mp hall _ h
  rwa [Bool.not_eq_true', ← Bool.not_eq_true, contains_iff] at hnot

theorem recordType_of_readValue {rtype data : Text} (h : readValue rtype data = true) :
    rtype ∈ recordTypes := by
  unfold readValue at h
  split_ifs at h <;> simp [recordTypes, *]

theorem readValue_of_validValue {rtype data : Text} (h : validValue rtype data = true) :
    readValue rtype data = true := by
  unfold validValue at h
  unfold readValue
  split_ifs at h ⊢
  · exact h
  · exact h
  · rfl
  · rfl
  · rfl
  · revert h
    cases splitWhitespace data with
    | nil => exact id
    | cons preference rest =>
        cases rest with
        | nil => exact id
        | cons exchange rest =>
            cases rest with
            | nil => simp +contextual [mxValid, mxRead]
            | cons word rest => simp [mxValid]

theorem rewriteByType_none {rtype : Text} (h : rtype ∉ recordTypes) (data : Text) :
    rewriteByType rtype data = none := by
  unfold rewriteByType
  split_ifs <;> first | rfl | exact absurd (by simp [recordTypes, *]) h

theorem orInvalid_ok_iff {α : Type} {message : Text} {value : Option α} :
    (∃ a, orInvalid message value = .ok a) ↔ value.isSome = true := by
  cases value <;> simp [orInvalid]

theorem rewriteByType_of_mem {rtype : Text} (h : rtype ∈ recordTypes) (data : Text) :
    ∃ result, rewriteByType rtype data = some result ∧
      ((∃ d, result = .ok d) ↔ readValue rtype data = true) := by
  unfold rewriteByType readValue
  split_ifs with ha haaaa hcname htxt hptr hmx
  · exact ⟨_, rfl, by rw [orInvalid_ok_iff, Option.isSome_map]⟩
  · exact ⟨_, rfl, by rw [orInvalid_ok_iff, Option.isSome_map]⟩
  · exact ⟨_, rfl, by simp⟩
  · exact ⟨_, rfl, by simp⟩
  · exact ⟨_, rfl, by simp⟩
  · refine ⟨_, rfl, ?_⟩
    rw [orInvalid_ok_iff]
    cases splitWhitespace data with
    | nil => simp [mxRead]
    | cons preference rest => cases rest <;> simp [mxRead]
  · simp only [recordTypes, List.map_cons, List.map_nil, List.mem_cons, List.not_mem_nil,
      or_false] at h
    tauto

theorem rewriteByType_ne_rcode (rtype data : Text) (c : RewriteRcode) :
    rewriteByType rtype data ≠ some (.ok (.rcode c)) := by
  unfold rewriteByType
  split_ifs
  · cases parseIpv4Addr data <;> simp [orInvalid]
  · cases parseIpv6Addr data <;> simp [orInvalid]
  · simp
  · simp
  · simp
  · cases splitWhitespace data with
    | nil => simp [orInvalid]
    | cons preference rest =>
        cases rest with
        | nil => simp [orInvalid]
        | cons exchange rest =>
            dsimp only
            cases parseU16 preference <;> simp [orInvalid]
  · simp

/-! ## Names and addresses -/

theorem mem_dropWhile_of_not {p : Char → Bool} {t : Text} {c : Char} (hc : p c = false)
    (h : c ∈ t) : c ∈ t.dropWhile p := by
  induction t with
  | nil => cases h
  | cons d t ih =>
      rw [List.dropWhile_cons]
      split
      · rename_i hd
        rcases List.mem_cons.mp h with rfl | h
        · rw [hc] at hd
          cases hd
        · exact ih h
      · exact h

theorem mem_rdropWhile_of_not {p : Char → Bool} {t : Text} {c : Char} (hc : p c = false)
    (h : c ∈ t) : c ∈ t.rdropWhile p := by
  unfold List.rdropWhile
  rw [List.mem_reverse]
  exact mem_dropWhile_of_not hc (List.mem_reverse.mpr h)

theorem semicolon_mem_normDomain {v : Text} (h : ';' ∈ v) : ';' ∈ normDomain v := by
  have htrim : ';' ∈ trimEndMatches '.' (trim v) :=
    mem_rdropWhile_of_not (by decide)
      (mem_rdropWhile_of_not (by decide) (mem_dropWhile_of_not (by decide) h))
  exact List.mem_map.mpr ⟨';', htrim, by decide⟩

theorem hostname_noSemicolon {v : Text} (h : isHostname v = true) : ';' ∉ v := by
  intro hmem
  unfold isHostname isDnsHostname at h
  simp only [Bool.and_eq_true, List.all_eq_true] at h
  have hjoined := semicolon_mem_normDomain hmem
  have hsplit : joinWith ['.'] ((normDomain v).splitOn '.') = normDomain v := by
    rw [joinWith_eq_intercalate, List.intercalate_splitOn]
  rw [← hsplit] at hjoined
  obtain ⟨label, hlabel, hin⟩ := (mem_joinWith hjoined).resolve_left (by decide)
  have hchars := h.2 label hlabel
  unfold isHostLabel at hchars
  simp only [Bool.and_eq_true, List.all_eq_true] at hchars
  exact absurd (hchars.2 ';' hin) (by decide)

theorem toNat_of_toUpper {c d : Char} (h : c.toUpper = d) :
    c.toNat = d.toNat ∨ c.toNat = d.toNat + 32 := by
  rw [← h, toNat_toUpper]
  split <;> omega

theorem parseIpAddr_none {c : Char} (hdigit : digitValue 16 c = none) (hcolon : c ≠ ':')
    (t : Text) : parseIpAddr (c :: t) = none := by
  have hsix : readIpv6Addr (c :: t) = none := by
    simp [readIpv6Addr, readGroups_none hdigit, readGivenChar, hcolon]
  simp [parseIpAddr, parseWith, readIpAddr, readIpv4Addr_none hdigit, hsix]

theorem parseIpAddr_keyword {code : Text} (h : isKeyword code = true) (t : Text) :
    parseIpAddr (code ++ t) = none := by
  obtain ⟨rcode, hrcode⟩ := Option.isSome_iff_exists.mp h
  cases code with
  | nil => cases hrcode
  | cons c code =>
      have hfirst : c.toUpper = 'N' ∨ c.toUpper = 'R' ∨ c.toUpper = 'S' := by
        have hhead : (toAsciiUppercase (c :: code)).head? = some c.toUpper := rfl
        rcases keyword_of_rcode hrcode with h | h | h | h <;> rw [h] at hhead <;>
          simp at hhead <;> simp [← hhead]
      have hcode : c.toNat ∈ [78, 110, 82, 114, 83, 115] := by
        rcases hfirst with h | h | h <;> rcases toNat_of_toUpper h with h | h <;> simp [h]
      rw [List.cons_append]
      apply parseIpAddr_none
      · simp only [List.mem_cons, List.not_mem_nil, or_false] at hcode
        rcases hcode with h | h | h | h | h | h <;> simp [digitValue, h]
      · rintro rfl
        revert hcode
        decide

/-! ## What is accepted -/

theorem validValue_recordType {rtype data : Text}
    (h : validValue (toAsciiUppercase rtype) data = true) :
    toAsciiUppercase rtype ∈ recordTypes :=
  recordType_of_readValue (readValue_of_validValue h)

section

variable {value : Text}

theorem parse_keyword {c : RewriteRcode}
    (h : rewriteRcode (toAsciiUppercase (trim value)) = some c) :
    parseDnsrewrite value = .ok (.rcode c) := by
  unfold parseDnsrewrite
  simp only [h]

theorem parse_address {ip : IpAddr} (hkey : isKeyword (trim value) = false)
    (h : parseIpAddr (trim value) = some ip) :
    parseDnsrewrite value = .ok (ipRewrite ip) := by
  unfold isKeyword at hkey
  unfold parseDnsrewrite
  simp only [Option.not_isSome_iff_eq_none.mp (Bool.eq_false_iff.mp hkey), h]

/-- Three parts, of which the second is a record type: the first is not read. -/
theorem parse_full {code rtype data : Text} (hkey : isKeyword (trim value) = false)
    (hip : parseIpAddr (trim value) = none)
    (hsplit : splitn ';' 3 (trim value) = [code, rtype, data])
    (htype : toAsciiUppercase rtype ∈ recordTypes) :
    rewriteByType (toAsciiUppercase rtype) data = some (parseDnsrewrite value) := by
  obtain ⟨result, hresult, -⟩ := rewriteByType_of_mem htype data
  unfold isKeyword at hkey
  unfold parseDnsrewrite
  simp only [Option.not_isSome_iff_eq_none.mp (Bool.eq_false_iff.mp hkey), hip, hsplit, hresult]

theorem parse_rest (hkey : isKeyword (trim value) = false) (hip : parseIpAddr (trim value) = none)
    (hother : ∀ code rtype data, splitn ';' 3 (trim value) = [code, rtype, data] →
      toAsciiUppercase rtype ∉ recordTypes) :
    (∃ data, parseDnsrewrite value = .ok data) ↔ '.' ∈ trim value ∧ ';' ∉ trim value := by
  unfold isKeyword at hkey
  unfold parseDnsrewrite
  simp only [Option.not_isSome_iff_eq_none.mp (Bool.eq_false_iff.mp hkey), hip]
  rw [← contains_iff, ← contains_iff]
  rcases @splitn_three (trim value) with
    ⟨code, rtype, data, hsplit, -⟩ | ⟨a, b, hsplit, -⟩ | ⟨hsplit, -⟩
  · simp only [hsplit, rewriteByType_none (hother _ _ _ hsplit)]
    cases contains '.' (trim value) <;> cases contains ';' (trim value) <;> simp
  · simp only [hsplit]
    cases contains '.' (trim value) <;> cases contains ';' (trim value) <;> simp
  · simp only [hsplit]
    cases contains '.' (trim value) <;> cases contains ';' (trim value) <;> simp

theorem parse_eq_ok {data : RewriteData} (h : parseDnsrewrite value = .ok data) :
    (isKeyword (trim value) = true ∧ ∃ c, data = .rcode c) ∨
      (∃ ip, parseIpAddr (trim value) = some ip ∧ data = ipRewrite ip) ∨
      (∃ code rtype text, trim value = fullForm code rtype text ∧ ';' ∉ code ∧ ';' ∉ rtype ∧
        rewriteByType (toAsciiUppercase rtype) text = some (.ok data)) ∨
      ('.' ∈ trim value ∧ ';' ∉ trim value ∧ parseIpAddr (trim value) = none ∧
        data = .cname (normDomain (trim value))) := by
  have hname : (if contains '.' (trim value) && !contains ';' (trim value)
      then .ok (.cname (normDomain (trim value)))
      else .error (ParseError.invalid ("unsupported dnsrewrite: ".toList ++ value))) =
        Except.ok data →
        ('.' ∈ trim value ∧ ';' ∉ trim value) ∧ data = .cname (normDomain (trim value)) := by
    intro h
    split at h
    · rename_i hchars
      cases h
      rw [Bool.and_eq_true, contains_iff, Bool.not_eq_true', ← Bool.not_eq_true,
        contains_iff] at hchars
      exact ⟨hchars, rfl⟩
    · cases h
  unfold parseDnsrewrite at h
  cases hkey : rewriteRcode (toAsciiUppercase (trim value)) with
  | some c =>
      simp only [hkey] at h
      cases h
      exact .inl ⟨by simp [isKeyword, hkey], c, rfl⟩
  | none =>
      simp only [hkey] at h
      cases hip : parseIpAddr (trim value) with
      | some ip =>
          simp only [hip] at h
          cases h
          exact .inr (.inl ⟨ip, rfl, rfl⟩)
      | none =>
          simp only [hip] at h
          refine .inr (.inr ?_)
          rcases @splitn_three (trim value) with
            ⟨code, rtype, text, hsplit, heq, hcode, hrtype⟩ | ⟨a, b, hsplit, -⟩ | ⟨hsplit, -⟩
          · simp only [hsplit] at h
            cases htype : rewriteByType (toAsciiUppercase rtype) text with
            | some result =>
                simp only [htype] at h
                exact .inl ⟨code, rtype, text, heq, hcode, hrtype, by rw [htype, h]⟩
            | none =>
                simp only [htype] at h
                obtain ⟨⟨hdot, hsemi⟩, hdata⟩ := hname h
                exact .inr ⟨hdot, hsemi, rfl, hdata⟩
          · simp only [hsplit] at h
            obtain ⟨⟨hdot, hsemi⟩, hdata⟩ := hname h
            exact .inr ⟨hdot, hsemi, rfl, hdata⟩
          · simp only [hsplit] at h
            obtain ⟨⟨hdot, hsemi⟩, hdata⟩ := hname h
            exact .inr ⟨hdot, hsemi, rfl, hdata⟩

end

theorem documented_iff {v : Text} :
    Documented v ↔ isKeyword v = true ∨ (parseIpAddr v).isSome = true ∨ isHostname v = true ∨
      ∃ code rtype data, v = fullForm code rtype data ∧ isKeyword code = true ∧
        validValue (toAsciiUppercase rtype) data = true := by
  constructor
  · intro h
    cases h with
    | keyword h => exact .inl h
    | address h => exact .inr (.inl (by simp [h]))
    | hostname h => exact .inr (.inr (.inl h))
    | full hcode hvalue => exact .inr (.inr (.inr ⟨_, _, _, rfl, hcode, hvalue⟩))
  · rintro (h | h | h | ⟨code, rtype, data, rfl, hcode, hvalue⟩)
    · exact .keyword h
    · obtain ⟨ip, hip⟩ := Option.isSome_iff_exists.mp h
      exact .address hip
    · exact .hostname h
    · exact .full hcode hvalue

theorem documented_full_iff {v code rtype data : Text}
    (hsplit : splitn ';' 3 v = [code, rtype, data]) (heq : v = fullForm code rtype data)
    (hkey : isKeyword v = false) (hip : parseIpAddr v = none) (hhost : isHostname v = false) :
    Documented v ↔ isKeyword code = true ∧ validValue (toAsciiUppercase rtype) data = true := by
  rw [documented_iff, hkey, hip, hhost]
  constructor
  · rintro (h | h | h | ⟨code', rtype', data', rfl, hcode, hvalue⟩)
    · cases h
    · cases h
    · cases h
    · rw [splitn_fullForm (keyword_noSemicolon hcode)
        (notMem_of_recordType (validValue_recordType hvalue))] at hsplit
      cases hsplit
      exact ⟨hcode, hvalue⟩
  · rintro ⟨hcode, hvalue⟩
    exact .inr (.inr (.inr ⟨code, rtype, data, heq, hcode, hvalue⟩))

/-! ## Exactly when the forms are honoured -/

section

variable {value : Text}

theorem honoured_of_keyword (h : isKeyword (trim value) = true) : Honoured value where
  accepts := by
    obtain ⟨c, hc⟩ := Option.isSome_iff_exists.mp h
    exact ⟨fun _ => .keyword h, fun _ => ⟨_, parse_keyword hc⟩⟩
  answers := by
    intro code rtype data c heq
    rw [heq] at h
    exact absurd (semicolon_mem_fullForm code rtype data) (keyword_noSemicolon h)

theorem honoured_of_address (hkey : isKeyword (trim value) = false) {ip : IpAddr}
    (h : parseIpAddr (trim value) = some ip) : Honoured value where
  accepts := ⟨fun _ => .address h, fun _ => ⟨_, parse_address hkey h⟩⟩
  answers := by
    intro code rtype data c heq hcode
    have hkeyword : isKeyword code = true := by simp [isKeyword, hcode]
    have hnone := parseIpAddr_keyword hkeyword (';' :: (rtype ++ ';' :: data))
    rw [heq, fullForm, hnone] at h
    cases h

theorem answers_of_notThree
    (h : ∀ code rtype data, splitn ';' 3 (trim value) ≠ [code, rtype, data]) :
    ∀ code rtype data c, trim value = fullForm code rtype data →
      rewriteRcode (toAsciiUppercase code) = some c → c ≠ .noError →
      validValue (toAsciiUppercase rtype) data = true → parseDnsrewrite value = .ok (.rcode c) := by
  intro code rtype data c heq hcode _ hvalue
  apply absurd _ (h code rtype data)
  rw [heq]
  exact splitn_fullForm (keyword_noSemicolon (by simp [isKeyword, hcode]))
    (notMem_of_recordType (validValue_recordType hvalue)) data

theorem honoured_of_two {a b : Text} (hkey : isKeyword (trim value) = false)
    (hip : parseIpAddr (trim value) = none) (hsplit : splitn ';' 3 (trim value) = [a, b])
    (heq : trim value = a ++ ';' :: b) : Honoured value := by
  have hsemi : ';' ∈ trim value := by simp [heq]
  refine ⟨?_, answers_of_notThree (by simp [hsplit])⟩
  rw [parse_rest hkey hip (by simp [hsplit]), documented_iff, hkey, hip]
  constructor
  · rintro ⟨-, hnot⟩
    exact absurd hsemi hnot
  · rintro (h | h | h | ⟨code, rtype, data, heq, hcode, hvalue⟩)
    · cases h
    · cases h
    · exact absurd hsemi (hostname_noSemicolon h)
    · rw [heq, splitn_fullForm (keyword_noSemicolon hcode)
        (notMem_of_recordType (validValue_recordType hvalue))] at hsplit
      cases hsplit

theorem honoured_name_iff (hkey : isKeyword (trim value) = false)
    (hip : parseIpAddr (trim value) = none) (hsplit : splitn ';' 3 (trim value) = [trim value])
    (hsemi : ';' ∉ trim value) :
    Honoured value ↔ ('.' ∈ trim value ↔ isHostname (trim value) = true) := by
  have hdocumented : Documented (trim value) ↔ isHostname (trim value) = true := by
    rw [documented_iff, hkey, hip]
    constructor
    · rintro (h | h | h | ⟨code, rtype, data, heq, -⟩)
      · cases h
      · cases h
      · exact h
      · rw [heq] at hsemi
        exact absurd (semicolon_mem_fullForm code rtype data) hsemi
    · intro h
      exact .inr (.inr (.inl h))
  have haccepts := parse_rest hkey hip (by simp [hsplit])
  rw [and_iff_left hsemi] at haccepts
  constructor
  · intro h
    rw [← haccepts, h.accepts, hdocumented]
  · intro h
    exact ⟨by rw [haccepts, h, hdocumented], answers_of_notThree (by simp [hsplit])⟩

theorem honoured_full_iff {code rtype data : Text} (hkey : isKeyword (trim value) = false)
    (hip : parseIpAddr (trim value) = none)
    (hsplit : splitn ';' 3 (trim value) = [code, rtype, data])
    (heq : trim value = fullForm code rtype data) :
    Honoured value ↔ (readValue (toAsciiUppercase rtype) data = true →
      rewriteRcode (toAsciiUppercase code) = some .noError ∧
        validValue (toAsciiUppercase rtype) data = true) := by
  have hsemi : ';' ∈ trim value := heq ▸ semicolon_mem_fullForm code rtype data
  have hhost : isHostname (trim value) = false := by
    rw [← Bool.not_eq_true]
    exact fun h => hostname_noSemicolon h hsemi
  have hdocumented := documented_full_iff hsplit heq hkey hip hhost
  by_cases htype : toAsciiUppercase rtype ∈ recordTypes
  · have hparse := parse_full hkey hip hsplit htype
    have hread : (∃ d, parseDnsrewrite value = .ok d) ↔
        readValue (toAsciiUppercase rtype) data = true := by
      obtain ⟨result, hresult, hok⟩ := rewriteByType_of_mem htype data
      rw [hparse, Option.some.injEq] at hresult
      rwa [hresult]
    constructor
    · intro h hvalue
      obtain ⟨hcode, hvalid⟩ := hdocumented.mp (h.accepts.mp (hread.mpr hvalue))
      obtain ⟨c, hc⟩ := Option.isSome_iff_exists.mp hcode
      refine ⟨?_, hvalid⟩
      by_contra hne
      have hanswer := h.answers code rtype data c heq hc (by rintro rfl; exact hne hc) hvalid
      rw [hanswer] at hparse
      exact rewriteByType_ne_rcode _ _ _ hparse
    · intro h
      refine ⟨?_, ?_⟩
      · rw [hread, hdocumented]
        constructor
        · intro hvalue
          exact ⟨by simp [isKeyword, (h hvalue).1], (h hvalue).2⟩
        · rintro ⟨-, hvalid⟩
          exact readValue_of_validValue hvalid
      · intro code' rtype' data' c heq' hc hne hvalid
        rw [heq', splitn_fullForm (keyword_noSemicolon (by simp [isKeyword, hc]))
          (notMem_of_recordType (validValue_recordType hvalid))] at hsplit
        cases hsplit
        have hnoError := (h (readValue_of_validValue hvalid)).1
        rw [hc] at hnoError
        exact absurd (Option.some.inj hnoError) hne
  · have hrejected := parse_rest hkey hip (fun code' rtype' data' hsplit' => by
      rw [hsplit] at hsplit'
      cases hsplit'
      exact htype)
    have hnone : ∀ data, ¬ validValue (toAsciiUppercase rtype) data = true :=
      fun data h => htype (validValue_recordType h)
    constructor
    · intro _ hvalue
      exact absurd (recordType_of_readValue hvalue) htype
    · intro _
      refine ⟨?_, ?_⟩
      · rw [hrejected, hdocumented]
        exact ⟨fun h => absurd hsemi h.2, fun h => absurd h.2 (hnone data)⟩
      · intro code' rtype' data' c heq' hc _ hvalid
        rw [heq', splitn_fullForm (keyword_noSemicolon (by simp [isKeyword, hc]))
          (notMem_of_recordType (validValue_recordType hvalid))] at hsplit
        cases hsplit
        exact absurd hvalid (hnone data)

end

/--
A value is accepted exactly where it is a documented form, and answered with its response
code, if and only if no part of it is misread.
-/
theorem honoured_iff_faithful (value : Text) : Honoured value ↔ Faithful (trim value) := by
  unfold Faithful
  by_cases hkey : isKeyword (trim value) = true
  · exact ⟨fun _ => .inl hkey, fun _ => honoured_of_keyword hkey⟩
  rw [Bool.not_eq_true] at hkey
  cases hip : parseIpAddr (trim value) with
  | some ip => exact ⟨fun _ => .inr (.inl rfl), fun _ => honoured_of_address hkey hip⟩
  | none =>
      simp only [hkey, Option.isSome_none, Bool.false_eq_true, false_or]
      rcases @splitn_three (trim value) with
        ⟨code, rtype, data, hsplit, heq, -⟩ | ⟨a, b, hsplit, heq, -⟩ | ⟨hsplit, hsemi⟩
      · rw [honoured_full_iff hkey hip hsplit heq, hsplit]
      · simp [hsplit, honoured_of_two hkey hip hsplit heq]
      · rw [honoured_name_iff hkey hip hsplit hsemi, hsplit]

/-- The error code of a full form is lost: the answer is the address. -/
theorem errorCode_lost : ¬ Honoured "NXDOMAIN;A;1.2.3.4".toList := by
  intro h
  have hanswer := h.answers "NXDOMAIN".toList ['A'] "1.2.3.4".toList .nxDomain (by decide +kernel)
    (by decide +kernel) (by decide) (by decide +kernel)
  have hrecord : parseDnsrewrite "NXDOMAIN;A;1.2.3.4".toList = .ok (.a 0x01020304) := by
    rfl
  rw [hrecord] at hanswer
  cases hanswer

end Bulwark.Filter
