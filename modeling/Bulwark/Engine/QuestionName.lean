import Bulwark.Engine.Questions

/-!
# Names the query reader accepts

`readQuestionName` gives the text that becomes the cache key and the filtered name.  It
accepts the wire forms of names whose labels need no escaping and nothing else, and texts
of different names differ.
-/

namespace Bulwark.Engine

open Bulwark.Foundation Bulwark.Dns Bulwark.Upstream

/-! ## Safe names -/

def IsLetterOrDigit (c : UInt8) : Prop :=
  (97 ≤ c.toNat ∧ c.toNat ≤ 122) ∨ (65 ≤ c.toNat ∧ c.toNat ≤ 90) ∨
    (48 ≤ c.toNat ∧ c.toNat ≤ 57)

/-- The bytes a label may have at an index: `-` stands after the first, `*` first. -/
def AllowedAt (c : UInt8) (i : Nat) : Prop :=
  IsLetterOrDigit c ∨ byteChar c = '_' ∨ (byteChar c = '-' ∧ i ≠ 0) ∨ (byteChar c = '*' ∧ i = 0)

/-- The wire form without pointers: labels after their length, and an empty one. -/
def nameWire (name : Name) : Bytes :=
  (name.flatMap fun label => UInt8.ofNat label.length :: label) ++ [0]

/-- A name of RFC 1035 whose labels show as they are. -/
structure SafeName where
  labels : Name
  nonempty : ∀ label ∈ labels, label ≠ []
  short : ∀ label ∈ labels, label.length ≤ 63
  allowed : ∀ label ∈ labels, ∀ c i, label[i]? = some c → AllowedAt c i
  fits : (nameWire labels).length ≤ 255

def SafeName.wire (name : SafeName) : Bytes := nameWire name.labels

/-- The labels joined and terminated by dots. -/
def SafeName.text (name : SafeName) : Text :=
  if name.labels = [] then ['.'] else name.labels.flatMap fun label => label.map byteChar ++ ['.']

theorem isSafeLabelByte_iff (c : UInt8) (i : Nat) :
    isSafeLabelByte c (i == 0) = true ↔ AllowedAt c i := by
  have hbyte : ∀ isFirst : Bool, isSafeLabelByte c isFirst = true ↔
      IsLetterOrDigit c ∨ byteChar c = '_' ∨ (byteChar c = '-' ∧ isFirst = false) ∨
        (byteChar c = '*' ∧ isFirst = true) := by
    unfold IsLetterOrDigit
    revert c
    exact forall_byte (by decide +kernel)
  rw [hbyte, AllowedAt]
  simp

theorem isSafeLabel_iff (label : Label) :
    isSafeLabel label = true ↔ ∀ c i, label[i]? = some c → AllowedAt c i := by
  cases label with
  | nil => simp [isSafeLabel]
  | cons first rest =>
      simp only [isSafeLabel, Bool.and_eq_true, List.all_eq_true]
      constructor
      · rintro ⟨hfirst, hrest⟩ c i hc
        cases i with
        | zero =>
            cases hc
            exact (isSafeLabelByte_iff _ 0).mp hfirst
        | succ i =>
            rw [List.getElem?_cons_succ] at hc
            exact (isSafeLabelByte_iff c (i + 1)).mp (hrest c (List.mem_of_getElem? hc))
      · intro h
        refine ⟨(isSafeLabelByte_iff _ 0).mpr (h first 0 rfl), fun c hc => ?_⟩
        obtain ⟨i, hi⟩ := List.getElem?_of_mem hc
        exact (isSafeLabelByte_iff c (i + 1)).mpr (h c (i + 1) hi)

/-! ## Reading -/

/-- The bytes from `pos` to `stop` are the wire form of `name`. -/
def WireAt (buf : Bytes) (pos : Nat) (name : Name) (stop : Nat) : Prop :=
  slice buf pos (nameWire name).length = some (nameWire name) ∧
    stop = pos + (nameWire name).length

theorem wireAt_nil {buf : Bytes} {pos stop : Nat} :
    WireAt buf pos [] stop ↔ buf[pos]? = some 0 ∧ stop = pos + 1 := by
  rw [WireAt]
  exact and_congr_left' slice_singleton

theorem nameWire_cons (label : Label) (name : Name) :
    nameWire (label :: name) = UInt8.ofNat label.length :: (label ++ nameWire name) := by
  simp [nameWire]

theorem wireAt_cons {buf : Bytes} {pos stop : Nat} {label : Label} {name : Name} :
    WireAt buf pos (label :: name) stop ↔
      buf[pos]? = some (UInt8.ofNat label.length) ∧
        slice buf (pos + 1) label.length = some label ∧
          WireAt buf (pos + 1 + label.length) name stop := by
  have hsplit : nameWire (label :: name) =
      [UInt8.ofNat label.length] ++ (label ++ nameWire name) := nameWire_cons label name
  rw [WireAt, hsplit, slice_append, slice_append, List.length_singleton, slice_singleton, WireAt]
  simp only [List.length_append, List.length_singleton]
  constructor
  · rintro ⟨⟨hlen, hlabel, hname⟩, hstop⟩
    exact ⟨hlen, hlabel, hname, by omega⟩
  · rintro ⟨hlen, hlabel, hname, hstop⟩
    exact ⟨⟨hlen, hlabel, hname⟩, by omega⟩

def LabelSafe (label : Label) : Prop :=
  label ≠ [] ∧ label.length ≤ 63 ∧ isSafeLabel label = true

def dotted (name : Name) : Text := name.flatMap fun label => label.map byteChar ++ ['.']

/-- The text of a name, the root being a single dot. -/
def orDot (text : Text) : Text := if text = [] then ['.'] else text

theorem lengthByte_of_labelSafe {label : Label} (h : LabelSafe label) :
    UInt8.ofNat label.length &&& 0xC0 = 0 ∧ UInt8.ofNat label.length ≠ 0 ∧
      (UInt8.ofNat label.length).toNat = label.length := by
  obtain ⟨hne, hshort, -⟩ := h
  have hpos := List.length_pos_iff.mpr hne
  have hnat : (UInt8.ofNat label.length).toNat = label.length := by
    rw [UInt8.toNat_ofNat']
    omega
  refine ⟨(label_iff _).mpr (UInt8.lt_iff_toNat_lt.mpr ?_), fun hzero => ?_, hnat⟩
  · rw [hnat]
    exact Nat.lt_succ_of_le hshort
  · rw [hzero] at hnat
    simp at hnat
    omega

theorem wireAt_of_readQuestionNameFrom {buf : Bytes} {start fuel pos stop : Nat}
    {acc text : Text} (h : readQuestionNameFrom buf start fuel acc pos = some (text, stop)) :
    ∃ name : Name, (∀ label ∈ name, LabelSafe label) ∧ WireAt buf pos name stop ∧
      stop - start ≤ 255 ∧ text = orDot (acc ++ dotted name) := by
  induction fuel generalizing acc pos with
  | zero => cases h
  | succ fuel ih =>
      rw [readQuestionNameFrom] at h
      cases hb : buf[pos]? with
      | none => simp [hb] at h
      | some b =>
          simp only [hb] at h
          split at h
          · rename_i hsmall
            split at h
            · rename_i hzero
              split at h
              · cases h
              · rename_i hfits
                cases h
                refine ⟨[], by simp, wireAt_nil.mpr ⟨by rw [hb, hzero], rfl⟩, by omega, ?_⟩
                simp [orDot, dotted]
            · rename_i hzero
              simp only [Option.bind_eq_bind, Option.bind_eq_some_iff] at h
              obtain ⟨label, hlabel, h⟩ := h
              split at h
              · rename_i hsafe
                obtain ⟨name, hname, hwire, hfits, htext⟩ := ih h
                have hlen := length_of_slice hlabel
                have hb64 := UInt8.lt_iff_toNat_lt.mp ((label_iff b).mp hsmall)
                have hpos : b.toNat ≠ 0 := fun hnat => hzero (UInt8.toNat_inj.mp hnat)
                refine ⟨label :: name, ?_, ?_, hfits, ?_⟩
                · intro l hl
                  rcases List.mem_cons.mp hl with rfl | hl
                  · refine ⟨?_, ?_, hsafe⟩
                    · rintro rfl
                      exact hpos hlen.symm
                    · rw [hlen]
                      exact Nat.le_of_lt_succ hb64
                  · exact hname l hl
                · refine wireAt_cons.mpr ⟨?_, ?_, ?_⟩
                  · rw [hb, hlen, UInt8.ofNat_toNat]
                  · rw [hlen, hlabel]
                  · rwa [hlen]
                · rw [htext]
                  simp [dotted]
              · cases h
          · cases h

theorem readQuestionNameFrom_of_wireAt {buf : Bytes} {start fuel pos stop : Nat} {acc : Text}
    {name : Name} (hsafe : ∀ label ∈ name, LabelSafe label) (hwire : WireAt buf pos name stop)
    (hfits : stop - start ≤ 255) (hfuel : name.length < fuel) :
    readQuestionNameFrom buf start fuel acc pos = some (orDot (acc ++ dotted name), stop) := by
  induction name generalizing fuel acc pos with
  | nil =>
      obtain ⟨hb, rfl⟩ := wireAt_nil.mp hwire
      cases fuel with
      | zero => cases hfuel
      | succ fuel =>
          rw [readQuestionNameFrom, hb]
          simp [orDot, dotted, Nat.not_lt.mpr hfits]
  | cons label name ih =>
      obtain ⟨hb, hlabel, hrest⟩ := wireAt_cons.mp hwire
      have hthis := hsafe label List.mem_cons_self
      obtain ⟨hsmall, hzero, hnat⟩ := lengthByte_of_labelSafe hthis
      cases fuel with
      | zero => cases hfuel
      | succ fuel =>
          rw [readQuestionNameFrom, hb]
          dsimp only
          rw [if_pos hsmall, if_neg hzero, hnat, hlabel]
          simp only [Option.bind_eq_bind, Option.bind_some]
          rw [if_pos hthis.2.2, ih (fun l hl => hsafe l (List.mem_cons_of_mem _ hl)) hrest
            (Nat.lt_of_succ_lt_succ hfuel)]
          simp [dotted]

theorem length_le_nameWire (name : Name) : name.length < (nameWire name).length := by
  induction name with
  | nil => simp [nameWire]
  | cons label name ih =>
      rw [nameWire_cons]
      simp only [List.length_cons, List.length_append]
      omega

theorem length_le_of_wireAt {buf : Bytes} {pos stop : Nat} {name : Name}
    (h : WireAt buf pos name stop) : stop ≤ buf.length := by
  obtain ⟨hslice, rfl⟩ := h
  rw [slice] at hslice
  split at hslice
  · assumption
  · cases hslice

/-! ## The reader accepts the safe names -/

theorem SafeName.labelSafe (name : SafeName) : ∀ label ∈ name.labels, LabelSafe label :=
  fun label hlabel => ⟨name.nonempty label hlabel, name.short label hlabel,
    (isSafeLabel_iff label).mpr (name.allowed label hlabel)⟩

theorem SafeName.text_eq (name : SafeName) : name.text = orDot (dotted name.labels) := by
  rw [SafeName.text, orDot, dotted]
  cases name.labels <;> simp

theorem readQuestionName_iff {buf : Bytes} {start stop : Nat} {text : Text} :
    readQuestionName buf start = some (text, stop) ↔
      ∃ name : SafeName, WireAt buf start name.labels stop ∧ text = name.text := by
  constructor
  · intro h
    obtain ⟨name, hsafe, hwire, hfits, rfl⟩ := wireAt_of_readQuestionNameFrom h
    refine ⟨⟨name, fun l hl => (hsafe l hl).1, fun l hl => (hsafe l hl).2.1,
      fun l hl => (isSafeLabel_iff l).mp (hsafe l hl).2.2, ?_⟩, hwire, ?_⟩
    · have hstop := hwire.2
      omega
    · rw [SafeName.text_eq]
      rfl
  · rintro ⟨name, hwire, rfl⟩
    rw [SafeName.text_eq]
    apply readQuestionNameFrom_of_wireAt name.labelSafe hwire
    · have hstop := hwire.2
      have hfits := name.fits
      omega
    · have hlen := length_le_nameWire name.labels
      have hstop := hwire.2
      have hbound := length_le_of_wireAt hwire
      omega

/-! ## Texts of different names -/

theorem byteChar_injective : Function.Injective byteChar := by
  intro a b h
  have hnat : (byteChar a).toNat = (byteChar b).toNat := by rw [h]
  have hvalid : ∀ c : UInt8, (byteChar c).toNat = c.toNat :=
    forall_byte (by decide +kernel)
  rw [hvalid, hvalid] at hnat
  exact UInt8.toNat_inj.mp hnat

theorem dot_notMem_of_isSafeLabel {label : Label} (h : isSafeLabel label = true) :
    '.' ∉ label.map byteChar := by
  have hdot : isSafeLabelByte 46 true = false ∧ isSafeLabelByte 46 false = false := by decide
  intro hmem
  obtain ⟨c, hc, hchar⟩ := List.mem_map.mp hmem
  have hbyte : c = 46 := byteChar_injective (hchar.trans (by decide))
  obtain ⟨i, hi⟩ := List.getElem?_of_mem hc
  have hsafe := (isSafeLabelByte_iff c i).mpr ((isSafeLabel_iff label).mp h c i hi)
  rw [hbyte] at hsafe
  cases hfirst : i == 0 <;> simp [hfirst, hdot] at hsafe

theorem dotted_injective {a b : Name} (ha : ∀ label ∈ a, LabelSafe label)
    (hb : ∀ label ∈ b, LabelSafe label) (h : dotted a = dotted b) : a = b := by
  induction a generalizing b with
  | nil =>
      cases b with
      | nil => rfl
      | cons label b => simp [dotted] at h
  | cons label a ih =>
      cases b with
      | nil => simp [dotted] at h
      | cons label' b =>
          have hsplit := congrArg (splitOnce '.') h
          simp only [dotted, List.flatMap_cons, List.append_assoc, List.singleton_append] at hsplit
          rw [splitOnce_append (dot_notMem_of_isSafeLabel (ha label List.mem_cons_self).2.2),
            splitOnce_append (dot_notMem_of_isSafeLabel (hb label' List.mem_cons_self).2.2),
            Option.some.injEq, Prod.mk.injEq] at hsplit
          have hsame := byteChar_injective.list_map hsplit.1
          rw [hsame, ih (fun l hl => ha l (List.mem_cons_of_mem _ hl))
            (fun l hl => hb l (List.mem_cons_of_mem _ hl)) hsplit.2]

/-- The root is the only name whose text begins with a dot. -/
theorem orDot_dotted_injective {a b : Name} (ha : ∀ label ∈ a, LabelSafe label)
    (hb : ∀ label ∈ b, LabelSafe label) (h : orDot (dotted a) = orDot (dotted b)) : a = b := by
  have hroot : ∀ {label : Label} {name : Name}, LabelSafe label →
      orDot (dotted (label :: name)) ≠ orDot (dotted []) := by
    intro label name hlabel heq
    cases label with
    | nil => exact hlabel.1 rfl
    | cons c cs =>
        have hfirst : byteChar c = '.' := by simpa [orDot, dotted] using congrArg List.head? heq
        exact dot_notMem_of_isSafeLabel hlabel.2.2 (by simp [hfirst])
  cases a with
  | nil =>
      cases b with
      | nil => rfl
      | cons label b => exact (hroot (hb label List.mem_cons_self) h.symm).elim
  | cons label a =>
      cases b with
      | nil => exact (hroot (ha label List.mem_cons_self) h).elim
      | cons label' b =>
          apply dotted_injective ha hb
          simpa [orDot, dotted] using h

theorem SafeName.text_inj (a b : SafeName) : a.text = b.text ↔ a.labels = b.labels := by
  rw [a.text_eq, b.text_eq]
  constructor
  · exact orDot_dotted_injective a.labelSafe b.labelSafe
  · intro h
    rw [h]

theorem SafeName.text_eq_nameToAscii (name : SafeName) : name.text = nameToAscii name.labels := by
  rw [SafeName.text, nameToAscii]
  congr 1
  apply List.flatMap_congr
  intro label hlabel
  rw [labelToAscii_of_isSafeLabel (name.labelSafe label hlabel).2.2]

theorem SafeName.lower_text_inj (a b : SafeName) :
    toAsciiLowercase a.text = toAsciiLowercase b.text ↔ foldCase a.labels = foldCase b.labels := by
  rw [a.text_eq_nameToAscii, b.text_eq_nameToAscii]
  constructor
  · exact foldCase_of_text a.nonempty b.nonempty
  · intro h
    rw [← lower_nameToAscii_foldCase a.labels, h, lower_nameToAscii_foldCase]

theorem readQuestionName_of_parseQuery {buf : Bytes} {p : ParsedQuery}
    (h : parseQuery buf = some p) : ∃ stop, readQuestionName buf 12 = some (p.qname, stop) := by
  rw [parseQuery] at h
  split at h
  · cases h
  simp only [Option.bind_eq_bind, Option.bind_eq_some_iff] at h
  obtain ⟨id, -, b2, -, b3, -, qd, -, an, -, ns, -, ar, -, h⟩ := h
  split at h
  · cases h
  simp only [Option.bind_eq_some_iff, Prod.exists] at h
  obtain ⟨qname, stop, hname, h⟩ := h
  split at h
  · cases h
  simp only [Option.bind_eq_some_iff, Prod.exists, Option.some.injEq] at h
  obtain ⟨qtype, -, qclass, -, payload, dnssecOk, -, rfl⟩ := h
  exact ⟨stop, hname⟩

/--
Exactly the safe names are read, whatever surrounds them; their texts are equal for equal
labels only, and the lower-case name of the key tells names apart up to ASCII case.
-/
theorem readQuestionName_exact :
    (∀ (buf : Bytes) (start stop : Nat) (text : Text),
      readQuestionName buf start = some (text, stop) ↔
        ∃ name : SafeName, WireAt buf start name.labels stop ∧ text = name.text) ∧
    (∀ a b : SafeName, a.text = b.text ↔ a.labels = b.labels) ∧
    (∀ a b : SafeName,
      toAsciiLowercase a.text = toAsciiLowercase b.text ↔ foldCase a.labels = foldCase b.labels) ∧
    ∀ (buf : Bytes) (p : ParsedQuery), parseQuery buf = some p →
      ∃ (name : SafeName) (stop : Nat), WireAt buf 12 name.labels stop ∧
        p.qname = name.text ∧
          (QueryFields.fromParsed p).nameLower = toAsciiLowercase name.text := by
  refine ⟨fun buf start stop text => readQuestionName_iff, SafeName.text_inj,
    SafeName.lower_text_inj, ?_⟩
  intro buf p h
  obtain ⟨stop, hread⟩ := readQuestionName_of_parseQuery h
  obtain ⟨name, hwire, hname⟩ := readQuestionName_iff.mp hread
  exact ⟨name, stop, hwire, hname, congrArg toAsciiLowercase hname⟩

def shortQuery : Bytes := [0, 7, 1, 0, 0, 1, 0, 0, 0, 0, 0, 0, 2, 65, 98, 0, 0, 1, 0, 1]

theorem readQuestionName_exact_shortQuery :
    ∃ (name : SafeName) (stop : Nat), WireAt shortQuery 12 name.labels stop ∧
      "Ab.".toList = name.text ∧ "ab.".toList = toAsciiLowercase name.text :=
  readQuestionName_exact.2.2.2 shortQuery
    { id := 7, recursionDesired := true, checkingDisabled := false, opcode := 0
      qname := "Ab.".toList, qtype := 1, qclass := 1, ednsPayload := none, dnssecOk := false }
    (by decide +kernel)

end Bulwark.Engine
