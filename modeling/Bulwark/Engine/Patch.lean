import Bulwark.Engine.Wire

/-!
# Patching in place

Cached responses are kept encoded; a hit writes the remaining TTL and the
transaction id into a copy.  Reading the result back gives the stored message
with its TTLs and id replaced, as if it had been taken apart and put together
again.
-/

namespace Bulwark.Engine

open Bulwark.Foundation Bulwark.Dns

/-! ## Bytes after a patch -/

def Outside (offsets : List UInt32) (p : Nat) : Prop :=
  ∀ o ∈ offsets, p < o.toNat ∨ o.toNat + 4 ≤ p

/-- One TTL after the other, none overlapping the next. -/
def Separate (offsets : List UInt32) : Prop :=
  offsets.Pairwise fun a b => a.toNat + 4 ≤ b.toNat

section

variable {buf : Bytes} {id : UInt16} {ttl : UInt32} {offsets : List UInt32}

private theorem length_foldl_overwrite :
    (offsets.foldl (fun buf off => overwrite buf off.toNat (toBe32 ttl)) buf).length =
      buf.length := by
  induction offsets generalizing buf with
  | nil => rfl
  | cons o offsets ih => rw [List.foldl_cons, ih, length_overwrite]

theorem length_patch : (patch buf id ttl offsets).length = buf.length := by
  rw [patch, length_foldl_overwrite]
  split
  · rw [length_overwrite]
  · rfl

private theorem foldl_overwrite_outside {p : Nat} (h : Outside offsets p) :
    (offsets.foldl (fun buf off => overwrite buf off.toNat (toBe32 ttl)) buf)[p]? =
      buf[p]? := by
  induction offsets generalizing buf with
  | nil => rfl
  | cons o offsets ih =>
      rw [List.foldl_cons, ih fun o' ho' => h o' (List.mem_cons_of_mem _ ho')]
      exact overwrite_outside (h o List.mem_cons_self)

private theorem foldl_overwrite_inside {o : UInt32} {i : Nat} (hsep : Separate offsets)
    (ho : o ∈ offsets) (hbound : o.toNat + 4 ≤ buf.length) (hi : i < 4) :
    (offsets.foldl (fun buf off => overwrite buf off.toNat (toBe32 ttl)) buf)[o.toNat + i]? =
      (toBe32 ttl)[i]? := by
  induction offsets generalizing buf with
  | nil => cases ho
  | cons first offsets ih =>
      obtain ⟨hfirst, hrest⟩ := List.pairwise_cons.mp hsep
      rw [List.foldl_cons]
      rcases List.mem_cons.mp ho with rfl | ho
      · rw [foldl_overwrite_outside]
        · exact overwrite_inside hbound hi
        · intro o' ho'
          have := hfirst o' ho'
          omega
      · exact ih hrest ho (by rwa [length_overwrite])

theorem patch_outside {p : Nat} (hp : 2 ≤ p) (h : Outside offsets p) :
    (patch buf id ttl offsets)[p]? = buf[p]? := by
  rw [patch, foldl_overwrite_outside h]
  split
  · exact overwrite_outside (.inr hp)
  · rfl

theorem patch_id (hlen : 2 ≤ buf.length) (h : ∀ o ∈ offsets, 2 ≤ o.toNat) :
    u16At (patch buf id ttl offsets) 0 = some id := by
  have hbyte : ∀ i < 2, (patch buf id ttl offsets)[i]? = (toBe16 id)[i]? := by
    intro i hi
    have hout : Outside offsets i := by
      intro o ho
      have := h o ho
      omega
    rw [patch, foldl_overwrite_outside hout, if_pos hlen]
    have hin : (overwrite buf 0 (toBe16 id))[0 + i]? = (toBe16 id)[i]? :=
      overwrite_inside (by simpa [toBe16] using hlen) (by simpa [toBe16] using hi)
    simpa using hin
  rw [u16At, hbyte 0 (by decide), hbyte 1 (by decide)]
  exact congrArg some (be16_toBe16 id)

theorem patch_ttl {o : UInt32} (hsep : Separate offsets) (ho : o ∈ offsets)
    (hbound : o.toNat + 4 ≤ buf.length) :
    u32At (patch buf id ttl offsets) o.toNat = some ttl := by
  have hbyte : ∀ i < 4, (patch buf id ttl offsets)[o.toNat + i]? = (toBe32 ttl)[i]? := by
    intro i hi
    rw [patch]
    apply foldl_overwrite_inside hsep ho _ hi
    split
    · rwa [length_overwrite]
    · exact hbound
  have hzero := hbyte 0 (by decide)
  rw [Nat.add_zero] at hzero
  rw [u32At, hzero, hbyte 1 (by decide), hbyte 2 (by decide), hbyte 3 (by decide)]
  exact congrArg some (be32_toBe32 ttl)

end

/-! ## The layout of a message -/

def ttlOffsets (slots : List Slot) : List UInt32 :=
  (slots.filter (!·.isOpt)).map fun slot => UInt32.ofNat (slot.fixed + 4)

/-- Questions and records stand where the layout says, one after the other. -/
structure Placed (buf : Bytes) (layout : Layout) : Prop where
  small : buf.length < 2 ^ 32
  header : readHeader buf = some layout.header
  questionCount : layout.questions.length = layout.header.questions.toNat
  questions : QuestionsAt buf 12 layout.questions layout.records
  slotCount : layout.slots.length = layout.header.records
  slots : RecordsAt buf layout.records layout.slots

theorem readLayout_eq_some {buf : Bytes} {layout : Layout} (hsmall : buf.length < 2 ^ 32) :
    readLayout buf = some layout ↔ Placed buf layout := by
  simp only [readLayout, Option.bind_eq_bind, Option.bind_eq_some_iff, Option.some.injEq,
    Prod.exists]
  constructor
  · rintro ⟨header, hheader, questions, pos, hquestions, slots, hslots, rfl⟩
    obtain ⟨hcount, hat⟩ := readQuestions_eq_some.mp hquestions
    obtain ⟨hcount', hat'⟩ := readRecords_eq_some.mp hslots
    exact ⟨hsmall, hheader, hcount, hat, hcount', hat'⟩
  · intro h
    exact ⟨layout.header, h.header, layout.questions, layout.records,
      readQuestions_eq_some.mpr ⟨h.questionCount, h.questions⟩, layout.slots,
      readRecords_eq_some.mpr ⟨h.slotCount, h.slots⟩, rfl⟩

theorem readHeader_bound {buf : Bytes} {header : Header} (h : readHeader buf = some header) :
    12 ≤ buf.length := by
  simp only [readHeader, Option.bind_eq_bind, Option.bind_eq_some_iff] at h
  obtain ⟨_, -, _, -, _, -, _, -, _, -, _, -, additionals, hadditionals, -⟩ := h
  exact u16At_bound hadditionals

theorem readHeader_patch {buf : Bytes} {header : Header} {offsets : List UInt32}
    (hbehind : ∀ o ∈ offsets, 12 ≤ o.toNat) (id : UInt16) (ttl : UInt32)
    (h : readHeader buf = some header) :
    readHeader (patch buf id ttl offsets) = some { header with id := id } := by
  have hlen := readHeader_bound h
  have hlow : ∀ p, 2 ≤ p → p < 12 → (patch buf id ttl offsets)[p]? = buf[p]? := by
    intro p hlo hhi
    refine patch_outside hlo fun o ho => .inl ?_
    have := hbehind o ho
    omega
  have hid : u16At (patch buf id ttl offsets) 0 = some id := by
    apply patch_id (by omega)
    intro o ho
    have := hbehind o ho
    omega
  have hu16 : ∀ pos, 2 ≤ pos → pos < 11 →
      u16At (patch buf id ttl offsets) pos = u16At buf pos := by
    intro pos hlo hhi
    exact u16At_congr fun p hp hp' => hlow p (by omega) (by omega)
  simp only [readHeader, Option.bind_eq_bind, Option.bind_eq_some_iff, Option.some.injEq] at h
  obtain ⟨id', -, hi, hhi, lo, hlo, qd, hqd, an, han, ns, hns, ar, har, rfl⟩ := h
  rw [readHeader, hid, hlow 2 (by omega) (by omega), hlow 3 (by omega) (by omega),
    hu16 4 (by omega) (by omega), hu16 6 (by omega) (by omega),
    hu16 8 (by omega) (by omega), hu16 10 (by omega) (by omega), hhi, hlo, hqd, han, hns, har]
  rfl

section

variable {buf : Bytes} {layout : Layout} (h : Placed buf layout)

include h

theorem Placed.toNat_offset {slot : Slot} (hslot : slot ∈ layout.slots) :
    (UInt32.ofNat (slot.fixed + 4)).toNat = slot.fixed + 4 := by
  have hreads := (h.slots.reads slot hslot).1
  have horder := hreads.order
  have hbound := hreads.bound
  have hsmall := h.small
  rw [UInt32.toNat_ofNat']
  exact Nat.mod_eq_of_lt (by omega)

theorem Placed.mem_offsets {o : UInt32} (ho : o ∈ ttlOffsets layout.slots) :
    ∃ slot ∈ layout.slots, slot.isOpt = false ∧ o.toNat = slot.fixed + 4 := by
  obtain ⟨slot, hslot, rfl⟩ := List.mem_map.mp ho
  obtain ⟨hmem, hopt⟩ := List.mem_filter.mp hslot
  exact ⟨slot, hmem, by simpa using hopt, h.toNat_offset hmem⟩

theorem Placed.offset_bounds {o : UInt32} (ho : o ∈ ttlOffsets layout.slots) :
    layout.records < o.toNat ∧ o.toNat + 4 ≤ buf.length := by
  obtain ⟨slot, hslot, -, hnat⟩ := h.mem_offsets ho
  obtain ⟨hreads, hstart⟩ := h.slots.reads slot hslot
  have horder := hreads.order
  have hbound := hreads.bound
  omega

theorem Placed.separate : Separate (ttlOffsets layout.slots) := by
  have hnat : ∀ slot ∈ layout.slots.filter (!·.isOpt),
      (UInt32.ofNat (slot.fixed + 4)).toNat = slot.fixed + 4 ∧
        slot.start < slot.fixed ∧ slot.fixed + 10 ≤ slot.stop := by
    intro slot hslot
    have hmem := (List.mem_filter.mp hslot).1
    exact ⟨h.toNat_offset hmem, (h.slots.reads slot hmem).1.order⟩
  rw [Separate, ttlOffsets, List.pairwise_map]
  apply (h.slots.pairwise.sublist List.filter_sublist).imp_of_mem
  intro a b ha hb hle
  obtain ⟨hna, -, hstop⟩ := hnat a ha
  obtain ⟨hnb, hstart, -⟩ := hnat b hb
  omega

theorem Placed.outside_of_lt {p : Nat} (hp : p < layout.records) :
    Outside (ttlOffsets layout.slots) p := by
  intro o ho
  have := (h.offset_bounds ho).1
  omega

theorem Placed.outside_of_slot {slot : Slot} {p : Nat} (hslot : slot ∈ layout.slots)
    (hlo : slot.start ≤ p) (hhi : p < slot.stop)
    (hown : slot.isOpt = true ∨ p < slot.fixed + 4 ∨ slot.fixed + 8 ≤ p) :
    Outside (ttlOffsets layout.slots) p := by
  intro o ho
  obtain ⟨other, hother, hopt, hnat⟩ := h.mem_offsets ho
  have horder := (h.slots.reads other hother).1.order
  have hcases : other = slot ∨ other.stop ≤ slot.start ∨ slot.stop ≤ other.start := by
    obtain ⟨i, hi⟩ := List.getElem?_of_mem hother
    obtain ⟨j, hj⟩ := List.getElem?_of_mem hslot
    obtain ⟨hi', rfl⟩ := List.getElem?_eq_some_iff.mp hi
    obtain ⟨hj', rfl⟩ := List.getElem?_eq_some_iff.mp hj
    have hpair := List.pairwise_iff_getElem.mp h.slots.pairwise
    rcases Nat.lt_trichotomy i j with hlt | rfl | hlt
    · exact .inr (.inl (hpair i j hi' hj' hlt))
    · exact .inl rfl
    · exact .inr (.inr (hpair j i hj' hi' hlt))
  rcases hcases with rfl | hbefore | hafter
  · rcases hown with hown | hown
    · rw [hown] at hopt
      cases hopt
    · omega
  · omega
  · omega

theorem Placed.outside_of_name {span : Nat × Nat} {p : Nat}
    (hspan : span ∈ nameSpans layout) (hlo : span.1 ≤ p) (hhi : p < span.2) :
    2 ≤ p ∧ Outside (ttlOffsets layout.slots) p := by
  rcases List.mem_append.mp hspan with hspan | hspan
  · obtain ⟨q, hq, rfl⟩ := List.mem_map.mp hspan
    obtain ⟨-, hstart, hstop⟩ := h.questions.reads.2 q hq
    dsimp only at hlo hhi
    exact ⟨by omega, h.outside_of_lt (by omega)⟩
  · obtain ⟨slot, hslot, hspan⟩ := List.mem_flatMap.mp hspan
    obtain ⟨hreads, hstart⟩ := h.slots.reads slot hslot
    have horder := hreads.order
    have hfirst := h.questions.reads.1
    rcases List.mem_cons.mp hspan with rfl | hspan
    · dsimp only at hlo hhi
      exact ⟨by omega, h.outside_of_slot hslot hlo (by omega) (.inr (.inl (by omega)))⟩
    · obtain ⟨piece, hpiece, heq⟩ := List.mem_filterMap.mp hspan
      have hbounds := readPieces_bounds hreads.pieces piece hpiece
      split at heq
      · cases heq
        dsimp only at hlo hhi
        exact ⟨by omega, h.outside_of_slot hslot (by omega) (by omega) (.inr (.inr (by omega)))⟩
      · cases heq

theorem Placed.scan : scanTtlOffsets buf = some (ttlOffsets layout.slots) := by
  have hlen := readHeader_bound h.header
  have hheader := h.header
  simp only [readHeader, Option.bind_eq_bind, Option.bind_eq_some_iff, Option.some.injEq] at hheader
  obtain ⟨id, -, hi, -, lo, -, qd, hqd, an, han, ns, hns, ar, har, heq⟩ := hheader
  have hquestions := skipQuestions_eq h.questions
  have hrecords := scanRecords_eq h.slots
  rw [h.questionCount, ← heq] at hquestions
  rw [h.slotCount, ← heq] at hrecords
  rw [scanTtlOffsets, if_neg (by omega), hqd, han, hns, har]
  simp only [Option.bind_eq_bind, Option.bind_some]
  rw [hquestions]
  exact hrecords

end

/-! ## The patched layout -/

def patchSlot (ttl : UInt32) (slot : Slot) : Slot :=
  if slot.isOpt then slot else { slot with ttl := ttl }

def patchLayout (id : UInt16) (ttl : UInt32) (layout : Layout) : Layout :=
  { layout with
    header := { layout.header with id := id }
    slots := layout.slots.map (patchSlot ttl) }

section

variable {ttl : UInt32} (slot : Slot)

@[simp] theorem patchSlot_start : (patchSlot ttl slot).start = slot.start := by
  rw [patchSlot]
  split <;> rfl

@[simp] theorem patchSlot_fixed : (patchSlot ttl slot).fixed = slot.fixed := by
  rw [patchSlot]
  split <;> rfl

@[simp] theorem patchSlot_stop : (patchSlot ttl slot).stop = slot.stop := by
  rw [patchSlot]
  split <;> rfl

@[simp] theorem patchSlot_name : (patchSlot ttl slot).name = slot.name := by
  rw [patchSlot]
  split <;> rfl

@[simp] theorem patchSlot_recordType : (patchSlot ttl slot).recordType = slot.recordType := by
  rw [patchSlot]
  split <;> rfl

@[simp] theorem patchSlot_dnsClass : (patchSlot ttl slot).dnsClass = slot.dnsClass := by
  rw [patchSlot]
  split <;> rfl

@[simp] theorem patchSlot_pieces : (patchSlot ttl slot).pieces = slot.pieces := by
  rw [patchSlot]
  split <;> rfl

@[simp] theorem patchSlot_isOpt : (patchSlot ttl slot).isOpt = slot.isOpt := by
  rw [Slot.isOpt, Slot.isOpt, patchSlot_recordType]

end

theorem ttlOffsets_patch (ttl : UInt32) (slots : List Slot) :
    ttlOffsets (slots.map (patchSlot ttl)) = ttlOffsets slots := by
  have hopt : (fun slot : Slot => !slot.isOpt) ∘ patchSlot ttl = fun slot => !slot.isOpt := by
    funext slot
    simp
  rw [ttlOffsets, ttlOffsets, List.filter_map, List.map_map, hopt]
  apply List.map_congr_left
  intro slot _
  simp

theorem readPieces_congr {buf buf' : Bytes} {parts : List Part} {pos stop : Nat}
    {pieces : List Piece} (hlen : buf'.length = buf.length)
    (h : readPieces buf parts pos stop = some pieces)
    (hnames : ∀ piece ∈ pieces, ∀ name, piece.field = .name name →
      readName buf' piece.start = readName buf piece.start)
    (hbytes : ∀ p, pos ≤ p → p < stop → buf'[p]? = buf[p]?) :
    readPieces buf' parts pos stop = some pieces := by
  induction parts generalizing pos pieces with
  | nil => exact h
  | cons part parts ih =>
      cases part with
      | name =>
          simp only [readPieces, Option.bind_eq_bind, Option.bind_eq_some_iff,
            Prod.exists] at h ⊢
          obtain ⟨name, next, hname, h⟩ := h
          have hnext := (readName_stop hname).1
          split at h
          · rename_i hle
            simp only [Option.bind_eq_some_iff, Option.some.injEq] at h
            obtain ⟨rest, hrest, rfl⟩ := h
            have hsame := hnames _ List.mem_cons_self name rfl
            dsimp only at hsame
            refine ⟨name, next, by rw [hsame, hname], ?_⟩
            rw [if_pos hle, ih hrest]
            · rfl
            · intro piece hpiece
              exact hnames piece (List.mem_cons_of_mem _ hpiece)
            · intro p hlo hhi
              exact hbytes p (by omega) hhi
          · cases h
      | bytes n =>
          simp only [readPieces] at h ⊢
          split at h
          · rename_i hle
            simp only [Option.bind_eq_bind, Option.bind_eq_some_iff, Option.some.injEq] at h
            obtain ⟨bytes, hslice, rest, hrest, rfl⟩ := h
            have hsame : slice buf' pos n = slice buf pos n :=
              slice_congr hlen fun p hlo hhi => hbytes p hlo (by omega)
            rw [if_pos hle, hsame, hslice]
            simp only [Option.bind_eq_bind, Option.bind_some]
            rw [ih hrest]
            · rfl
            · intro piece hpiece
              exact hnames piece (List.mem_cons_of_mem _ hpiece)
            · intro p hlo hhi
              exact hbytes p (by omega) hhi
          · cases h
      | rest =>
          simp only [readPieces] at h ⊢
          split at h
          · rename_i hle
            have hsame : slice buf' pos (stop - pos) = slice buf pos (stop - pos) :=
              slice_congr hlen fun p hlo hhi => hbytes p hlo (by omega)
            rw [if_pos hle, hsame]
            exact h
          · cases h

section

variable {buf : Bytes} {layout : Layout} (h : Placed buf layout)
  (hpointers : PointersTargetNames buf) (id : UInt16) (ttl : UInt32)

include h hpointers

private theorem readName_patch {pos stop : Nat} (hspan : (pos, stop) ∈ nameSpans layout) :
    readName (patch buf id ttl (ttlOffsets layout.slots)) pos = readName buf pos := by
  apply readName_congr length_patch
  intro p hp
  have hlayout := (readLayout_eq_some h.small).mpr h
  obtain ⟨target, htarget, hlo, hhi⟩ := hpointers layout hlayout _ hspan p hp
  obtain ⟨hp2, hout⟩ := h.outside_of_name htarget hlo hhi
  exact patch_outside hp2 hout

private theorem readsRecord_patch {slot : Slot} (hslot : slot ∈ layout.slots) :
    ReadsRecord (patch buf id ttl (ttlOffsets layout.slots)) (patchSlot ttl slot) := by
  obtain ⟨hreads, hstart⟩ := h.slots.reads slot hslot
  have horder := hreads.order
  have hfirst := h.questions.reads.1
  have howner : (slot.start, slot.fixed) ∈ nameSpans layout :=
    List.mem_append_right _ (List.mem_flatMap.mpr ⟨slot, hslot, List.mem_cons_self⟩)
  have hsame : ∀ p, slot.start ≤ p → p < slot.stop →
      slot.isOpt = true ∨ p < slot.fixed + 4 ∨ slot.fixed + 8 ≤ p →
      (patch buf id ttl (ttlOffsets layout.slots))[p]? = buf[p]? := by
    intro p hlo hhi hown
    exact patch_outside (by omega) (h.outside_of_slot hslot hlo hhi hown)
  constructor
  · rw [patchSlot_start, patchSlot_name, patchSlot_fixed, ← hreads.name]
    exact readName_patch h hpointers id ttl howner
  · rw [patchSlot_fixed, patchSlot_recordType, ← hreads.recordType]
    apply u16At_congr
    intro p hlo hhi
    exact hsame p (by omega) (by omega) (.inr (.inl (by omega)))
  · rw [patchSlot_fixed, patchSlot_dnsClass, ← hreads.dnsClass]
    apply u16At_congr
    intro p hlo hhi
    exact hsame p (by omega) (by omega) (.inr (.inl (by omega)))
  · rw [patchSlot_fixed, patchSlot]
    cases hopt : slot.isOpt with
    | true =>
        rw [if_pos rfl, ← hreads.ttl]
        apply u32At_congr
        intro p hlo hhi
        exact hsame p (by omega) (by omega) (.inl hopt)
    | false =>
        have hmem : UInt32.ofNat (slot.fixed + 4) ∈ ttlOffsets layout.slots :=
          List.mem_map.mpr ⟨slot, List.mem_filter.mpr ⟨hslot, by simp [hopt]⟩, rfl⟩
        rw [← h.toNat_offset hslot]
        exact patch_ttl h.separate hmem (h.offset_bounds hmem).2
  · obtain ⟨len, hlen, hstop⟩ := hreads.len
    refine ⟨len, ?_, by rw [patchSlot_stop, patchSlot_fixed, hstop]⟩
    rw [patchSlot_fixed, ← hlen]
    apply u16At_congr
    intro p hlo hhi
    exact hsame p (by omega) (by omega) (.inr (.inr (by omega)))
  · rw [patchSlot_stop, length_patch]
    exact hreads.bound
  · rw [patchSlot_recordType, patchSlot_fixed, patchSlot_stop, patchSlot_pieces]
    apply readPieces_congr length_patch hreads.pieces
    · intro piece hpiece name hname
      have hspan : (piece.start, piece.stop) ∈ nameSpans layout := by
        refine List.mem_append_right _ (List.mem_flatMap.mpr ⟨slot, hslot, ?_⟩)
        apply List.mem_cons_of_mem
        exact List.mem_filterMap.mpr ⟨piece, hpiece, by rw [hname]⟩
      exact readName_patch h hpointers id ttl hspan
    · intro p hlo hhi
      exact hsame p (by omega) hhi (.inr (.inr (by omega)))

theorem Placed.patched :
    Placed (patch buf id ttl (ttlOffsets layout.slots)) (patchLayout id ttl layout) := by
  have hlen := readHeader_bound h.header
  have hfirst := h.questions.reads.1
  constructor
  · rw [length_patch]
    exact h.small
  · refine readHeader_patch (fun o ho => ?_) id ttl h.header
    have := (h.offset_bounds ho).1
    omega
  · exact h.questionCount
  · have hat : ∀ (qs : List QuestionSlot) (pos : Nat), (∀ q ∈ qs, q ∈ layout.questions) →
        QuestionsAt buf pos qs layout.records →
        QuestionsAt (patch buf id ttl (ttlOffsets layout.slots)) pos qs layout.records := by
      intro qs
      induction qs with
      | nil => exact fun pos _ hat => hat
      | cons q qs ih =>
          rintro pos hmem ⟨hstart, hreads, hrest⟩
          have hq := hmem q List.mem_cons_self
          obtain ⟨-, hlo, hhi⟩ := h.questions.reads.2 q hq
          have hname := (readName_stop hreads.name).1
          have hfields : ∀ p, q.fixed ≤ p → p < q.fixed + 4 →
              (patch buf id ttl (ttlOffsets layout.slots))[p]? = buf[p]? := by
            intro p hp hp'
            exact patch_outside (by omega) (h.outside_of_lt (by omega))
          refine ⟨hstart, ⟨?_, ?_, ?_⟩, ?_⟩
          · rw [← hreads.name]
            have hspan : (q.start, q.fixed) ∈ nameSpans layout :=
              List.mem_append_left _ (List.mem_map.mpr ⟨q, hq, rfl⟩)
            exact readName_patch h hpointers id ttl hspan
          · rw [← hreads.queryType]
            exact u16At_congr fun p hp hp' => hfields p (by omega) (by omega)
          · rw [← hreads.queryClass]
            exact u16At_congr fun p hp hp' => hfields p (by omega) (by omega)
          · exact ih _ (fun q' hq' => hmem q' (List.mem_cons_of_mem _ hq')) hrest
    exact hat layout.questions 12 (fun q hq => hq) h.questions
  · rw [patchLayout, List.length_map]
    exact h.slotCount
  · have hat : ∀ (slots : List Slot) (pos : Nat), (∀ slot ∈ slots, slot ∈ layout.slots) →
        RecordsAt buf pos slots →
        RecordsAt (patch buf id ttl (ttlOffsets layout.slots)) pos
          (slots.map (patchSlot ttl)) := by
      intro slots
      induction slots with
      | nil => exact fun pos _ hat => hat
      | cons slot slots ih =>
          rintro pos hmem ⟨hstart, -, hrest⟩
          refine ⟨by rw [patchSlot_start, hstart],
            readsRecord_patch h hpointers id ttl (hmem slot List.mem_cons_self), ?_⟩
          rw [patchSlot_stop]
          exact ih _ (fun slot' hslot' => hmem slot' (List.mem_cons_of_mem _ hslot')) hrest
    exact hat layout.slots layout.records (fun slot hslot => hslot) h.slots

end

/-! ## The patched message -/

private theorem record_patchSlot {ttl : UInt32} {slots : List Slot}
    (h : slots.any Slot.isOpt = false) :
    (slots.map (patchSlot ttl)).map Slot.record =
      (slots.map Slot.record).map fun r => { r with ttl := ttl } := by
  rw [List.map_map, List.map_map]
  apply List.map_congr_left
  intro slot hslot
  have hopt : slot.isOpt = false := by
    rw [List.any_eq_false] at h
    simpa using h slot hslot
  rw [Function.comp_apply, Function.comp_apply, patchSlot, hopt]
  rfl

theorem messageOf_patchLayout (id : UInt16) (ttl : UInt32) {layout : Layout} {msg : Message}
    (h : messageOf layout = some msg) :
    messageOf (patchLayout id ttl layout) = some ((adjustTtls msg ttl).withId id) := by
  have hopt : Slot.isOpt ∘ patchSlot ttl = Slot.isOpt := by
    funext slot
    simp
  have hnotOpt : (fun slot : Slot => !slot.isOpt) ∘ patchSlot ttl = fun slot => !slot.isOpt := by
    funext slot
    simp
  have hother : ∀ slots : List Slot, (slots.filter (!·.isOpt)).any Slot.isOpt = false := by
    intro slots
    rw [List.any_eq_false]
    intro slot hslot
    simpa using (List.mem_filter.mp hslot).2
  simp only [messageOf, patchLayout, ← List.map_drop, ← List.map_take, ← List.map_append,
    List.any_map, hopt, List.filter_map, hnotOpt] at h ⊢
  split at h
  · cases h
  rename_i hsections
  rw [Bool.not_eq_true, List.any_append, Bool.or_eq_false_iff] at hsections
  rw [if_neg (by simp [hsections])]
  rw [record_patchSlot hsections.1, record_patchSlot hsections.2, record_patchSlot (hother _)]
  split at h
  · rename_i hnone
    cases h
    rw [hnone]
    rfl
  · rename_i opt hone
    split at h
    · rename_i hroot
      cases h
      have hisOpt : opt.isOpt = true := by
        have hmem : opt ∈ [opt] := List.mem_singleton_self _
        rw [← hone] at hmem
        exact (List.mem_filter.mp hmem).2
      have hsame : patchSlot ttl opt = opt := if_pos hisOpt
      rw [hone, List.map_singleton, hsame]
      simp only [hroot, if_true]
      rfl
    · cases h
  · cases h

/-- The layout of a message that can be read, with the offsets a scan finds. -/
theorem placed_of_decode {msg : Message} {bytes : Bytes} (hdecode : decode bytes = some msg)
    (hsmall : bytes.length < 2 ^ 32) :
    ∃ layout, Placed bytes layout ∧ messageOf layout = some msg ∧
      scanTtlOffsets bytes = some (ttlOffsets layout.slots) := by
  obtain ⟨layout, hlayout, hmessage⟩ := Option.bind_eq_some_iff.mp hdecode
  have hplaced := (readLayout_eq_some hsmall).mp hlayout
  exact ⟨layout, hplaced, hmessage, hplaced.scan⟩

theorem length_of_encode (codec : Codec) {msg : Message} {bytes : Bytes}
    (hencode : codec.encode msg = some bytes) : bytes.length < 2 ^ 32 :=
  lt_of_le_of_lt (codec.length_le msg bytes hencode) (by decide)

theorem placed_of_encode (codec : Codec) {msg : Message} {bytes : Bytes}
    (hencode : codec.encode msg = some bytes) :
    ∃ layout, Placed bytes layout ∧ messageOf layout = some msg ∧
      scanTtlOffsets bytes = some (ttlOffsets layout.slots) :=
  placed_of_decode (codec.decode_encode msg bytes hencode) (length_of_encode codec hencode)

theorem decode_patch_of_decode {msg : Message} {bytes : Bytes} {offsets : List UInt32}
    (hdecode : decode bytes = some msg) (hsmall : bytes.length < 2 ^ 32)
    (hpointers : PointersTargetNames bytes) (hscan : scanTtlOffsets bytes = some offsets)
    (id : UInt16) (ttl : UInt32) :
    decode (patch bytes id ttl offsets) = some ((adjustTtls msg ttl).withId id) := by
  obtain ⟨layout, hplaced, hmessage, hscan'⟩ := placed_of_decode hdecode hsmall
  obtain rfl : ttlOffsets layout.slots = offsets := Option.some.inj (hscan'.symm.trans hscan)
  have hpatched := hplaced.patched hpointers id ttl
  rw [decode, (readLayout_eq_some hpatched.small).mpr hpatched]
  exact messageOf_patchLayout id ttl hmessage

theorem decode_patch (codec : Codec) {msg : Message} {bytes : Bytes} {offsets : List UInt32}
    (hencode : codec.encode msg = some bytes) (hscan : scanTtlOffsets bytes = some offsets)
    (id : UInt16) (ttl : UInt32) :
    decode (patch bytes id ttl offsets) = some ((adjustTtls msg ttl).withId id) :=
  decode_patch_of_decode (codec.decode_encode msg bytes hencode) (length_of_encode codec hencode)
    (codec.pointers msg bytes hencode) hscan id ttl

/--
Reading a patched response gives the structured rewrite of the stored one.  The
offsets are those of the records' TTLs, apart from each other and inside the
buffer; nothing else is written, and the patched response scans as before.
-/
theorem patch_eq_adjustTtls (codec : Codec) {msg : Message} {bytes : Bytes}
    {offsets : List UInt32} (hencode : codec.encode msg = some bytes)
    (hscan : scanTtlOffsets bytes = some offsets) (id : UInt16) (ttl : UInt32) :
    decode (patch bytes id ttl offsets) = some ((adjustTtls msg ttl).withId id) ∧
      offsets.Pairwise (fun a b => a.toNat + 4 ≤ b.toNat) ∧
      (∀ o ∈ offsets, 12 ≤ o.toNat ∧ o.toNat + 4 ≤ bytes.length) ∧
      (patch bytes id ttl offsets).length = bytes.length ∧
      (∀ p, 2 ≤ p → (∀ o ∈ offsets, p < o.toNat ∨ o.toNat + 4 ≤ p) →
        (patch bytes id ttl offsets)[p]? = bytes[p]?) ∧
      scanTtlOffsets (patch bytes id ttl offsets) = some offsets := by
  refine ⟨decode_patch codec hencode hscan id ttl, ?_⟩
  obtain ⟨layout, hplaced, -, hscan'⟩ := placed_of_encode codec hencode
  obtain rfl : ttlOffsets layout.slots = offsets := Option.some.inj (hscan'.symm.trans hscan)
  have hpatched := hplaced.patched (codec.pointers msg bytes hencode) id ttl
  refine ⟨hplaced.separate, ?_, length_patch, ?_, ?_⟩
  · intro o ho
    have hbounds := hplaced.offset_bounds ho
    have hfirst := hplaced.questions.reads.1
    omega
  · intro p hp hout
    exact patch_outside hp hout
  · rw [hpatched.scan]
    exact congrArg some (ttlOffsets_patch ttl layout.slots)

/-- An alias and its address, with compressed names and an EDNS record. -/
def aliasResponse : Bytes :=
  [0xAB, 0xCD, 0x81, 0x80, 0, 1, 0, 2, 0, 0, 0, 1,
    1, 97, 4, 116, 101, 115, 116, 0, 0, 1, 0, 1,
    0xC0, 12, 0, 5, 0, 1, 0, 0, 1, 44, 0, 4, 1, 98, 0xC0, 14,
    0xC0, 36, 0, 1, 0, 1, 0, 0, 0, 60, 0, 4, 1, 2, 3, 4,
    0, 0, 41, 4, 208, 0, 0, 0, 0, 0, 0]

def aliasMessage : Message where
  metadata := ⟨0xABCD, true, 0, false, false, true, true, false, false, 0⟩
  queries := [⟨[[97], [116, 101, 115, 116]], 1, 1⟩]
  answers :=
    [⟨[[97], [116, 101, 115, 116]], typeCname, 1, 300, [.name [[98], [116, 101, 115, 116]]]⟩,
      ⟨[[98], [116, 101, 115, 116]], typeA, 1, 60, [.raw [1, 2, 3, 4]]⟩]
  authorities := []
  additionals := []
  edns := some ⟨1232, 0, 0, 0, [.raw []]⟩

def aliasCodec : Codec where
  encode msg := if msg = aliasMessage then some aliasResponse else none
  decode_encode msg bytes h := by
    split at h
    · rename_i hmsg
      cases h
      rw [hmsg]
      decide +kernel
    · cases h
  pointers msg bytes h := by
    split at h
    · cases h
      exact pointersTargetNames_of_check (by decide +kernel)
    · cases h
  length_le msg bytes h := by
    split at h
    · cases h
      decide
    · cases h

theorem patch_aliasResponse :
    aliasCodec.encode aliasMessage = some aliasResponse ∧
      scanTtlOffsets aliasResponse = some [30, 46] ∧
      decode (patch aliasResponse 0x1234 42 [30, 46]) =
        some ((adjustTtls aliasMessage 42).withId 0x1234) := by
  have hencode : aliasCodec.encode aliasMessage = some aliasResponse := by
    simp [aliasCodec]
  have hscan : scanTtlOffsets aliasResponse = some [30, 46] := by decide +kernel
  exact ⟨hencode, hscan, (patch_eq_adjustTtls aliasCodec hencode hscan 0x1234 42).1⟩

end Bulwark.Engine
