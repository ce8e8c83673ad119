import Mathlib.Data.List.Chain
import Bulwark.Foundation.Lines
import Bulwark.Api.Config

/-!
# Tidying the upstream text

`normalize` keeps every line that is not blank, and of blank lines between two others one.
The blank lines are counted in 32 bits: after `2 ^ 32` of them the count starts again, and
with it the lines that are kept.
-/

namespace Bulwark.Api

open Bulwark.Foundation

/-! ## Kept lines -/

/-- The trimmed lines `tidyLines` keeps. -/
def keptLines : UInt32 → List Text → List Text
  | _, [] => []
  | blanks, l :: ls =>
      if l = [] then
        if 1 < blanks + 1 then keptLines (blanks + 1) ls else l :: keptLines (blanks + 1) ls
      else l :: keptLines 0 ls

theorem tidyLines_eq (blanks : UInt32) (ls : List Text) :
    UpstreamsConfig.tidyLines blanks ls = unlines (keptLines blanks (ls.map trim)) := by
  induction ls generalizing blanks with
  | nil => rfl
  | cons l ls ih =>
      rw [UpstreamsConfig.tidyLines, List.map_cons, keptLines]
      simp only [ih]
      split
      · split <;> simp
      · simp

@[simp] theorem keptLines_cons {l : Text} (h : l ≠ []) (blanks : UInt32) (ls : List Text) :
    keptLines blanks (l :: ls) = l :: keptLines 0 ls := by
  simp [keptLines, h]

theorem keptLines_append_cons {l : Text} (h : l ≠ []) (blanks : UInt32) (ls ls' : List Text) :
    keptLines blanks (ls ++ l :: ls') = keptLines blanks ls ++ l :: keptLines 0 ls' := by
  induction ls generalizing blanks with
  | nil => simp [keptLines, h]
  | cons k ls ih =>
      simp only [List.cons_append, keptLines, ih]
      split
      · split <;> simp
      · simp

theorem keptLines_sublist (blanks : UInt32) (ls : List Text) :
    (keptLines blanks ls).Sublist ls := by
  induction ls generalizing blanks with
  | nil => simp [keptLines]
  | cons l ls ih =>
      rw [keptLines]
      split
      · split
        · exact (ih _).cons l
        · exact (ih _).cons_cons l
      · exact (ih _).cons_cons l

theorem filter_keptLines {p : Text → Bool} (hp : p [] = false) (blanks : UInt32)
    (ls : List Text) : (keptLines blanks ls).filter p = ls.filter p := by
  induction ls generalizing blanks with
  | nil => rfl
  | cons l ls ih =>
      rw [keptLines]
      split
      · rename_i hl
        split <;> simp [hl, hp, ih]
      · simp [List.filter_cons, ih]

theorem forall_blank_keptLines {ls : List Text} (h : ∀ l ∈ ls, l = []) (blanks : UInt32) :
    ∀ l ∈ keptLines blanks ls, l = [] :=
  fun l hl => h l ((keptLines_sublist blanks ls).subset hl)

theorem stripBlank_keptLines (ls : List Text) :
    stripBlank (keptLines 0 ls) = keptLines 0 (stripBlank ls) := by
  obtain ⟨before, after, hls, hbefore, hafter, hends⟩ := exists_stripBlank ls
  generalize stripBlank ls = mid at hls hends ⊢
  subst hls
  rcases List.eq_nil_or_concat' mid with rfl | ⟨front, last, hmid⟩
  · have hall : ∀ l ∈ before ++ [] ++ after, l = [] := by
      intro l hl
      rw [List.append_nil, List.mem_append] at hl
      exact hl.elim (hbefore l) (hafter l)
    have hkept : stripBlank (keptLines 0 (before ++ [] ++ after) ++ [] ++ []) = [] :=
      stripBlank_append (forall_blank_keptLines hall 0) (by simp) (by simp [NoBlankEnd])
    simpa [keptLines] using hkept
  · have hlast : last ≠ [] := by simpa [hmid] using hends.2
    obtain ⟨first, rest, hfirst, hcons⟩ : ∃ first rest, first ≠ [] ∧ mid = first :: rest := by
      cases mid with
      | nil => simp at hmid
      | cons first rest => exact ⟨first, rest, by simpa using hends.1, rfl⟩
    have hhead : ∀ tail, keptLines 0 (before ++ (mid ++ tail)) =
        keptLines 0 before ++ keptLines 0 (mid ++ tail) := by
      intro tail
      rw [hcons, List.cons_append, keptLines_append_cons hfirst, keptLines_cons hfirst]
    have htail : ∀ tail, keptLines 0 (mid ++ tail) = keptLines 0 mid ++ keptLines 0 tail := by
      intro tail
      rw [hmid, List.append_assoc, List.singleton_append, keptLines_append_cons hlast,
        keptLines_append_cons hlast]
      simp [keptLines]
    rw [List.append_assoc, hhead, htail, ← List.append_assoc]
    apply stripBlank_append (forall_blank_keptLines hbefore 0) (forall_blank_keptLines hafter 0)
    constructor
    · rw [hcons, keptLines_cons hfirst]
      simpa using hfirst
    · rw [hmid, keptLines_append_cons hlast]
      simpa [keptLines] using hlast

/-! ## Runs of blank lines -/

def Spaced (a b : Text) : Prop := a ≠ [] ∨ b ≠ []

/-- No run of blank lines takes the counter around. -/
def RunsFit (ls : List Text) : Prop :=
  ∀ front k back, ls = front ++ List.replicate k [] ++ back → k < 2 ^ 32

theorem RunsFit.of_append {front ls : List Text} (h : RunsFit (front ++ ls)) : RunsFit ls := by
  intro before k after hls
  apply h (front ++ before) k after
  rw [hls]
  simp

/-- After `n` blank lines: none is kept next, and of those to come one before each other line. -/
theorem spaced_keptLines {n : Nat} {ls : List Text} (h : RunsFit (List.replicate n [] ++ ls)) :
    (keptLines (UInt32.ofNat n) ls).IsChain Spaced ∧
      (1 ≤ n → (keptLines (UInt32.ofNat n) ls).head? ≠ some []) := by
  induction ls generalizing n with
  | nil => simp [keptLines]
  | cons l ls ih =>
      rw [keptLines]
      by_cases hl : l = []
      · have hrun : RunsFit (List.replicate (n + 1) [] ++ ls) := by
          rwa [hl, ← List.singleton_append, ← List.append_assoc,
            ← List.replicate_succ'] at h
        have hfits : n + 1 < 2 ^ 32 := hrun [] (n + 1) ls rfl
        have hcount : UInt32.ofNat n + 1 = UInt32.ofNat (n + 1) := by
          rw [UInt32.ofNat_add]
          rfl
        have hseen : 1 < UInt32.ofNat (n + 1) ↔ 1 ≤ n := by
          rw [UInt32.lt_iff_toNat_lt, UInt32.toNat_ofNat_of_lt' hfits]
          simp
          omega
        obtain ⟨hchain, hhead⟩ := ih hrun
        rw [if_pos hl, hcount]
        by_cases hn : 1 ≤ n
        · rw [if_pos (hseen.mpr hn)]
          exact ⟨hchain, fun _ => hhead (by omega)⟩
        · rw [if_neg (mt hseen.mp hn)]
          refine ⟨hchain.cons ?_, fun h1 => absurd h1 hn⟩
          intro k hk
          right
          rintro rfl
          exact hhead (by omega) hk
      · have hrest : RunsFit (List.replicate 0 [] ++ ls) := by
          rw [← List.singleton_append, ← List.append_assoc] at h
          exact h.of_append
        rw [if_neg hl]
        refine ⟨(ih hrest).1.cons fun k _ => .inl hl, fun _ => ?_⟩
        simpa using hl

theorem keptLines_skip {n j : Nat} (hn : 1 ≤ n) (hfits : n + j < 2 ^ 32) (ls : List Text) :
    keptLines (UInt32.ofNat n) (List.replicate j [] ++ ls) =
      keptLines (UInt32.ofNat (n + j)) ls := by
  induction j generalizing n with
  | zero => simp
  | succ j ih =>
      have hcount : UInt32.ofNat n + 1 = UInt32.ofNat (n + 1) := by
        rw [UInt32.ofNat_add]
        rfl
      have hseen : 1 < UInt32.ofNat (n + 1) := by
        rw [UInt32.lt_iff_toNat_lt, UInt32.toNat_ofNat_of_lt' (by omega : n + 1 < 2 ^ 32)]
        simp
        omega
      rw [List.replicate_succ, List.cons_append, keptLines, if_pos rfl, hcount, if_pos hseen,
        ih (by omega) (by omega)]
      congr 2
      omega

theorem keptLines_longRun {k : Nat} (h : 2 ^ 32 ≤ k) (ls : List Text) :
    ∃ rest, keptLines 0 (List.replicate k [] ++ ls) = [] :: [] :: rest := by
  obtain ⟨j, i, hj, rfl⟩ : ∃ j i, j + 2 = 2 ^ 32 ∧ k = 1 + (j + (1 + i)) :=
    ⟨2 ^ 32 - 2, k - 2 ^ 32, by omega, by omega⟩
  refine ⟨keptLines 0 (List.replicate i [] ++ ls), ?_⟩
  have hfirst : ¬ (1 : UInt32) < 0 + 1 := by decide
  have hlast : UInt32.ofNat (1 + j) + 1 = 0 := by
    apply UInt32.toNat_inj.mp
    rw [UInt32.toNat_add, UInt32.toNat_ofNat_of_lt' (by omega : 1 + j < 2 ^ 32)]
    simp
    omega
  have hskip : keptLines (UInt32.ofNat 1) (List.replicate j [] ++
      ([] :: (List.replicate i [] ++ ls))) =
        [] :: keptLines 0 (List.replicate i [] ++ ls) := by
    rw [keptLines_skip (Nat.le_refl 1) (by omega), keptLines, if_pos rfl, hlast,
      if_neg (by decide)]
  rw [List.replicate_add, List.replicate_add, List.replicate_add, List.append_assoc,
    List.append_assoc, List.append_assoc, List.replicate_one, List.singleton_append, keptLines,
    if_pos rfl, if_neg hfirst, List.singleton_append]
  exact congrArg _ hskip

theorem keptLines_of_spaced {ls : List Text} (h : ls.IsChain Spaced) :
    keptLines 0 ls = ls ∧ (ls.head? ≠ some [] → keptLines 1 ls = ls) := by
  have hfirst : ¬ (1 : UInt32) < 0 + 1 := by decide
  induction ls with
  | nil => simp [keptLines]
  | cons l ls ih =>
      rw [List.isChain_cons] at h
      obtain ⟨hzero, hone⟩ := ih h.2
      by_cases hl : l = []
      · have hnext : ls.head? ≠ some [] := fun hhead => by
          simpa [Spaced, hl] using h.1 [] hhead
        refine ⟨?_, by simp [hl]⟩
        rw [keptLines, if_pos hl, if_neg hfirst]
        exact congrArg _ (hone hnext)
      · simp [keptLines, hl, hzero]

/-! ## The normalized text -/

namespace UpstreamsConfig

variable (u : UpstreamsConfig)

def trimmedLines : List Text := (lines u.servers).map trim

/-- No `2 ^ 32` consecutive lines between two that are not blank are blank. -/
def NoLongGap : Prop :=
  ∀ front k back, u.trimmedLines = front ++ List.replicate k [] ++ back →
    (∃ l ∈ front, l ≠ []) → (∃ l ∈ back, l ≠ []) → k < 2 ^ 32

theorem isLine_of_mem_trimmedLines {l : Text} (h : l ∈ u.trimmedLines) :
    IsLine l ∧ trim l = l := by
  obtain ⟨k, hk, rfl⟩ := List.mem_map.mp h
  exact ⟨isLine_trim fun hfeed => feed_notMem_lines hk (trim_subset k hfeed), trim_trim k⟩

def tidied : List Text := keptLines 0 (stripBlank u.trimmedLines)

theorem isLine_of_mem_tidied {l : Text} (h : l ∈ u.tidied) : IsLine l ∧ trim l = l :=
  u.isLine_of_mem_trimmedLines (stripBlank_subset _ ((keptLines_sublist _ _).subset h))

theorem normalize_servers : u.normalize.servers = unlines u.tidied := by
  have hlines : ∀ l ∈ keptLines 0 u.trimmedLines, '\n' ∉ l := fun l hl =>
    (u.isLine_of_mem_trimmedLines ((keptLines_sublist _ _).subset hl)).1.1
  rw [normalize, tidied, ← stripBlank_keptLines]
  dsimp only
  rw [tidyLines_eq]
  exact trimMatches_unlines hlines

theorem lines_normalize : lines u.normalize.servers = u.tidied := by
  rw [normalize_servers]
  exact lines_unlines fun l hl => (u.isLine_of_mem_tidied hl).1

theorem trimmedLines_normalize : u.normalize.trimmedLines = u.tidied := by
  rw [trimmedLines, lines_normalize]
  conv_rhs => rw [← List.map_id u.tidied]
  apply List.map_congr_left
  intro l hl
  exact (u.isLine_of_mem_tidied hl).2

theorem filter_tidied {p : Text → Bool} (hp : p [] = false) :
    u.tidied.filter p = u.trimmedLines.filter p := by
  rw [tidied, filter_keptLines hp, filter_stripBlank hp]

theorem noBlankEnd_tidied : NoBlankEnd u.tidied := by
  rw [tidied, ← stripBlank_keptLines]
  obtain ⟨-, -, -, -, -, hends⟩ := exists_stripBlank (keptLines 0 u.trimmedLines)
  exact hends

/-! ## What holds of it -/

def isComment (l : Text) : Bool := startsWith ['#'] l

/-- No upstream changes, the comments stay, and the text is in its tidy form. -/
structure Tidied : Prop where
  specs : u.normalize.activeSpecs = u.activeSpecs
  comments : (lines u.normalize.servers).filter isComment =
    ((lines u.servers).map trim).filter isComment
  spaced : (lines u.normalize.servers).IsChain fun a b => trim a ≠ [] ∨ trim b ≠ []
  ended : u.normalize.servers = [] ∨
    ∃ text, u.normalize.servers = text ++ ['\n'] ∧ text.getLast? ≠ some '\n'
  idem : u.normalize.normalize = u.normalize

theorem activeSpecs_normalize : u.normalize.activeSpecs = u.activeSpecs := by
  change u.normalize.trimmedLines.filter _ = u.trimmedLines.filter _
  rw [trimmedLines_normalize, filter_tidied]
  simp

theorem comments_normalize :
    (lines u.normalize.servers).filter isComment = u.trimmedLines.filter isComment := by
  rw [lines_normalize, filter_tidied]
  decide

theorem ended_normalize : u.normalize.servers = [] ∨
    ∃ text, u.normalize.servers = text ++ ['\n'] ∧ text.getLast? ≠ some '\n' := by
  rw [normalize_servers]
  have hends := u.noBlankEnd_tidied.2
  have hlines := fun l hl => (u.isLine_of_mem_tidied (l := l) hl).1.1
  rcases List.eq_nil_or_concat' u.tidied with hnil | ⟨front, last, hlast⟩
  · exact .inl (by simp [hnil])
  · rw [hlast] at hends hlines ⊢
    refine .inr ⟨unlines front ++ last, by simp, ?_⟩
    have hne : last ≠ [] := by simpa using hends
    rw [List.getLast?_append_of_ne_nil _ hne]
    intro hfeed
    exact hlines last (by simp) (List.mem_of_getLast? hfeed)

theorem runsFit_of_noLongGap (h : u.NoLongGap) : RunsFit (stripBlank u.trimmedLines) := by
  obtain ⟨before, after, hls, -, -, hends⟩ := exists_stripBlank u.trimmedLines
  intro front k back hmid
  rw [hmid] at hls hends
  rcases Nat.eq_zero_or_pos k with rfl | hk
  · decide
  · apply h (before ++ front) k (back ++ after)
    · rw [hls]
      simp
    · cases front with
      | nil =>
          obtain ⟨j, rfl⟩ := Nat.exists_eq_succ_of_ne_zero hk.ne'
          simp [NoBlankEnd, List.replicate_succ] at hends
      | cons l front => exact ⟨l, by simp, by simpa using hends.1⟩
    · rcases List.eq_nil_or_concat' back with rfl | ⟨back, l, rfl⟩
      · obtain ⟨j, rfl⟩ := Nat.exists_eq_succ_of_ne_zero hk.ne'
        simp [NoBlankEnd, List.replicate_succ'] at hends
      · refine ⟨l, by simp, ?_⟩
        have hl := hends.2
        rw [← List.append_assoc] at hl
        simpa using hl

theorem spaced_tidied (h : u.NoLongGap) : u.tidied.IsChain Spaced :=
  (spaced_keptLines (n := 0) (u.runsFit_of_noLongGap h)).1

theorem normalize_of_spaced (h : u.tidied.IsChain Spaced) :
    u.normalize.normalize = u.normalize := by
  have hstrip : stripBlank ([] ++ u.tidied ++ []) = u.tidied :=
    stripBlank_append (by simp) (by simp) u.noBlankEnd_tidied
  rw [List.nil_append, List.append_nil] at hstrip
  have hservers : u.normalize.normalize.servers = u.normalize.servers := by
    rw [normalize_servers, normalize_servers, tidied, trimmedLines_normalize, hstrip,
      (keptLines_of_spaced h).1]
  exact congrArg (fun servers => { u with servers := servers }) hservers

/-- A gap in which the counter goes around leaves two blank lines. -/
theorem not_spaced_of_longGap {front back : List Text} {k : Nat} (hk : 2 ^ 32 ≤ k)
    (hls : u.trimmedLines = front ++ List.replicate k [] ++ back)
    (hfront : ∃ l ∈ front, l ≠ []) (hback : ∃ l ∈ back, l ≠ []) : ¬ u.tidied.IsChain Spaced := by
  obtain ⟨before, x, i, hx, rfl⟩ := exists_last_nonblank hfront
  obtain ⟨j, y, after, hy, rfl⟩ := exists_first_nonblank hback
  have hgap : u.trimmedLines =
      before ++ x :: (List.replicate (i + k + j) [] ++ y :: after) := by
    rw [hls]
    simp only [List.replicate_add, List.append_assoc, List.cons_append]
  obtain ⟨before', after', hstrip⟩ :=
    stripBlank_between hx hy before (List.replicate (i + k + j) []) after
  obtain ⟨rest, hkept⟩ := keptLines_longRun (by omega : 2 ^ 32 ≤ i + k + j) (y :: after')
  intro hchain
  rw [tidied, hgap, hstrip, keptLines_append_cons hx, hkept] at hchain
  have hpair := (List.isChain_append.mp hchain).2.1
  simp [Spaced] at hpair

theorem spaced_normalize_iff :
    (lines u.normalize.servers).IsChain (fun a b => trim a ≠ [] ∨ trim b ≠ []) ↔
      u.tidied.IsChain Spaced := by
  rw [lines_normalize]
  apply List.IsChain.iff_of_mem_imp
  intro a b ha hb
  rw [(u.isLine_of_mem_tidied ha).2, (u.isLine_of_mem_tidied hb).2, Spaced]

/--
Tidying changes no upstream and no comment, whatever the text, and its result is tidy and
stays as it is, if and only if the count of blank lines does not go around in a gap.
-/
theorem tidied_iff : u.Tidied ↔ u.NoLongGap := by
  constructor
  · intro h front k back hls hfront hback
    by_contra hk
    exact u.not_spaced_of_longGap (not_lt.mp hk) hls hfront hback
      (u.spaced_normalize_iff.mp h.spaced)
  · intro h
    have hchain := u.spaced_tidied h
    exact ⟨u.activeSpecs_normalize, u.comments_normalize, u.spaced_normalize_iff.mpr hchain,
      u.ended_normalize, u.normalize_of_spaced hchain⟩

/-- Two upstreams with `2 ^ 32` empty lines between them. -/
def wideGap : UpstreamsConfig :=
  ⟨unlines (['a'] :: (List.replicate (2 ^ 32) [] ++ [['b']])), [], 5⟩

theorem trimmedLines_wideGap :
    wideGap.trimmedLines = [['a']] ++ List.replicate (2 ^ 32) [] ++ [['b']] := by
  have hlines : ∀ l ∈ (['a'] :: (List.replicate (2 ^ 32) [] ++ [['b']]) : List Text),
      IsLine l := by
    intro l hl
    rw [List.mem_cons, List.mem_append, List.mem_singleton] at hl
    rcases hl with rfl | hl | rfl
    · exact ⟨by decide, by decide⟩
    · rw [List.eq_of_mem_replicate hl]
      exact ⟨by decide, by decide⟩
    · exact ⟨by decide, by decide⟩
  have hletter : trim ['a'] = ['a'] ∧ trim ['b'] = ['b'] ∧ trim [] = [] := by decide
  rw [trimmedLines, wideGap, lines_unlines hlines]
  simp only [List.map_cons, List.map_append, List.map_replicate, List.map_nil, hletter,
    List.nil_append, List.cons_append]

theorem wideGap_not_tidied : ¬ wideGap.Tidied := by
  intro h
  exact wideGap.not_spaced_of_longGap (Nat.le_refl _) trimmedLines_wideGap
    ⟨['a'], by simp, by simp⟩ ⟨['b'], by simp, by simp⟩ (wideGap.spaced_normalize_iff.mp h.spaced)

end UpstreamsConfig

end Bulwark.Api
