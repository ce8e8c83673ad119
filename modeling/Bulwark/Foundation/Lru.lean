import Mathlib.Data.List.Dedup
import Mathlib.Data.List.Induction
import Mathlib.Data.List.Nodup
import Mathlib.Tactic.Common

/-!
# Least-recently-used maps

A map of bounded size whose entries are kept in the order of their last use, the
most recent first.  A new entry pushes out the last one where there is no room.
-/

namespace Bulwark.Foundation

structure Lru (K V : Type) where
  cap : Nat
  entries : List (K × V)
  cap_pos : 0 < cap
  nodup : (entries.map Prod.fst).Nodup
  length_le : entries.length ≤ cap

namespace Lru

variable {K V : Type} [DecidableEq K]

def without (entries : List (K × V)) (k : K) : List (K × V) := entries.filter (·.1 ≠ k)

theorem nodup_cons_without {entries : List (K × V)} (h : (entries.map Prod.fst).Nodup)
    (k : K) (v : V) (n : Nat) :
    (((k, v) :: (without entries k).take n).map Prod.fst).Nodup := by
  have hsub : ((without entries k).take n).Sublist entries :=
    (List.take_sublist _ _).trans List.filter_sublist
  rw [List.map_cons, List.nodup_cons]
  refine ⟨?_, h.sublist (hsub.map _)⟩
  intro hmem
  obtain ⟨e, he, hk⟩ := List.mem_map.mp hmem
  have := (List.mem_filter.mp (List.mem_of_mem_take he)).2
  simp only [ne_eq, decide_not, Bool.not_eq_true', decide_eq_false_iff_not] at this
  exact this hk

def empty {K V : Type} (cap : Nat) (h : 0 < cap) : Lru K V :=
  ⟨cap, [], h, List.nodup_nil, Nat.zero_le _⟩

def peek (l : Lru K V) (k : K) : Option V := (l.entries.find? (·.1 = k)).map Prod.snd

def put (l : Lru K V) (k : K) (v : V) : Lru K V where
  cap := l.cap
  entries := (k, v) :: (without l.entries k).take (l.cap - 1)
  cap_pos := l.cap_pos
  nodup := nodup_cons_without l.nodup k v _
  length_le := by
    have := l.cap_pos
    rw [List.length_cons, List.length_take]
    omega

def pop (l : Lru K V) (k : K) : Lru K V where
  cap := l.cap
  entries := without l.entries k
  cap_pos := l.cap_pos
  nodup := l.nodup.sublist (List.filter_sublist.map _)
  length_le := Nat.le_trans (List.length_filter_le _ _) l.length_le

def get (l : Lru K V) (k : K) : Option V × Lru K V :=
  match l.peek k with
  | some v => (some v, l.put k v)
  | none => (none, l)

def clear {K V : Type} (l : Lru K V) : Lru K V := empty l.cap l.cap_pos

def resize {K V : Type} (l : Lru K V) (cap : Nat) (h : 0 < cap) : Lru K V where
  cap := cap
  entries := l.entries.take cap
  cap_pos := h
  nodup := l.nodup.sublist ((List.take_sublist _ _).map _)
  length_le := by
    rw [List.length_take]
    omega

/-! ## What is in the map -/

theorem peek_eq_some {l : Lru K V} {k : K} {v : V} : l.peek k = some v ↔ (k, v) ∈ l.entries := by
  rw [peek, Option.map_eq_some_iff]
  constructor
  · rintro ⟨⟨k', v'⟩, hfind, rfl⟩
    have hk := List.find?_some hfind
    simp only [decide_eq_true_eq] at hk
    subst hk
    exact List.mem_of_find?_eq_some hfind
  · intro hmem
    cases hfind : l.entries.find? (·.1 = k) with
    | none =>
        have := List.find?_eq_none.mp hfind (k, v) hmem
        simp at this
    | some e =>
        have hk := List.find?_some hfind
        simp only [decide_eq_true_eq] at hk
        have he := List.mem_of_find?_eq_some hfind
        have heq := List.inj_on_of_nodup_map l.nodup he hmem (by rw [hk])
        exact ⟨e, rfl, by rw [heq]⟩

theorem mem_without {entries : List (K × V)} {k k' : K} {v : V} :
    (k', v) ∈ without entries k ↔ (k', v) ∈ entries ∧ k' ≠ k := by
  rw [without, List.mem_filter]
  simp

theorem peek_empty {cap : Nat} {h : 0 < cap} (k : K) : (empty cap h : Lru K V).peek k = none := rfl

theorem peek_clear (l : Lru K V) (k : K) : l.clear.peek k = none := rfl

theorem peek_pop (l : Lru K V) (k : K) : (l.pop k).peek k = none := by
  rw [← Option.not_isSome_iff_eq_none]
  intro h
  obtain ⟨v, hv⟩ := Option.isSome_iff_exists.mp h
  exact (mem_without.mp (peek_eq_some.mp hv)).2 rfl

theorem peek_put_self (l : Lru K V) (k : K) (v : V) : (l.put k v).peek k = some v :=
  peek_eq_some.mpr List.mem_cons_self

theorem peek_of_put {l : Lru K V} {k k' : K} {v v' : V} (hne : k' ≠ k)
    (h : (l.put k v).peek k' = some v') : l.peek k' = some v' := by
  rcases List.mem_cons.mp (peek_eq_some.mp h) with heq | hmem
  · exact absurd (congrArg Prod.fst heq) hne
  · exact peek_eq_some.mpr (mem_without.mp (List.mem_of_mem_take hmem)).1

theorem peek_put_of_room {l : Lru K V} (hroom : l.entries.length < l.cap) {k k' : K}
    (hne : k' ≠ k) (v : V) : (l.put k v).peek k' = l.peek k' := by
  have hall : (without l.entries k).take (l.cap - 1) = without l.entries k := by
    apply List.take_of_length_le
    have := List.length_filter_le (fun e : K × V => decide (e.1 ≠ k)) l.entries
    change (l.entries.filter fun e => decide (e.1 ≠ k)).length ≤ _
    omega
  apply Option.ext
  intro v'
  rw [peek_eq_some, peek_eq_some]
  change (k', v') ∈ (k, v) :: (without l.entries k).take (l.cap - 1) ↔ _
  rw [hall, List.mem_cons, mem_without]
  constructor
  · rintro (heq | hmem)
    · exact absurd (congrArg Prod.fst heq) hne
    · exact hmem.1
  · exact fun hmem => .inr ⟨hmem, hne⟩

theorem length_put_le (l : Lru K V) (k : K) (v : V) :
    (l.put k v).entries.length ≤ l.entries.length + 1 := by
  have := List.length_filter_le (fun e : K × V => decide (e.1 ≠ k)) l.entries
  have htake : ((without l.entries k).take (l.cap - 1)).length ≤ (without l.entries k).length :=
    (List.take_sublist _ _).length_le
  change ((k, v) :: (without l.entries k).take (l.cap - 1)).length ≤ _
  rw [List.length_cons]
  exact Nat.succ_le_succ (Nat.le_trans htake this)

theorem peek_of_pop {l : Lru K V} {k k' : K} {v : V} (h : (l.pop k).peek k' = some v) :
    l.peek k' = some v :=
  peek_eq_some.mpr (mem_without.mp (peek_eq_some.mp h)).1

theorem peek_of_resize {l : Lru K V} {cap : Nat} {hcap : 0 < cap} {k : K} {v : V}
    (h : (l.resize cap hcap).peek k = some v) : l.peek k = some v :=
  peek_eq_some.mpr (List.mem_of_mem_take (peek_eq_some.mp h))

theorem get_fst (l : Lru K V) (k : K) : (l.get k).1 = l.peek k := by
  rw [get]
  cases l.peek k <;> rfl

theorem peek_of_get {l : Lru K V} {k k' : K} {v : V} (h : (l.get k).2.peek k' = some v) :
    l.peek k' = some v := by
  rw [get] at h
  cases hk : l.peek k with
  | none =>
      rw [hk] at h
      exact h
  | some v' =>
      rw [hk] at h
      by_cases hne : k' = k
      · subst hne
        rw [peek_put_self] at h
        rw [hk, ← h]
      · exact peek_of_put hne h

/-! ## What is pushed out -/

/-- Of the keys outside `p` nothing changes, but for the last ones of a map that is full. -/
structure KeepsApart (p : K → Bool) (l l' : Lru K V) : Prop where
  cap : l'.cap = l.cap
  kept : l'.entries.filter (fun e => !p e.1) <+: l.entries.filter fun e => !p e.1
  full : l'.entries.filter (fun e => !p e.1) ≠ l.entries.filter (fun e => !p e.1) →
    l'.entries.length = l'.cap

omit [DecidableEq K] in
theorem KeepsApart.refl (p : K → Bool) (l : Lru K V) : KeepsApart p l l :=
  ⟨rfl, List.prefix_rfl, fun h => absurd rfl h⟩

theorem length_without {entries : List (K × V)} (h : (entries.map Prod.fst).Nodup) (k : K) :
    entries.length ≤ (without entries k).length + 1 := by
  induction entries with
  | nil => exact Nat.zero_le _
  | cons e entries ih =>
      obtain ⟨hnot, hrest⟩ := List.nodup_cons.mp h
      by_cases hk : e.1 = k
      · have hall : without entries k = entries := by
          unfold without
          rw [List.filter_eq_self]
          intro e' he'
          simp only [ne_eq, decide_not, Bool.not_eq_true', decide_eq_false_iff_not]
          rintro rfl
          exact hnot (List.mem_map.mpr ⟨e', he', hk.symm ▸ rfl⟩)
        unfold without at hall ⊢
        rw [List.filter_cons_of_neg (by simpa using hk), hall]
        exact Nat.le_refl _
      · have := ih hrest
        unfold without at this ⊢
        rw [List.filter_cons_of_pos (by simpa using hk), List.length_cons, List.length_cons]
        omega

theorem length_put_of_full {l : Lru K V} (h : l.entries.length = l.cap) (k : K) (v : V) :
    (l.put k v).entries.length = (l.put k v).cap := by
  have hlen := length_without l.nodup k
  have hcap := l.cap_pos
  change ((k, v) :: (without l.entries k).take (l.cap - 1)).length = l.cap
  rw [List.length_cons, List.length_take]
  omega

theorem KeepsApart.put {p : K → Bool} {l m : Lru K V} (h : KeepsApart p l m) {k : K}
    (hk : p k = true) (v : V) : KeepsApart p l (m.put k v) := by
  have hsame : (without m.entries k).filter (fun e => !p e.1) =
      m.entries.filter fun e => !p e.1 := by
    unfold without
    rw [List.filter_filter]
    apply List.filter_congr
    intro e _
    by_cases he : e.1 = k
    · simp [he, hk]
    · simp [he]
  have hput : (m.put k v).entries.filter (fun e => !p e.1) =
      ((without m.entries k).take (m.cap - 1)).filter fun e => !p e.1 := by
    change ((k, v) :: (without m.entries k).take (m.cap - 1)).filter _ = _
    rw [List.filter_cons_of_neg (by simp [hk])]
  have hprefix : (m.put k v).entries.filter (fun e => !p e.1) <+:
      m.entries.filter fun e => !p e.1 := by
    rw [hput, ← hsame]
    exact (List.take_prefix _ _).filter _
  refine ⟨h.cap, hprefix.trans h.kept, fun hne => ?_⟩
  by_cases hroom : (without m.entries k).length ≤ m.cap - 1
  · -- nothing is pushed out, so what is missing was missing before
    rw [hput, List.take_of_length_le hroom, hsame] at hne
    exact length_put_of_full (h.full hne) k v
  · have hcap := m.cap_pos
    change ((k, v) :: (without m.entries k).take (m.cap - 1)).length = m.cap
    rw [List.length_cons, List.length_take]
    omega

/-! ## Recency -/

omit [DecidableEq K] in
def keys (l : Lru K V) : List K := l.entries.map Prod.fst

theorem keys_put (l : Lru K V) (k : K) (v : V) :
    (l.put k v).keys = k :: (l.keys.filter (· ≠ k)).take (l.cap - 1) := by
  unfold keys put without
  simp only [List.map_cons, List.map_take, List.filter_map]
  rfl

/-- The keys of a list, the one that comes last first. -/
def recents (ks : List K) : List K := ks.dedup.reverse

theorem nodup_recents (ks : List K) : (recents ks).Nodup :=
  List.nodup_reverse.mpr (List.nodup_dedup ks)

theorem recents_of_nodup {ks : List K} (h : ks.Nodup) : recents ks = ks.reverse := by
  rw [recents, h.dedup]

theorem mem_recents {ks : List K} {k : K} : k ∈ recents ks ↔ k ∈ ks := by
  rw [recents, List.mem_reverse, List.mem_dedup]

theorem recents_concat (ks : List K) (k : K) :
    recents (ks ++ [k]) = k :: (recents ks).filter (· ≠ k) := by
  have hdedup : (ks ++ [k]).dedup = ks.dedup.filter (· ≠ k) ++ [k] := by
    induction ks with
    | nil => simp
    | cons a ks ih =>
        by_cases ha : a ∈ ks
        · rw [List.cons_append, List.dedup_cons_of_mem (List.mem_append_left _ ha), ih,
            List.dedup_cons_of_mem ha]
        · rw [List.cons_append, List.dedup_cons_of_notMem ha]
          by_cases hk : a = k
          · subst hk
            rw [List.dedup_cons_of_mem (by simp), ih, List.filter_cons_of_neg (by simp)]
          · rw [List.dedup_cons_of_notMem (by simp [ha, hk]), ih,
              List.filter_cons_of_pos (by simpa using hk), List.cons_append]
  unfold recents
  rw [hdedup, List.reverse_append, List.filter_reverse]
  rfl

/-- A key that goes leaves room for one more of those behind. -/
theorem take_filter_take {ks : List K} (h : ks.Nodup) (k : K) (n : Nat) :
    ((ks.take n).filter (· ≠ k)).take (n - 1) = (ks.filter (· ≠ k)).take (n - 1) := by
  induction ks generalizing n with
  | nil => simp
  | cons a ks ih =>
      obtain ⟨ha, hks⟩ := List.nodup_cons.mp h
      cases n with
      | zero => simp
      | succ n =>
          rw [List.take_succ_cons, Nat.add_sub_cancel]
          by_cases hk : a = k
          · subst hk
            have hall : ∀ l : List K, l.Sublist ks → l.filter (· ≠ a) = l := by
              intro l hl
              rw [List.filter_eq_self]
              intro b hb
              simp only [ne_eq, decide_not, Bool.not_eq_true', decide_eq_false_iff_not]
              rintro rfl
              exact ha (hl.mem hb)
            rw [List.filter_cons_of_neg (by simp), List.filter_cons_of_neg (by simp),
              hall _ (List.take_sublist n ks), hall _ (List.Sublist.refl ks), List.take_take,
              Nat.min_self]
          · rw [List.filter_cons_of_pos (by simpa using hk),
              List.filter_cons_of_pos (by simpa using hk)]
            cases n with
            | zero => rfl
            | succ n =>
                have := ih hks (n + 1)
                rw [Nat.add_sub_cancel] at this
                rw [List.take_succ_cons, List.take_succ_cons, this]

theorem keys_putAll {l : Lru K V} (hempty : l.entries = []) (es : List (K × V)) :
    (es.foldl (fun l e => l.put e.1 e.2) l).cap = l.cap ∧
      (es.foldl (fun l e => l.put e.1 e.2) l).keys =
        (recents (es.map Prod.fst)).take l.cap := by
  induction es using List.reverseRecOn with
  | nil => exact ⟨rfl, by simp [keys, hempty, recents]⟩
  | append_singleton es e ih =>
      obtain ⟨hcap, hkeys⟩ := ih
      simp only [List.foldl_append, List.foldl_cons, List.foldl_nil]
      refine ⟨hcap, ?_⟩
      rw [keys_put, hcap, hkeys, take_filter_take (nodup_recents _), List.map_append,
        List.map_singleton, recents_concat]
      obtain ⟨n, hn⟩ := Nat.exists_eq_succ_of_ne_zero (Nat.ne_of_gt l.cap_pos)
      rw [hn, List.take_succ_cons]
      rfl

omit [DecidableEq K] in
/-- What stands before a kept key is kept. -/
theorem sublist_take_of_mem {ks : List K} (h : ks.Nodup) {k k' : K} {n : Nat}
    (hpair : [k, k'].Sublist ks) (hk : k' ∈ ks.take n) : [k, k'].Sublist (ks.take n) := by
  rw [← List.take_append_drop n ks] at h hpair
  obtain ⟨l₁, l₂, hl, h₁, h₂⟩ := List.sublist_append_iff.mp hpair
  have hdisjoint := List.disjoint_of_nodup_append h
  cases l₂ with
  | nil =>
      rw [List.append_nil] at hl
      rwa [hl]
  | cons a l₂ =>
      -- the last of the two would be in both parts
      exfalso
      have hlast : k' ∈ a :: l₂ := by
        have hget : (l₁ ++ a :: l₂).getLast? = some k' := by rw [← hl]; rfl
        rw [List.getLast?_append_of_ne_nil _ (by simp)] at hget
        exact List.mem_of_getLast? hget
      exact hdisjoint hk (h₂.mem hlast)

omit [DecidableEq K] in
theorem not_sublist_reverse {ks : List K} (h : ks.Nodup) {k k' : K}
    (hpair : [k, k'].Sublist ks) : ¬ [k', k].Sublist ks := by
  induction ks with
  | nil => cases hpair
  | cons a ks ih =>
      obtain ⟨ha, hks⟩ := List.nodup_cons.mp h
      intro hback
      rcases List.sublist_cons_iff.mp hpair with hrest | ⟨r, hr, hsub⟩
      · rcases List.sublist_cons_iff.mp hback with hrest' | ⟨r', hr', hsub'⟩
        · exact ih hks hrest hrest'
        · cases hr'
          exact ha (hrest.mem (by simp))
      · cases hr
        rcases List.sublist_cons_iff.mp hback with hrest' | ⟨r', hr', hsub'⟩
        · exact ha (hrest'.mem (by simp))
        · cases hr'
          exact ha (hsub.mem (by simp))

omit [DecidableEq K] in
theorem sublist_of_mem {part ks : List K} (hpart : part.Sublist ks) (h : ks.Nodup) {k k' : K}
    (hpair : [k, k'].Sublist ks) (hk : k ∈ part) (hk' : k' ∈ part) : [k, k'].Sublist part := by
  induction hpart with
  | slnil => exact hpair
  | cons a hsub ih =>
      obtain ⟨ha, hks⟩ := List.nodup_cons.mp h
      rcases List.sublist_cons_iff.mp hpair with hrest | ⟨r, hr, -⟩
      · exact ih hks hrest hk hk'
      · cases hr
        exact absurd (hsub.mem hk) ha
  | cons_cons a hsub ih =>
      obtain ⟨ha, hks⟩ := List.nodup_cons.mp h
      rcases List.sublist_cons_iff.mp hpair with hrest | ⟨r, hr, hlast⟩
      · have hne : ∀ b ∈ [k, k'], b ≠ a := by
          rintro b hb rfl
          exact ha (hrest.mem hb)
        have hmem := List.mem_of_ne_of_mem (hne k (by simp)) hk
        have hmem' := List.mem_of_ne_of_mem (hne k' (by simp)) hk'
        exact (ih hks hrest hmem hmem').cons _
      · cases hr
        have hne : k' ≠ k := by
          rintro rfl
          exact ha (hlast.mem (by simp))
        exact .cons_cons _ (List.singleton_sublist.mpr (List.mem_of_ne_of_mem hne hk'))

end Lru

end Bulwark.Foundation
