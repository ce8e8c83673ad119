import Mathlib.Data.Finset.Max
import Mathlib.Data.Finset.Sort
import Mathlib.Data.Finset.Card
import Mathlib.Tactic.Common

/-!
# The greatest elements of a finite set

`top k s` holds the `k` greatest elements of `s`.  It can be found from any part of
`s` that contains it; this is what makes cutting parts before joining them harmless.
-/

namespace Bulwark.Foundation

variable {α : Type} [LinearOrder α]

def top (k : ℕ) (s : Finset α) : Finset α := s.filter fun x => (s.filter (x < ·)).card < k

theorem mem_top {k : ℕ} {s : Finset α} {x : α} :
    x ∈ top k s ↔ x ∈ s ∧ (s.filter (x < ·)).card < k :=
  Finset.mem_filter

theorem top_subset (k : ℕ) (s : Finset α) : top k s ⊆ s := Finset.filter_subset _ _

theorem card_above_mono {s t : Finset α} (h : s ⊆ t) (x : α) :
    (s.filter (x < ·)).card ≤ (t.filter (x < ·)).card :=
  Finset.card_le_card (Finset.filter_subset_filter _ h)

theorem mem_top_of_subset {k : ℕ} {s t : Finset α} {x : α} (h : s ⊆ t) (hx : x ∈ s)
    (htop : x ∈ top k t) : x ∈ top k s :=
  mem_top.mpr ⟨hx, lt_of_le_of_lt (card_above_mono h x) (mem_top.mp htop).2⟩

theorem top_of_between {k : ℕ} {s t : Finset α} (hlo : top k t ⊆ s) (hhi : s ⊆ t) :
    top k s = top k t := by
  apply Finset.Subset.antisymm
  · intro x hx
    obtain ⟨hxs, hcard⟩ := mem_top.mp hx
    by_contra hnot
    -- the greatest element at or above `x` that is not among the greatest of `t`
    obtain ⟨m, hm, hmax⟩ :=
      ((t \ top k t).filter (x ≤ ·)).exists_max_image id
        ⟨x, by simp [hhi hxs, hnot]⟩
    simp only [Finset.mem_filter, Finset.mem_sdiff, id] at hm hmax
    obtain ⟨⟨hmt, hmtop⟩, hxm⟩ := hm
    have habove : t.filter (m < ·) ⊆ s.filter (x < ·) := by
      intro y hy
      obtain ⟨hyt, hmy⟩ := Finset.mem_filter.mp hy
      refine Finset.mem_filter.mpr ⟨hlo ?_, lt_of_le_of_lt hxm hmy⟩
      by_contra hytop
      exact absurd (hmax y ⟨⟨hyt, hytop⟩, hxm.trans hmy.le⟩) (not_le_of_gt hmy)
    have hle := Finset.card_le_card habove
    exact hmtop (mem_top.mpr ⟨hmt, lt_of_le_of_lt hle hcard⟩)
  · intro x hx
    exact mem_top_of_subset hhi (hlo hx) hx

/-- The end of a strictly increasing list holds its greatest elements. -/
theorem mem_drop_iff_top {k : ℕ} {l : List α} (h : l.Pairwise (· < ·)) {x : α} :
    x ∈ l.drop (l.length - k) ↔ x ∈ top k l.toFinset := by
  induction l with
  | nil => simp [top]
  | cons a l ih =>
      obtain ⟨hfirst, hrest⟩ := List.pairwise_cons.mp h
      have ha : a ∉ l := fun hmem => lt_irrefl a (hfirst a hmem)
      have hcard : l.toFinset.card = l.length :=
        List.toFinset_card_of_nodup (hrest.imp ne_of_lt)
      have habove : ∀ y ∈ l, ((a :: l).toFinset.filter (y < ·)) = l.toFinset.filter (y < ·) := by
        intro y hy
        ext z
        simp only [Finset.mem_filter, List.mem_toFinset, List.mem_cons]
        constructor
        · rintro ⟨rfl | hz, hyz⟩
          · exact absurd (hfirst y hy) (not_lt_of_gt hyz)
          · exact ⟨hz, hyz⟩
        · rintro ⟨hz, hyz⟩
          exact ⟨.inr hz, hyz⟩
      have hall : ((a :: l).toFinset.filter (a < ·)) = l.toFinset := by
        ext z
        simp only [Finset.mem_filter, List.mem_toFinset, List.mem_cons]
        constructor
        · rintro ⟨rfl | hz, haz⟩
          · exact absurd haz (lt_irrefl _)
          · exact hz
        · intro hz
          exact ⟨.inr hz, hfirst z hz⟩
      have hrestTop : ∀ y ∈ l, y ∈ top k (a :: l).toFinset ↔ y ∈ top k l.toFinset := by
        intro y hy
        rw [mem_top, mem_top, habove y hy, List.mem_toFinset, List.mem_toFinset]
        simp [hy]
      rw [List.length_cons]
      by_cases hk : l.length + 1 ≤ k
      · have hzero : l.length + 1 - k = 0 := by omega
        have hzero' : l.length - k = 0 := by omega
        rw [hzero, List.drop_zero, List.mem_cons]
        rw [hzero', List.drop_zero] at ih
        constructor
        · rintro (rfl | hx)
          · rw [mem_top, hall, hcard]
            exact ⟨by simp, by omega⟩
          · exact (hrestTop x hx).mpr (ih hrest |>.mp hx)
        · intro hx
          simpa using top_subset _ _ hx
      · have hsucc : l.length + 1 - k = (l.length - k) + 1 := by omega
        rw [hsucc, List.drop_succ_cons, ih hrest]
        constructor
        · intro hx
          have hxl : x ∈ l := by simpa using top_subset _ _ hx
          exact (hrestTop x hxl).mpr hx
        · intro hx
          have hxl : x = a ∨ x ∈ l := by simpa using top_subset _ _ hx
          rcases hxl with rfl | hxl
          · rw [mem_top, hall, hcard] at hx
            omega
          · exact (hrestTop x hxl).mp hx

end Bulwark.Foundation
