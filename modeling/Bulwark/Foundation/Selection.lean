import Mathlib.Data.List.Basic
import Mathlib.Data.List.Sort
import Mathlib.Order.Nat
import Mathlib.Tactic.Common

/-!
# Selecting the first greatest element

`firstMax key l` is the earliest element of `l` whose key is greatest.  A loop
that keeps its champion until a strictly greater key arrives computes it, and
a part of the list that holds a greatest element decides the result alone.
`First P l x` says which element of `l` is the first with a property.
-/

namespace Bulwark.Foundation

variable {α β : Type}

/-- The better of two champions; the earlier one wins a tie. -/
def champion (key : α → Nat) : Option α → Option α → Option α
  | none, b => b
  | some x, none => some x
  | some x, some y => if key x < key y then some y else some x

def firstMax (key : α → Nat) : List α → Option α
  | [] => none
  | x :: l => champion key (some x) (firstMax key l)

@[simp] theorem champion_none_right (key : α → Nat) (a : Option α) :
    champion key a none = a := by
  cases a <;> rfl

theorem champion_assoc (key : α → Nat) (a b c : Option α) :
    champion key (champion key a b) c = champion key a (champion key b c) := by
  cases a with
  | none => rfl
  | some x =>
      cases b with
      | none => rfl
      | some y =>
          cases c with
          | none => simp
          | some z =>
              simp only [champion]
              by_cases hxy : key x < key y <;> by_cases hyz : key y < key z
              · simp [hxy, hyz, lt_trans hxy hyz]
              · simp [hxy, hyz]
              · simp [hxy, hyz]
              · have hxz : ¬ key x < key z := by omega
                simp [hxy, hyz, hxz]

theorem firstMax_append (key : α → Nat) (l m : List α) :
    firstMax key (l ++ m) = champion key (firstMax key l) (firstMax key m) := by
  induction l with
  | nil => rfl
  | cons x l ih => rw [List.cons_append, firstMax, firstMax, ih, champion_assoc]

@[simp] theorem firstMax_eq_none_iff {key : α → Nat} {l : List α} :
    firstMax key l = none ↔ l = [] := by
  cases l with
  | nil => simp [firstMax]
  | cons x l =>
      rw [firstMax]
      cases firstMax key l with
      | none => simp [champion]
      | some y =>
          rw [champion]
          split <;> simp

theorem firstMax_spec {key : α → Nat} {l : List α} {x : α}
    (h : firstMax key l = some x) : x ∈ l ∧ ∀ y ∈ l, key y ≤ key x := by
  induction l generalizing x with
  | nil => simp [firstMax] at h
  | cons z l ih =>
      rw [firstMax] at h
      cases hl : firstMax key l with
      | none =>
          rw [hl] at h
          obtain rfl : z = x := by simpa [champion] using h
          simp [firstMax_eq_none_iff.mp hl]
      | some y =>
          obtain ⟨hmem, hle⟩ := ih hl
          rw [hl, champion] at h
          split at h
          · rename_i hlt
            obtain rfl : y = x := by simpa using h
            refine ⟨List.mem_cons_of_mem _ hmem, ?_⟩
            rintro w (_ | ⟨_, hw⟩)
            · exact hlt.le
            · exact hle w hw
          · rename_i hge
            obtain rfl : z = x := by simpa using h
            refine ⟨List.mem_cons_self, ?_⟩
            rintro w (_ | ⟨_, hw⟩)
            · exact le_rfl
            · exact le_trans (hle w hw) (Nat.le_of_not_lt hge)

theorem firstMax_isSome (key : α → Nat) {l : List α} {x : α} (h : x ∈ l) :
    ∃ y, firstMax key l = some y := by
  cases hy : firstMax key l with
  | some y => exact ⟨y, rfl⟩
  | none => simp [firstMax_eq_none_iff.mp hy] at h

/-! ## The loop -/

theorem firstMax_round (key : α → Nat) (best : Option α) (x : α) (l : List α) :
    champion key best (firstMax key (x :: l)) =
      champion key (champion key best (some x)) (firstMax key l) := by
  rw [firstMax, champion_assoc]

/-! ## Which part decides -/

theorem firstMax_append_left {key : α → Nat} {l m : List α} {x : α}
    (hx : x ∈ l) (h : ∀ y ∈ m, key y ≤ key x) :
    firstMax key (l ++ m) = firstMax key l := by
  obtain ⟨b, hb⟩ := firstMax_isSome key hx
  have hxb := (firstMax_spec hb).2 x hx
  rw [firstMax_append, hb]
  cases hm : firstMax key m with
  | none => rfl
  | some y =>
      have hyb := le_trans (h y (firstMax_spec hm).1) hxb
      rw [champion, if_neg (Nat.not_lt.mpr hyb)]

theorem firstMax_append_right {key : α → Nat} {l m : List α} {x : α}
    (hx : x ∈ m) (h : ∀ y ∈ l, key y < key x) :
    firstMax key (l ++ m) = firstMax key m := by
  obtain ⟨b, hb⟩ := firstMax_isSome key hx
  have hxb := (firstMax_spec hb).2 x hx
  rw [firstMax_append, hb]
  cases hl : firstMax key l with
  | none => rfl
  | some y =>
      have hyb := lt_of_lt_of_le (h y (firstMax_spec hl).1) hxb
      rw [champion, if_pos hyb]

theorem firstMax_cons_of_greatest {key : α → Nat} {x : α} {l : List α}
    (h : ∀ y ∈ l, key y ≤ key x) : firstMax key (x :: l) = some x := by
  rw [firstMax]
  cases hl : firstMax key l with
  | none => rfl
  | some y =>
      have hy := h y (firstMax_spec hl).1
      rw [champion, if_neg (Nat.not_lt.mpr hy)]

theorem firstMax_eq_some_iff {key : α → Nat} {l : List α} {x : α} :
    firstMax key l = some x ↔
      ∃ front back, l = front ++ x :: back ∧ (∀ y ∈ front, key y < key x) ∧
        ∀ y ∈ back, key y ≤ key x := by
  constructor
  · intro h
    induction l with
    | nil => simp [firstMax] at h
    | cons z l ih =>
        rw [firstMax] at h
        cases hl : firstMax key l with
        | none =>
            rw [hl] at h
            obtain rfl : z = x := by simpa [champion] using h
            exact ⟨[], l, rfl, by simp, by simp [firstMax_eq_none_iff.mp hl]⟩
        | some y =>
            rw [hl, champion] at h
            split at h
            · rename_i hlt
              obtain rfl : y = x := by simpa using h
              obtain ⟨front, back, rfl, hfront, hback⟩ := ih hl
              exact ⟨z :: front, back, rfl, by simpa [hlt] using hfront, hback⟩
            · rename_i hge
              obtain rfl : z = x := by simpa using h
              refine ⟨[], l, rfl, by simp, fun w hw => ?_⟩
              exact le_trans ((firstMax_spec hl).2 w hw) (Nat.le_of_not_lt hge)
  · rintro ⟨front, back, rfl, hfront, hback⟩
    rw [firstMax_append_right List.mem_cons_self hfront, firstMax_cons_of_greatest hback]

/-- In growing order the one that is selected is the least of the greatest. -/
theorem le_of_firstMax {key : Nat → Nat} {l : List Nat} {x y : Nat} (hl : l.Pairwise (· < ·))
    (hx : firstMax key l = some x) (hy : y ∈ l) (hge : key x ≤ key y) : x ≤ y := by
  obtain ⟨front, back, rfl, hfront, -⟩ := firstMax_eq_some_iff.mp hx
  rcases List.mem_append.mp hy with hy | hy
  · exact absurd (hfront y hy) (Nat.not_lt_of_le hge)
  · rcases List.mem_cons.mp hy with rfl | hy
    · exact le_rfl
    · exact (List.rel_of_pairwise_cons (List.pairwise_append.mp hl).2.1 hy).le

/-! ## The first element with a property -/

def First (P : α → Prop) (l : List α) (x : α) : Prop :=
  ∃ front back, l = front ++ x :: back ∧ P x ∧ ∀ y ∈ front, ¬ P y

theorem First.holds {P : α → Prop} {l : List α} {x : α} (h : First P l x) : P x := by
  obtain ⟨front, back, rfl, hx, -⟩ := h
  exact hx

theorem first_cons {P : α → Prop} {z x : α} {l : List α} :
    First P (z :: l) x ↔ P z ∧ z = x ∨ ¬ P z ∧ First P l x := by
  constructor
  · rintro ⟨front, back, hl, hx, hfront⟩
    cases front with
    | nil =>
        obtain ⟨rfl, rfl⟩ := List.cons.inj hl
        exact .inl ⟨hx, rfl⟩
    | cons w front =>
        obtain ⟨rfl, rfl⟩ := List.cons.inj hl
        exact .inr ⟨hfront _ List.mem_cons_self, front, back, rfl, hx,
          fun y hy => hfront y (List.mem_cons_of_mem _ hy)⟩
  · rintro (⟨hz, rfl⟩ | ⟨hz, front, back, rfl, hx, hfront⟩)
    · exact ⟨[], l, rfl, hz, by simp⟩
    · refine ⟨z :: front, back, rfl, hx, fun y hy => ?_⟩
      rcases List.mem_cons.mp hy with rfl | hy
      · exact hz
      · exact hfront y hy

theorem First.unique {P : α → Prop} {l : List α} {x y : α} (hx : First P l x)
    (hy : First P l y) : x = y := by
  induction l with
  | nil =>
      obtain ⟨front, back, hl, -⟩ := hx
      simp at hl
  | cons z l ih =>
      rcases first_cons.mp hx with ⟨hz, rfl⟩ | ⟨hz, hx⟩ <;>
        rcases first_cons.mp hy with ⟨hz', rfl⟩ | ⟨hz', hy⟩
      · rfl
      · exact absurd hz hz'
      · exact absurd hz' hz
      · exact ih hx hy

theorem first_filter {P : α → Prop} {p : α → Bool} {l : List α} {x : α} :
    First P (l.filter p) x ↔ First (fun y => p y = true ∧ P y) l x := by
  induction l with
  | nil => simp [First]
  | cons z l ih =>
      rw [first_cons, ← ih]
      cases hp : p z with
      | true => simp [hp, first_cons]
      | false => simp [hp]

theorem first_of_getElem? {P : α → Prop} {l : List α} {x : α} {i : Nat} (hi : l[i]? = some x)
    (hx : P x) (hless : ∀ j < i, ∀ y, l[j]? = some y → ¬ P y) : First P l x := by
  obtain ⟨hlt, rfl⟩ := List.getElem?_eq_some_iff.mp hi
  refine ⟨l.take i, l.drop (i + 1), ?_, hx, fun y hy => ?_⟩
  · rw [← List.drop_eq_getElem_cons hlt, List.take_append_drop]
  · obtain ⟨j, hj, rfl⟩ := List.mem_take_iff_getElem.mp hy
    exact hless j (by omega) _ (List.getElem?_eq_getElem _)

/-! ## Renaming -/

theorem firstMax_map (key : β → Nat) (f : α → β) (l : List α) :
    firstMax key (l.map f) = (firstMax (key ∘ f) l).map f := by
  induction l with
  | nil => rfl
  | cons x l ih =>
      rw [List.map_cons, firstMax, firstMax, ih]
      cases firstMax (key ∘ f) l with
      | none => rfl
      | some y =>
          simp only [Option.map_some, champion, Function.comp_apply]
          split <;> rfl

theorem firstMax_congr {key key' : α → Nat} {l : List α}
    (h : ∀ x ∈ l, key x = key' x) : firstMax key l = firstMax key' l := by
  induction l with
  | nil => rfl
  | cons x l ih =>
      rw [firstMax, firstMax, ih fun y hy => h y (List.mem_cons_of_mem _ hy)]
      cases hy : firstMax key' l with
      | none => rfl
      | some y =>
          have hmem := List.mem_cons_of_mem x (firstMax_spec hy).1
          simp only [champion, h x List.mem_cons_self, h y hmem]

/-! ## Sorting by a key -/

section

variable {κ : Type} [LinearOrder κ] (key : α → κ) (l : List α)

private theorem total_key : Std.Total fun a b : α => key a ≤ key b := ⟨fun _ _ => le_total _ _⟩

private theorem trans_key : IsTrans α fun a b => key a ≤ key b := ⟨fun _ _ _ => le_trans⟩

theorem pairwise_insertionSort_key :
    (l.insertionSort fun a b => key a ≤ key b).Pairwise fun a b => key a ≤ key b := by
  have htotal := total_key key
  have htrans := trans_key key
  exact List.pairwise_insertionSort _ l

/-- Elements of one key keep their order. -/
theorem filter_insertionSort_key {p : α → Bool}
    (hp : ∀ a b, p a = true → p b = true → key a ≤ key b) :
    (l.insertionSort fun a b => key a ≤ key b).filter p = l.filter p := by
  have hequal : (l.filter p).Pairwise fun a b => key a ≤ key b := by
    apply List.pairwise_of_forall_mem_list
    intro a ha b hb
    exact hp a b (List.mem_filter.mp ha).2 (List.mem_filter.mp hb).2
  have htotal := total_key key
  have htrans := trans_key key
  have hsub : (l.filter p).Sublist (l.insertionSort fun a b => key a ≤ key b) :=
    List.sublist_insertionSort hequal List.filter_sublist
  have hfilter := hsub.filter p
  rw [List.filter_filter] at hfilter
  simp only [Bool.and_self] at hfilter
  have hperm := (List.perm_insertionSort (fun a b => key a ≤ key b) l).filter p
  exact (hfilter.eq_of_length hperm.length_eq.symm).symm

theorem pairwise_mergeSort_key :
    (l.mergeSort fun a b => decide (key a ≤ key b)).Pairwise fun a b => key a ≤ key b := by
  have htotal := total_key key
  have htrans := trans_key key
  exact List.pairwise_mergeSort' _ l

/-- Elements that stand in growing order are reversed by sorting them downwards. -/
theorem mergeSort_descending (h : l.Pairwise fun a b => key a < key b) :
    (l.mergeSort fun a b => decide (key b ≤ key a)) = l.reverse := by
  have htrans : ∀ a b c : α, decide (key b ≤ key a) = true → decide (key c ≤ key b) = true →
      decide (key c ≤ key a) = true := by
    simp only [decide_eq_true_eq]
    exact fun a b c hab hbc => le_trans hbc hab
  have htotal : ∀ a b : α, (decide (key b ≤ key a) || decide (key a ≤ key b)) = true := by
    simp only [Bool.or_eq_true, decide_eq_true_eq]
    exact fun a b => le_total (key b) (key a)
  have hsorted := List.pairwise_mergeSort htrans htotal l
  have hreverse : l.reverse.Pairwise fun a b => decide (key b ≤ key a) = true := by
    rw [List.pairwise_reverse]
    exact h.imp fun hab => decide_eq_true hab.le
  have hinj : ∀ a ∈ l, ∀ b ∈ l, key a = key b → a = b := by
    have hnodup : (l.map key).Nodup := List.pairwise_map.mpr (h.imp fun hab => hab.ne)
    exact fun a ha b hb => List.inj_on_of_nodup_map hnodup ha hb
  refine List.Perm.eq_of_pairwise (fun a b ha hb hab hba => ?_) hsorted hreverse
    ((List.mergeSort_perm _ _).trans (List.reverse_perm l).symm)
  rw [List.mem_mergeSort] at ha
  rw [List.mem_reverse] at hb
  exact hinj a ha b hb (le_antisymm (of_decide_eq_true hba) (of_decide_eq_true hab))

end

end Bulwark.Foundation
