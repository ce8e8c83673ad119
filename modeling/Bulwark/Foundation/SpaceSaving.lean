import Mathlib.Algebra.Order.BigOperators.Group.List
import Bulwark.Foundation.Tally

/-!
# Space-Saving counters

A table of at most `cap` counters over a stream of keys.  When the table is full, a new
key takes over a least counter with its count.  No count is below the frequency of its
key, and none is above it by more than the least count of a full table.  Tables over parts
of a stream may be added up: their slacks add up with them.
-/

namespace Bulwark.Foundation

namespace Tally

variable {K : Type} [DecidableEq K]

def frequency (seen : List K) (k : K) : ℕ := seen.countP (· = k)

/-- The tables that one more occurrence of a key may lead to. -/
inductive Saves (cap : ℕ) (t : Tally K) (key : K) : Tally K → Prop where
  | hit {v : ℕ} (hkey : t.lookup key = some v) : Saves cap t key (t.insert key (v + 1))
  | room (hkey : t.lookup key = none) (hroom : t.keys.length < cap) :
      Saves cap t key (t.insert key 1)
  | evict {least : K} {v : ℕ} (hkey : t.lookup key = none) (hfull : cap ≤ t.keys.length)
      (hleast : t.lookup least = some v) (hmin : ∀ k n, t.lookup k = some n → v ≤ n) :
      Saves cap t key ((t.erase least).insert key (v + 1))

/-- The counts of a stream, none of them too high by more than `slack`. -/
structure Estimates (cap slack : ℕ) (seen : List K) (t : Tally K) : Prop where
  length_le : t.keys.length ≤ cap
  total_eq : t.total = seen.length
  kept : ∀ k n, t.lookup k = some n →
    slack ≤ n ∧ frequency seen k ≤ n ∧ n ≤ frequency seen k + slack
  lost : ∀ k, t.lookup k = none → frequency seen k ≤ slack
  /-- Without an eviction the counts are exact. -/
  exact : t.keys.length < cap → slack = 0

theorem frequency_snoc (seen : List K) (key k : K) :
    frequency (seen ++ [key]) k = frequency seen k + if k = key then 1 else 0 := by
  by_cases h : k = key
  · simp [frequency, h]
  · simp [frequency, h, Ne.symm h]

theorem lookup_insert (t : Tally K) (k k' : K) (n : ℕ) :
    (t.insert k n).lookup k' = if k' = k then some n else t.lookup k' := by
  by_cases h : k' = k
  · rw [h, AList.lookup_insert, if_pos rfl]
  · simp [h, AList.lookup_insert_ne]

theorem lookup_erase (t : Tally K) (k k' : K) :
    (t.erase k).lookup k' = if k' = k then none else t.lookup k' := by
  by_cases h : k' = k
  · rw [h, AList.lookup_erase, if_pos rfl]
  · simp [h, AList.lookup_erase_ne]

theorem length_mul_le_total {t : Tally K} {v : ℕ} (h : ∀ k n, t.lookup k = some n → v ≤ n) :
    t.keys.length * v ≤ t.total := by
  have hall : ∀ n ∈ t.entries.map fun e => e.2, v ≤ n := by
    intro n hn
    obtain ⟨e, he, rfl⟩ := List.mem_map.mp hn
    exact h e.1 e.2 (AList.mem_lookup_iff.mpr he)
  have hsum := List.card_nsmul_le_sum _ v hall
  have hlen : t.keys.length = t.entries.length := List.length_map ..
  simpa [total, hlen] using hsum

theorem total_of_saves {cap : ℕ} {t t' : Tally K} {key : K} (h : t.Saves cap key t') :
    t'.total = t.total + 1 := by
  cases h with
  | hit hkey =>
      rename_i v
      have hinsert := total_insert t key (v + 1)
      simp only [get_of_lookup hkey] at hinsert
      omega
  | room hkey hroom =>
      have hinsert := total_insert t key 1
      simp only [get_of_lookup_none hkey] at hinsert
      omega
  | evict hkey hfull hleast hmin =>
      rename_i least v
      have hinsert := total_insert (t.erase least) key (v + 1)
      have herase := total_erase t least
      have hgone : (t.erase least).lookup key = none := by
        simp [lookup_erase, hkey]
      simp only [get_of_lookup_none hgone, get_of_lookup hleast] at hinsert herase
      omega

theorem length_of_saves {cap : ℕ} {t t' : Tally K} {key : K} (h : t.Saves cap key t')
    (hle : t.keys.length ≤ cap) :
    t'.keys.length ≤ cap ∧ (t'.keys.length < cap → t.keys.length < cap) := by
  cases h with
  | hit hkey =>
      simp only [length_keys_insert hkey]
      exact ⟨hle, fun hlt => hlt⟩
  | room hkey hroom =>
      simp only [keys_insert_new hkey, List.length_cons]
      omega
  | evict hkey hfull hleast hmin =>
      rename_i least v
      have hgone : (t.erase least).lookup key = none := by
        simp [lookup_erase, hkey]
      have herase := length_keys_erase hleast
      simp only [keys_insert_new hgone, List.length_cons]
      omega

namespace Estimates

variable {cap slack : ℕ} {seen : List K} {t t' : Tally K}

theorem empty (cap : ℕ) : Estimates cap 0 ([] : List K) ∅ where
  length_le := by simp [AList.keys_empty]
  total_eq := rfl
  kept := by simp
  lost := by simp [frequency]
  exact := by simp

theorem kept_insert (h : Estimates cap slack seen t) {key : K} {m : ℕ}
    (hm : slack ≤ m ∧ frequency seen key + 1 ≤ m ∧ m ≤ frequency seen key + 1 + slack) (k : K)
    (n : ℕ) (hk : (t.insert key m).lookup k = some n) :
    slack ≤ n ∧ frequency (seen ++ [key]) k ≤ n ∧ n ≤ frequency (seen ++ [key]) k + slack := by
  simp only [lookup_insert] at hk
  simp only [frequency_snoc]
  split at hk
  · rename_i heq
    cases hk
    simpa [heq] using hm
  · rename_i hne
    simpa [hne] using h.kept k n hk

theorem lost_insert (h : Estimates cap slack seen t) (key : K) (m : ℕ) (k : K)
    (hk : (t.insert key m).lookup k = none) : frequency (seen ++ [key]) k ≤ slack := by
  simp only [lookup_insert] at hk
  split at hk
  · cases hk
  · rename_i hne
    simp only [frequency_snoc, hne, if_false, Nat.add_zero]
    exact h.lost k hk

/-- The slack after an eviction is the count that was taken over. -/
theorem step {key : K} (h : Estimates cap slack seen t) (hsaves : t.Saves cap key t') :
    ∃ slack', Estimates cap slack' (seen ++ [key]) t' := by
  obtain ⟨hlen, hroom⟩ := length_of_saves hsaves h.length_le
  have htotal : t'.total = (seen ++ [key]).length := by
    simp [total_of_saves hsaves, h.total_eq]
  cases hsaves with
  | hit hkey =>
      rename_i v
      have hv := h.kept key v hkey
      refine ⟨slack, hlen, htotal, h.kept_insert ?_, h.lost_insert key _,
        fun hlt => h.exact (hroom hlt)⟩
      omega
  | room hkey hlt =>
      have hexact := h.exact hlt
      have hkeyLost := h.lost key hkey
      refine ⟨slack, hlen, htotal, h.kept_insert ?_, h.lost_insert key _, fun _ => hexact⟩
      omega
  | evict hkey hfull hleast hmin =>
      rename_i least v
      have hkeyLost := h.lost key hkey
      have hleastKept := h.kept least v hleast
      refine ⟨v, hlen, htotal, fun k n hk => ?_, fun k hk => ?_, fun hlt => ?_⟩
      · simp only [lookup_insert, lookup_erase] at hk
        simp only [frequency_snoc]
        split at hk
        · rename_i heq
          simp only [heq, if_true, Option.some.injEq] at hk ⊢
          omega
        · rename_i hne
          split at hk
          · cases hk
          · have hn := hmin k n hk
            have hkept := h.kept k n hk
            simp only [hne, if_false]
            omega
      · simp only [lookup_insert, lookup_erase] at hk
        split at hk
        · cases hk
        · rename_i hne
          simp only [frequency_snoc, hne, if_false]
          split at hk
          · rename_i heq
            rw [heq]
            omega
          · have hlost := h.lost k hk
            omega
      · exact absurd (hroom hlt) (Nat.not_lt.mpr hfull)

theorem slack_le (h : Estimates cap slack seen t) (hcap : 0 < cap) : slack ≤ seen.length / cap := by
  rw [Nat.le_div_iff_mul_le hcap]
  rcases Nat.lt_or_ge t.keys.length cap with hroom | hfull
  · simp [h.exact hroom]
  · have hmul := length_mul_le_total fun k n hk => (h.kept k n hk).1
    rw [h.total_eq] at hmul
    calc
      slack * cap ≤ slack * t.keys.length := Nat.mul_le_mul_left slack hfull
      _ = t.keys.length * slack := Nat.mul_comm ..
      _ ≤ seen.length := hmul

theorem kept_of_frequent (h : Estimates cap slack seen t) (hcap : 0 < cap) {k : K}
    (hfrequent : seen.length / cap < frequency seen k) : k ∈ t.keys := by
  have hslack := h.slack_le hcap
  cases hk : t.lookup k with
  | none =>
      have hlost := h.lost k hk
      omega
  | some n => exact mem_keys_of_lookup hk

end Estimates

/-! ## Tables of several streams -/

/-- No count is off by more than `slack`; a key without a counter counts as zero. -/
def Near (slack : ℕ) (seen : List K) (t : Tally K) : Prop :=
  ∀ k, t.get k ≤ frequency seen k + slack ∧ frequency seen k ≤ t.get k + slack

theorem Estimates.near {cap slack : ℕ} {seen : List K} {t : Tally K}
    (h : Estimates cap slack seen t) : t.Near slack seen := by
  intro k
  cases hk : t.lookup k with
  | none =>
      have hlost := h.lost k hk
      rw [get_of_lookup_none hk]
      omega
  | some n =>
      have hkept := h.kept k n hk
      rw [get_of_lookup hk]
      omega

namespace Near

variable {a b : ℕ} {xs ys : List K} {t u : Tally K}

theorem empty : (∅ : Tally K).Near 0 [] := fun k => by simp [frequency]

theorem mono (h : t.Near a xs) (hle : a ≤ b) : t.Near b xs := by
  intro k
  have hk := h k
  omega

theorem perm (h : t.Near a xs) (hperm : xs.Perm ys) : t.Near a ys := by
  intro k
  have hk := h k
  rwa [frequency, hperm.countP_eq] at hk

theorem merge (h : t.Near a xs) (h' : u.Near b ys) : (t.merge u).Near (a + b) (xs ++ ys) := by
  intro k
  have hk := h k
  have hk' := h' k
  have hsum : frequency (xs ++ ys) k = frequency xs k + frequency ys k := List.countP_append ..
  rw [get_merge, hsum]
  omega

end Near

end Tally

end Bulwark.Foundation
