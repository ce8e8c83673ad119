import Mathlib.Algebra.BigOperators.Group.List.Basic
import Mathlib.Data.List.AList
import Mathlib.Tactic.Common
import Mathlib.Tactic.Ring

/-!
# Counting maps

A map from keys to counts, as an association list with distinct keys.  The order of
its entries has no meaning; where a program visits a hash map, the order it meets
is a parameter.
-/

namespace Bulwark.Foundation

variable {K : Type} [DecidableEq K]

abbrev Tally (K : Type) := AList fun _ : K => ℕ

namespace Tally

def get (t : Tally K) (k : K) : ℕ := (t.lookup k).getD 0

def total {K : Type} (t : Tally K) : ℕ := (t.entries.map fun e => e.2).sum

/-- `*t.entry(k).or_insert(0) += n` -/
def add (t : Tally K) (k : K) (n : ℕ) : Tally K := t.insert k (t.get k + n)

def merge (t u : Tally K) : Tally K := u.entries.foldl (fun t e => add t e.1 e.2) t

private theorem sum_kerase (k : K) (l : List (Sigma fun _ : K => ℕ)) :
    ((l.kerase k).map fun e => e.2).sum + (l.dlookup k).getD 0 = (l.map fun e => e.2).sum := by
  induction l with
  | nil => rfl
  | cons e l ih =>
      by_cases h : k = e.1
      · subst h
        rw [List.kerase_cons_eq rfl, List.dlookup_cons_eq, List.map_cons, List.sum_cons,
          Option.getD_some, Nat.add_comm]
      · rw [List.kerase_cons_ne h, List.dlookup_cons_ne l e h, List.map_cons, List.map_cons,
          List.sum_cons, List.sum_cons, ← ih, Nat.add_assoc]

theorem total_erase (t : Tally K) (k : K) : total (t.erase k) + t.get k = t.total :=
  sum_kerase k t.entries

theorem total_insert (t : Tally K) (k : K) (n : ℕ) :
    total (t.insert k n) + t.get k = t.total + n := by
  rw [← total_erase t k, total, AList.entries_insert, List.map_cons, List.sum_cons]
  change n + total (t.erase k) + t.get k = total (t.erase k) + t.get k + n
  ring

omit [DecidableEq K] in
@[simp] theorem total_empty : total (∅ : Tally K) = 0 := rfl

@[simp] theorem get_empty (k : K) : get (∅ : Tally K) k = 0 := rfl

theorem get_insert (t : Tally K) (k k' : K) (n : ℕ) :
    get (t.insert k n) k' = if k' = k then n else t.get k' := by
  split
  · rename_i h
    rw [h, get, AList.lookup_insert, Option.getD_some]
  · rename_i h
    rw [get, AList.lookup_insert_ne h, get]

theorem get_of_lookup {t : Tally K} {k : K} {n : ℕ} (h : t.lookup k = some n) : t.get k = n := by
  rw [get, h, Option.getD_some]

theorem get_of_lookup_none {t : Tally K} {k : K} (h : t.lookup k = none) : t.get k = 0 := by
  rw [get, h, Option.getD_none]

theorem total_add (t : Tally K) (k : K) (n : ℕ) : total (add t k n) = t.total + n := by
  have h := total_insert t k (t.get k + n)
  rw [add]
  omega

theorem get_add (t : Tally K) (k k' : K) (n : ℕ) :
    get (add t k n) k' = t.get k' + if k' = k then n else 0 := by
  rw [add, get_insert]
  split
  · rename_i h
    rw [h]
  · rw [Nat.add_zero]

theorem keys_add (t : Tally K) (k : K) (n : ℕ) : (add t k n).keys = k :: t.keys.erase k :=
  AList.keys_insert t

theorem mem_keys_of_lookup {t : Tally K} {k : K} {n : ℕ} (h : t.lookup k = some n) :
    k ∈ t.keys := by
  rw [← AList.mem_keys, ← AList.lookup_isSome, h]
  rfl

theorem length_keys_erase {t : Tally K} {k : K} {n : ℕ} (h : t.lookup k = some n) :
    (t.erase k).keys.length + 1 = t.keys.length := by
  have hmem := mem_keys_of_lookup h
  have hpos := List.length_pos_of_mem hmem
  rw [AList.keys_erase, List.length_erase_of_mem hmem]
  omega

theorem length_keys_insert {t : Tally K} {k : K} {n m : ℕ} (h : t.lookup k = some n) :
    (t.insert k m).keys.length = t.keys.length := by
  rw [AList.keys_insert, List.length_cons, ← AList.keys_erase]
  exact length_keys_erase h

theorem keys_insert_new {t : Tally K} {k : K} {m : ℕ} (h : t.lookup k = none) :
    (t.insert k m).keys = k :: t.keys := by
  rw [AList.lookup_eq_none, AList.mem_keys] at h
  rw [AList.keys_insert, List.erase_of_not_mem h]

theorem total_merge (t u : Tally K) : total (merge t u) = t.total + u.total := by
  rw [merge, total, total, total]
  have h : ∀ (l : List (Sigma fun _ : K => ℕ)) (t : Tally K),
      total (l.foldl (fun t e => add t e.1 e.2) t) = total t + (l.map fun e => e.2).sum := by
    intro l
    induction l with
    | nil =>
        intro t
        rw [List.foldl_nil, List.map_nil, List.sum_nil, Nat.add_zero]
    | cons e l ih =>
        intro t
        rw [List.foldl_cons, ih, total_add, List.map_cons, List.sum_cons, Nat.add_assoc]
  exact h u.entries t

theorem get_merge (t u : Tally K) (k : K) : get (merge t u) k = t.get k + u.get k := by
  have h : ∀ (l : List (Sigma fun _ : K => ℕ)), l.NodupKeys → ∀ t : Tally K,
      get (l.foldl (fun t e => add t e.1 e.2) t) k = t.get k + (l.dlookup k).getD 0 := by
    intro l
    induction l with
    | nil =>
        intro _ t
        rfl
    | cons e l ih =>
        intro hl t
        obtain ⟨hnot, hrest⟩ := List.nodupKeys_cons.mp hl
        rw [List.foldl_cons, ih hrest, get_add]
        by_cases hk : k = e.1
        · subst hk
          rw [if_pos rfl, List.dlookup_cons_eq, List.dlookup_eq_none.mpr hnot]
          rfl
        · rw [if_neg hk, List.dlookup_cons_ne l e hk, Nat.add_zero]
  exact h u.entries u.nodupKeys t

theorem length_keys_merge_le (t u : Tally K) :
    (merge t u).keys.length ≤ t.keys.length + u.keys.length := by
  have h : ∀ (l : List (Sigma fun _ : K => ℕ)) (t : Tally K),
      (l.foldl (fun t e => add t e.1 e.2) t).keys.length ≤ t.keys.length + l.length := by
    intro l
    induction l with
    | nil =>
        intro t
        exact Nat.le_refl _
    | cons e l ih =>
        intro t
        have hadd : (add t e.1 e.2).keys.length ≤ t.keys.length + 1 := by
          rw [keys_add, List.length_cons]
          exact Nat.add_le_add_right (List.length_erase_le) 1
        rw [List.foldl_cons, List.length_cons]
        have := ih (add t e.1 e.2)
        omega
  have hlen : u.entries.length = u.keys.length := (List.length_map ..).symm
  rw [← hlen]
  exact h u.entries t

theorem mem_keys_merge (t u : Tally K) (k : K) :
    k ∈ (merge t u).keys ↔ k ∈ t.keys ∨ k ∈ u.keys := by
  have h : ∀ (l : List (Sigma fun _ : K => ℕ)) (t : Tally K),
      k ∈ (l.foldl (fun t e => add t e.1 e.2) t).keys ↔ k ∈ t.keys ∨ k ∈ l.keys := by
    intro l
    induction l with
    | nil =>
        intro t
        simp
    | cons e l ih =>
        intro t
        rw [List.foldl_cons, ih, ← AList.mem_keys, add, AList.mem_insert, AList.mem_keys,
          List.keys_cons, List.mem_cons]
        tauto
  exact h u.entries t

end Tally

end Bulwark.Foundation
