import Bulwark.Filter.Build

/-!
# What an index lookup returns

`DomainIndex::get` of a built index is exactly the hits filed under the hash,
in the order the sort left them, as long as ranges fit into 32 bits.
-/

namespace Bulwark.Filter

open Bulwark.Foundation

namespace DomainIndex

/-- Every range lies inside the hits, and the hits are addressable. -/
structure Inv (index : DomainIndex) : Prop where
  length : index.hits.length < 2 ^ 32
  range : ∀ h start len, index.map.lookup h = some (start, len) →
    start + len ≤ index.hits.length

private theorem get_of_lookup {index : DomainIndex} (hinv : index.Inv)
    {h start len : Nat} (hl : index.map.lookup h = some (start, len)) :
    index.get h = some ((index.hits.drop start).take len) := by
  have hr := hinv.range h start len hl
  have hs : asU32 (start + len) = start + len :=
    asU32_of_lt (lt_of_le_of_lt hr hinv.length)
  rw [get, hl]
  simp only [hs]
  rw [if_pos ⟨Nat.le_add_right _ _, hr⟩, Nat.add_sub_cancel_left]

private theorem get_of_not_mem {index : DomainIndex} {h : Nat}
    (hl : index.map.lookup h = none) : index.get h = some [] := by
  rw [get, hl]

private def withRun (index : DomainIndex) (h : Nat) (run : List Nat) : DomainIndex where
  map := index.map.insert h (asU32 index.hits.length,
    asU32 (asU32 (index.hits ++ run).length + (2 ^ 32 - asU32 index.hits.length)))
  hits := index.hits ++ run

private theorem withRun_lookup {index : DomainIndex} {h : Nat} {run : List Nat}
    (hlen : index.hits.length + run.length < 2 ^ 32) (h' : Nat) :
    (index.withRun h run).map.lookup h' =
      if h' = h then some (index.hits.length, run.length)
      else index.map.lookup h' := by
  have h₁ : asU32 index.hits.length = index.hits.length := asU32_of_lt (by omega)
  have h₂ : asU32 (index.hits ++ run).length = index.hits.length + run.length := by
    rw [List.length_append]
    exact asU32_of_lt hlen
  have h₃ : asU32 (index.hits.length + run.length + (2 ^ 32 - index.hits.length)) =
      run.length := by
    rw [asU32]
    omega
  simp only [withRun, h₁, h₂, h₃]
  split
  · subst_vars
    rw [AList.lookup_insert]
  · rename_i hne
    rw [AList.lookup_insert_ne hne]

private theorem withRun_inv {index : DomainIndex} {h : Nat} {run : List Nat}
    (hinv : index.Inv) (hlen : index.hits.length + run.length < 2 ^ 32) :
    (index.withRun h run).Inv := by
  constructor
  · simpa [withRun] using hlen
  · intro h' start len hl
    rw [withRun_lookup hlen] at hl
    simp only [withRun, List.length_append]
    split at hl
    · simp only [Option.some.injEq, Prod.mk.injEq] at hl
      omega
    · have := hinv.range h' start len hl
      omega

private theorem withRun_get {index : DomainIndex} {h : Nat} {run : List Nat}
    (hinv : index.Inv) (hlen : index.hits.length + run.length < 2 ^ 32) (h' : Nat) :
    (index.withRun h run).get h' = if h' = h then some run else index.get h' := by
  have hinv' := withRun_inv (h := h) hinv hlen
  split
  · rename_i heq
    rw [get_of_lookup hinv' (by rw [withRun_lookup hlen, if_pos heq])]
    simp [withRun]
  · rename_i hne
    cases hl : index.map.lookup h' with
    | none =>
        rw [get_of_not_mem hl, get_of_not_mem]
        rw [withRun_lookup hlen, if_neg hne, hl]
    | some range =>
        obtain ⟨start, len⟩ := range
        rw [get_of_lookup hinv hl,
          get_of_lookup hinv' (by rw [withRun_lookup hlen, if_neg hne, hl])]
        have := hinv.range h' start len hl
        simp only [withRun]
        rw [List.drop_append_of_le_length (by omega),
          List.take_append_of_le_length (by simp; omega)]

private theorem filter_run {h id : Nat} {pairs : List (Nat × Nat)}
    (hsorted : ((h, id) :: pairs).Pairwise fun p q => p.1 ≤ q.1) :
    ((h, id) :: pairs).filter (·.1 == h) =
        (h, id) :: pairs.takeWhile (·.1 == h) ∧
      ∀ q ∈ pairs.dropWhile (·.1 == h), h < q.1 := by
  induction pairs with
  | nil => simp
  | cons p pairs ih =>
      simp only [List.pairwise_cons, List.mem_cons, forall_eq_or_imp] at hsorted
      obtain ⟨⟨hp, hrest⟩, hpp, hsorted⟩ := hsorted
      by_cases heq : p.1 = h
      · have := ih (by
          simp only [List.pairwise_cons]
          exact ⟨hrest, hsorted⟩)
        simpa [heq] using this
      · have hlt : h < p.1 := lt_of_le_of_ne hp (Ne.symm heq)
        have hnone : pairs.filter (·.1 == h) = [] := by
          rw [List.filter_eq_nil_iff]
          intro q hq
          have := hpp q hq
          simp only [beq_iff_eq]
          omega
        refine ⟨by simp [heq, hnone], ?_⟩
        intro q hq
        rw [List.dropWhile_cons_of_neg (by simpa using heq)] at hq
        rcases List.mem_cons.mp hq with rfl | hq
        · exact hlt
        · exact lt_of_lt_of_le hlt (hpp q hq)

private theorem group_get {fuel : Nat} {pairs : List (Nat × Nat)}
    {index : DomainIndex} (hfuel : pairs.length ≤ fuel)
    (hsorted : pairs.Pairwise fun p q => p.1 ≤ q.1) (hinv : index.Inv)
    (hlen : index.hits.length + pairs.length < 2 ^ 32)
    (hfresh : ∀ p ∈ pairs, index.get p.1 = some []) (h : Nat) :
    (group fuel pairs index).get h =
      if ∃ p ∈ pairs, p.1 = h then some ((pairs.filter (·.1 == h)).map Prod.snd)
      else index.get h := by
  induction fuel generalizing pairs index with
  | zero =>
      obtain rfl : pairs = [] := List.length_eq_zero_iff.mp (by omega)
      simp [group]
  | succ fuel ih =>
      cases pairs with
      | nil => simp [group]
      | cons p pairs =>
          obtain ⟨h₀, id⟩ := p
          obtain ⟨hrun, hgt⟩ := filter_run hsorted
          set run := (h₀, id) :: pairs.takeWhile (·.1 == h₀) with hrundef
          set rest := pairs.dropWhile (·.1 == h₀) with hrestdef
          have hsplit : (h₀, id) :: pairs = run ++ rest := by
            simp [hrundef, hrestdef]
          have hlens : run.length + rest.length = pairs.length + 1 := by
            rw [← List.length_append, ← hsplit, List.length_cons]
          have hrunlen : index.hits.length + (run.map Prod.snd).length < 2 ^ 32 := by
            rw [List.length_map]
            simp only [List.length_cons] at hlen
            omega
          have hrestfuel : rest.length ≤ fuel := by
            simp only [List.length_cons] at hfuel
            have : 1 ≤ run.length := by simp [hrundef]
            omega
          have hrestsorted : rest.Pairwise fun p q => p.1 ≤ q.1 := by
            rw [hsplit] at hsorted
            exact (List.pairwise_append.mp hsorted).2.1
          have hrestlen : (index.withRun h₀ (run.map Prod.snd)).hits.length +
              rest.length < 2 ^ 32 := by
            simp only [withRun, List.length_append, List.length_map]
            simp only [List.length_cons] at hlen
            omega
          have hrestfresh : ∀ q ∈ rest,
              (index.withRun h₀ (run.map Prod.snd)).get q.1 = some [] := by
            intro q hq
            rw [withRun_get hinv hrunlen, if_neg (Nat.ne_of_gt (hgt q hq))]
            exact hfresh q (hsplit ▸ List.mem_append_right _ hq)
          have hnext := ih hrestfuel hrestsorted (withRun_inv hinv hrunlen)
            hrestlen hrestfresh
          change (group fuel rest (index.withRun h₀ (run.map Prod.snd))).get h = _
          rw [hnext, withRun_get hinv hrunlen]
          by_cases heq : h = h₀
          · subst heq
            have hno : ¬ ∃ p ∈ rest, p.1 = h := by
              rintro ⟨q, hq, rfl⟩
              exact lt_irrefl _ (hgt q hq)
            rw [if_neg hno, if_pos rfl, if_pos ⟨(h, id), List.mem_cons_self, rfl⟩, hrun]
          · rw [if_neg heq]
            have hfilter : ((h₀, id) :: pairs).filter (·.1 == h) =
                rest.filter (·.1 == h) := by
              rw [hsplit, List.filter_append]
              have hnil : run.filter (·.1 == h) = [] := by
                rw [List.filter_eq_nil_iff]
                intro q hq
                have hq₀ : q.1 = h₀ := by
                  rw [← hrun] at hq
                  simpa using (List.mem_filter.mp hq).2
                simp [hq₀, Ne.symm heq]
              rw [hnil, List.nil_append]
            have hex : (∃ p ∈ (h₀, id) :: pairs, p.1 = h) ↔ ∃ p ∈ rest, p.1 = h := by
              have hmem : ∀ l : List (Nat × Nat),
                  (∃ p ∈ l, p.1 = h) ↔ l.filter (·.1 == h) ≠ [] := by
                intro l
                rw [ne_eq, List.filter_eq_nil_iff]
                push Not
                simp
              rw [hmem, hmem, hfilter]
            rw [hfilter]
            simp only [hex]

theorem get_build (env : BuildEnv) {pairs : List (Nat × Nat)}
    (hlen : pairs.length < 2 ^ 32) (h : Nat) :
    (build env pairs).get h =
      some (((env.sortByHash pairs).filter (·.1 == h)).map Prod.snd) := by
  have hperm := env.sort_perm pairs
  have hempty : ∀ h, ({} : DomainIndex).get h = some [] := fun h => rfl
  have hinv : ({} : DomainIndex).Inv := by
    constructor
    · simp
    · intro h start len hl
      exact absurd hl (by simp)
  rw [build, group_get hperm.length_eq.le (env.sort_sorted pairs) hinv
    (by simpa [hperm.length_eq] using hlen) (fun p _ => hempty p.1)]
  split
  · rfl
  · rename_i hno
    rw [hempty]
    have : (env.sortByHash pairs).filter (·.1 == h) = [] := by
      rw [List.filter_eq_nil_iff]
      intro q hq heq
      exact hno ⟨q, hq, by simpa using heq⟩
    rw [this, List.map_nil]

theorem isEmpty_build (env : BuildEnv) {pairs : List (Nat × Nat)}
    (hlen : pairs.length < 2 ^ 32)
    (hempty : (build env pairs).isEmpty = true) (h : Nat) :
    (build env pairs).get h = some [] := by
  have hnil : (build env pairs).hits = [] := by
    simpa [isEmpty] using hempty
  have hget := get_build env hlen h
  rw [hget]
  rw [get, hnil] at hget
  cases hl : (build env pairs).map.lookup h with
  | none =>
      rw [hl] at hget
      simpa using hget.symm
  | some range =>
      rw [hl] at hget
      simp only [List.drop_nil, List.take_nil] at hget
      split at hget
      · simpa using hget.symm
      · simp at hget

end DomainIndex

end Bulwark.Filter
