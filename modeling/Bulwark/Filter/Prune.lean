import Bulwark.Filter.Front

/-!
# Pruning and verdicts

`prune_redundant` drops plain blocks that an ancestor's plain block covers.  A
dropped rule also competed with rewrites of its own priority, and where entries
leave an index the sort may leave the others in a new order.  So the same build
can give another kind of verdict.  It does so, for some sort, exactly when the
index of a rule that can win loses entries, and that rule and one that can win
among those that stay differ in their action.
-/

namespace Bulwark.Filter

open Bulwark.Foundation

/-! ## Positions after a filter -/

section

variable (p : BuildRule → Bool)

/-- The position in `rules.filter p` of the rule at position `i`. -/
def newIndex (rules : List BuildRule) (i : Nat) : Nat :=
  ((rules.take i).filter p).length

variable {p} {rules : List BuildRule}

theorem getElem?_newIndex {i : Nat} {br : BuildRule} (hbr : rules[i]? = some br)
    (hp : p br = true) : (rules.filter p)[newIndex p rules i]? = some br := by
  induction rules generalizing i with
  | nil => simp at hbr
  | cons r rules ih =>
      cases i with
      | zero =>
          obtain rfl : r = br := by simpa using hbr
          simp [newIndex, hp]
      | succ i =>
          have hnext := ih (by simpa using hbr)
          by_cases hr : p r = true
          · simpa [newIndex, hr] using hnext
          · simpa [newIndex, hr] using hnext

theorem exists_newIndex {j : Nat} {br : BuildRule}
    (hbr : (rules.filter p)[j]? = some br) :
    ∃ i, rules[i]? = some br ∧ (rules.filter p).take j = (rules.take i).filter p := by
  induction rules generalizing j with
  | nil => simp at hbr
  | cons r rules ih =>
      by_cases hr : p r = true
      · rw [List.filter_cons_of_pos hr] at hbr ⊢
        cases j with
        | zero => exact ⟨0, by simpa using hbr, by simp⟩
        | succ j =>
            obtain ⟨i, hi, htake⟩ := ih (by simpa using hbr)
            exact ⟨i + 1, by simpa using hi, by simp [hr, htake]⟩
      · rw [List.filter_cons_of_neg hr] at hbr ⊢
        obtain ⟨i, hi, htake⟩ := ih hbr
        exact ⟨i + 1, by simpa using hi, by simp [hr, htake]⟩

private theorem utf8Len_filter_le (f : BuildRule → Text) (l : List BuildRule) :
    utf8Len ((l.filter p).flatMap f) ≤ utf8Len (l.flatMap f) := by
  induction l with
  | nil => simp
  | cons r l ih =>
      by_cases hr : p r = true
      · simp only [List.filter_cons_of_pos hr, List.flatMap_cons, utf8Len_append]
        omega
      · simp only [List.filter_cons_of_neg hr, List.flatMap_cons, utf8Len_append]
        omega

theorem Addressable.filter (h : Addressable rules) : Addressable (rules.filter p) where
  count := lt_of_le_of_lt (List.length_filter_le p rules) h.count
  raw j hj := by
    have hbr : (rules.filter p)[j]? = some ((rules.filter p).get ⟨j, hj⟩) :=
      List.getElem?_eq_getElem hj
    obtain ⟨i, hi, htake⟩ := exists_newIndex hbr
    rw [htake]
    exact lt_of_le_of_lt (utf8Len_filter_le _ _)
      (h.raw i (List.getElem?_eq_some_iff.mp hi).1)
  domains j br hbr hs := by
    obtain ⟨i, hi, htake⟩ := exists_newIndex hbr
    rw [htake]
    exact lt_of_le_of_lt (utf8Len_filter_le _ _) (h.domains i br hi hs)

theorem WellStored.filter (h : WellStored rules) : WellStored (rules.filter p) where
  addressable := h.addressable.filter
  names br hbr := h.names br (List.mem_of_mem_filter hbr)
  raw br hbr := h.raw br (List.mem_of_mem_filter hbr)
  rewrite br hbr := h.rewrite br (List.mem_of_mem_filter hbr)

theorem newIndex_le (rules : List BuildRule) (i : Nat) : newIndex p rules i ≤ i :=
  le_trans (List.length_filter_le _ _) (List.length_take_le i rules)

private theorem zipIdx_filter :
    (rules.filter p).zipIdx =
      (rules.zipIdx.filter fun q => p q.1).map fun q => (q.1, newIndex p rules q.2) := by
  induction rules using List.reverseRecOn with
  | nil => rfl
  | append_singleton rules br ih =>
      have hold : (rules.zipIdx.filter fun q => p q.1).map
          (fun q => (q.1, newIndex p (rules ++ [br]) q.2)) = (rules.filter p).zipIdx := by
        rw [ih]
        apply List.map_congr_left
        rintro ⟨r, i⟩ hmem
        have hi := (List.getElem?_eq_some_iff.mp (List.mem_zipIdx_iff_getElem?.mp
          (List.mem_of_mem_filter hmem))).1
        simp only [newIndex, List.take_append_of_le_length hi.le]
      rw [List.filter_append, List.zipIdx_append, List.zipIdx_append, List.filter_append,
        List.map_append, hold]
      congr 1
      by_cases hp : p br = true
      · simp [hp, newIndex]
      · simp [hp]

theorem indexed_filter {α : Type} {entry : BuildRule → Nat → Option α} {shift : α → α}
    (hkeep : ∀ br ∈ rules, ∀ i, (entry br i).isSome = true → p br = true)
    (hshift : ∀ i br, rules[i]? = some br →
      entry br (newIndex p rules i) = (entry br i).map shift) :
    indexed entry (rules.filter p) = (indexed entry rules).map shift := by
  rw [indexed, indexed, zipIdx_filter, List.filterMap_map, List.filterMap_filter,
    List.map_filterMap]
  apply List.filterMap_congr
  rintro ⟨br, i⟩ hmem
  have hbr := List.mem_zipIdx_iff_getElem?.mp hmem
  rw [← hshift i br hbr]
  by_cases hp : p br = true
  · simp [hp]
  · have hnone : entry br i = none := by
      rw [← Option.not_isSome_iff_eq_none]
      exact fun h => hp (hkeep br (List.mem_of_getElem? hbr) i h)
    simp [hp, hshift i br hbr, hnone]

end

/-! ## What pruning keeps -/

def subsumers (rules : List BuildRule) : List Text := rules.filterMap subsumer

def keeps (rules : List BuildRule) (br : BuildRule) : Bool :=
  !isRedundant br (subsumers rules)

theorem pruneRedundant_eq_filter (rules : List BuildRule) :
    pruneRedundant rules = rules.filter (keeps rules) := by
  rw [pruneRedundant]
  split
  · rename_i hnil
    symm
    rw [List.filter_eq_self]
    intro br _
    have hsub : subsumers rules = [] := hnil
    rw [keeps, hsub, isRedundant]
    split
    · rfl
    · cases br.rule.pattern <;> simp
  · rfl

theorem mem_subsumers {rules : List BuildRule} {d : Text} :
    d ∈ subsumers rules ↔
      ∃ br ∈ rules, isPlainBlock br = true ∧ br.rule.pattern = .subdomain d := by
  simp only [subsumers, List.mem_filterMap]
  constructor
  · rintro ⟨br, hmem, hsub⟩
    rw [subsumer] at hsub
    split at hsub
    · rename_i hplain
      split at hsub
      · rename_i d' hd
        cases hsub
        exact ⟨br, hmem, hplain, hd⟩
      · cases hsub
    · cases hsub
  · rintro ⟨br, hmem, hplain, hd⟩
    exact ⟨br, hmem, by rw [subsumer, if_pos hplain, hd]⟩

private theorem parents_trans {a b c : Text} (hab : a ∈ parents b) (hbc : b ∈ parents c) :
    a ∈ parents c := by
  rw [mem_parents] at hab hbc ⊢
  obtain ⟨front, rfl⟩ := hab
  obtain ⟨front', rfl⟩ := hbc
  exact ⟨front' ++ '.' :: front, by simp⟩

private theorem length_lt_of_parents {a b : Text} (h : a ∈ parents b) :
    a.length < b.length := by
  obtain ⟨front, rfl⟩ := mem_parents.mp h
  simp only [List.length_append, List.length_cons]
  omega

private theorem exists_root (rules : List BuildRule) {d : Text}
    (hd : d ∈ subsumers rules) :
    ∃ t ∈ subsumers rules, (t = d ∨ t ∈ parents d) ∧
      ∀ u ∈ parents t, u ∉ subsumers rules := by
  induction hn : d.length using Nat.strong_induction_on generalizing d with
  | _ n ih =>
      by_cases hcovered : ∃ u ∈ parents d, u ∈ subsumers rules
      · obtain ⟨u, hu, hmem⟩ := hcovered
        obtain ⟨t, ht, hrel, hroot⟩ :=
          ih u.length (hn ▸ length_lt_of_parents hu) hmem rfl
        refine ⟨t, ht, .inr ?_, hroot⟩
        rcases hrel with rfl | hrel
        · exact hu
        · exact parents_trans hrel hu
      · push Not at hcovered
        exact ⟨d, hd, .inl rfl, hcovered⟩

/-- A dropped rule that acts is covered by a plain block that is kept and acts. -/
theorem exists_cover {rx : RegexEngine} {rules : List BuildRule} {br : BuildRule}
    {name rtype : Text} {client : ClientInfo} (hkeep : keeps rules br = false)
    (hacts : Acts rx br name rtype client) :
    ∃ br' ∈ pruneRedundant rules, isPlainBlock br' = true ∧ isSubdomain br' = true ∧
      Acts rx br' name rtype client := by
  have hredundant : isRedundant br (subsumers rules) = true := by
    simpa [keeps] using hkeep
  rw [isRedundant] at hredundant
  split at hredundant
  · cases hredundant
  -- The rule's own name and a subsumer at or above it.
  have hname : ∃ d, d ∈ subsumers rules ∧ d ∈ name :: parents name := by
    have hmatch := hacts.1
    split at hredundant
    · rename_i d hd
      rw [hd, PatternMatches, ← isSubdomainOf_iff, isSubdomainOf_iff_mem] at hmatch
      simp only [List.any_eq_true, decide_eq_true_eq] at hredundant
      obtain ⟨u, hu, hmem⟩ := hredundant
      refine ⟨u, hmem, List.mem_cons_of_mem _ ?_⟩
      rcases List.mem_cons.mp hmatch with rfl | hmatch
      · exact hu
      · exact parents_trans hu hmatch
    · rename_i d hd
      rw [hd, PatternMatches] at hmatch
      subst hmatch
      simp only [Bool.or_eq_true, List.any_eq_true, decide_eq_true_eq] at hredundant
      rcases hredundant with hmem | ⟨u, hu, hmem⟩
      · exact ⟨name, hmem, List.mem_cons_self⟩
      · exact ⟨u, hmem, List.mem_cons_of_mem _ hu⟩
    · cases hredundant
  obtain ⟨d, hd, hdname⟩ := hname
  obtain ⟨t, ht, hrel, hroot⟩ := exists_root rules hd
  obtain ⟨br', hmem, hplain, hpattern⟩ := mem_subsumers.mp ht
  have htname : t ∈ name :: parents name := by
    rcases hrel with rfl | hrel
    · exact hdname
    · rcases List.mem_cons.mp hdname with rfl | hdname
      · exact List.mem_cons_of_mem _ hrel
      · exact List.mem_cons_of_mem _ (parents_trans hrel hdname)
  refine ⟨br', ?_, hplain, isSubdomain_iff.mpr ⟨t, hpattern⟩, ?_, ?_⟩
  · rw [pruneRedundant_eq_filter, List.mem_filter]
    refine ⟨hmem, ?_⟩
    rw [keeps, isRedundant, hplain, hpattern]
    simpa using hroot
  · rw [hpattern, PatternMatches, ← isSubdomainOf_iff, isSubdomainOf_iff_mem]
    exact htname
  · have hmods : br'.rule.mods = none := by
      simp only [isPlainBlock, Bool.and_eq_true, Option.isNone_iff_eq_none] at hplain
      exact hplain.2
    rw [hmods]
    rfl

theorem isPlainBlock_of_dropped {rules : List BuildRule} {br : BuildRule}
    (hkeep : keeps rules br = false) : isPlainBlock br = true := by
  by_contra hplain
  rw [keeps, isRedundant] at hkeep
  simp [hplain] at hkeep

theorem action_of_dropped {rules : List BuildRule} {br : BuildRule}
    (hkeep : keeps rules br = false) : br.rule.action = .block := by
  have hplain := isPlainBlock_of_dropped hkeep
  simp only [isPlainBlock, Bool.and_eq_true, decide_eq_true_eq] at hplain
  exact hplain.1

theorem isSubdomain_of_dropped {rules : List BuildRule} {br : BuildRule}
    (hkeep : keeps rules br = false) (hex : isExact br = false) : isSubdomain br = true := by
  rw [keeps, isRedundant, isPlainBlock_of_dropped hkeep] at hkeep
  rw [isExact] at hex
  rw [isSubdomain]
  cases hp : br.rule.pattern <;> simp_all

theorem priority_of_isPlainBlock {br : BuildRule} (h : isPlainBlock br = true) :
    br.rule.priority = 1 := by
  simp only [isPlainBlock, Bool.and_eq_true, decide_eq_true_eq,
    Option.isNone_iff_eq_none] at h
  simp [Rule.priority, priorityOf, h.1, h.2]

theorem WellStored.prune {rules : List BuildRule} (h : WellStored rules) :
    WellStored (pruneRedundant rules) := by
  rw [pruneRedundant_eq_filter]
  exact h.filter

section

variable {rx : RegexEngine} {rules : List BuildRule} {name rtype : Text}
  {client : ClientInfo}

theorem top_of_top_prune {br : BuildRule}
    (h : Top rx (pruneRedundant rules) name rtype client br) :
    Top rx rules name rtype client br := by
  refine ⟨(pruneRedundant_sublist rules).subset h.1, h.2.1, ?_⟩
  intro br' hmem' hacts'
  cases hkeep : keeps rules br' with
  | true =>
      apply h.2.2 br' _ hacts'
      rw [pruneRedundant_eq_filter]
      exact List.mem_filter.mpr ⟨hmem', hkeep⟩
  | false =>
      rw [priority_of_isPlainBlock (isPlainBlock_of_dropped hkeep)]
      exact priorityOf_pos _ _

theorem top_prune_iff {br : BuildRule} :
    Top rx (pruneRedundant rules) name rtype client br ↔
      Top rx rules name rtype client br ∧ keeps rules br = true := by
  constructor
  · intro h
    have hmem := h.1
    rw [pruneRedundant_eq_filter, List.mem_filter] at hmem
    exact ⟨top_of_top_prune h, hmem.2⟩
  · rintro ⟨⟨hmem, hacts, hle⟩, hkeep⟩
    refine ⟨?_, hacts, fun br' hmem' => hle br' ((pruneRedundant_sublist rules).subset hmem')⟩
    rw [pruneRedundant_eq_filter]
    exact List.mem_filter.mpr ⟨hmem, hkeep⟩

/-- What leads after pruning is what leads among the rules that stay. -/
theorem leads_prune_iff {dhash : Text → Nat} {br : BuildRule} :
    Leads dhash rx (pruneRedundant rules) name rtype client anyRule br ↔
      Leads dhash rx rules name rtype client (keeps rules) br := by
  simp only [Leads, top_prune_iff, anyRule, true_and, forall_const, and_imp, and_assoc]

theorem first_leads_prune_iff {dhash : Text → Nat} {br : BuildRule} :
    First (Leads dhash rx (pruneRedundant rules) name rtype client anyRule)
        (pruneRedundant rules) br ↔
      First (Leads dhash rx rules name rtype client (keeps rules)) rules br := by
  have hsame : (fun br => keeps rules br = true ∧
      Leads dhash rx (pruneRedundant rules) name rtype client anyRule br) =
        Leads dhash rx rules name rtype client (keeps rules) := by
    funext br
    rw [leads_prune_iff]
    exact propext ⟨And.right, fun hlead => ⟨hlead.2.1, hlead⟩⟩
  conv_lhs => rw [pruneRedundant_eq_filter, first_filter]
  rw [← pruneRedundant_eq_filter, hsame]

/-- The index that decides changes only when all exact rules that could win are dropped. -/
theorem dropped_of_leads {dhash : Text → Nat} {br₁ br₂ : BuildRule}
    (h₁ : Leads dhash rx rules name rtype client anyRule br₁)
    (h₂ : Leads dhash rx rules name rtype client (keeps rules) br₂)
    (hindex : isExact br₂ ≠ isExact br₁) :
    isExact br₁ = true ∧ ∀ br, Top rx rules name rtype client br → isExact br = true →
      keeps rules br = false := by
  obtain ⟨htop₂, -, hex₂ | ⟨hsub₂, hnone₂⟩⟩ := h₂
  · exact absurd (hex₂.trans (isExact_of_leads h₁ htop₂ hex₂).symm) hindex
  · rw [isExact_of_isSubdomain hsub₂] at hindex
    refine ⟨by simpa using hindex.symm, fun br htop hex => ?_⟩
    by_contra hkeep
    rw [(hnone₂ br htop (by simpa using hkeep)).1] at hex
    cases hex

theorem exists_front_prune :
    (∃ br, Front rx (pruneRedundant rules) name rtype client br) ↔
      ∃ br, Front rx rules name rtype client br := by
  rw [exists_front_iff, exists_front_iff]
  constructor
  · rintro ⟨br, htop, hkind⟩
    exact ⟨br, (top_prune_iff.mp htop).1, hkind⟩
  · rintro ⟨br, htop, hkind⟩
    cases hkeep : keeps rules br with
    | true => exact ⟨br, top_prune_iff.mpr ⟨htop, hkeep⟩, hkind⟩
    | false =>
        obtain ⟨hmem, hacts, hle⟩ := htop
        have hsubset := (pruneRedundant_sublist rules).subset
        obtain ⟨br', hmem', hplain', hsub', hacts'⟩ := exists_cover hkeep hacts
        refine ⟨br', ⟨hmem', hacts', ?_⟩, .inr hsub'⟩
        intro br'' hmem'' hacts''
        have hbound := hle br'' (hsubset hmem'') hacts''
        rw [priority_of_isPlainBlock (isPlainBlock_of_dropped hkeep)] at hbound
        rw [priority_of_isPlainBlock hplain']
        exact hbound

/-! ## What is not pruned stays in its order -/

theorem keeps_of_scan {br : BuildRule} (h : (regexSource br).isSome = true) :
    keeps rules br = true := by
  rw [keeps, isRedundant]
  split
  · rfl
  · rw [regexSource] at h
    cases hp : br.rule.pattern <;> simp_all

private theorem sourceAt_newIndex {i : Nat} {br : BuildRule} (hbr : rules[i]? = some br)
    (hs : (regexSource br).isSome = true) :
    sourceAt (rules.filter (keeps rules)) (newIndex (keeps rules) rules i) =
      sourceAt rules i := by
  rw [sourceAt, sourceAt, getElem?_newIndex hbr (keeps_of_scan hs), hbr]

private theorem scanHits_prune (hcount : rules.length < 2 ^ 32) (tokenIndex override : Bool)
    (tokens : List UInt32) :
    scanHits rx (sourceAt (rules.filter (keeps rules))) tokenIndex
        (indexed (scanEntry override) (rules.filter (keeps rules))) name tokens =
      (scanHits rx (sourceAt rules) tokenIndex
        (indexed (scanEntry override) rules) name tokens).map
          (newIndex (keeps rules) rules) := by
  have hentries : indexed (scanEntry override) (rules.filter (keeps rules)) =
      renumber (newIndex (keeps rules) rules) (indexed (scanEntry override) rules) := by
    refine indexed_filter (fun br _ i hentry => ?_) fun i br hbr => ?_
    · rw [scanEntry] at hentry
      split at hentry
      · rename_i hscan
        exact keeps_of_scan hscan.1
      · cases hentry
    · have hi := (List.getElem?_eq_some_iff.mp hbr).1
      have hle := @newIndex_le (keeps rules) rules i
      rw [scanEntry, scanEntry, asU32_of_lt (by omega), asU32_of_lt (by omega)]
      split <;> rfl
  rw [hentries]
  apply scanHits_map
  intro i hi
  obtain ⟨⟨_, toks⟩, hentry, rfl⟩ := List.mem_map.mp hi
  obtain ⟨br, hbr, hs, -⟩ := (mem_scanEntries hcount).mp hentry
  exact sourceAt_newIndex hbr hs

/-- The hit is not pruned, and passes as before. -/
def Stays (rules : List BuildRule) (name rtype : Text) (client : ClientInfo) (i : Nat) : Prop :=
  ∃ br, rules[i]? = some br ∧ keeps rules br = true ∧
    passes (rules.filter (keeps rules)) name rtype client (newIndex (keeps rules) rules i) =
      passes rules name rtype client i

private theorem stays_of_scan {i : Nat} {br : BuildRule} {source : Text}
    (hbr : rules[i]? = some br) (hs : regexSource br = some source) :
    Stays rules name rtype client i := by
  have hkeep : keeps rules br = true := keeps_of_scan (by simp [hs])
  refine ⟨br, hbr, hkeep, ?_⟩
  rw [passes_of_scan hbr hs, passes_of_scan (getElem?_newIndex hbr hkeep) hs]

private theorem stays_of_domain (rx : RegexEngine) (h : WellStored rules) {i : Nat}
    {br : BuildRule} (hbr : rules[i]? = some br) (hs : regexSource br = none)
    (hkeep : keeps rules br = true) : Stays rules name rtype client i := by
  refine ⟨br, hbr, hkeep, ?_⟩
  have hfilter : WellStored (rules.filter (keeps rules)) := h.filter
  have hbefore : passes rules name rtype client i = true ↔ Acts rx br name rtype client :=
    passes_iff_acts h.searchable.names hbr hs
  have hafter : passes (rules.filter (keeps rules)) name rtype client
      (newIndex (keeps rules) rules i) = true ↔ Acts rx br name rtype client :=
    passes_iff_acts hfilter.searchable.names (getElem?_newIndex hbr hkeep) hs
  rw [Bool.eq_iff_iff, hbefore, hafter]

private theorem firstMax_prune {ids : List Nat}
    (hids : ∀ i ∈ ids, Stays rules name rtype client i) :
    firstMax (priorityAt (rules.filter (keeps rules)))
        ((ids.map (newIndex (keeps rules) rules)).filter
          (passes (rules.filter (keeps rules)) name rtype client)) =
      (firstMax (priorityAt rules) (ids.filter (passes rules name rtype client))).map
        (newIndex (keeps rules) rules) := by
  have hpass : (ids.map (newIndex (keeps rules) rules)).filter
      (passes (rules.filter (keeps rules)) name rtype client) =
      (ids.filter (passes rules name rtype client)).map (newIndex (keeps rules) rules) := by
    rw [List.filter_map]
    congr 1
    apply List.filter_congr
    intro i hi
    obtain ⟨br, hbr, hkeep, hsame⟩ := hids i hi
    exact hsame
  rw [hpass, firstMax_map]
  congr 1
  apply firstMax_congr
  intro i hi
  obtain ⟨br, hbr, hkeep, -⟩ := hids i (List.mem_filter.mp hi).1
  rw [Function.comp_apply, priorityAt_eq hbr, priorityAt_eq (getElem?_newIndex hbr hkeep)]

theorem scanWinner_prune (hcount : rules.length < 2 ^ 32) :
    scanWinner rx (pruneRedundant rules) name rtype client =
      (scanWinner rx rules name rtype client).map (newIndex (keeps rules) rules) := by
  have hover : ∀ i ∈ overrideHits rx rules name, Stays rules name rtype client i := by
    intro i hi
    obtain ⟨br, source, hbr, hs, -⟩ := (mem_overrideHits hcount).mp hi
    exact stays_of_scan hbr hs
  have hblock : ∀ i ∈ blockHits rx rules name, Stays rules name rtype client i := by
    intro i hi
    obtain ⟨br, source, hbr, hs, -⟩ := of_mem_blockHits hcount hi
    exact stays_of_scan hbr hs
  rw [pruneRedundant_eq_filter, scanWinner, scanWinner, overrideHits, blockHits,
    scanHits_prune hcount, scanHits_prune hcount, ← overrideHits, ← blockHits,
    firstMax_prune hover, firstMax_prune hblock]
  cases firstMax (priorityAt rules)
      ((overrideHits rx rules name).filter (passes rules name rtype client)) <;> rfl

theorem scanWinner_lt (hcount : rules.length < 2 ^ 32) {id : Nat}
    (h : scanWinner rx rules name rtype client = some id) :
    ∃ br, rules[id]? = some br ∧ (regexSource br).isSome = true := by
  rw [scanWinner] at h
  split at h
  · rename_i id₁ hmax
    cases h
    obtain ⟨br, source, hbr, hs, -⟩ := (mem_overrideHits hcount).mp
      (List.mem_filter.mp (firstMax_spec hmax).1).1
    exact ⟨br, hbr, by simp [hs]⟩
  · obtain ⟨br, source, hbr, hs, -⟩ := of_mem_blockHits hcount
      (List.mem_filter.mp (firstMax_spec h).1).1
    exact ⟨br, hbr, by simp [hs]⟩

/-- The sort compares hashes: what else the entries hold makes no difference. -/
def BuildEnv.ByHash (env : BuildEnv) : Prop :=
  ∀ (f : Nat → Nat) (pairs : List (Nat × Nat)),
    env.sortByHash (pairs.map (Prod.map id f)) = (env.sortByHash pairs).map (Prod.map id f)

/-- Pruning takes something out of the index that the rule is in. -/
def Disturbed (rules : List BuildRule) (br : BuildRule) : Prop :=
  ∃ br' ∈ rules, keeps rules br' = false ∧ isExact br' = isExact br

variable {env : BuildEnv} {br : BuildRule}

private theorem hits_map (henv : env.ByHash) (f : Nat → Nat) (pairs : List (Nat × Nat))
    (hash : Nat) :
    ((env.sortByHash (pairs.map (Prod.map id f))).filter (·.1 == hash)).map Prod.snd =
      (((env.sortByHash pairs).filter (·.1 == hash)).map Prod.snd).map f := by
  rw [henv, List.filter_map, List.map_map, List.map_map]
  rfl

private theorem entriesOf_prune (hcount : rules.length < 2 ^ 32)
    (hkept : ∀ br' ∈ rules, isExact br' = isExact br → keeps rules br' = true) :
    entriesOf env br (rules.filter (keeps rules)) =
      (entriesOf env br rules).map (Prod.map id (newIndex (keeps rules) rules)) := by
  rw [entriesOf, entriesOf]
  split
  · rename_i hex
    refine indexed_filter (fun br' hmem i hentry => hkept br' hmem ?_) fun i br' hbr' => ?_
    · rw [exactPair] at hentry
      rw [hex, isExact]
      split at hentry <;> simp_all
    · have hi := (List.getElem?_eq_some_iff.mp hbr').1
      have hle := @newIndex_le (keeps rules) rules i
      rw [exactPair, exactPair, asU32_of_lt (by omega), asU32_of_lt (by omega)]
      split <;> rfl
  · rename_i hex
    refine indexed_filter (fun br' hmem i hentry => hkept br' hmem ?_) fun i br' hbr' => ?_
    · rw [subPair] at hentry
      rw [Bool.eq_false_iff.mpr hex, isExact]
      split at hentry <;> simp_all
    · have hi := (List.getElem?_eq_some_iff.mp hbr').1
      have hle := @newIndex_le (keeps rules) rules i
      rw [subPair, subPair, asU32_of_lt (by omega), asU32_of_lt (by omega)]
      split <;> rfl

private theorem bucket_prune (henv : env.ByHash) (hcount : rules.length < 2 ^ 32)
    (hkept : ∀ br' ∈ rules, isExact br' = isExact br → keeps rules br' = true) :
    bucket env br (rules.filter (keeps rules)) =
      (bucket env br rules).map (newIndex (keeps rules) rules) := by
  rw [bucket, entriesOf_prune hcount hkept, hits_map henv]
  rfl

theorem winner_prune_of_undisturbed (henv : env.ByHash) (h : WellStored rules)
    (hlead : Leads env.dhash rx rules name rtype client anyRule br)
    (hrest : ¬ Disturbed rules br) :
    winner env rx (pruneRedundant rules) name rtype client =
      (winner env rx rules name rtype client).map (newIndex (keeps rules) rules) := by
  have hcount := h.addressable.count
  have hkept : ∀ br' ∈ rules, isExact br' = isExact br → keeps rules br' = true := by
    intro br' hmem hkind
    by_contra hdropped
    exact hrest ⟨br', hmem, by simpa using hdropped, hkind⟩
  have hlead' : Leads env.dhash rx (pruneRedundant rules) name rtype client anyRule br := by
    refine leads_prune_iff.mpr ⟨hlead.1, hkept br hlead.1.1 rfl, ?_⟩
    exact hlead.2.2.imp_right fun ⟨hsub, hnearest⟩ =>
      ⟨hsub, fun br' htop' _ => hnearest br' htop' rfl⟩
  have hids : ∀ i ∈ bucket env br rules, Stays rules name rtype client i := by
    intro i hi
    obtain ⟨br', hbr', hindex, hdomain, -⟩ := of_mem_bucket hcount hi
    exact stays_of_domain rx h hbr' (regexSource_eq_none hdomain)
      (hkept br' (List.mem_of_getElem? hbr') hindex)
  rw [winner_eq_bucket h.prune.searchable hlead', winner_eq_bucket h.searchable hlead,
    pruneRedundant_eq_filter, bucket_prune henv hcount hkept]
  exact firstMax_prune hids

/-! ## What is pruned makes room for another order -/

theorem tieEnv_byHash (dhash : Text → Nat) (place : Nat → Nat) : (tieEnv dhash place).ByHash := by
  intro f pairs
  simp only [tieEnv]
  rw [List.map_insertionSort (fun p q : Nat × Nat => p.1 ≤ q.1) (fun p q => p.1 ≤ q.1)
    (Prod.map id f) _ (by simp)]
  rw [List.map_append, List.eraseIdx_map, List.length_map, List.getElem?_map,
    Option.toList_map]

theorem plainEnv_byHash (dhash : Text → Nat) : (plainEnv dhash).ByHash := by
  intro f pairs
  simp only [plainEnv]
  rw [List.map_insertionSort (fun p q : Nat × Nat => p.1 ≤ q.1) (fun p q => p.1 ≤ q.1)
    (Prod.map id f) _ (by simp)]

private theorem length_entriesOf (env : BuildEnv) (br : BuildRule) (rules : List BuildRule) :
    (entriesOf env br rules).length =
      (rules.filter fun r => if isExact br then isExact r else isSubdomain r).length := by
  induction rules using List.reverseRecOn with
  | nil => simp [entriesOf, indexed]
  | append_singleton rules r ih =>
      rw [List.filter_append, List.length_append, ← ih]
      simp only [entriesOf, List.filter_cons, List.filter_nil]
      split
      · rw [indexed_append, List.length_append, exactPair, isExact]
        cases r.rule.pattern <;> simp
      · rw [indexed_append, List.length_append, subPair, isSubdomain]
        cases r.rule.pattern <;> simp

private theorem length_entriesOf_lt (env : BuildEnv) (hrest : Disturbed rules br)
    {br' : BuildRule} (hsame : isExact br' = isExact br) :
    (entriesOf env br' (pruneRedundant rules)).length < (entriesOf env br rules).length := by
  obtain ⟨r, hmem, hdropped, hkind⟩ := hrest
  rw [length_entriesOf, length_entriesOf, pruneRedundant_eq_filter, hsame, List.filter_comm]
  refine List.length_filter_lt_length_iff_exists.mpr ⟨r, List.mem_filter.mpr ⟨hmem, ?_⟩, ?_⟩
  · rw [← hkind]
    cases hex : isExact r with
    | true => simp
    | false => simpa using isSubdomain_of_dropped hdropped hex
  · simp [hdropped]

end

/-! ## Kinds of verdicts -/

/-- Both block or neither does, and both rewrite or neither does. -/
def SameKind (v₁ v₂ : Verdict) : Prop :=
  v₁.isBlocked = v₂.isBlocked ∧ v₁.isRewrite = v₂.isRewrite

/-- One and the same build of all rules and of the pruned ones: the verdicts are of one kind. -/
def BuildEnv.KeepsKind (env : BuildEnv) (rx : RegexEngine) (rules : List BuildRule)
    (query rtype : Text) (client : ClientInfo) : Prop :=
  ∃ e₁ e₂ v₁ v₂, fromRules env rx rules = some e₁ ∧
    fromRules env rx (pruneRedundant rules) = some e₂ ∧
    e₁.check rx query rtype client = some v₁ ∧ e₂.check rx query rtype client = some v₂ ∧
    SameKind v₁ v₂

/-- This holds for any sort by the hash. -/
def PruneKeepsKind (dhash : Text → Nat) (rx : RegexEngine) (rules : List BuildRule)
    (query rtype : Text) (client : ClientInfo) : Prop :=
  ∀ env : BuildEnv, env.dhash = dhash → env.ByHash →
    env.KeepsKind rx rules query rtype client

def actionOf (rules : List BuildRule) (winner : Option Nat) : Option Action :=
  winner.bind fun id => (rules[id]?).map (·.rule.action)

private theorem check_kind {rx : RegexEngine} {rules : List BuildRule}
    (h : WellStored rules) (env : BuildEnv) (query rtype : Text) (client : ClientInfo) :
    ∃ e v, fromRules env rx rules = some e ∧ e.check rx query rtype client = some v ∧
      (v.isBlocked = true ↔ actionOf rules (winner env rx rules
        (FilterEngine.normalizeQuery query) rtype client) = some .block) ∧
      (v.isRewrite = true ↔ actionOf rules (winner env rx rules
        (FilterEngine.normalizeQuery query) rtype client) = some .rewrite) := by
  obtain ⟨e, he, hb⟩ := fromRules_built env rx h.addressable.count
  rcases check_eq hb h.storable query rtype client with ⟨hw, hcheck⟩ |
    ⟨id, br, text, hw, hbr, -, hcheck⟩
  · refine ⟨e, _, he, hcheck, ?_, ?_⟩ <;>
      simp [Verdict.isBlocked, Verdict.isRewrite, hw, actionOf]
  · refine ⟨e, _, he, hcheck, ?_, ?_⟩ <;>
      cases ha : br.rule.action <;>
      simp [verdictWith, ha, Verdict.isBlocked, Verdict.isRewrite, hw, actionOf, hbr]


section

variable {rx : RegexEngine} {rules : List BuildRule} {query rtype : Text} {client : ClientInfo}
  {dhash : Text → Nat} {env : BuildEnv}

private theorem action_eq_of_keeps (h : WellStored rules)
    (hsame : env.KeepsKind rx rules query rtype client) {id₁ id₂ : Nat} {br₁ br₂ : BuildRule}
    (hw₁ : winner env rx rules (FilterEngine.normalizeQuery query) rtype client = some id₁)
    (hw₂ : winner env rx (pruneRedundant rules) (FilterEngine.normalizeQuery query) rtype client =
      some id₂)
    (hi₁ : rules[id₁]? = some br₁) (hi₂ : (pruneRedundant rules)[id₂]? = some br₂) :
    br₁.rule.action = br₂.rule.action := by
  obtain ⟨e₁, e₂, v₁, v₂, he₁, he₂, hv₁, hv₂, hblock, hrewrite⟩ := hsame
  obtain ⟨e₁', v₁', he₁', hv₁', hb₁, hr₁⟩ := @check_kind rx rules h env query rtype client
  obtain ⟨e₂', v₂', he₂', hv₂', hb₂, hr₂⟩ := @check_kind rx _ h.prune env query rtype client
  obtain rfl : e₁ = e₁' := Option.some.inj (he₁.symm.trans he₁')
  obtain rfl : e₂ = e₂' := Option.some.inj (he₂.symm.trans he₂')
  obtain rfl : v₁ = v₁' := Option.some.inj (hv₁.symm.trans hv₁')
  obtain rfl : v₂ = v₂' := Option.some.inj (hv₂.symm.trans hv₂')
  rw [hw₁] at hb₁ hr₁
  rw [hw₂] at hb₂ hr₂
  simp only [actionOf, Option.bind_some, hi₁, hi₂, Option.map_some,
    Option.some.injEq] at hb₁ hr₁ hb₂ hr₂
  rw [hblock] at hb₁
  rw [hrewrite] at hr₁
  cases ha₁ : br₁.rule.action <;> cases ha₂ : br₂.rule.action <;> simp_all

private theorem keeps_of_action_eq (h : WellStored rules)
    (haction : actionOf rules
        (winner env rx rules (FilterEngine.normalizeQuery query) rtype client) =
      actionOf (pruneRedundant rules)
        (winner env rx (pruneRedundant rules) (FilterEngine.normalizeQuery query) rtype client)) :
    env.KeepsKind rx rules query rtype client := by
  obtain ⟨e₁, v₁, he₁, hv₁, hb₁, hr₁⟩ := @check_kind rx rules h env query rtype client
  obtain ⟨e₂, v₂, he₂, hv₂, hb₂, hr₂⟩ := @check_kind rx _ h.prune env query rtype client
  refine ⟨e₁, e₂, v₁, v₂, he₁, he₂, hv₁, hv₂, ?_, ?_⟩
  · rw [Bool.eq_iff_iff, hb₁, hb₂, haction]
  · rw [Bool.eq_iff_iff, hr₁, hr₂, haction]

private theorem actionOf_newIndex {id : Nat} {br : BuildRule} (hbr : rules[id]? = some br)
    (hkeep : keeps rules br = true) :
    actionOf (pruneRedundant rules) (some (newIndex (keeps rules) rules id)) =
      actionOf rules (some id) := by
  simp [actionOf, hbr, pruneRedundant_eq_filter, getElem?_newIndex hbr hkeep]

/-- Where no domain rule can win, nothing that could is pruned. -/
private theorem action_eq_of_no_front (h : WellStored rules) {name : Text}
    (hnone : ¬ ∃ br, Front rx rules name rtype client br) :
    actionOf rules (winner env rx rules name rtype client) =
      actionOf (pruneRedundant rules)
        (winner env rx (pruneRedundant rules) name rtype client) := by
  have hnone' : ∀ br, ¬ Front rx (pruneRedundant rules) name rtype client br := by
    have hprune := hnone
    rw [← exists_front_prune] at hprune
    simpa using hprune
  rw [winner_of_no_front h.searchable (by simpa using hnone),
    winner_of_no_front h.prune.searchable hnone', scanWinner_prune h.addressable.count]
  cases hw : scanWinner rx rules name rtype client with
  | none => rfl
  | some id =>
      obtain ⟨br, hbr, hs⟩ := scanWinner_lt h.addressable.count hw
      rw [Option.map_some, actionOf_newIndex hbr (keeps_of_scan hs)]

private theorem leads_of_keepsKind (h : WellStored rules)
    (hsame : PruneKeepsKind dhash rx rules query rtype client) {br₁ br₂ : BuildRule}
    (hlead₁ : Leads dhash rx rules (FilterEngine.normalizeQuery query) rtype client anyRule br₁)
    (hlead₂ : Leads dhash rx rules (FilterEngine.normalizeQuery query) rtype client
      (keeps rules) br₂)
    (hrest : Disturbed rules br₁) : br₁.rule.action = br₂.rule.action := by
  have hafter := leads_prune_iff.mpr hlead₂
  obtain ⟨i₁, hi₁⟩ := List.mem_iff_getElem?.mp hlead₁.1.1
  obtain ⟨i₂, hi₂⟩ := List.mem_iff_getElem?.mp hafter.1.1
  obtain ⟨a, ha⟩ := exists_place h.searchable hi₁ hlead₁ (plainEnv dhash) rfl
  obtain ⟨b, hb⟩ := exists_place h.prune.searchable hi₂ hafter (plainEnv dhash) rfl
  by_cases hindex : isExact br₂ = isExact br₁
  · -- The index has two lengths, so that both rules can win.
    have hlt := length_entriesOf_lt (plainEnv dhash) hrest hindex
    set n := (entriesOf (plainEnv dhash) br₁ rules).length
    exact action_eq_of_keeps h (hsame _ rfl (tieEnv_byHash dhash fun m => if m = n then a else b))
      (ha _ (if_pos rfl)) (hb _ (if_neg hlt.ne)) hi₁ hi₂
  · -- All exact rules that could win are dropped, so they are blocks.
    obtain ⟨hex₁, hdropped⟩ := dropped_of_leads hlead₁ hlead₂ hindex
    obtain ⟨id, br, hw, hbr, hlead⟩ := @winner_of_leads (tieEnv dhash fun _ => b) rx rules _
      rtype client br₁ h.searchable hlead₁
    have hex : isExact br = true := isExact_of_leads hlead hlead₁.1 hex₁
    have hblock := action_of_dropped (hdropped br hlead.1 hex)
    rw [action_of_dropped (hdropped br₁ hlead₁.1 hex₁), ← hblock]
    exact action_eq_of_keeps h (hsame _ rfl (tieEnv_byHash dhash fun _ => b)) hw (hb _ rfl) hbr hi₂

private theorem keepsKind_of_leads (h : WellStored rules) (hbyHash : env.ByHash)
    (hactions : ∀ br₁ br₂,
      Leads env.dhash rx rules (FilterEngine.normalizeQuery query) rtype client anyRule br₁ →
      Leads env.dhash rx rules (FilterEngine.normalizeQuery query) rtype client
        (keeps rules) br₂ →
      Disturbed rules br₁ → br₁.rule.action = br₂.rule.action) :
    env.KeepsKind rx rules query rtype client := by
  apply keeps_of_action_eq h
  by_cases hfront : ∃ br, Front rx rules (FilterEngine.normalizeQuery query) rtype client br
  · obtain ⟨br, hf⟩ := hfront
    obtain ⟨br', hf'⟩ := exists_front_prune.mpr ⟨br, hf⟩
    obtain ⟨_, hlead⟩ := exists_leads_of_front env.dhash hf
    obtain ⟨_, hlead'⟩ := exists_leads_of_front env.dhash hf'
    obtain ⟨id₁, br₁, hw₁, hi₁, hlead₁⟩ := winner_of_leads h.searchable hlead
    obtain ⟨id₂, br₂, hw₂, hi₂, hlead₂⟩ := winner_of_leads h.prune.searchable hlead'
    by_cases hrest : Disturbed rules br₁
    · simp [actionOf, hw₁, hw₂, hi₁, hi₂,
        hactions br₁ br₂ hlead₁ (leads_prune_iff.mp hlead₂) hrest]
    · have hkeep : keeps rules br₁ = true := by
        by_contra hdropped
        exact hrest ⟨br₁, hlead₁.1.1, by simpa using hdropped, rfl⟩
      rw [winner_prune_of_undisturbed hbyHash h hlead₁ hrest, hw₁, Option.map_some,
        actionOf_newIndex hi₁ hkeep]
  · exact action_eq_of_no_front h hfront

/-- With a sort that leaves equal hashes in order, the first rules that lead decide. -/
private theorem keepsKind_iff_first (h : WellStored rules) (henv : KeepsOrder env rules)
    (henv' : KeepsOrder env (pruneRedundant rules)) :
    env.KeepsKind rx rules query rtype client ↔ ∀ br₁ br₂,
      First (Leads env.dhash rx rules (FilterEngine.normalizeQuery query) rtype client anyRule)
        rules br₁ →
      First (Leads env.dhash rx rules (FilterEngine.normalizeQuery query) rtype client
        (keeps rules)) rules br₂ →
      br₁.rule.action = br₂.rule.action := by
  constructor
  · intro hsame br₁ br₂ hfirst₁ hfirst₂
    obtain ⟨id₁, br₁', hw₁, hi₁, hfirst₁'⟩ := first_winner h.searchable henv hfirst₁.holds
    obtain ⟨id₂, br₂', hw₂, hi₂, hfirst₂'⟩ := first_winner h.prune.searchable henv'
      (leads_prune_iff.mpr hfirst₂.holds)
    obtain rfl := hfirst₁.unique hfirst₁'
    obtain rfl := hfirst₂.unique (first_leads_prune_iff.mp hfirst₂')
    exact action_eq_of_keeps h hsame hw₁ hw₂ hi₁ hi₂
  · intro hactions
    apply keeps_of_action_eq h
    by_cases hfront : ∃ br, Front rx rules (FilterEngine.normalizeQuery query) rtype client br
    · obtain ⟨br, hf⟩ := hfront
      obtain ⟨br', hf'⟩ := exists_front_prune.mpr ⟨br, hf⟩
      obtain ⟨_, hlead⟩ := exists_leads_of_front env.dhash hf
      obtain ⟨_, hlead'⟩ := exists_leads_of_front env.dhash hf'
      obtain ⟨id₁, br₁, hw₁, hi₁, hfirst₁⟩ := first_winner h.searchable henv hlead
      obtain ⟨id₂, br₂, hw₂, hi₂, hfirst₂⟩ := first_winner h.prune.searchable henv' hlead'
      simp [actionOf, hw₁, hw₂, hi₁, hi₂,
        hactions br₁ br₂ hfirst₁ (first_leads_prune_iff.mp hfirst₂)]
    · exact action_eq_of_no_front h hfront

/--
Pruning keeps the kind of the verdict of a build, however its sort leaves equal hashes,
exactly when this holds: if the index of a rule that can win loses entries, that rule has the
action of every one that can win among those that stay.  With a sort that leaves equal hashes
in order, it is enough and needed that the first of the former has the action of the first
of the latter.
-/
theorem prune_keeps_kind_iff (dhash : Text → Nat) (rx : RegexEngine) {rules : List BuildRule}
    (h : WellStored rules) (query rtype : Text) (client : ClientInfo) :
    (PruneKeepsKind dhash rx rules query rtype client ↔
      ∀ br₁ br₂,
        Leads dhash rx rules (FilterEngine.normalizeQuery query) rtype client anyRule br₁ →
        Leads dhash rx rules (FilterEngine.normalizeQuery query) rtype client
          (keeps rules) br₂ →
        Disturbed rules br₁ → br₁.rule.action = br₂.rule.action) ∧
    ∀ env : BuildEnv, env.dhash = dhash → KeepsOrder env rules →
      KeepsOrder env (pruneRedundant rules) →
      (env.KeepsKind rx rules query rtype client ↔
        ∀ br₁ br₂,
          First (Leads dhash rx rules (FilterEngine.normalizeQuery query) rtype client anyRule)
            rules br₁ →
          First (Leads dhash rx rules (FilterEngine.normalizeQuery query) rtype client
            (keeps rules)) rules br₂ →
          br₁.rule.action = br₂.rule.action) := by
  refine ⟨⟨fun hsame br₁ br₂ => leads_of_keepsKind h hsame, ?_⟩, ?_⟩
  · rintro hactions env rfl hbyHash
    exact keepsKind_of_leads h hbyHash hactions
  · rintro env rfl henv henv'
    exact keepsKind_iff_first h henv henv'

end

def rewriteLists : Lists :=
  [(1, "demo".toList,
    "0.0.0.0 a.example.com\n||a.example.com^$dnsrewrite=1.2.3.4\n||example.com^\n".toList)]

def rewriteRules : List BuildRule := (compileLists referenceExternal rewriteLists).active

def lengthEnv : BuildEnv := plainEnv List.length

def verdictIn (rules : List BuildRule) (query : Text) : Option Verdict := do
  let e ← fromRules lengthEnv referenceEngine rules
  e.check referenceEngine query "A".toList {}

theorem wellStored_rewriteRules : WellStored rewriteRules where
  addressable := by
    obtain ⟨hcount, hraw, hdomains⟩ : rewriteRules.length < 2 ^ 32 ∧
        utf8Len (rewriteRules.flatMap (·.rule.raw)) < 2 ^ 32 ∧
        utf8Len (rewriteRules.flatMap domainText) < 2 ^ 32 := by decide +kernel
    exact addressable_of_lt hcount hraw hdomains
  names := by decide +kernel
  raw := by decide +kernel
  rewrite br hbr := by
    obtain ⟨o⟩ := mem_active hbr
    exact (wellParsed_of_origin o).rewrite

theorem prune_keeps_kind_iff_rewriteRules :
    (PruneKeepsKind List.length referenceEngine rewriteRules "b.example.com".toList
        "A".toList {} ↔
      ∀ br₁ br₂, Leads List.length referenceEngine rewriteRules
          (FilterEngine.normalizeQuery "b.example.com".toList) "A".toList {} anyRule br₁ →
        Leads List.length referenceEngine rewriteRules
          (FilterEngine.normalizeQuery "b.example.com".toList) "A".toList {}
          (keeps rewriteRules) br₂ →
        Disturbed rewriteRules br₁ → br₁.rule.action = br₂.rule.action) ∧
    (lengthEnv.KeepsKind referenceEngine rewriteRules "b.example.com".toList "A".toList {} ↔
      ∀ br₁ br₂, First (Leads List.length referenceEngine rewriteRules
          (FilterEngine.normalizeQuery "b.example.com".toList) "A".toList {} anyRule)
          rewriteRules br₁ →
        First (Leads List.length referenceEngine rewriteRules
          (FilterEngine.normalizeQuery "b.example.com".toList) "A".toList {}
          (keeps rewriteRules)) rewriteRules br₂ → br₁.rule.action = br₂.rule.action) := by
  obtain ⟨hany, horder⟩ := prune_keeps_kind_iff List.length referenceEngine
    wellStored_rewriteRules "b.example.com".toList "A".toList {}
  exact ⟨hany, horder lengthEnv rfl (keepsOrder_plainEnv _ _) (keepsOrder_plainEnv _ _)⟩

/-- The host is blocked; after pruning it is rewritten, also where the sort keeps the order. -/
theorem prune_turns_block_into_rewrite :
    (verdictIn rewriteRules "a.example.com".toList).map Verdict.isBlocked = some true ∧
    (verdictIn (pruneRedundant rewriteRules) "a.example.com".toList).map
      Verdict.isRewrite = some true ∧
    ¬ lengthEnv.KeepsKind referenceEngine rewriteRules "a.example.com".toList "A".toList {} ∧
    ¬ PruneKeepsKind List.length referenceEngine rewriteRules "a.example.com".toList
      "A".toList {} := by
  obtain ⟨hbefore, hafter, hrewrite⟩ : (verdictIn rewriteRules "a.example.com".toList).map
        Verdict.isBlocked = some true ∧
      (verdictIn (pruneRedundant rewriteRules) "a.example.com".toList).map
        Verdict.isBlocked = some false ∧
      (verdictIn (pruneRedundant rewriteRules) "a.example.com".toList).map
        Verdict.isRewrite = some true := by decide +kernel
  have hother : ¬ lengthEnv.KeepsKind referenceEngine rewriteRules "a.example.com".toList
      "A".toList {} := by
    rintro ⟨e₁, e₂, v₁, v₂, he₁, he₂, hv₁, hv₂, hblock, -⟩
    have h₁ : verdictIn rewriteRules "a.example.com".toList = some v₁ := by
      rw [verdictIn, he₁]
      exact hv₁
    have h₂ : verdictIn (pruneRedundant rewriteRules) "a.example.com".toList = some v₂ := by
      rw [verdictIn, he₂]
      exact hv₂
    rw [h₁, Option.map_some, Option.some.injEq] at hbefore
    rw [h₂, Option.map_some, Option.some.injEq] at hafter
    rw [hbefore, hafter] at hblock
    cases hblock
  exact ⟨hbefore, hrewrite, hother, fun hsame =>
    hother (hsame lengthEnv rfl (plainEnv_byHash List.length))⟩

end Bulwark.Filter
