import Mathlib.Data.List.Perm.Basic
import Bulwark.Filter.Safety

/-!
# Rules that can win

Domain rules are looked up by hash: exact ones first, then subdomain ones from
the whole name upwards.  Among rules of one priority the first one wins, and
the sort may leave rules of one hash in any order.  So the rules that can win
are known without a build, and each of them does win in some build.
-/

namespace Bulwark.Filter

open Bulwark.Foundation

/-! ## Well-stored lists -/

/-- Rules that the records of an engine hold without loss that matters. -/
structure WellStored (rules : List BuildRule) : Prop where
  addressable : Addressable rules
  names : ∀ br ∈ rules, utf8Len br.rule.pattern.name ≤ 255
  raw : ∀ br ∈ rules,
    isCharBoundary br.rule.raw (min (utf8Len br.rule.raw) 65535) = true
  rewrite : ∀ br ∈ rules, br.rule.action = .rewrite →
    ∃ m data, br.rule.mods = some m ∧ m.rewrite = some data

theorem WellStored.namesKept {rules : List BuildRule} (h : WellStored rules) :
    NamesKept rules :=
  namesKept_of_addressable h.addressable h.names

theorem WellStored.storable {rules : List BuildRule} (h : WellStored rules) :
    Storable rules where
  count := h.addressable.count
  raw i br hbr := by
    rw [storedRaw_eq h.addressable hbr, Option.isSome_map]
    exact h.raw br (List.mem_of_getElem? hbr)
  domain := h.namesKept.readable
  rewrite := h.rewrite

/-- Ids survive their casts, and a lookup compares the query with names that tell. -/
structure Searchable (rx : RegexEngine) (rules : List BuildRule) (name : Text) : Prop where
  count : rules.length < 2 ^ 32
  readable : DomainsReadable rules
  names : NamesTell rx rules name

theorem WellStored.searchable {rx : RegexEngine} {rules : List BuildRule} {name : Text}
    (h : WellStored rules) : Searchable rx rules name :=
  ⟨h.addressable.count, h.namesKept.readable, h.namesKept.tells⟩

/-! ## Which rules can win -/

section

variable (rx : RegexEngine) (rules : List BuildRule) (name rtype : Text)
  (client : ClientInfo)

/-- A rule that acts, of the highest priority among those that act. -/
def Top (br : BuildRule) : Prop :=
  br ∈ rules ∧ Acts rx br name rtype client ∧
    ∀ br' ∈ rules, Acts rx br' name rtype client → br'.rule.priority ≤ br.rule.priority

def isExact (br : BuildRule) : Bool :=
  match br.rule.pattern with
  | .exact _ => true
  | _ => false

def isSubdomain (br : BuildRule) : Bool :=
  match br.rule.pattern with
  | .subdomain _ => true
  | _ => false

/--
The domain rules that can win, in some build: exact rules are considered before
subdomain rules, and the order among either is up to the hash and the sort.
-/
def Front (br : BuildRule) : Prop :=
  Top rx rules name rtype client br ∧ (isExact br = true ∨ isSubdomain br = true ∧
    ∀ br', Top rx rules name rtype client br' → isExact br' = false)

def scanWinner : Option Nat :=
  match firstMax (priorityAt rules)
      ((overrideHits rx rules name).filter (passes rules name rtype client)) with
  | some id => some id
  | none => firstMax (priorityAt rules)
      ((blockHits rx rules name).filter (passes rules name rtype client))

end

section

variable {env : BuildEnv} {rx : RegexEngine} {rules : List BuildRule}
  {name rtype : Text} {client : ClientInfo}

theorem isExact_iff {br : BuildRule} :
    isExact br = true ↔ ∃ d, br.rule.pattern = .exact d := by
  rw [isExact]
  cases br.rule.pattern <;> simp

theorem isSubdomain_iff {br : BuildRule} :
    isSubdomain br = true ↔ ∃ d, br.rule.pattern = .subdomain d := by
  rw [isSubdomain]
  cases br.rule.pattern <;> simp

theorem isExact_of_isSubdomain {br : BuildRule} (h : isSubdomain br = true) :
    isExact br = false := by
  obtain ⟨d, hd⟩ := isSubdomain_iff.mp h
  rw [isExact, hd]

theorem regexSource_eq_none {br : BuildRule} (h : isExact br = true ∨ isSubdomain br = true) :
    regexSource br = none := by
  rcases h with hex | hsub
  · obtain ⟨d, hd⟩ := isExact_iff.mp hex
    rw [regexSource, hd]
  · obtain ⟨d, hd⟩ := isSubdomain_iff.mp hsub
    rw [regexSource, hd]

section

variable (h : Searchable rx rules name)

include h

theorem mem_exact_iff {id : Nat} :
    id ∈ (exactHits env rules name).filter (passes rules name rtype client) ↔
      ∃ br, rules[id]? = some br ∧ Acts rx br name rtype client ∧ isExact br = true := by
  rw [List.mem_filter, mem_exactHits h.count]
  constructor
  · rintro ⟨⟨br, d, hbr, hd, -⟩, hpass⟩
    have hs : regexSource br = none := by rw [regexSource, hd]
    exact ⟨br, hbr, (passes_iff_acts h.names hbr hs).mp hpass,
      isExact_iff.mpr ⟨d, hd⟩⟩
  · rintro ⟨br, hbr, hacts, hexact⟩
    obtain ⟨d, hd⟩ := isExact_iff.mp hexact
    have hs : regexSource br = none := by rw [regexSource, hd]
    refine ⟨⟨br, d, hbr, hd, ?_⟩, (passes_iff_acts h.names hbr hs).mpr hacts⟩
    have hmatch := hacts.1
    rw [hd, PatternMatches] at hmatch
    rw [hmatch]

theorem mem_subdomain_iff {id : Nat} :
    id ∈ (subdomainHits env rules name).filter (passes rules name rtype client) ↔
      ∃ br, rules[id]? = some br ∧ Acts rx br name rtype client ∧
        isSubdomain br = true := by
  rw [List.mem_filter, mem_subdomainHits h.count]
  constructor
  · rintro ⟨⟨br, d, hbr, hd, -⟩, hpass⟩
    have hs : regexSource br = none := by rw [regexSource, hd]
    exact ⟨br, hbr, (passes_iff_acts h.names hbr hs).mp hpass,
      isSubdomain_iff.mpr ⟨d, hd⟩⟩
  · rintro ⟨br, hbr, hacts, hsub⟩
    obtain ⟨d, hd⟩ := isSubdomain_iff.mp hsub
    have hs : regexSource br = none := by rw [regexSource, hd]
    refine ⟨⟨br, d, hbr, hd, d, ?_, rfl⟩, (passes_iff_acts h.names hbr hs).mpr hacts⟩
    have hmatch := hacts.1
    rwa [hd, PatternMatches, ← isSubdomainOf_iff, isSubdomainOf_iff_mem] at hmatch

theorem priority_le_of_top {id : Nat} {br : BuildRule} (htop : Top rx rules name rtype client br)
    (hbr : rules[id]? = some br) :
    ∀ i ∈ (firstHits env rx rules name).filter (passes rules name rtype client),
      priorityAt rules i ≤ priorityAt rules id := by
  intro i hi
  obtain ⟨br', hbr', hacts, -⟩ := (mem_first_iff h.count h.names).mp hi
  rw [priorityAt_eq hbr', priorityAt_eq hbr]
  exact htop.2.2 br' (List.mem_of_getElem? hbr') hacts

/-- A greatest first hit is a top rule: the other scan has the lowest priority. -/
theorem top_of_greatest {id : Nat} {br : BuildRule} (hbr : rules[id]? = some br)
    (hacts : Acts rx br name rtype client)
    (hle : ∀ i ∈ (firstHits env rx rules name).filter (passes rules name rtype client),
      priorityAt rules i ≤ priorityAt rules id) :
    Top rx rules name rtype client br := by
  refine ⟨List.mem_of_getElem? hbr, hacts, ?_⟩
  intro br' hmem' hacts'
  obtain ⟨i, hi⟩ := List.mem_iff_getElem?.mp hmem'
  cases hf : isFirst br' with
  | true =>
      have hin := hle i ((mem_first_iff h.count h.names).mpr
        ⟨br', hi, hacts', hf⟩)
      rwa [priorityAt_eq hi, priorityAt_eq hbr] at hin
  | false =>
      rw [priority_of_not_isFirst hf]
      exact priorityOf_pos _ _

omit h in
theorem top_of_top {i j : Nat} {br br' : BuildRule} (htop : Top rx rules name rtype client br)
    (hbr : rules[i]? = some br) (hbr' : rules[j]? = some br')
    (hacts : Acts rx br' name rtype client) (hge : priorityAt rules i ≤ priorityAt rules j) :
    Top rx rules name rtype client br' := by
  rw [priorityAt_eq hbr, priorityAt_eq hbr'] at hge
  exact ⟨List.mem_of_getElem? hbr', hacts, fun br'' hmem hacts'' =>
    le_trans (htop.2.2 br'' hmem hacts'') hge⟩

/-- A top rule of the exact index: only this index matters. -/
theorem winner_of_exact {br : BuildRule} (htop : Top rx rules name rtype client br)
    (hex : isExact br = true) :
    winner env rx rules name rtype client = firstMax (priorityAt rules)
      ((exactHits env rules name).filter (passes rules name rtype client)) := by
  obtain ⟨i, hi⟩ := List.mem_iff_getElem?.mp htop.1
  have hin : i ∈ (exactHits env rules name).filter (passes rules name rtype client) :=
    (mem_exact_iff h).mpr ⟨br, hi, htop.2.1, hex⟩
  have hle := @priority_le_of_top env _ _ _ _ _ h _ _ htop hi
  rw [firstHits, List.append_assoc, List.filter_append] at hle
  have hleft := firstMax_append_left hin fun y hy => hle y (List.mem_append_right _ hy)
  obtain ⟨id, hid⟩ := firstMax_isSome (priorityAt rules) hin
  rw [winner, firstHits, List.append_assoc, List.filter_append, hleft, hid]

/-- A top rule of the subdomain index, and none of the exact one. -/
theorem winner_of_subdomain {br : BuildRule} (htop : Top rx rules name rtype client br)
    (hsub : isSubdomain br = true)
    (hnone : ∀ br', Top rx rules name rtype client br' → isExact br' = false) :
    winner env rx rules name rtype client = firstMax (priorityAt rules)
      ((subdomainHits env rules name).filter (passes rules name rtype client)) := by
  obtain ⟨i, hi⟩ := List.mem_iff_getElem?.mp htop.1
  have hin : i ∈ (subdomainHits env rules name).filter (passes rules name rtype client) :=
    (mem_subdomain_iff h).mpr ⟨br, hi, htop.2.1, hsub⟩
  have hle := @priority_le_of_top env _ _ _ _ _ h _ _ htop hi
  have hlt : ∀ y ∈ (exactHits env rules name).filter (passes rules name rtype client),
      priorityAt rules y < priorityAt rules i := by
    intro y hy
    obtain ⟨br', hbr', hacts, hex⟩ := (mem_exact_iff h).mp hy
    by_contra hge
    have hexact := hnone br' (top_of_top htop hi hbr' hacts (Nat.le_of_not_lt hge))
    rw [hexact] at hex
    cases hex
  rw [firstHits, List.append_assoc, List.filter_append, List.filter_append] at hle
  have hright := firstMax_append_right (List.mem_append_left ((overrideHits rx rules name).filter
    (passes rules name rtype client)) hin) hlt
  have hleft := firstMax_append_left hin fun y hy =>
    hle y (List.mem_append_right _ (List.mem_append_right _ hy))
  obtain ⟨id, hid⟩ := firstMax_isSome (priorityAt rules) hin
  rw [winner, firstHits, List.append_assoc, List.filter_append, List.filter_append, hright, hleft,
    hid]

theorem winner_of_no_front (hf : ∀ br, ¬ Front rx rules name rtype client br) :
    winner env rx rules name rtype client = scanWinner rx rules name rtype client := by
  set pass := passes rules name rtype client with hpass
  have hsplit : (firstHits env rx rules name).filter pass =
      (exactHits env rules name ++ subdomainHits env rules name).filter pass ++
        (overrideHits rx rules name).filter pass := by
    rw [firstHits, List.filter_append]
  -- A top domain rule would give a rule that can win.
  have hnotop : ∀ id ∈ (exactHits env rules name ++ subdomainHits env rules name).filter
      pass, ∀ br, rules[id]? = some br → ¬ Top rx rules name rtype client br := by
    intro id hid br hbr htop
    rw [List.filter_append, List.mem_append] at hid
    rcases hid with hid | hid
    · obtain ⟨br', hbr', -, hex⟩ : ∃ br, rules[id]? = some br ∧
          Acts rx br name rtype client ∧ isExact br = true := (mem_exact_iff h).mp hid
      obtain rfl : br = br' := Option.some.inj (hbr.symm.trans hbr')
      exact hf br ⟨htop, .inl hex⟩
    · obtain ⟨br', hbr', -, hsub⟩ : ∃ br, rules[id]? = some br ∧
          Acts rx br name rtype client ∧ isSubdomain br = true :=
        (mem_subdomain_iff h).mp hid
      obtain rfl : br = br' := Option.some.inj (hbr.symm.trans hbr')
      refine hf br ⟨htop, .inr ⟨hsub, fun br' htop' => ?_⟩⟩
      rw [Bool.eq_false_iff]
      exact fun hex => hf br' ⟨htop', .inl hex⟩
  have hfirst : firstMax (priorityAt rules) ((firstHits env rx rules name).filter pass) =
      firstMax (priorityAt rules) ((overrideHits rx rules name).filter pass) := by
    cases hmax : firstMax (priorityAt rules)
        ((firstHits env rx rules name).filter pass) with
    | none =>
        rw [firstMax_eq_none_iff, hsplit, List.append_eq_nil_iff] at hmax
        rw [hmax.2]
        rfl
    | some id =>
        obtain ⟨hmem, hle⟩ := firstMax_spec hmax
        have htop : ∀ {i br}, i ∈ (firstHits env rx rules name).filter pass →
            rules[i]? = some br → priorityAt rules id ≤ priorityAt rules i →
            Top rx rules name rtype client br := by
          intro i br hi hbr hge
          obtain ⟨br', hbr', hacts, -⟩ :=
            (mem_first_iff h.count h.names).mp hi
          obtain rfl : br = br' := Option.some.inj (hbr.symm.trans hbr')
          exact top_of_greatest h hbr hacts fun j hj => le_trans (hle j hj) hge
        have hlt : ∀ y ∈ (exactHits env rules name ++
            subdomainHits env rules name).filter pass,
            priorityAt rules y < priorityAt rules id := by
          intro y hy
          have hy' : y ∈ (firstHits env rx rules name).filter pass := by
            rw [hsplit]
            exact List.mem_append_left _ hy
          obtain ⟨br, hbr, -⟩ := (mem_first_iff h.count h.names).mp hy'
          by_contra hge
          exact hnotop y hy br hbr (htop hy' hbr (Nat.le_of_not_lt hge))
        have hin : id ∈ (overrideHits rx rules name).filter pass := by
          rw [hsplit] at hmem
          rcases List.mem_append.mp hmem with hin | hin
          · exact absurd (hlt id hin) (lt_irrefl _)
          · exact hin
        rw [← hmax, hsplit]
        exact firstMax_append_right hin hlt
  cases hmax : firstMax (priorityAt rules) ((overrideHits rx rules name).filter pass) <;>
    simp only [winner, scanWinner, ← hpass, hfirst, hmax]


end

theorem exists_front_iff :
    (∃ br, Front rx rules name rtype client br) ↔
      ∃ br, Top rx rules name rtype client br ∧
        (isExact br = true ∨ isSubdomain br = true) := by
  constructor
  · rintro ⟨br, htop, hex | hsub⟩
    · exact ⟨br, htop, .inl hex⟩
    · exact ⟨br, htop, .inr hsub.1⟩
  · rintro ⟨br, htop, hkind⟩
    by_cases hexact : ∃ br', Top rx rules name rtype client br' ∧ isExact br' = true
    · obtain ⟨br', htop', hex⟩ := hexact
      exact ⟨br', htop', .inl hex⟩
    · push Not at hexact
      refine ⟨br, htop, .inr ⟨?_, fun br' htop' => by simpa using hexact br' htop'⟩⟩
      rcases hkind with hex | hsub
      · exact absurd hex (hexact br htop)
      · exact hsub

end

/-! ## One hash -/

/-- Where a lookup comes upon a subdomain rule: at the first suffix with the hash of its name. -/
def level (dhash : Text → Nat) (name : Text) (br : BuildRule) : Nat :=
  match br.rule.pattern with
  | .subdomain d => (name :: parents name).findIdx fun hay => dhash hay == dhash d
  | _ => 0

/--
The rules among those of `p` that win for some order of equal hashes: exact ones, or the
subdomain ones of the nearest level.
-/
def Leads (dhash : Text → Nat) (rx : RegexEngine) (rules : List BuildRule) (name rtype : Text)
    (client : ClientInfo) (p : BuildRule → Bool) (br : BuildRule) : Prop :=
  Top rx rules name rtype client br ∧ p br = true ∧ (isExact br = true ∨ isSubdomain br = true ∧
    ∀ br', Top rx rules name rtype client br' → p br' = true → isExact br' = false ∧
      (isSubdomain br' = true → level dhash name br ≤ level dhash name br'))

def anyRule (_ : BuildRule) : Bool := true

section

variable {env : BuildEnv} {rx : RegexEngine} {rules : List BuildRule} {name rtype : Text}
  {client : ClientInfo} {dhash : Text → Nat} {br : BuildRule}

theorem Leads.front (h : Leads dhash rx rules name rtype client anyRule br) :
    Front rx rules name rtype client br := by
  obtain ⟨htop, -, hex | ⟨hsub, hnone⟩⟩ := h
  · exact ⟨htop, .inl hex⟩
  · exact ⟨htop, .inr ⟨hsub, fun br' htop' => (hnone br' htop' rfl).1⟩⟩

theorem isExact_of_leads {br' : BuildRule}
    (h : Leads dhash rx rules name rtype client anyRule br)
    (htop : Top rx rules name rtype client br') (hex : isExact br' = true) :
    isExact br = true := by
  rcases h.2.2 with hex' | ⟨-, hnone⟩
  · exact hex'
  · rw [(hnone br' htop rfl).1] at hex
    cases hex

theorem Front.leads (h : Front rx rules name rtype client br) :
    Leads (fun _ => 0) rx rules name rtype client anyRule br := by
  obtain ⟨htop, hex | ⟨hsub, hnone⟩⟩ := h
  · exact ⟨htop, rfl, .inl hex⟩
  · refine ⟨htop, rfl, .inr ⟨hsub, fun br' htop' _ => ⟨hnone br' htop', fun _ => ?_⟩⟩⟩
    obtain ⟨d, hd⟩ := isSubdomain_iff.mp hsub
    simp [level, hd, List.findIdx_cons]

theorem level_lt_length (hacts : Acts rx br name rtype client) (hsub : isSubdomain br = true) :
    level dhash name br < (name :: parents name).length := by
  obtain ⟨d, hd⟩ := isSubdomain_iff.mp hsub
  have hmatch := hacts.1
  rw [hd, PatternMatches, ← isSubdomainOf_iff, isSubdomainOf_iff_mem] at hmatch
  simp only [level, hd]
  exact List.findIdx_lt_length_of_exists ⟨d, hmatch, by simp⟩

theorem dhash_level {d : Text} (hd : br.rule.pattern = .subdomain d)
    (hfound : level dhash name br < (name :: parents name).length) :
    dhash (name :: parents name)[level dhash name br] = dhash d := by
  simp only [level, hd] at hfound ⊢
  simpa using List.findIdx_getElem (w := hfound)

theorem getElem?_level (dhash : Text → Nat) (hacts : Acts rx br name rtype client)
    (hsub : isSubdomain br = true) :
    (name :: parents name)[level dhash name br]?.map dhash =
      some (dhash br.rule.pattern.name) := by
  obtain ⟨d, hd⟩ := isSubdomain_iff.mp hsub
  have hfound : level dhash name br < (name :: parents name).length :=
    level_lt_length hacts hsub
  rw [List.getElem?_eq_getElem hfound, Option.map_some, dhash_level hd hfound, hd, Pattern.name]

theorem mem_take_iff_level (hcount : rules.length < 2 ^ 32) {id k : Nat}
    (hbr : rules[id]? = some br) (hacts : Acts rx br name rtype client)
    (hsub : isSubdomain br = true) :
    id ∈ suffixHits env rules ((name :: parents name).take k) ↔ level env.dhash name br < k := by
  obtain ⟨d, hd⟩ := isSubdomain_iff.mp hsub
  have hfound : level env.dhash name br < (name :: parents name).length :=
    level_lt_length hacts hsub
  rw [mem_suffixHits hcount]
  constructor
  · rintro ⟨br', d', hbr', hd', hay, hhay, hhash⟩
    obtain rfl : br = br' := Option.some.inj (hbr.symm.trans hbr')
    obtain rfl : d = d' := Pattern.subdomain.inj (hd.symm.trans hd')
    obtain ⟨i, hi, rfl⟩ := List.mem_take_iff_getElem.mp hhay
    by_contra hge
    simp only [level, hd] at hge
    have hlt : i < (name :: parents name).findIdx fun hay => env.dhash hay == env.dhash d := by
      omega
    have hother := List.not_of_lt_findIdx hlt
    rw [hhash, beq_self_eq_true] at hother
    cases hother
  · intro hlt
    refine ⟨br, d, hbr, hd, (name :: parents name)[level env.dhash name br], ?_,
      dhash_level hd hfound⟩
    exact List.mem_take_iff_getElem.mpr ⟨_, by omega, rfl⟩

theorem suffixHits_append (suffixes suffixes' : List Text) :
    suffixHits env rules (suffixes ++ suffixes') =
      suffixHits env rules suffixes ++ suffixHits env rules suffixes' :=
  List.flatMap_append

theorem exists_leads_of_front (dhash : Text → Nat) (h : Front rx rules name rtype client br) :
    ∃ br', Leads dhash rx rules name rtype client anyRule br' := by
  classical
  obtain ⟨htop, hex | ⟨hsub, hnone⟩⟩ := h
  · exact ⟨br, htop, rfl, .inl hex⟩
  · have hlevel : ∃ k br', Top rx rules name rtype client br' ∧ isSubdomain br' = true ∧
        level dhash name br' = k := ⟨_, br, htop, hsub, rfl⟩
    obtain ⟨br', htop', hsub', hk⟩ := Nat.find_spec hlevel
    refine ⟨br', htop', rfl, .inr ⟨hsub', fun br₂ htop₂ _ => ⟨hnone br₂ htop₂, fun hsub₂ => ?_⟩⟩⟩
    rw [hk]
    exact Nat.find_min' hlevel ⟨br₂, htop₂, hsub₂, rfl⟩

theorem subdomainHits_split (k : Nat) : subdomainHits env rules name =
    suffixHits env rules ((name :: parents name).take k) ++
      suffixHits env rules ((name :: parents name).drop k) := by
  rw [← suffixHits_append, List.take_append_drop]
  rfl

end

/-! ## Buckets -/

def entriesOf (env : BuildEnv) (br : BuildRule) (rules : List BuildRule) : List (Nat × Nat) :=
  if isExact br then indexed (exactPair env) rules else indexed (subPair env) rules

theorem entriesOf_congr {env env' : BuildEnv} (h : env.dhash = env'.dhash) (br : BuildRule)
    (rules : List BuildRule) : entriesOf env br rules = entriesOf env' br rules := by
  have hexact : exactPair env = exactPair env' := by
    funext br i
    simp only [exactPair, h]
  have hsub : subPair env = subPair env' := by
    funext br i
    simp only [subPair, h]
  rw [entriesOf, entriesOf, hexact, hsub]

/-- The ids next to which a lookup finds a domain rule: those with the hash of its name. -/
def bucket (env : BuildEnv) (br : BuildRule) (rules : List BuildRule) : List Nat :=
  ((env.sortByHash (entriesOf env br rules)).filter
    (·.1 == env.dhash br.rule.pattern.name)).map Prod.snd

section

variable {env : BuildEnv} {rx : RegexEngine} {rules : List BuildRule} {name rtype : Text}
  {client : ClientInfo} {br br' : BuildRule} {id : Nat}

theorem mem_entriesOf (hcount : rules.length < 2 ^ 32)
    (hbr : rules[id]? = some br) (hdomain : isExact br = true ∨ isSubdomain br = true) :
    (env.dhash br.rule.pattern.name, id) ∈ entriesOf env br rules := by
  rw [entriesOf]
  split
  · rename_i hex
    obtain ⟨d, hd⟩ := isExact_iff.mp hex
    exact (mem_exactPairs hcount).mpr ⟨br, d, hbr, hd, by rw [hd, Pattern.name]⟩
  · rename_i hex
    obtain ⟨d, hd⟩ := isSubdomain_iff.mp (hdomain.resolve_left hex)
    exact (mem_subPairs hcount).mpr ⟨br, d, hbr, hd, by rw [hd, Pattern.name]⟩

theorem of_mem_bucket (hcount : rules.length < 2 ^ 32) (h : id ∈ bucket env br rules) :
    ∃ br', rules[id]? = some br' ∧ isExact br' = isExact br ∧
      (isExact br' = true ∨ isSubdomain br' = true) ∧
      env.dhash br'.rule.pattern.name = env.dhash br.rule.pattern.name := by
  rw [bucket, mem_sortedHits, entriesOf] at h
  split at h
  · rename_i hex
    obtain ⟨br', d, hbr', hd, hhash⟩ := (mem_exactPairs hcount).mp h
    have hex' : isExact br' = true := isExact_iff.mpr ⟨d, hd⟩
    exact ⟨br', hbr', hex'.trans hex.symm, .inl hex', by rw [hhash, hd, Pattern.name]⟩
  · rename_i hex
    obtain ⟨br', d, hbr', hd, hhash⟩ := (mem_subPairs hcount).mp h
    have hsub' : isSubdomain br' = true := isSubdomain_iff.mpr ⟨d, hd⟩
    refine ⟨br', hbr', ?_, .inr hsub', by rw [hhash, hd, Pattern.name]⟩
    rw [isExact_of_isSubdomain hsub']
    exact (Bool.eq_false_iff.mpr hex).symm

theorem name_of_exact (hacts : Acts rx br name rtype client) (hex : isExact br = true) :
    br.rule.pattern.name = name := by
  obtain ⟨d, hd⟩ := isExact_iff.mp hex
  have hmatch := hacts.1
  rw [hd, PatternMatches] at hmatch
  rw [hd, Pattern.name, hmatch]

theorem level_congr {dhash : Text → Nat} (hsub : isSubdomain br = true)
    (hsub' : isSubdomain br' = true)
    (hhash : dhash br'.rule.pattern.name = dhash br.rule.pattern.name) :
    level dhash name br' = level dhash name br := by
  obtain ⟨d, hd⟩ := isSubdomain_iff.mp hsub
  obtain ⟨d', hd'⟩ := isSubdomain_iff.mp hsub'
  rw [hd, hd', Pattern.name, Pattern.name] at hhash
  simp only [level, hd, hd', hhash]

theorem bucket_of_exact (hacts : Acts rx br name rtype client) (hex : isExact br = true) :
    bucket env br rules = exactHits env rules name := by
  rw [bucket, entriesOf, if_pos hex, name_of_exact hacts hex]
  rfl

theorem bucket_of_subdomain (hacts : Acts rx br name rtype client)
    (hsub : isSubdomain br = true) :
    subdomainHits env rules name =
      suffixHits env rules ((name :: parents name).take (level env.dhash name br)) ++
        (bucket env br rules ++
          suffixHits env rules ((name :: parents name).drop (level env.dhash name br + 1))) := by
  obtain ⟨d, hd⟩ := isSubdomain_iff.mp hsub
  have hfound : level env.dhash name br < (name :: parents name).length :=
    level_lt_length hacts hsub
  have hlevel : suffixHits env rules [(name :: parents name)[level env.dhash name br]] =
      bucket env br rules := by
    simp [suffixHits, bucket, entriesOf, isExact_of_isSubdomain hsub, hd, Pattern.name,
      dhash_level hd hfound]
  have hdrop : (name :: parents name).drop (level env.dhash name br) =
      [(name :: parents name)[level env.dhash name br]] ++
        (name :: parents name).drop (level env.dhash name br + 1) :=
    List.drop_eq_getElem_cons hfound
  rw [subdomainHits_split (level env.dhash name br), hdrop, suffixHits_append, hlevel]

theorem bucket_eq_of_leads (h : Leads env.dhash rx rules name rtype client anyRule br)
    (h' : Leads env.dhash rx rules name rtype client anyRule br') :
    bucket env br' rules = bucket env br rules := by
  by_cases hex : isExact br = true
  · have hex' := isExact_of_leads h' h.1 hex
    rw [bucket_of_exact h.1.2.1 hex, bucket_of_exact h'.1.2.1 hex']
  · have hex' : ¬ isExact br' = true := fun hex' => hex (isExact_of_leads h h'.1 hex')
    obtain ⟨hsub, hnearest⟩ := h.2.2.resolve_left hex
    obtain ⟨hsub', hnearest'⟩ := h'.2.2.resolve_left hex'
    have hlevels : level env.dhash name br' = level env.dhash name br :=
      le_antisymm ((hnearest' br h.1 rfl).2 hsub) ((hnearest br' h'.1 rfl).2 hsub')
    have hhash : env.dhash br.rule.pattern.name = env.dhash br'.rule.pattern.name := by
      have hfound := getElem?_level env.dhash h.1.2.1 hsub
      rw [← hlevels, getElem?_level env.dhash h'.1.2.1 hsub', Option.some.injEq] at hfound
      exact hfound.symm
    rw [bucket, bucket, entriesOf, entriesOf, if_neg hex, if_neg hex', hhash]

section

variable (h : Searchable rx rules name)

include h

theorem passes_of_leads (hlead : Leads env.dhash rx rules name rtype client anyRule br)
    (hbr : rules[id]? = some br) :
    id ∈ (bucket env br rules).filter (passes rules name rtype client) := by
  have hdomain : isExact br = true ∨ isSubdomain br = true := hlead.2.2.imp_right And.left
  refine List.mem_filter.mpr ⟨mem_sortedHits.mpr (mem_entriesOf h.count hbr hdomain), ?_⟩
  exact (passes_iff_acts h.names hbr (regexSource_eq_none hdomain)).mpr hlead.1.2.1

theorem leads_of_mem_bucket {i : Nat}
    (hlead : Leads env.dhash rx rules name rtype client anyRule br) (hi : rules[i]? = some br)
    (hid : id ∈ (bucket env br rules).filter (passes rules name rtype client))
    (hge : priorityAt rules i ≤ priorityAt rules id) :
    ∃ br', rules[id]? = some br' ∧ Leads env.dhash rx rules name rtype client anyRule br' := by
  obtain ⟨hmem, hpass⟩ := List.mem_filter.mp hid
  obtain ⟨br', hbr', hindex, hdomain, hhash⟩ := of_mem_bucket h.count hmem
  have hacts : Acts rx br' name rtype client :=
    (passes_iff_acts h.names hbr' (regexSource_eq_none hdomain)).mp hpass
  refine ⟨br', hbr', top_of_top hlead.1 hi hbr' hacts hge, rfl, ?_⟩
  by_cases hex : isExact br = true
  · exact .inl (hindex.trans hex)
  · obtain ⟨hsub, hnearest⟩ := hlead.2.2.resolve_left hex
    have hsub' : isSubdomain br' = true := hdomain.resolve_left (by rwa [hindex])
    refine .inr ⟨hsub', fun br₂ htop₂ hp => ?_⟩
    rw [level_congr hsub hsub' hhash]
    exact hnearest br₂ htop₂ hp

/-- A rule that leads: only its bucket matters. -/
theorem winner_eq_bucket (hlead : Leads env.dhash rx rules name rtype client anyRule br) :
    winner env rx rules name rtype client = firstMax (priorityAt rules)
      ((bucket env br rules).filter (passes rules name rtype client)) := by
  obtain ⟨i, hi⟩ := List.mem_iff_getElem?.mp hlead.1.1
  by_cases hex : isExact br = true
  · rw [winner_of_exact h hlead.1 hex, bucket_of_exact hlead.1.2.1 hex]
  · obtain ⟨hsub, hnearest⟩ := hlead.2.2.resolve_left hex
    have hin := passes_of_leads h hlead hi
    have hle := @priority_le_of_top env _ _ _ _ _ h _ _ hlead.1 hi
    -- No top rule is at a level before.
    have hlt : ∀ y ∈ (suffixHits env rules ((name :: parents name).take
        (level env.dhash name br))).filter (passes rules name rtype client),
        priorityAt rules y < priorityAt rules i := by
      intro y hy
      obtain ⟨hmem, hpass⟩ := List.mem_filter.mp hy
      have hmem' : y ∈ subdomainHits env rules name := by
        rw [bucket_of_subdomain hlead.1.2.1 hsub]
        exact List.mem_append_left _ hmem
      obtain ⟨br', hbr', hacts, hsub'⟩ := (mem_subdomain_iff h).mp
        (List.mem_filter.mpr ⟨hmem', hpass⟩)
      by_contra hge
      have htop' := top_of_top hlead.1 hi hbr' hacts (Nat.le_of_not_lt hge)
      have hbefore := (mem_take_iff_level h.count hbr' hacts hsub').mp hmem
      have hafter := (hnearest br' htop' rfl).2 hsub'
      exact absurd hafter (Nat.not_le_of_lt hbefore)
    rw [firstHits, bucket_of_subdomain hlead.1.2.1 hsub] at hle
    simp only [List.filter_append, List.mem_append] at hle
    rw [winner_of_subdomain h hlead.1 hsub fun br' htop' => (hnearest br' htop' rfl).1,
      bucket_of_subdomain hlead.1.2.1 hsub, List.filter_append, List.filter_append,
      firstMax_append_right (List.mem_append_left _ hin) hlt,
      firstMax_append_left hin fun y hy => hle y (.inl (.inr (.inr (.inr hy))))]

theorem winner_of_leads (hlead : Leads env.dhash rx rules name rtype client anyRule br) :
    ∃ id br', winner env rx rules name rtype client = some id ∧ rules[id]? = some br' ∧
      Leads env.dhash rx rules name rtype client anyRule br' := by
  obtain ⟨i, hi⟩ := List.mem_iff_getElem?.mp hlead.1.1
  have hin := passes_of_leads h hlead hi
  obtain ⟨id, hid⟩ := firstMax_isSome (priorityAt rules) hin
  obtain ⟨hmem, hmax⟩ := firstMax_spec hid
  obtain ⟨br', hbr', hlead'⟩ := leads_of_mem_bucket h hlead hi hmem (hmax i hin)
  exact ⟨id, br', (winner_eq_bucket h hlead).trans hid, hbr', hlead'⟩

theorem winner_of_front (hf : Front rx rules name rtype client br) :
    ∃ id br', winner env rx rules name rtype client = some id ∧ rules[id]? = some br' ∧
      Front rx rules name rtype client br' := by
  obtain ⟨br₁, hlead⟩ := exists_leads_of_front env.dhash hf
  obtain ⟨id, br', hwinner, hbr', hlead'⟩ := winner_of_leads h hlead
  exact ⟨id, br', hwinner, hbr', hlead'.front⟩

end

end

/-! ## Every rule that leads wins in some build -/

/-- Of equal hashes the one at a given place comes first, which depends on the length only. -/
def tieEnv (dhash : Text → Nat) (place : Nat → Nat) : BuildEnv where
  dhash := dhash
  sortByHash pairs :=
    ((pairs[place pairs.length]?).toList ++ pairs.eraseIdx (place pairs.length)).insertionSort
      fun p q => p.1 ≤ q.1
  contentHasher bytes := bytes.foldl (fun h b => h * 257 + b.toNat) 0
  sort_perm pairs := by
    refine (List.perm_insertionSort _ _).trans ?_
    by_cases hplace : place pairs.length < pairs.length
    · rw [List.getElem?_eq_getElem hplace]
      exact List.getElem_cons_eraseIdx_perm hplace
    · rw [List.getElem?_eq_none (Nat.le_of_not_lt hplace),
        List.eraseIdx_of_length_le (Nat.le_of_not_lt hplace)]
      rfl
  sort_sorted _ := pairwise_insertionSort_key Prod.fst _

theorem tieEnv_hits (dhash : Text → Nat) {place : Nat → Nat} {pairs : List (Nat × Nat)}
    {hash id : Nat} (hat : pairs[place pairs.length]? = some (hash, id)) :
    ∃ rest, (((tieEnv dhash place).sortByHash pairs).filter (·.1 == hash)).map Prod.snd =
      id :: rest := by
  have hkey : ∀ p q : Nat × Nat, (p.1 == hash) = true → (q.1 == hash) = true → p.1 ≤ q.1 := by
    intro p q hp hq
    rw [beq_iff_eq] at hp hq
    rw [hp, hq]
  have hfilter := filter_insertionSort_key Prod.fst
    ((pairs[place pairs.length]?).toList ++ pairs.eraseIdx (place pairs.length)) hkey
  refine ⟨((pairs.eraseIdx (place pairs.length)).filter (·.1 == hash)).map Prod.snd, ?_⟩
  rw [tieEnv, hfilter, hat]
  simp

section

variable {rx : RegexEngine} {rules : List BuildRule} {name rtype : Text}
  {client : ClientInfo} {dhash : Text → Nat} {br : BuildRule} {id : Nat} {place : Nat → Nat}

theorem winner_tieEnv (h : Searchable rx rules name) (hbr : rules[id]? = some br)
    (hlead : Leads dhash rx rules name rtype client anyRule br)
    (hat : (entriesOf (tieEnv dhash place) br rules)[place
      (entriesOf (tieEnv dhash place) br rules).length]? = some (dhash br.rule.pattern.name, id)) :
    winner (tieEnv dhash place) rx rules name rtype client = some id := by
  have hlead' : Leads (tieEnv dhash place).dhash rx rules name rtype client anyRule br := hlead
  have hpass := (List.mem_filter.mp (passes_of_leads h hlead' hbr)).2
  obtain ⟨rest, hrest⟩ := tieEnv_hits dhash hat
  have hbucket : bucket (tieEnv dhash place) br rules = id :: rest := hrest
  rw [winner_eq_bucket h hlead', hbucket, List.filter_cons_of_pos hpass]
  refine firstMax_cons_of_greatest fun y hy => ?_
  obtain ⟨hmem, hpass'⟩ := List.mem_filter.mp hy
  obtain ⟨br', hbr', -, hdomain, -⟩ := of_mem_bucket h.count
    (hbucket ▸ List.mem_cons_of_mem id hmem)
  have hacts := (passes_iff_acts h.names hbr' (regexSource_eq_none hdomain)).mp hpass'
  rw [priorityAt_eq hbr', priorityAt_eq hbr]
  exact hlead.1.2.2 br' (List.mem_of_getElem? hbr') hacts

theorem exists_place (h : Searchable rx rules name) (hbr : rules[id]? = some br)
    (hlead : Leads dhash rx rules name rtype client anyRule br) (env : BuildEnv)
    (henv : env.dhash = dhash) :
    ∃ a, ∀ place : Nat → Nat, place (entriesOf env br rules).length = a →
      winner (tieEnv dhash place) rx rules name rtype client = some id := by
  have hdomain : isExact br = true ∨ isSubdomain br = true := hlead.2.2.imp_right And.left
  obtain ⟨a, ha⟩ := List.mem_iff_getElem?.mp (@mem_entriesOf env _ _ _ h.count hbr hdomain)
  refine ⟨a, fun place hplace => winner_tieEnv h hbr hlead ?_⟩
  have hsame : (tieEnv dhash place).dhash = env.dhash := henv.symm
  rw [entriesOf_congr hsame, hplace, ha, henv]

end

/-! ## Sorts that leave equal hashes in order -/

/-- The sort does so for the two indexes of these rules. -/
def KeepsOrder (env : BuildEnv) (rules : List BuildRule) : Prop :=
  ∀ br hash, (env.sortByHash (entriesOf env br rules)).filter (·.1 == hash) =
    (entriesOf env br rules).filter (·.1 == hash)

theorem keepsOrder_plainEnv (dhash : Text → Nat) (rules : List BuildRule) :
    KeepsOrder (plainEnv dhash) rules := by
  intro br hash
  refine filter_insertionSort_key Prod.fst _ fun p q hp hq => ?_
  rw [beq_iff_eq] at hp hq
  rw [hp, hq]

section

variable {env : BuildEnv} {rx : RegexEngine} {rules : List BuildRule} {name rtype : Text}
  {client : ClientInfo} {br : BuildRule}

private theorem pairwise_zipIdx (rules : List BuildRule) :
    rules.zipIdx.Pairwise fun a b => a.2 < b.2 := by
  apply List.pairwise_map.mp
  rw [List.zipIdx_map_snd]
  exact List.pairwise_lt_range'

private theorem pairwise_indexed {entry : BuildRule → Nat → Option (Nat × Nat)}
    (hentry : ∀ br i x, rules[i]? = some br → entry br i = some x → x.2 = i) :
    (indexed entry rules).Pairwise fun p q => p.2 < q.2 := by
  refine List.pairwise_filterMap.mpr ((pairwise_zipIdx rules).imp_of_mem ?_)
  rintro ⟨br, i⟩ ⟨br', j⟩ hi hj hlt x hx y hy
  rw [hentry br i x (List.mem_zipIdx_iff_getElem?.mp hi) hx,
    hentry br' j y (List.mem_zipIdx_iff_getElem?.mp hj) hy]
  exact hlt

theorem pairwise_bucket (hcount : rules.length < 2 ^ 32) (henv : KeepsOrder env rules)
    (br : BuildRule) : (bucket env br rules).Pairwise (· < ·) := by
  have hentries : (entriesOf env br rules).Pairwise fun p q => p.2 < q.2 := by
    rw [entriesOf]
    split
    · refine pairwise_indexed fun br' i x hbr' hx => ?_
      have hi := (List.getElem?_eq_some_iff.mp hbr').1
      rw [exactPair, asU32_of_lt (by omega)] at hx
      split at hx <;> cases hx
      rfl
    · refine pairwise_indexed fun br' i x hbr' hx => ?_
      have hi := (List.getElem?_eq_some_iff.mp hbr').1
      rw [subPair, asU32_of_lt (by omega)] at hx
      split at hx <;> cases hx
      rfl
  rw [bucket, henv, List.pairwise_map]
  exact hentries.filter _

/-- Then the first rule of the list that leads wins. -/
theorem first_winner (h : Searchable rx rules name) (henv : KeepsOrder env rules)
    (hlead : Leads env.dhash rx rules name rtype client anyRule br) :
    ∃ id br', winner env rx rules name rtype client = some id ∧ rules[id]? = some br' ∧
      First (Leads env.dhash rx rules name rtype client anyRule) rules br' := by
  obtain ⟨id, br', hw, hbr', hlead'⟩ := winner_of_leads h hlead
  refine ⟨id, br', hw, hbr', first_of_getElem? hbr' hlead' fun j hj br₂ hbr₂ hlead₂ => ?_⟩
  have hin := passes_of_leads h hlead₂ hbr₂
  rw [bucket_eq_of_leads hlead' hlead₂] at hin
  rw [winner_eq_bucket h hlead'] at hw
  have hge : priorityAt rules id ≤ priorityAt rules j := by
    rw [priorityAt_eq hbr', priorityAt_eq hbr₂]
    exact hlead₂.1.2.2 br' hlead'.1.1 hlead'.1.2.1
  exact absurd hj (Nat.not_lt_of_le
    (le_of_firstMax ((pairwise_bucket h.count henv br').filter _) hw hin hge))

end

end Bulwark.Filter
