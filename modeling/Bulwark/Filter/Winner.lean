import Bulwark.Foundation.Selection
import Bulwark.Filter.Scan

/-!
# The candidate that wins

For rules fewer than `2 ^ 32`, `from_rules` succeeds and `best_id` is the first
greatest element, by priority, of the candidates that pass: those of the domain
indexes and of the overriding scan, or, when none of these passes, those of the
other scan.
-/

namespace Bulwark.Filter

open Bulwark.Foundation

/-! ## Built engines -/

def sourceAt (rules : List BuildRule) (i : Nat) : Text :=
  ((rules[i]?).bind regexSource).getD []

/-- The engine that `from_rules` returns, in terms of its rules. -/
structure Built (env : BuildEnv) (rx : RegexEngine) (rules : List BuildRule)
    (e : FilterEngine) : Prop where
  length : e.rules.length = rules.length
  reads : ∀ i br, rules[i]? = some br → ∃ r, Reads e rules i br r
  dhash : e.dhash = env.dhash
  exactIndex : e.exactIndex = DomainIndex.build env (indexed (exactPair env) rules)
  subdomainIndex : e.subdomainIndex = DomainIndex.build env (indexed (subPair env) rules)
  overrideScan : GroupHolds rx (sourceAt rules) false
    (indexed (scanEntry true) rules) e.overrideScan
  blockScan : GroupHolds rx (sourceAt rules) true
    (indexed (scanEntry false) rules) e.blockScan
  clientDependent : e.hasClientDependentRules =
    rules.any fun br => br.rule.mods.any isClientDependent
  contentHash : e.contentHash =
    env.contentHasher (rules.flatMap fun br => contentBytes br.rule)

theorem mem_scanEntries {rules : List BuildRule} (hcount : rules.length < 2 ^ 32)
    {override : Bool} {id : Nat} {toks : List UInt32} :
    (id, toks) ∈ indexed (scanEntry override) rules ↔
      ∃ br, rules[id]? = some br ∧ (regexSource br).isSome = true ∧
        isOverrideCapable br.rule = override ∧ toks = br.indexTokens := by
  rw [mem_indexed]
  constructor
  · rintro ⟨i, br, hbr, hentry⟩
    have hi := (List.getElem?_eq_some_iff.mp hbr).1
    rw [scanEntry] at hentry
    split at hentry
    · rename_i hscan
      simp only [Option.some.injEq, Prod.mk.injEq, asU32_of_lt (lt_trans hi hcount)]
        at hentry
      obtain ⟨rfl, rfl⟩ := hentry
      exact ⟨br, hbr, hscan.1, hscan.2, rfl⟩
    · simp at hentry
  · rintro ⟨br, hbr, hsource, hover, rfl⟩
    have hi := (List.getElem?_eq_some_iff.mp hbr).1
    refine ⟨id, br, hbr, ?_⟩
    rw [scanEntry, if_pos ⟨hsource, hover⟩, asU32_of_lt (lt_trans hi hcount)]

private theorem sources_of_reads {rules : List BuildRule}
    (hcount : rules.length < 2 ^ 32) {e : FilterEngine}
    (hreads : ∀ i br, rules[i]? = some br → ∃ r, Reads e rules i br r)
    (override : Bool) :
    Sources e.rules e.regexes (sourceAt rules)
      ((indexed (scanEntry override) rules).map Prod.fst) := by
  intro id hid
  obtain ⟨⟨_, toks⟩, hentry, rfl⟩ := List.mem_map.mp hid
  obtain ⟨br, hbr, hsource, -, -⟩ := (mem_scanEntries hcount).mp hentry
  obtain ⟨source, hsource⟩ := Option.isSome_iff_exists.mp hsource
  obtain ⟨r, hr⟩ := hreads _ _ hbr
  have hscan : r.kind.isScan = true := by
    rw [hr.kind, ruleKind]
    unfold regexSource at hsource
    split at hsource <;> simp_all [Kind.isScan]
  simp [sourceOf, sourceAt, hr.record, hscan, hr.regex source hsource, hbr, hsource]

theorem fromRules_built (env : BuildEnv) (rx : RegexEngine) {rules : List BuildRule}
    (hcount : rules.length < 2 ^ 32) :
    ∃ e, fromRules env rx rules = some e ∧ Built env rx rules e := by
  have hb := Builder.ofRules_holds env rules
  set b := Builder.ofRules env rules with hbdef
  -- The scan groups are built over the same records and regexes as the engine has.
  let shell : FilterEngine :=
    { rules := b.records, rawArena := b.rawArena, domainArena := b.domainArena
      mods := b.mods, regexes := b.regexes, dhash := env.dhash
      exactIndex := DomainIndex.build env b.exactPairs
      subdomainIndex := DomainIndex.build env b.subPairs
      overrideScan := {}, blockScan := {}
      hasClientDependentRules := b.hasClientDependentRules
      contentHash := env.contentHasher b.content }
  have hshell : ∀ i br, rules[i]? = some br → ∃ r, Reads shell rules i br r :=
    fun i br h => ⟨_, reads_of_builder hb hcount rfl rfl rfl rfl rfl h⟩
  obtain ⟨g₁, hg₁, hold₁⟩ := buildScanGroup_holds rx
    (sources_of_reads hcount hshell true) false
  obtain ⟨g₂, hg₂, hold₂⟩ := buildScanGroup_holds rx
    (sources_of_reads hcount hshell false) true
  rw [← hb.overrideMeta] at hg₁
  rw [← hb.blockMeta] at hg₂
  refine ⟨{ shell with overrideScan := g₁, blockScan := g₂ }, ?_, ?_⟩
  · simp only [fromRules, ← hbdef]
    rw [hg₁, hg₂]
    rfl
  · constructor
    · exact hb.length
    · exact fun i br h => ⟨_, reads_of_builder hb hcount rfl rfl rfl rfl rfl h⟩
    · rfl
    · simp only [shell, hb.exactPairs]
    · simp only [shell, hb.subPairs]
    · exact hold₁
    · exact hold₂
    · exact hb.clientDependent
    · simp only [shell, hb.content]

/-! ## Candidates that pass -/

def storedMatches (rules : List BuildRule) (i : Nat) (br : BuildRule)
    (domain : Text) : Bool :=
  match br.rule.pattern with
  | .exact _ => (storedDomain rules i br).any (· == domain)
  | .subdomain _ => (storedDomain rules i br).any (isSubdomainOf domain)
  | .wildcard _ | .regex _ => true

def passes (rules : List BuildRule) (domain rtype : Text) (client : ClientInfo)
    (id : Nat) : Bool :=
  (rules[id]?).any fun br => storedMatches rules id br domain &&
    modsApply br.rule.action br.rule.mods domain rtype client

def priorityAt (rules : List BuildRule) (id : Nat) : Nat :=
  ((rules[id]?).map (·.rule.priority)).getD 0

def DomainsReadable (rules : List BuildRule) : Prop :=
  ∀ i br, rules[i]? = some br → regexSource br = none →
    (storedDomain rules i br).isSome = true

def ReadableAt (rules : List BuildRule) (i : Nat) : Prop :=
  ∀ br, rules[i]? = some br → regexSource br = none →
    (storedDomain rules i br).isSome = true

namespace FilterEngine

/-- The loop variables `best` and `best_prio` for a champion. -/
def asBest (key : Nat → Nat) (best : Option Nat) : Best :=
  (best, (best.map key).getD 0)

variable {env : BuildEnv} {rx : RegexEngine} {rules : List BuildRule}
  {e : FilterEngine} {domain rtype : Text} {client : ClientInfo}

theorem domainMatches_eq {i : Nat} {br : BuildRule} {r : RuleRecord}
    (hr : Reads e rules i br r) (hread : ReadableAt rules i)
    (hbr : rules[i]? = some br) :
    e.domainMatches r domain = some (storedMatches rules i br domain) := by
  have hdomain := hr.domain
  have hkind := hr.kind
  have hsome := hread br hbr
  rw [domainMatches]
  cases hp : br.rule.pattern <;>
    simp only [hp, ruleKind, regexSource, storedMatches] at hkind hsome ⊢ <;>
    simp only [hkind, Kind.isScan, forall_const] at hdomain ⊢
  all_goals
    obtain ⟨d, hd⟩ := Option.isSome_iff_exists.mp (hsome trivial)
    simp [hdomain, hd]

theorem readableAt_of_considerOne (hb : Built env rx rules e) {id : Nat} {best next : Best}
    (h : e.considerOne domain rtype client best id = some next) : ReadableAt rules id := by
  intro br hbr hs
  obtain ⟨r, hr⟩ := hb.reads id br hbr
  have hdomain := hr.domain
  rw [considerOne, hr.record] at h
  simp only [Option.bind_eq_bind, Option.bind_some, Option.bind_eq_some_iff] at h
  obtain ⟨b, hmatches, -⟩ := h
  rw [domainMatches] at hmatches
  cases hp : br.rule.pattern <;>
    simp only [hr.kind, hp, ruleKind, Kind.isScan, forall_const] at hdomain hmatches
  · rw [hdomain, Option.map_eq_some_iff] at hmatches
    obtain ⟨d, hd, -⟩ := hmatches
    rw [hd]
    rfl
  · rw [hdomain, Option.map_eq_some_iff] at hmatches
    obtain ⟨d, hd, -⟩ := hmatches
    rw [hd]
    rfl
  · simp [regexSource, hp] at hs
  · simp [regexSource, hp] at hs

theorem readableAt_of_consider (hb : Built env rx rules e) {ids : List Nat}
    {best last : Best} (h : e.consider domain rtype client ids best = some last) :
    ∀ id ∈ ids, ReadableAt rules id := by
  induction ids generalizing best with
  | nil => simp
  | cons id ids ih =>
      rw [consider, Option.bind_eq_bind, Option.bind_eq_some_iff] at h
      obtain ⟨next, hone, hrest⟩ := h
      intro i hi
      rcases List.mem_cons.mp hi with rfl | hi
      · exact readableAt_of_considerOne hb hone
      · exact ih hrest i hi

theorem considerOne_eq (hb : Built env rx rules e) {id : Nat} (hread : ReadableAt rules id)
    (hid : id < rules.length) (best : Option Nat) :
    e.considerOne domain rtype client (asBest (priorityAt rules) best) id =
      some (asBest (priorityAt rules)
        (if passes rules domain rtype client id then
          champion (priorityAt rules) best (some id) else best)) := by
  obtain ⟨br, hbr⟩ : ∃ br, rules[id]? = some br := ⟨_, List.getElem?_eq_getElem hid⟩
  obtain ⟨r, hr⟩ := hb.reads id br hbr
  have hprio : e.priority r = some (priorityAt rules id) := by
    simp [priority, hr.mods, hr.action, priorityAt, hbr, Rule.priority]
  have happ : e.applicable r domain rtype client =
      some (modsApply br.rule.action br.rule.mods domain rtype client) := by
    simp [applicable, hr.mods, hr.action]
  rw [considerOne, hr.record]
  simp only [Option.bind_eq_bind, Option.bind_some, domainMatches_eq hr hread hbr,
    happ, hprio, passes, hbr, Option.any_some]
  cases storedMatches rules id br domain with
  | false => simp
  | true =>
      cases modsApply br.rule.action br.rule.mods domain rtype client with
      | false => simp
      | true =>
          cases best with
          | none => simp [asBest, champion]
          | some b =>
              by_cases hlt : priorityAt rules b < priorityAt rules id <;>
                simp [asBest, champion, hlt]

theorem consider_eq (hb : Built env rx rules e) {ids : List Nat}
    (hread : ∀ id ∈ ids, ReadableAt rules id) (hids : ∀ id ∈ ids, id < rules.length)
    (best : Option Nat) :
    e.consider domain rtype client ids (asBest (priorityAt rules) best) =
      some (asBest (priorityAt rules) (champion (priorityAt rules) best
        (firstMax (priorityAt rules)
          (ids.filter (passes rules domain rtype client))))) := by
  induction ids generalizing best with
  | nil => simp [consider, firstMax]
  | cons id ids ih =>
      have htail := ih (fun i hi => hread i (List.mem_cons_of_mem _ hi))
        fun i hi => hids i (List.mem_cons_of_mem _ hi)
      rw [consider, considerOne_eq hb (hread id List.mem_cons_self)
        (hids id List.mem_cons_self)]
      simp only [Option.bind_eq_bind, Option.bind_some, List.filter_cons]
      rw [htail]
      split
      · rw [firstMax_round]
      · rfl

end FilterEngine

/-! ## Candidates in the order they are considered -/

section

variable (env : BuildEnv) (rx : RegexEngine) (rules : List BuildRule) (domain : Text)

def exactHits : List Nat :=
  ((env.sortByHash (indexed (exactPair env) rules)).filter
    (·.1 == env.dhash domain)).map Prod.snd

def suffixHits (suffixes : List Text) : List Nat :=
  suffixes.flatMap fun hay =>
    ((env.sortByHash (indexed (subPair env) rules)).filter
      (·.1 == env.dhash hay)).map Prod.snd

def subdomainHits : List Nat := suffixHits env rules (domain :: parents domain)

def overrideHits : List Nat :=
  scanHits rx (sourceAt rules) false (indexed (scanEntry true) rules) domain []

def blockHits : List Nat :=
  scanHits rx (sourceAt rules) true (indexed (scanEntry false) rules) domain
    (forEachQueryToken domain)

/-- What the first call of `consider` sees. -/
def firstHits : List Nat :=
  exactHits env rules domain ++ subdomainHits env rules domain ++
    overrideHits rx rules domain

def winner (rtype : Text) (client : ClientInfo) : Option Nat :=
  let pass := passes rules domain rtype client
  match firstMax (priorityAt rules) ((firstHits env rx rules domain).filter pass) with
  | some id => some id
  | none => firstMax (priorityAt rules) ((blockHits rx rules domain).filter pass)

end

section

variable {env : BuildEnv} {rx : RegexEngine} {rules : List BuildRule} {domain : Text}
  {id : Nat}

private theorem mem_patternPairs {pair : BuildRule → Nat → Option (Nat × Nat)}
    {kind : Text → Pattern}
    (hpair : ∀ br i x, pair br i = some x ↔
      ∃ d, br.rule.pattern = kind d ∧ x = (env.dhash d, asU32 i))
    (hcount : rules.length < 2 ^ 32) {h : Nat} :
    (h, id) ∈ indexed pair rules ↔
      ∃ br d, rules[id]? = some br ∧ br.rule.pattern = kind d ∧ h = env.dhash d := by
  rw [mem_indexed]
  constructor
  · rintro ⟨i, br, hbr, hi⟩
    obtain ⟨d, hd, hx⟩ := (hpair br i _).mp hi
    rw [asU32_of_lt (lt_trans (List.getElem?_eq_some_iff.mp hbr).1 hcount)] at hx
    obtain ⟨rfl, rfl⟩ := Prod.mk.inj hx
    exact ⟨br, d, hbr, hd, rfl⟩
  · rintro ⟨br, d, hbr, hd, rfl⟩
    refine ⟨id, br, hbr, (hpair br id _).mpr ⟨d, hd, ?_⟩⟩
    rw [asU32_of_lt (lt_trans (List.getElem?_eq_some_iff.mp hbr).1 hcount)]

theorem mem_exactPairs (hcount : rules.length < 2 ^ 32) {h : Nat} :
    (h, id) ∈ indexed (exactPair env) rules ↔
      ∃ br d, rules[id]? = some br ∧ br.rule.pattern = .exact d ∧ h = env.dhash d := by
  refine mem_patternPairs (fun br i x => ?_) hcount
  rw [exactPair]
  split <;> simp_all [eq_comm]

theorem mem_subPairs (hcount : rules.length < 2 ^ 32) {h : Nat} :
    (h, id) ∈ indexed (subPair env) rules ↔
      ∃ br d, rules[id]? = some br ∧ br.rule.pattern = .subdomain d ∧
        h = env.dhash d := by
  refine mem_patternPairs (fun br i x => ?_) hcount
  rw [subPair]
  split <;> simp_all [eq_comm]

theorem mem_sortedHits {pairs : List (Nat × Nat)} {h : Nat} :
    id ∈ ((env.sortByHash pairs).filter (·.1 == h)).map Prod.snd ↔ (h, id) ∈ pairs := by
  simp only [List.mem_map, List.mem_filter, beq_iff_eq, Prod.exists,
    exists_eq_right, (env.sort_perm pairs).mem_iff]

theorem mem_exactHits (hcount : rules.length < 2 ^ 32) :
    id ∈ exactHits env rules domain ↔
      ∃ br d, rules[id]? = some br ∧ br.rule.pattern = .exact d ∧
        env.dhash domain = env.dhash d := by
  rw [exactHits, mem_sortedHits, mem_exactPairs hcount]

theorem mem_suffixHits (hcount : rules.length < 2 ^ 32) {suffixes : List Text} :
    id ∈ suffixHits env rules suffixes ↔
      ∃ br d, rules[id]? = some br ∧ br.rule.pattern = .subdomain d ∧
        ∃ hay ∈ suffixes, env.dhash hay = env.dhash d := by
  simp only [suffixHits, List.mem_flatMap, mem_sortedHits, mem_subPairs hcount]
  constructor
  · rintro ⟨hay, hhay, br, d, hbr, hd, hh⟩
    exact ⟨br, d, hbr, hd, hay, hhay, hh⟩
  · rintro ⟨br, d, hbr, hd, hay, hhay, hh⟩
    exact ⟨hay, hhay, br, d, hbr, hd, hh⟩

theorem mem_subdomainHits (hcount : rules.length < 2 ^ 32) :
    id ∈ subdomainHits env rules domain ↔
      ∃ br d, rules[id]? = some br ∧ br.rule.pattern = .subdomain d ∧
        ∃ hay ∈ domain :: parents domain, env.dhash hay = env.dhash d :=
  mem_suffixHits hcount

theorem mem_overrideHits (hcount : rules.length < 2 ^ 32) :
    id ∈ overrideHits rx rules domain ↔
      ∃ br source, rules[id]? = some br ∧ regexSource br = some source ∧
        isOverrideCapable br.rule = true ∧ rx.isMatch source domain = true := by
  constructor
  · intro h
    obtain ⟨hmem, hm⟩ := mem_entries_of_scanHits h
    obtain ⟨⟨_, toks⟩, hentry, rfl⟩ := List.mem_map.mp hmem
    obtain ⟨br, hbr, hsource, hover, -⟩ := (mem_scanEntries hcount).mp hentry
    obtain ⟨source, hsource⟩ := Option.isSome_iff_exists.mp hsource
    refine ⟨br, source, hbr, hsource, hover, ?_⟩
    simpa [sourceAt, hbr, hsource] using hm
  · rintro ⟨br, source, hbr, hsource, hover, hm⟩
    have hentry : (id, br.indexTokens) ∈ indexed (scanEntry true) rules :=
      (mem_scanEntries hcount).mpr ⟨br, hbr, by simp [hsource], hover, rfl⟩
    refine scanHits_complete hentry ?_ (by simp)
    simpa [sourceAt, hbr, hsource] using hm

theorem of_mem_blockHits (hcount : rules.length < 2 ^ 32)
    (h : id ∈ blockHits rx rules domain) :
    ∃ br source, rules[id]? = some br ∧ regexSource br = some source ∧
      isOverrideCapable br.rule = false ∧ rx.isMatch source domain = true := by
  obtain ⟨hmem, hm⟩ := mem_entries_of_scanHits h
  obtain ⟨⟨_, toks⟩, hentry, rfl⟩ := List.mem_map.mp hmem
  obtain ⟨br, hbr, hsource, hover, -⟩ := (mem_scanEntries hcount).mp hentry
  obtain ⟨source, hsource⟩ := Option.isSome_iff_exists.mp hsource
  refine ⟨br, source, hbr, hsource, hover, ?_⟩
  simpa [sourceAt, hbr, hsource] using hm

theorem mem_blockHits (hcount : rules.length < 2 ^ 32) {br : BuildRule}
    {source : Text} (hbr : rules[id]? = some br) (hsource : regexSource br = some source)
    (hover : isOverrideCapable br.rule = false) (hm : rx.isMatch source domain = true)
    (hcover : ∀ tok ∈ br.indexTokens, tok ∈ forEachQueryToken domain) :
    id ∈ blockHits rx rules domain := by
  have hentry : (id, br.indexTokens) ∈ indexed (scanEntry false) rules :=
    (mem_scanEntries hcount).mpr ⟨br, hbr, by simp [hsource], hover, rfl⟩
  refine scanHits_complete hentry ?_ fun _ => hcover
  simpa [sourceAt, hbr, hsource] using hm

theorem lt_of_mem_firstHits (hcount : rules.length < 2 ^ 32)
    (h : id ∈ firstHits env rx rules domain) : id < rules.length := by
  rw [firstHits, List.mem_append, List.mem_append, mem_exactHits hcount,
    mem_subdomainHits hcount, mem_overrideHits hcount] at h
  rcases h with (⟨br, d, hbr, -⟩ | ⟨br, d, hbr, -⟩) | ⟨br, source, hbr, -⟩ <;>
    exact (List.getElem?_eq_some_iff.mp hbr).1

end

/-! ## The winner -/

namespace FilterEngine

variable {env : BuildEnv} {rx : RegexEngine} {rules : List BuildRule}
  {e : FilterEngine} {domain rtype : Text} {client : ClientInfo}

private theorem length_indexed_lt {α : Type} (hcount : rules.length < 2 ^ 32)
    (entry : BuildRule → Nat → Option α) : (indexed entry rules).length < 2 ^ 32 := by
  refine lt_of_le_of_lt (List.length_filterMap_le _ _) ?_
  simpa using hcount

theorem collectSuffixes_eq (hb : Built env rx rules e) (hcount : rules.length < 2 ^ 32)
    (suffixes : List Text) :
    e.collectSuffixes suffixes = some (suffixHits env rules suffixes) := by
  induction suffixes with
  | nil => rfl
  | cons hay rest ih =>
      rw [collectSuffixes, ih, hb.subdomainIndex, hb.dhash,
        DomainIndex.get_build env (length_indexed_lt hcount _)]
      simp [suffixHits]

theorem collectDomain_eq (hb : Built env rx rules e) (hcount : rules.length < 2 ^ 32) :
    e.collectDomain domain =
      some (exactHits env rules domain ++ subdomainHits env rules domain) := by
  have hexact : (if e.exactIndex.isEmpty then some []
      else e.exactIndex.get (e.dhash domain)) = some (exactHits env rules domain) := by
    have hget := DomainIndex.get_build env (length_indexed_lt hcount (exactPair env))
      (env.dhash domain)
    rw [hb.exactIndex, hb.dhash]
    split
    · rename_i hempty
      rw [← DomainIndex.isEmpty_build env (length_indexed_lt hcount _) hempty, hget]
      rfl
    · exact hget
  have hsub : (if e.subdomainIndex.isEmpty then some []
      else e.collectSuffixes (domain :: parents domain)) =
        some (subdomainHits env rules domain) := by
    split
    · rename_i hempty
      rw [hb.subdomainIndex] at hempty
      have hnil : ∀ hay, ((env.sortByHash (indexed (subPair env) rules)).filter
          (·.1 == env.dhash hay)).map Prod.snd = [] := by
        intro hay
        have hlen := length_indexed_lt hcount (subPair env)
        have h₁ := DomainIndex.isEmpty_build env hlen hempty (env.dhash hay)
        rw [DomainIndex.get_build env hlen] at h₁
        exact Option.some.inj h₁
      simp only [subdomainHits, suffixHits, hnil]
      simp
    · exact collectSuffixes_eq hb hcount _
  have hdef : e.collectDomain domain =
      (if e.exactIndex.isEmpty then some []
        else e.exactIndex.get (e.dhash domain)).bind fun exactHits =>
      (if e.subdomainIndex.isEmpty then some []
        else e.collectSuffixes (domain :: parents domain)).bind fun subHits =>
      some (exactHits ++ subHits) := by
    rw [collectDomain]
    split <;> split <;> rfl
  rw [hdef, hexact, hsub]
  rfl

private theorem filedOf_of_isEmpty {source : Nat → Text} {entries : ScanMeta}
    {g : ScanGroup} (hg : GroupHolds rx source true entries g)
    (hempty : g.scanIndex.entries.isEmpty = true) (tok : UInt32) :
    filedOf true entries tok = [] := by
  have hnone : g.scanIndex.lookup tok = none := by
    rw [AList.lookup_eq_none, AList.mem_keys, AList.keys, List.isEmpty_iff.mp hempty]
    simp
  rw [← hg.index, hnone]
  rfl

private theorem isEmpty_hits {source : Nat → Text} {entries : ScanMeta}
    {g : ScanGroup} (hg : GroupHolds rx source true entries g)
    (hempty : g.isEmpty = true) (tokens : List UInt32) :
    scanHits rx source true entries domain tokens = [] := by
  simp only [ScanGroup.isEmpty, Bool.and_eq_true] at hempty
  obtain ⟨⟨hindex, hsets⟩, hind⟩ := hempty
  rw [List.isEmpty_iff] at hsets hind
  simp [scanHits, ← hg.sets, ← hg.individual, hsets, hind,
    filedOf_of_isEmpty hg hindex]

private theorem noTokens_hits {source : Nat → Text} {entries : ScanMeta}
    {g : ScanGroup} (hg : GroupHolds rx source true entries g)
    (hempty : g.scanIndex.entries.isEmpty = true) (tokens : List UInt32) :
    scanHits rx source true entries domain [] =
      scanHits rx source true entries domain tokens := by
  simp [scanHits, filedOf_of_isEmpty hg hempty]

private theorem overrideScan_eq (hb : Built env rx rules e) (hcount : rules.length < 2 ^ 32) :
    e.scanGroup rx e.overrideScan domain [] = some (overrideHits rx rules domain) :=
  scanGroup_eq hb.overrideScan (sources_of_reads hcount hb.reads true) []

theorem readableAt_of_bestId (hb : Built env rx rules e) (hcount : rules.length < 2 ^ 32)
    {best : Option Nat} (h : e.bestId rx domain rtype client = some best) :
    ∀ id ∈ firstHits env rx rules domain, ReadableAt rules id := by
  rw [bestId, collectDomain_eq hb hcount, overrideScan_eq hb hcount] at h
  simp only [Option.bind_eq_bind, Option.bind_some, Option.bind_eq_some_iff] at h
  obtain ⟨last, hconsider, -⟩ := h
  exact readableAt_of_consider hb hconsider

theorem bestId_eq_of_readableAt (hb : Built env rx rules e) (hcount : rules.length < 2 ^ 32)
    (hread : ∀ id ∈ firstHits env rx rules domain, ReadableAt rules id) :
    e.bestId rx domain rtype client = some (winner env rx rules domain rtype client) := by
  have hblock : e.scanGroup rx e.blockScan domain
      (if e.blockScan.scanIndex.entries.isEmpty then [] else forEachQueryToken domain) =
      some (blockHits rx rules domain) := by
    rw [scanGroup_eq hb.blockScan (sources_of_reads hcount hb.reads false)]
    split
    · rename_i hempty
      rw [noTokens_hits hb.blockScan hempty (forEachQueryToken domain)]
      rfl
    · rfl
  have hvalid₁ : ∀ id ∈ firstHits env rx rules domain, id < rules.length :=
    fun _ => lt_of_mem_firstHits hcount
  have hvalid₂ : ∀ id ∈ blockHits rx rules domain, id < rules.length := by
    intro id hid
    obtain ⟨br, source, hbr, -⟩ := of_mem_blockHits hcount hid
    exact (List.getElem?_eq_some_iff.mp hbr).1
  have hscan : ∀ id ∈ blockHits rx rules domain, ReadableAt rules id := by
    intro id hid br hbr hs
    obtain ⟨br', source, hbr', hs', -⟩ := of_mem_blockHits hcount hid
    obtain rfl : br = br' := Option.some.inj (hbr.symm.trans hbr')
    simp [hs] at hs'
  have hfirst := @consider_eq _ _ _ _ domain rtype client hb _ hread hvalid₁ none
  have hsecond := @consider_eq _ _ _ _ domain rtype client hb _ hscan hvalid₂ none
  rw [show asBest (priorityAt rules) none = (none, 0) from rfl] at hfirst hsecond
  rw [bestId, collectDomain_eq hb hcount, overrideScan_eq hb hcount]
  simp only [Option.bind_eq_bind, Option.bind_some]
  rw [show exactHits env rules domain ++ subdomainHits env rules domain ++
    overrideHits rx rules domain = firstHits env rx rules domain from rfl, hfirst]
  simp only [Option.bind_some, champion, winner]
  cases hf : firstMax (priorityAt rules)
      ((firstHits env rx rules domain).filter (passes rules domain rtype client)) with
  | some id => simp [asBest]
  | none =>
      simp only [asBest, Option.map_none, Option.getD_none, Option.isNone_none,
        Bool.true_and]
      cases hempty : e.blockScan.isEmpty with
      | true =>
          have hnil : blockHits rx rules domain = [] :=
            isEmpty_hits hb.blockScan hempty _
          simp [hnil, firstMax]
      | false =>
          rw [if_pos (by simp), hblock, Option.bind_some, hsecond]
          rfl

theorem bestId_eq (hb : Built env rx rules e) (hcount : rules.length < 2 ^ 32)
    (hread : DomainsReadable rules) :
    e.bestId rx domain rtype client = some (winner env rx rules domain rtype client) :=
  bestId_eq_of_readableAt hb hcount fun id _ br hbr => hread id br hbr

end FilterEngine

theorem mem_of_winner {env : BuildEnv} {rx : RegexEngine} {rules : List BuildRule}
    {domain rtype : Text} {client : ClientInfo} {id : Nat}
    (h : winner env rx rules domain rtype client = some id) :
    (id ∈ firstHits env rx rules domain ∨ id ∈ blockHits rx rules domain) ∧
      passes rules domain rtype client id = true := by
  rw [winner] at h
  split at h
  · rename_i first hmax
    cases h
    obtain ⟨hmem, hpass⟩ := List.mem_filter.mp (firstMax_spec hmax).1
    exact ⟨.inl hmem, hpass⟩
  · obtain ⟨hmem, hpass⟩ := List.mem_filter.mp (firstMax_spec h).1
    exact ⟨.inr hmem, hpass⟩

end Bulwark.Filter
