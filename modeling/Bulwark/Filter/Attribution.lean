import Bulwark.Filter.Rebuild
import Bulwark.Filter.Signature

/-!
# What a match is attributed to

A verdict names its rule by the line, the list id and the position that the
compact record holds: the list id keeps 16 bits, the line at most 65535 bytes.
De-duplication keeps the rule of the first list with a signature.  A match is
attributed to its own list and line exactly when its rule fits its record.
-/

namespace Bulwark.Filter

open Bulwark.Foundation

/-! ## The first list with a rule -/

section

variable {ext : External}

def HasSignature (ext : External) (l : Nat × Text × Text) (sig : Text) : Prop :=
  ∃ line ∈ lines l.2.2, ∃ br, ParsedFrom ext line br ∧ br.signature = sig

/-- `br` is parsed from a line of `l`, and no list added before `l` has its signature. -/
structure FirstListOf (ext : External) (lists : Lists) (l : Nat × Text × Text)
    (br : BuildRule) : Prop where
  line : ∃ line ∈ lines l.2.2, ∃ parsed, ParsedFrom ext line parsed ∧
    br = withList l.1 parsed
  first : ∃ before after, lists = before ++ l :: after ∧
    ∀ l' ∈ before, ¬ HasSignature ext l' br.signature

theorem find?_of_mem_keepFirst {seen : List Text} {rules : List BuildRule} {br : BuildRule}
    (h : br ∈ keepFirst seen rules) :
    br.signature ∉ seen ∧ rules.find? (fun r => r.signature = br.signature) = some br := by
  induction rules generalizing seen with
  | nil => cases h
  | cons first rules ih =>
      rw [keepFirst] at h
      split at h
      · rename_i hseen
        obtain ⟨hnot, hfind⟩ := ih h
        have hne : first.signature ≠ br.signature := fun heq => hnot (heq ▸ hseen)
        exact ⟨hnot, by simpa [hne] using hfind⟩
      · rename_i hseen
        rcases List.mem_cons.mp h with rfl | h
        · exact ⟨hseen, by simp⟩
        · obtain ⟨hnot, hfind⟩ := ih h
          rw [List.mem_cons, not_or] at hnot
          have hne : first.signature ≠ br.signature := Ne.symm hnot.1
          exact ⟨hnot.2, by simpa [hne] using hfind⟩

theorem firstListOf_of_mem {lists : Lists} {br : BuildRule}
    (h : br ∈ compiledRules ext lists) : ∃ l, FirstListOf ext lists l br := by
  obtain ⟨hadded, hsigs⟩ := @added_compileLists ext lists
  obtain ⟨-, hfind⟩ := find?_of_mem_keepFirst ((pruneRedundant_sublist _).subset h)
  have hactive : br.signature ∉ (compileLists ext lists).badfilterSigs := by
    simpa using (List.mem_filter.mp (List.mem_of_find?_eq_some hfind)).2
  rw [List.find?_filter, hadded, List.nil_append, List.find?_filter, List.find?_flatMap,
    List.findSome?_eq_some_iff] at hfind
  obtain ⟨before, l, after, hsplit, hfind, hbefore⟩ := hfind
  refine ⟨l, ?_, before, after, hsplit, ?_⟩
  · obtain ⟨line, hline, hmem⟩ := List.mem_flatMap.mp (List.mem_of_find?_eq_some hfind)
    obtain ⟨parsed, hparsed, rfl⟩ := List.mem_map.mp hmem
    exact ⟨line, hline, parsed, mem_parsedRules.mp hparsed, rfl⟩
  · rintro l' hl' ⟨line, hline, parsed, hparsed, hsig⟩
    have hmem : withList l'.1 parsed ∈ listRules ext l' :=
      List.mem_flatMap.mpr ⟨line, hline,
        List.mem_map.mpr ⟨parsed, mem_parsedRules.mpr hparsed, rfl⟩⟩
    have hsig' : (withList l'.1 parsed).signature = br.signature := hsig
    cases hbad : parsed.badfilter with
    | true =>
        -- A `$badfilter` of that signature would have cancelled `br`.
        apply hactive
        rw [hsigs]
        refine .inr ⟨withList l'.1 parsed, ?_, hbad, hsig⟩
        rw [hsplit]
        exact List.mem_flatMap.mpr ⟨l', List.mem_append_left _ hl', hmem⟩
    | false =>
        have hbad' : (withList l'.1 parsed).badfilter = false := hbad
        have hnone := List.find?_eq_none.mp (hbefore l' hl') _ hmem
        simp [hbad', hsig', hactive] at hnone

end

/-! ## A rule by itself -/

def Verdict.info : Verdict → Option MatchInfo
  | .allow rule => rule
  | .block info => some info
  | .rewrite info _ => some info

/-- The same verdict about the rule at position `id`. -/
def Verdict.withRuleId (id : Nat) : Verdict → Verdict
  | .allow rule => .allow (rule.map fun info => { info with ruleId := id })
  | .block info => .block { info with ruleId := id }
  | .rewrite info data => .rewrite { info with ruleId := id } data

/-- The verdict of an engine with this rule only. -/
def verdictAlone (env : BuildEnv) (rx : RegexEngine) (br : BuildRule)
    (query rtype : Text) (client : ClientInfo) : Option Verdict := do
  let e ← fromRules env rx [br]
  e.check rx query rtype client

/-- The token an engine of this rule only files it under occurs in the name. -/
def SoleTokenSeen (br : BuildRule) (name : Text) : Prop :=
  ∀ tok, minByKey (tokenFreq [(0, br.indexTokens)]) br.indexTokens = some tok →
    tok ∈ forEachQueryToken name

/-- What an engine of this rule only finds it by. -/
def Found (env : BuildEnv) (rx : RegexEngine) (br : BuildRule) (name : Text) : Prop :=
  match br.rule.pattern with
  | .exact d => env.dhash name = env.dhash d
  | .subdomain d => ∃ hay ∈ name :: parents name, env.dhash hay = env.dhash d
  | .wildcard re | .regex re => rx.isMatch re.asStr name = true ∧
      (isOverrideCapable br.rule = false → SoleTokenSeen br name)

section

variable {env : BuildEnv} {rx : RegexEngine} {br : BuildRule} {name rtype : Text}
  {client : ClientInfo}

private theorem singleton_count : [br].length < 2 ^ 32 := by simp

private theorem getElem?_singleton_iff {br' : BuildRule} {i : Nat} :
    [br][i]? = some br' ↔ i = 0 ∧ br = br' := by
  cases i <;> simp

theorem mem_blockHits_singleton :
    0 ∈ blockHits rx [br] name ↔ ∃ source, regexSource br = some source ∧
      isOverrideCapable br.rule = false ∧ rx.isMatch source name = true ∧
      SoleTokenSeen br name := by
  have hentries : indexed (scanEntry false) [br] = (scanEntry false br 0).toList :=
    indexed_append (scanEntry false) [] br
  rw [blockHits, mem_scanHits, hentries, scanEntry]
  cases hs : regexSource br with
  | none => simp [fallbackOf, filedOf, unfiled, filedUnder]
  | some source =>
      cases ho : isOverrideCapable br.rule with
      | true => simp [fallbackOf, filedOf, unfiled, filedUnder]
      | false =>
          have hzero : asU32 0 = 0 := rfl
          have hsource : sourceAt [br] 0 = source := by simp [sourceAt, hs]
          simp only [hzero, hsource, Option.isSome_some, true_and, if_true, Option.toList_some,
            fallbackOf, filedOf, unfiled, filedUnder, SoleTokenSeen]
          cases hmin : minByKey (tokenFreq [(0, br.indexTokens)]) br.indexTokens with
          | none =>
              have hnil := minByKey_eq_none_iff.mp hmin
              simp [hnil]
          | some tok =>
              have hne : br.indexTokens ≠ [] := by
                rintro hnil
                simp [hnil, minByKey] at hmin
              simp [hmin, hne, and_comm]

theorem found_iff :
    0 ∈ firstHits env rx [br] name ∨ 0 ∈ blockHits rx [br] name ↔ Found env rx br name := by
  rw [firstHits, List.mem_append, List.mem_append, mem_exactHits singleton_count,
    mem_subdomainHits singleton_count, mem_overrideHits singleton_count,
    mem_blockHits_singleton, Found]
  cases hp : br.rule.pattern with
  | exact d => simp [regexSource, hp]
  | subdomain d => simp [regexSource, hp]
  | wildcard re | regex re =>
      cases ho : isOverrideCapable br.rule <;> simp [regexSource, hp, ho]

theorem winner_singleton_iff :
    winner env rx [br] name rtype client = some 0 ↔
      Found env rx br name ∧ passes [br] name rtype client 0 = true := by
  rw [← found_iff]
  constructor
  · exact mem_of_winner
  · rintro ⟨hmem, hpass⟩
    have honly : ∀ id, winner env rx [br] name rtype client = some id → id = 0 := by
      intro id hw
      obtain ⟨br', hbr, -⟩ := (Option.any_eq_true _ _).mp (mem_of_winner hw).2
      exact (getElem?_singleton_iff.mp hbr).1
    cases hw : winner env rx [br] name rtype client with
    | some id => rw [honly id hw]
    | none =>
        rw [winner] at hw
        split at hw
        · cases hw
        · rename_i hfirst
          have hnil := firstMax_eq_none_iff.mp hfirst
          have hnil' := firstMax_eq_none_iff.mp hw
          rcases hmem with hmem | hmem
          · simpa [hnil] using List.mem_filter.mpr ⟨hmem, hpass⟩
          · simpa [hnil'] using List.mem_filter.mpr ⟨hmem, hpass⟩

end

/-! ## Records that tell their rule -/

/-- `piece` is found at the offset `start`, which keeps 32 bits. -/
def StandsAt (arena : Text) (start : Nat) (piece : Text) : Prop :=
  sliceBytes arena (asU32 start) (utf8Len piece) = some piece

/-- The narrow fields of its record hold list id, line and name of rule `i`. -/
structure RecordTells (rules : List BuildRule) (i : Nat) (br : BuildRule) : Prop where
  listId : br.rule.listId < 2 ^ 16
  line : utf8Len br.rule.raw ≤ 65535 ∧ StandsAt (rules.flatMap (·.rule.raw))
    (utf8Len ((rules.take i).flatMap (·.rule.raw))) br.rule.raw
  name : regexSource br = none → utf8Len br.rule.pattern.name ≤ 255 ∧
    StandsAt (rules.flatMap (·.rule.pattern.name))
      (utf8Len ((rules.take i).flatMap (·.rule.pattern.name))) br.rule.pattern.name

theorem utf8Len_of_sliceBytes {t piece : Text} {start len : Nat}
    (h : sliceBytes t start len = some piece) : utf8Len piece = len := by
  simp only [sliceBytes, Option.bind_eq_bind, Option.bind_eq_some_iff] at h
  obtain ⟨⟨front, back⟩, -, ⟨front', back'⟩, hsplit, heq⟩ := h
  cases heq
  exact (splitBytes_eq_some hsplit).2.symm

section

variable {rules : List BuildRule} {i : Nat} {br : BuildRule}

theorem storedRaw_eq_raw_iff :
    storedRaw rules i br = some br.rule.raw ↔
      utf8Len br.rule.raw ≤ 65535 ∧ StandsAt (rules.flatMap (·.rule.raw))
        (utf8Len ((rules.take i).flatMap (·.rule.raw))) br.rule.raw := by
  have hmax : maxRawLen = 65535 := rfl
  rw [storedRaw, StandsAt]
  constructor
  · intro h
    have hlen := utf8Len_of_sliceBytes h
    rw [← hlen] at h
    exact ⟨by omega, h⟩
  · rintro ⟨hle, h⟩
    rwa [Nat.min_eq_left (by omega)]

theorem storedDomain_eq_name_iff :
    storedDomain rules i br = some br.rule.pattern.name ↔
      utf8Len br.rule.pattern.name ≤ 255 ∧ StandsAt (rules.flatMap (·.rule.pattern.name))
        (utf8Len ((rules.take i).flatMap (·.rule.pattern.name))) br.rule.pattern.name := by
  have hname : domainText = fun br => br.rule.pattern.name := rfl
  simp only [storedDomain, StandsAt, hname]
  constructor
  · intro h
    have hlen := utf8Len_of_sliceBytes h
    rw [← hlen] at h
    exact ⟨by omega, h⟩
  · rintro ⟨hle, h⟩
    rwa [Nat.mod_eq_of_lt (by omega)]

end

/-! ## The verdict of a check that completes -/

section

variable {env : BuildEnv} {rx : RegexEngine} {rules : List BuildRule} {e : FilterEngine}
  {id : Nat} {br : BuildRule} {text : Text} {v : Verdict}

theorem info_verdictWith :
    (verdictWith text id br).info = some ⟨text, br.rule.listId % 2 ^ 16, id⟩ := by
  rw [verdictWith]
  cases br.rule.action <;> rfl

theorem withRuleId_verdictWith (i : Nat) :
    (verdictWith text id br).withRuleId i = verdictWith text i br := by
  rw [verdictWith, verdictWith]
  cases br.rule.action <;> rfl

theorem verdictOf_some (hb : Built env rx rules e) (hbr : rules[id]? = some br)
    (h : e.verdictOf id = some v) :
    ∃ text, storedRaw rules id br = some text ∧ v = verdictWith text id br := by
  obtain ⟨r, hr⟩ := hb.reads id br hbr
  simp only [FilterEngine.verdictOf, hr.record, hr.raw, hr.action, hr.listId, hr.mods,
    Option.bind_eq_bind, Option.bind_some, Option.bind_eq_some_iff] at h
  obtain ⟨text, htext, h⟩ := h
  refine ⟨text, htext, ?_⟩
  rw [verdictWith]
  cases ha : br.rule.action with
  | allow => simpa [ha] using h.symm
  | block => simpa [ha] using h.symm
  | rewrite =>
      simp only [ha, Option.bind_eq_some_iff] at h
      obtain ⟨data, ⟨m, hm, hdata⟩, h⟩ := h
      simpa [hm, hdata] using h.symm

theorem check_some (hb : Built env rx rules e) (hcount : rules.length < 2 ^ 32)
    {query rtype : Text} {client : ClientInfo}
    (h : e.check rx query rtype client = some v) :
    (winner env rx rules (FilterEngine.normalizeQuery query) rtype client = none ∧
      v = .allow none) ∨
    ∃ id br text, winner env rx rules (FilterEngine.normalizeQuery query) rtype client =
        some id ∧ rules[id]? = some br ∧ storedRaw rules id br = some text ∧
      v = verdictWith text id br := by
  rw [FilterEngine.check, Option.bind_eq_bind, Option.bind_eq_some_iff] at h
  obtain ⟨best, hbest, h⟩ := h
  have hread := FilterEngine.readableAt_of_bestId hb hcount hbest
  rw [FilterEngine.bestId_eq_of_readableAt hb hcount hread, Option.some.injEq] at hbest
  cases best with
  | none => exact .inl ⟨hbest, (Option.some.inj h).symm⟩
  | some id =>
      obtain ⟨br, hbr, -⟩ := (Option.any_eq_true _ _).mp (mem_of_winner hbest).2
      obtain ⟨text, htext, hv⟩ := verdictOf_some hb hbr h
      exact .inr ⟨id, br, text, hbest, hbr, htext, hv⟩

theorem winner_of_verdictAlone {query rtype : Text} {client : ClientInfo}
    (h : verdictAlone env rx br query rtype client = some v) (hv : v ≠ .allow none) :
    winner env rx [br] (FilterEngine.normalizeQuery query) rtype client = some 0 := by
  rw [verdictAlone, Option.bind_eq_bind, Option.bind_eq_some_iff] at h
  obtain ⟨e, he, hcheck⟩ := h
  obtain ⟨e', he', hb⟩ := fromRules_built env rx (@singleton_count br)
  obtain rfl : e = e' := Option.some.inj (he.symm.trans he')
  rcases check_some hb singleton_count hcheck with ⟨-, rfl⟩ | ⟨id, br', text, hw, hbr, -⟩
  · exact absurd rfl hv
  · rwa [(getElem?_singleton_iff.mp hbr).1] at hw

theorem verdictAlone_eq {query rtype : Text} {client : ClientInfo}
    (hrewrite : br.rule.action = .rewrite →
      ∃ m data, br.rule.mods = some m ∧ m.rewrite = some data)
    (hraw : storedRaw [br] 0 br = some br.rule.raw)
    (hname : regexSource br = none → storedDomain [br] 0 br = some br.rule.pattern.name)
    (hw : winner env rx [br] (FilterEngine.normalizeQuery query) rtype client = some 0) :
    verdictAlone env rx br query rtype client = some (verdictWith br.rule.raw 0 br) := by
  obtain ⟨e, he, hb⟩ := fromRules_built env rx (@singleton_count br)
  have hdomains : DomainsReadable [br] := by
    intro i br' hbr hs
    obtain ⟨rfl, rfl⟩ := getElem?_singleton_iff.mp hbr
    rw [hname hs]
    rfl
  have hbest := @FilterEngine.bestId_eq env rx [br] e (FilterEngine.normalizeQuery query)
    rtype client hb singleton_count hdomains
  rw [verdictAlone, he, Option.bind_eq_bind, Option.bind_some, FilterEngine.check, hbest, hw]
  exact verdictOf_eq hb rfl hraw hrewrite

end

/-! ## Found in the whole engine, found alone -/

/-- A hash that separates `d` from every other name. -/
def separating (d : Text) : BuildEnv := plainEnv fun t => if t = d then 1 else 0

theorem separating_eq_iff {d t : Text} :
    (separating d).dhash t = (separating d).dhash d ↔ t = d := by
  simp [separating, plainEnv]

theorem eq_of_suffix_of_utf8Len {s d t : Text} (hs : s <:+ t) (hd : d <:+ t)
    (hlen : utf8Len s = utf8Len d) : s = d := by
  have hone : ∀ {s d : Text}, s <:+ d → utf8Len s = utf8Len d → s = d := by
    rintro s d ⟨front, rfl⟩ hlen
    rw [utf8Len_append] at hlen
    cases front with
    | nil => rfl
    | cons c front =>
        have hpos := Char.utf8Size_pos c
        rw [utf8Len_cons] at hlen
        omega
  rcases List.suffix_or_suffix_of_suffix hs hd with h | h
  · exact hone h hlen
  · exact (hone h hlen.symm).symm

theorem suffix_of_isSubdomainOf {name d : Text} (h : isSubdomainOf name d = true) :
    d <:+ name := by
  rcases isSubdomainOf_iff.mp h with rfl | ⟨front, rfl⟩
  · exact List.suffix_refl _
  · exact ⟨front ++ ['.'], by simp⟩

section

variable {env env' : BuildEnv} {rx : RegexEngine} {rules : List BuildRule}
  {name rtype : Text} {client : ClientInfo} {id : Nat} {br : BuildRule}

theorem storedMatches_of_passes (hbr : rules[id]? = some br)
    (hpass : passes rules name rtype client id = true) :
    storedMatches rules id br name = true := by
  simp only [passes, hbr, Option.any_some, Bool.and_eq_true] at hpass
  exact hpass.1

theorem isMatch_of_winner (hcount : rules.length < 2 ^ 32)
    (hw : winner env rx rules name rtype client = some id) (hbr : rules[id]? = some br)
    {source : Text} (hs : regexSource br = some source) : rx.isMatch source name = true := by
  have hown : ∀ {br' source'}, rules[id]? = some br' → regexSource br' = some source' →
      source' = source := by
    intro br' source' hbr' hs'
    obtain rfl : br = br' := Option.some.inj (hbr.symm.trans hbr')
    exact Option.some.inj (hs'.symm.trans hs)
  rcases (mem_of_winner hw).1 with hmem | hmem
  · rw [firstHits, List.mem_append, List.mem_append, mem_exactHits hcount,
      mem_subdomainHits hcount, mem_overrideHits hcount] at hmem
    rcases hmem with (⟨br', d, hbr', hd, -⟩ | ⟨br', d, hbr', hd, -⟩) |
      ⟨br', source', hbr', hs', -, hm⟩
    · obtain rfl : br = br' := Option.some.inj (hbr.symm.trans hbr')
      simp [regexSource, hd] at hs
    · obtain rfl : br = br' := Option.some.inj (hbr.symm.trans hbr')
      simp [regexSource, hd] at hs
    · rwa [hown hbr' hs'] at hm
  · obtain ⟨br', source', hbr', hs', -, hm⟩ := of_mem_blockHits hcount hmem
    rwa [hown hbr' hs'] at hm

theorem found_of_winner (hcount : rules.length < 2 ^ 32)
    (hw : winner env rx rules name rtype client = some id) (hbr : rules[id]? = some br)
    (hname : regexSource br = none → storedDomain rules id br = some br.rule.pattern.name)
    (htok : isFirst br = false → SoleTokenSeen br name) : Found env' rx br name := by
  have hmatch := storedMatches_of_passes hbr (mem_of_winner hw).2
  rw [Found]
  cases hp : br.rule.pattern with
  | exact d =>
      have hstored := hname (by rw [regexSource, hp])
      simp only [storedMatches, hstored, hp, Pattern.name, Option.any_some, beq_iff_eq] at hmatch
      rw [hmatch]
  | subdomain d =>
      have hstored := hname (by rw [regexSource, hp])
      simp only [storedMatches, hstored, hp, Pattern.name, Option.any_some] at hmatch
      exact ⟨d, isSubdomainOf_iff_mem.mp hmatch, rfl⟩
  | wildcard re | regex re =>
      have hs : regexSource br = some re.asStr := by rw [regexSource, hp]
      exact ⟨isMatch_of_winner hcount hw hbr hs, fun ho => htok (by simp [isFirst, hs, ho])⟩

theorem storedDomain_of_found (hpass : passes rules name rtype client id = true)
    (hbr : rules[id]? = some br) (hs : regexSource br = none)
    (hsub : ∀ d, br.rule.pattern = .subdomain d → utf8Len d ≤ 255)
    (hfound : ∀ env, Found env rx br name) :
    storedDomain rules id br = some br.rule.pattern.name := by
  have hmatch := storedMatches_of_passes hbr hpass
  cases hp : br.rule.pattern with
  | exact d =>
      have h := hfound (separating d)
      simp only [Found, hp, separating_eq_iff] at h
      simp only [storedMatches, hp, Option.any_eq_true, beq_iff_eq] at hmatch
      obtain ⟨s, hstored, heq⟩ := hmatch
      rw [hstored, heq, h]
      rfl
  | subdomain d =>
      have h := hfound (separating d)
      simp only [Found, hp, separating_eq_iff, exists_eq_right] at h
      simp only [storedMatches, hp, Option.any_eq_true] at hmatch
      obtain ⟨s, hstored, hsuffix⟩ := hmatch
      have hlen : utf8Len s = utf8Len d := by
        have hbound := hsub d hp
        have hdomain : domainText br = d := by rw [domainText, hp]
        rw [storedDomain, hdomain] at hstored
        rw [utf8Len_of_sliceBytes hstored, Nat.mod_eq_of_lt (by omega)]
      rw [hstored, eq_of_suffix_of_utf8Len (suffix_of_isSubdomainOf hsuffix)
        (suffix_of_isSubdomainOf (isSubdomainOf_iff_mem.mpr h)) hlen]
      rfl
  | wildcard re | regex re => simp [regexSource, hp] at hs

theorem passes_singleton (hbr : rules[id]? = some br)
    (hname : regexSource br = none → storedDomain rules id br = storedDomain [br] 0 br) :
    passes [br] name rtype client 0 = passes rules name rtype client id := by
  have hmatch : storedMatches [br] 0 br name = storedMatches rules id br name := by
    rw [storedMatches, storedMatches]
    cases hp : br.rule.pattern with
    | exact d | subdomain d =>
        have hs : regexSource br = none := by rw [regexSource, hp]
        rw [hname hs]
    | wildcard re | regex re => rfl
  simp [passes, hbr, hmatch]

end

/-! ## Attribution -/

/--
The match is that of a kept rule, with the id of the first list that has its
signature and its complete line, and the rule alone gives the same verdict in
every build.
-/
def Attributed (ext : External) (lists : Lists) (query rtype : Text) (client : ClientInfo)
    (v : Verdict) (info : MatchInfo) : Prop :=
  ∃ l br, (compiledRules ext lists)[info.ruleId]? = some br ∧ FirstListOf ext lists l br ∧
    info.listId = l.1 ∧ info.rule = br.rule.raw ∧
    ∀ env, verdictAlone env ext.rx br query rtype client = some (v.withRuleId 0)

theorem storedRaw_of_addressable {rules : List BuildRule} {i : Nat} {br : BuildRule}
    (hfit : Addressable rules) (hbr : rules[i]? = some br) (hle : utf8Len br.rule.raw ≤ 65535) :
    storedRaw rules i br = some br.rule.raw := by
  have hmax : maxRawLen = 65535 := rfl
  have hsplit := splitBytes_append br.rule.raw []
  rw [List.append_nil] at hsplit
  rw [storedRaw_eq hfit hbr, Nat.min_eq_left (by omega), hsplit]
  rfl

theorem FirstListOf.listId {ext : External} {lists : Lists} {l : Nat × Text × Text}
    {br : BuildRule} (h : FirstListOf ext lists l br) : br.rule.listId = l.1 := by
  obtain ⟨line, -, parsed, -, rfl⟩ := h.line
  rfl

theorem recordTells_of_addressable {rules : List BuildRule} {i : Nat} {br : BuildRule}
    (hfit : Addressable rules) (hbr : rules[i]? = some br) (hlist : br.rule.listId < 2 ^ 16)
    (hraw : utf8Len br.rule.raw ≤ 65535)
    (hnames : ∀ br ∈ rules, utf8Len br.rule.pattern.name ≤ 255) : RecordTells rules i br where
  listId := hlist
  line := storedRaw_eq_raw_iff.mp (storedRaw_of_addressable hfit hbr hraw)
  name hs := storedDomain_eq_name_iff.mp (namesKept_of_addressable hfit hnames i br hbr hs)

section

variable {env : BuildEnv} {ext : External} {lists : Lists} {e : FilterEngine}
  {query rtype : Text} {client : ClientInfo} {v : Verdict} {info : MatchInfo}

theorem winner_of_match (hcount : (compiledRules ext lists).length < 2 ^ 32)
    (he : compile env ext lists = some e) (hcheck : e.check ext.rx query rtype client = some v)
    (hinfo : v.info = some info) :
    ∃ br, winner env ext.rx (compiledRules ext lists) (FilterEngine.normalizeQuery query) rtype
        client = some info.ruleId ∧ (compiledRules ext lists)[info.ruleId]? = some br ∧
      storedRaw (compiledRules ext lists) info.ruleId br = some info.rule ∧
      info.listId = br.rule.listId % 2 ^ 16 ∧ v = verdictWith info.rule info.ruleId br := by
  obtain ⟨e', he', hb⟩ := fromRules_built env ext.rx hcount
  obtain rfl : e = e' := Option.some.inj (he.symm.trans he')
  rcases check_some hb hcount hcheck with ⟨-, rfl⟩ | ⟨id, br, text, hw, hbr, htext, rfl⟩
  · cases hinfo
  · rw [info_verdictWith, Option.some.injEq] at hinfo
    subst hinfo
    exact ⟨br, hw, hbr, htext, rfl, rfl⟩

theorem attributed_of_recordTells (hcount : (compiledRules ext lists).length < 2 ^ 32)
    (he : compile env ext lists = some e) (hcheck : e.check ext.rx query rtype client = some v)
    (hinfo : v.info = some info)
    (htells : ∀ br, (compiledRules ext lists)[info.ruleId]? = some br →
      RecordTells (compiledRules ext lists) info.ruleId br ∧
        (isFirst br = false → SoleTokenSeen br (FilterEngine.normalizeQuery query))) :
    Attributed ext lists query rtype client v info := by
  obtain ⟨br, hw, hbr, htext, hlist, hv⟩ := winner_of_match hcount he hcheck hinfo
  obtain ⟨htells, htok⟩ := htells br hbr
  have hmem := List.mem_of_getElem? hbr
  obtain ⟨l, hfirst⟩ := firstListOf_of_mem hmem
  have hraw : info.rule = br.rule.raw := by
    rw [storedRaw_eq_raw_iff.mpr htells.line] at htext
    exact (Option.some.inj htext).symm
  have hname : regexSource br = none → storedDomain (compiledRules ext lists) info.ruleId br =
      some br.rule.pattern.name := fun hs => storedDomain_eq_name_iff.mpr (htells.name hs)
  have hname' : regexSource br = none →
      storedDomain [br] 0 br = some br.rule.pattern.name := by
    intro hs
    refine namesKept_of_addressable (addressable_singleton br) ?_ 0 br rfl hs
    intro br' hbr'
    rw [List.mem_singleton.mp hbr']
    exact (htells.name hs).1
  refine ⟨l, br, hbr, hfirst, ?_, hraw, ?_⟩
  · rw [hlist, Nat.mod_eq_of_lt htells.listId, hfirst.listId]
  · intro env'
    have hwin : winner env' ext.rx [br] (FilterEngine.normalizeQuery query) rtype client =
        some 0 := by
      refine winner_singleton_iff.mpr ⟨found_of_winner hcount hw hbr hname htok, ?_⟩
      rw [passes_singleton hbr fun hs => by rw [hname hs, hname' hs]]
      exact (mem_of_winner hw).2
    rw [hv, withRuleId_verdictWith, hraw]
    exact verdictAlone_eq (wellParsed_of_mem hmem).rewrite
      (storedRaw_of_addressable (addressable_singleton br) rfl htells.line.1) hname' hwin

theorem recordTells_of_attributed (hcount : (compiledRules ext lists).length < 2 ^ 32)
    (he : compile env ext lists = some e) (hcheck : e.check ext.rx query rtype client = some v)
    (hinfo : v.info = some info) (h : Attributed ext lists query rtype client v info)
    {br : BuildRule} (hbr : (compiledRules ext lists)[info.ruleId]? = some br) :
    RecordTells (compiledRules ext lists) info.ruleId br ∧
      (isFirst br = false → SoleTokenSeen br (FilterEngine.normalizeQuery query)) := by
  obtain ⟨br', hw, hbr', htext, hlist, hv⟩ := winner_of_match hcount he hcheck hinfo
  obtain rfl : br = br' := Option.some.inj (hbr.symm.trans hbr')
  obtain ⟨l, br', hbr', hfirst, hlist', hraw, halone⟩ := h
  obtain rfl : br = br' := Option.some.inj (hbr.symm.trans hbr')
  have hfound : ∀ env', Found env' ext.rx br (FilterEngine.normalizeQuery query) := by
    intro env'
    have hne : v.withRuleId 0 ≠ .allow none := by
      rw [hv, withRuleId_verdictWith, verdictWith]
      cases br.rule.action <;> simp
    exact (winner_singleton_iff.mp (winner_of_verdictAlone (halone env') hne)).1
  have hsub : ∀ d, br.rule.pattern = .subdomain d → utf8Len d ≤ 255 := by
    intro d hp
    rcases (wellParsed_of_mem (List.mem_of_getElem? hbr)).name with hhosts | hle
    · obtain ⟨line, listId, parsed, ⟨⟨first, host, ip, -, -, -, -, rfl⟩⟩, rfl⟩ := hhosts
      cases hp
    · rw [hp] at hle
      exact le_trans hle (by omega)
  refine ⟨⟨?_, ?_, ?_⟩, ?_⟩
  · have hid : br.rule.listId = br.rule.listId % 2 ^ 16 := by
      calc br.rule.listId = l.1 := hfirst.listId
        _ = info.listId := hlist'.symm
        _ = br.rule.listId % 2 ^ 16 := hlist
    omega
  · exact storedRaw_eq_raw_iff.mp (by rw [htext, hraw])
  · intro hs
    exact storedDomain_eq_name_iff.mp
      (storedDomain_of_found (mem_of_winner hw).2 hbr hs hsub hfound)
  · intro hblock
    have h := hfound env
    simp only [isFirst, Bool.or_eq_false_iff, Option.isNone_eq_false_iff] at hblock
    rw [Found] at h
    cases hp : br.rule.pattern with
    | exact d | subdomain d => simp [regexSource, hp] at hblock
    | wildcard re | regex re =>
        rw [hp] at h
        exact h.2 hblock.2

end

/--
Lists with 16-bit ids whose rules are ASCII lines of at most 65535 bytes with
names of at most 255 attribute every match of an ASCII query.
-/
theorem attributed_of_ordinary {env : BuildEnv} {ext : External} {lists : Lists}
    {e : FilterEngine} {query rtype : Text} {client : ClientInfo} {v : Verdict}
    {info : MatchInfo} (hfit : Addressable (compiledRules ext lists))
    (hids : ∀ l ∈ lists, l.1 < 2 ^ 16)
    (hascii : ∀ br ∈ compiledRules ext lists, isAscii br.rule.raw = true)
    (hlines : ∀ br ∈ compiledRules ext lists, utf8Len br.rule.raw ≤ 65535)
    (hnames : ∀ br ∈ compiledRules ext lists, utf8Len br.rule.pattern.name ≤ 255)
    (hquery : isAscii query = true) (he : compile env ext lists = some e)
    (hcheck : e.check ext.rx query rtype client = some v) (hinfo : v.info = some info) :
    Attributed ext lists query rtype client v info := by
  obtain ⟨-, hw, -⟩ := winner_of_match hfit.count he hcheck hinfo
  refine attributed_of_recordTells hfit.count he hcheck hinfo fun br hbr => ?_
  have hmem := List.mem_of_getElem? hbr
  obtain ⟨o⟩ := mem_compiledRules hmem
  have hlist : br.rule.listId < 2 ^ 16 := by
    rw [o.eq]
    exact hids o.list o.mem_list
  refine ⟨recordTells_of_addressable hfit hbr hlist (hlines br hmem) hnames, ?_⟩
  intro hblock tok htok
  simp only [isFirst, Bool.or_eq_false_iff, Option.isNone_eq_false_iff] at hblock
  obtain ⟨source, hs⟩ := Option.isSome_iff_exists.mp hblock.1
  have hcover := tokensCovered_of_wellParsed ext.rx (fun br h => wellParsed_of_mem h) hascii
    (isAscii_normalizeQuery hquery)
  exact hcover br hmem source hs (isMatch_of_winner hfit.count hw hbr hs) tok
    (minByKey_mem htok)

/--
A match is attributed to its own list and line exactly when the winning rule
comes from a list with an id below `2 ^ 16`, its line of at most 65535 bytes and
its name of at most 255 bytes are found at their 32-bit offsets, and a scanned
block is filed, alone, under a token of the query.
-/
theorem attributed_iff_recordTells (env : BuildEnv) (ext : External) (lists : Lists)
    (hcount : (compiledRules ext lists).length < 2 ^ 32) {e : FilterEngine}
    (he : compile env ext lists = some e) (query rtype : Text) (client : ClientInfo)
    {v : Verdict} {info : MatchInfo} (hcheck : e.check ext.rx query rtype client = some v)
    (hinfo : v.info = some info) :
    Attributed ext lists query rtype client v info ↔
      ∀ id br, winner env ext.rx (compiledRules ext lists) (FilterEngine.normalizeQuery query)
          rtype client = some id → (compiledRules ext lists)[id]? = some br →
        RecordTells (compiledRules ext lists) id br ∧
          (isFirst br = false → SoleTokenSeen br (FilterEngine.normalizeQuery query)) := by
  obtain ⟨-, hw, -⟩ := winner_of_match hcount he hcheck hinfo
  constructor
  · intro h id br hid hbr
    obtain rfl : id = info.ruleId := Option.some.inj (hid.symm.trans hw)
    exact recordTells_of_attributed hcount he hcheck hinfo h hbr
  · intro h
    exact attributed_of_recordTells hcount he hcheck hinfo fun br hbr => h _ br hw hbr

def sharedLists : Lists :=
  [(1, "own".toList, "||other.example^\n||ads.example^\n".toList),
    (2, "more".toList, "||ads.example^\n@@||ok.ads.example^\n".toList)]

theorem attributed_sharedLists :
    ∃ e v info, compile (plainEnv List.length) referenceExternal sharedLists = some e ∧
      e.check referenceEngine "Ads.example.".toList "A".toList {} = some v ∧
      v = .block info ∧ info = ⟨"||ads.example^".toList, 1, 1⟩ ∧
      Attributed referenceExternal sharedLists "Ads.example.".toList "A".toList {} v info := by
  have hrun : (compile (plainEnv List.length) referenceExternal sharedLists).bind
      (fun e => e.check referenceEngine "Ads.example.".toList "A".toList {}) =
      some (.block ⟨"||ads.example^".toList, 1, 1⟩) := by decide +kernel
  obtain ⟨e, he, hcheck⟩ := Option.bind_eq_some_iff.mp hrun
  have hcount : (compiledRules referenceExternal sharedLists).length < 2 ^ 32 := by
    decide +kernel
  have hfit : Addressable (compiledRules referenceExternal sharedLists) :=
    addressable_of_lt hcount (by decide +kernel) (by decide +kernel)
  have hrules : ∀ br ∈ compiledRules referenceExternal sharedLists,
      br.rule.listId < 2 ^ 16 ∧ utf8Len br.rule.raw ≤ 65535 ∧
        utf8Len br.rule.pattern.name ≤ 255 ∧ isFirst br = true := by decide +kernel
  refine ⟨e, _, _, he, hcheck, rfl, rfl, ?_⟩
  refine (attributed_iff_recordTells _ _ _ hcount he _ _ _ hcheck rfl).mpr ?_
  intro id br _ hbr
  obtain ⟨hlist, hraw, -, hfirst⟩ := hrules br (List.mem_of_getElem? hbr)
  refine ⟨recordTells_of_addressable hfit hbr hlist hraw fun br' h => (hrules br' h).2.2.1, ?_⟩
  intro hblock
  simp [hfirst] at hblock

def wideLists : Lists :=
  [(1, "own".toList, "||other.example^\n".toList),
    (65537, "wide".toList, "||ads.example^\n".toList)]

/-- A match of list 65537 is reported as one of list 1, which has no such line. -/
theorem wideListId_misattributed :
    ∃ e v info, compile (plainEnv List.length) referenceExternal wideLists = some e ∧
      e.check referenceEngine "ads.example".toList "A".toList {} = some v ∧
      v.info = some info ∧ info.listId = 1 ∧
      (∀ l ∈ wideLists, l.1 = info.listId →
        ∀ br ∈ listRules referenceExternal l, br.rule.raw ≠ info.rule) ∧
      ¬ Attributed referenceExternal wideLists "ads.example".toList "A".toList {} v info := by
  have hrun : (compile (plainEnv List.length) referenceExternal wideLists).bind
      (fun e => e.check referenceEngine "ads.example".toList "A".toList {}) =
      some (.block ⟨"||ads.example^".toList, 1, 1⟩) := by decide +kernel
  obtain ⟨e, he, hcheck⟩ := Option.bind_eq_some_iff.mp hrun
  have hlines : ∀ l ∈ wideLists, l.1 = 1 →
      ∀ br ∈ listRules referenceExternal l, br.rule.raw ≠ "||ads.example^".toList := by
    decide +kernel
  refine ⟨e, _, _, he, hcheck, rfl, rfl, hlines, ?_⟩
  rintro ⟨l, br, -, hfirst, hlist, hraw, -⟩
  obtain ⟨line, hline, parsed, hparsed, rfl⟩ := hfirst.line
  obtain ⟨before, after, hsplit, -⟩ := hfirst.first
  have hmem : l ∈ wideLists := by
    rw [hsplit]
    exact List.mem_append_right _ List.mem_cons_self
  refine hlines l hmem hlist.symm (withList l.1 parsed) ?_ hraw.symm
  exact List.mem_flatMap.mpr
    ⟨line, hline, List.mem_map.mpr ⟨parsed, mem_parsedRules.mpr hparsed, rfl⟩⟩

end Bulwark.Filter
