import Bulwark.Filter.Parsed
import Bulwark.Filter.Winner

/-!
# The indexed matcher against the plain one

The plain matcher asks every rule whether its own pattern and its modifiers
accept the query, and takes one of the highest priority among those that do.
The engine finds the same rules through hashes, suffixes, tokens and regex
sets, as long as all offsets fit into 32 bits.
-/

namespace Bulwark.Filter

open Bulwark.Foundation

/-! ## The plain matcher -/

/-- Exact: equality.  Subdomain: equality or a suffix at a label boundary. -/
def PatternMatches (rx : RegexEngine) : Pattern → Text → Prop
  | .exact d, name => name = d
  | .subdomain d, name => name = d ∨ ∃ front, name = front ++ '.' :: d
  | .wildcard re, name => rx.isMatch re.asStr name = true
  | .regex re, name => rx.isMatch re.asStr name = true

def Acts (rx : RegexEngine) (br : BuildRule) (name rtype : Text)
    (client : ClientInfo) : Prop :=
  PatternMatches rx br.rule.pattern name ∧
    modsApply br.rule.action br.rule.mods name rtype client = true

/-- What a verdict says about its rule; long lines are shown cut. -/
def matchInfo (id : Nat) (br : BuildRule) : MatchInfo :=
  ⟨br.rule.raw.take maxRawLen, br.rule.listId % 2 ^ 16, id⟩

def IsVerdictOf (id : Nat) (br : BuildRule) (v : Verdict) : Prop :=
  match br.rule.action with
  | .allow => v = .allow (some (matchInfo id br))
  | .block => v = .block (matchInfo id br)
  | .rewrite => ∃ m data, br.rule.mods = some m ∧ m.rewrite = some data ∧
      v = .rewrite (matchInfo id br) data

/-- The engine answers this query as the plain matcher does. -/
def Agrees (rx : RegexEngine) (rules : List BuildRule) (e : FilterEngine)
    (query rtype : Text) (client : ClientInfo) : Prop :=
  let name := FilterEngine.normalizeQuery query
  ∃ v, e.check rx query rtype client = some v ∧
    (v = .allow none ↔ ∀ br ∈ rules, ¬ Acts rx br name rtype client) ∧
    (v ≠ .allow none → ∃ id br, rules[id]? = some br ∧ Acts rx br name rtype client ∧
      (∀ br' ∈ rules, Acts rx br' name rtype client →
        br'.rule.priority ≤ br.rule.priority) ∧
      IsVerdictOf id br v)

/-! ## Suffixes -/

theorem mem_parents {t name : Text} :
    t ∈ parents name ↔ ∃ front, name = front ++ '.' :: t := by
  induction name with
  | nil => simp [parents]
  | cons c name ih =>
      rw [parents]
      constructor
      · intro h
        split at h
        · rename_i hc
          subst hc
          rcases List.mem_cons.mp h with rfl | h
          · exact ⟨[], rfl⟩
          · obtain ⟨front, rfl⟩ := ih.mp h
            exact ⟨'.' :: front, rfl⟩
        · obtain ⟨front, rfl⟩ := ih.mp h
          exact ⟨c :: front, rfl⟩
      · rintro ⟨front, heq⟩
        cases front with
        | nil =>
            obtain ⟨rfl, rfl⟩ := List.cons.inj heq
            rw [if_pos rfl]
            exact List.mem_cons_self
        | cons d front =>
            obtain ⟨rfl, hname⟩ := List.cons.inj heq
            have hmem := ih.mpr ⟨front, hname⟩
            split
            · exact List.mem_cons_of_mem _ hmem
            · exact hmem

theorem isSubdomainOf_iff {name d : Text} :
    isSubdomainOf name d = true ↔ name = d ∨ ∃ front, name = front ++ '.' :: d := by
  simp only [isSubdomainOf, endsWith, Bool.or_eq_true, beq_iff_eq, Bool.and_eq_true,
    decide_eq_true_eq, List.isSuffixOf_iff_suffix]
  constructor
  · rintro (rfl | ⟨-, front, hfront⟩)
    · exact .inl rfl
    · exact .inr ⟨front, hfront.symm⟩
  · rintro (rfl | ⟨front, rfl⟩)
    · exact .inl rfl
    · refine .inr ⟨⟨⟨front ++ ['.'], by simp⟩, ?_⟩, ⟨front, rfl⟩⟩
      have hdot : ('.').utf8Size = 1 := rfl
      simp only [utf8Len_append, utf8Len_cons, hdot]
      omega

theorem isSubdomainOf_iff_mem {name d : Text} :
    isSubdomainOf name d = true ↔ d ∈ name :: parents name := by
  rw [isSubdomainOf_iff, List.mem_cons, mem_parents, eq_comm]

/-! ## Candidates that pass are rules that act -/

def NamesKept (rules : List BuildRule) : Prop :=
  ∀ i br, rules[i]? = some br → regexSource br = none →
    storedDomain rules i br = some br.rule.pattern.name

/-- The name in its record matches the query exactly where the rule does. -/
def NamesTell (rx : RegexEngine) (rules : List BuildRule) (name : Text) : Prop :=
  ∀ i br, rules[i]? = some br → regexSource br = none →
    (storedMatches rules i br name = true ↔ PatternMatches rx br.rule.pattern name)

/-- The index tokens of a rule occur in every name it matches. -/
def TokensCovered (rx : RegexEngine) (rules : List BuildRule) (name : Text) : Prop :=
  ∀ br ∈ rules, ∀ source, regexSource br = some source →
    rx.isMatch source name = true → ∀ tok ∈ br.indexTokens, tok ∈ forEachQueryToken name

theorem NamesKept.readable {rules : List BuildRule} (h : NamesKept rules) :
    DomainsReadable rules := by
  intro i br hbr hsource
  rw [h i br hbr hsource]
  rfl

section

variable {env : BuildEnv} {rx : RegexEngine} {rules : List BuildRule}
  {name rtype : Text} {client : ClientInfo} {id : Nat}

/-- Rules looked at first: domain rules and overriding scan rules. -/
def isFirst (br : BuildRule) : Bool :=
  (regexSource br).isNone || isOverrideCapable br.rule

private theorem patternMatches_scan {br : BuildRule} {source : Text}
    (h : regexSource br = some source) :
    PatternMatches rx br.rule.pattern name ↔ rx.isMatch source name = true := by
  unfold regexSource at h
  split at h
  · cases h
  · cases h
  · rename_i hp
    cases h
    rw [hp, PatternMatches]
  · rename_i hp
    cases h
    rw [hp, PatternMatches]

private theorem storedMatches_scan {br : BuildRule} {source : Text} (i : Nat)
    (h : regexSource br = some source) : storedMatches rules i br name = true := by
  unfold regexSource at h
  unfold storedMatches
  split at h <;> simp_all

theorem NamesKept.tells (hkept : NamesKept rules) : NamesTell rx rules name := by
  intro id br hbr h
  have hstored := hkept id br hbr h
  unfold regexSource at h
  unfold storedMatches
  cases hp : br.rule.pattern with
  | exact d =>
      simp only [hstored, hp, Pattern.name, Option.any_some, beq_iff_eq, PatternMatches]
      exact eq_comm
  | subdomain d =>
      simp only [hstored, hp, Pattern.name, Option.any_some, PatternMatches]
      exact isSubdomainOf_iff
  | wildcard re => simp [hp] at h
  | regex re => simp [hp] at h

private theorem passes_iff {br : BuildRule} (hbr : rules[id]? = some br) :
    passes rules name rtype client id = true ↔ storedMatches rules id br name = true ∧
      modsApply br.rule.action br.rule.mods name rtype client = true := by
  simp [passes, hbr]

theorem passes_iff_acts (htell : NamesTell rx rules name) {br : BuildRule}
    (hbr : rules[id]? = some br) (hs : regexSource br = none) :
    passes rules name rtype client id = true ↔ Acts rx br name rtype client := by
  rw [passes_iff hbr, htell id br hbr hs]
  exact Iff.rfl

theorem passes_of_scan {br : BuildRule} {source : Text} (hbr : rules[id]? = some br)
    (hs : regexSource br = some source) :
    passes rules name rtype client id =
      modsApply br.rule.action br.rule.mods name rtype client := by
  simp [passes, hbr, storedMatches_scan id hs]

theorem mem_first_iff (hcount : rules.length < 2 ^ 32) (htell : NamesTell rx rules name) :
    id ∈ (firstHits env rx rules name).filter (passes rules name rtype client) ↔
      ∃ br, rules[id]? = some br ∧ Acts rx br name rtype client ∧ isFirst br = true := by
  rw [List.mem_filter, firstHits, List.mem_append, List.mem_append,
    mem_exactHits hcount, mem_subdomainHits hcount, mem_overrideHits hcount]
  constructor
  · rintro ⟨(⟨br, d, hbr, hp, -⟩ | ⟨br, d, hbr, hp, -⟩) | ⟨br, source, hbr, hs, ho, hm⟩,
      hpass⟩
    · have hs : regexSource br = none := by rw [regexSource, hp]
      rw [passes_iff hbr, htell id br hbr hs] at hpass
      exact ⟨br, hbr, hpass, by simp [isFirst, hs]⟩
    · have hs : regexSource br = none := by rw [regexSource, hp]
      rw [passes_iff hbr, htell id br hbr hs] at hpass
      exact ⟨br, hbr, hpass, by simp [isFirst, hs]⟩
    · rw [passes_iff hbr] at hpass
      exact ⟨br, hbr, ⟨(patternMatches_scan hs).mpr hm, hpass.2⟩, by simp [isFirst, ho]⟩
  · rintro ⟨br, hbr, ⟨hmatch, hmods⟩, hfirst⟩
    cases hs : regexSource br with
    | some source =>
        have ho : isOverrideCapable br.rule = true := by simpa [isFirst, hs] using hfirst
        refine ⟨.inr ⟨br, source, hbr, hs, ho, (patternMatches_scan hs).mp hmatch⟩, ?_⟩
        exact (passes_iff hbr).mpr ⟨storedMatches_scan id hs, hmods⟩
    | none =>
        refine ⟨.inl ?_, (passes_iff hbr).mpr
          ⟨(htell id br hbr hs).mpr hmatch, hmods⟩⟩
        cases hp : br.rule.pattern with
        | exact d =>
            rw [hp, PatternMatches] at hmatch
            exact .inl ⟨br, d, hbr, hp, by rw [hmatch]⟩
        | subdomain d =>
            rw [hp, PatternMatches, ← isSubdomainOf_iff, isSubdomainOf_iff_mem] at hmatch
            exact .inr ⟨br, d, hbr, hp, d, hmatch, rfl⟩
        | wildcard re => simp [regexSource, hp] at hs
        | regex re => simp [regexSource, hp] at hs

theorem mem_block_iff (hcount : rules.length < 2 ^ 32)
    (hcover : TokensCovered rx rules name) :
    id ∈ (blockHits rx rules name).filter (passes rules name rtype client) ↔
      ∃ br, rules[id]? = some br ∧ Acts rx br name rtype client ∧ isFirst br = false := by
  rw [List.mem_filter]
  constructor
  · rintro ⟨hmem, hpass⟩
    obtain ⟨br, source, hbr, hs, ho, hm⟩ := of_mem_blockHits hcount hmem
    rw [passes_iff hbr] at hpass
    exact ⟨br, hbr, ⟨(patternMatches_scan hs).mpr hm, hpass.2⟩, by simp [isFirst, hs, ho]⟩
  · rintro ⟨br, hbr, ⟨hmatch, hmods⟩, hfirst⟩
    simp only [isFirst, Bool.or_eq_false_iff, Option.isNone_eq_false_iff] at hfirst
    obtain ⟨source, hs⟩ := Option.isSome_iff_exists.mp hfirst.1
    have hm := (patternMatches_scan hs).mp hmatch
    refine ⟨mem_blockHits hcount hbr hs hfirst.2 hm ?_, ?_⟩
    · exact hcover br (List.mem_of_getElem? hbr) source hs hm
    · exact (passes_iff hbr).mpr ⟨storedMatches_scan id hs, hmods⟩

theorem priorityAt_eq {br : BuildRule} (hbr : rules[id]? = some br) :
    priorityAt rules id = br.rule.priority := by
  simp [priorityAt, hbr]

theorem priority_of_not_isFirst {br : BuildRule} (h : isFirst br = false) :
    br.rule.priority = 1 := by
  simp only [isFirst, isOverrideCapable, Bool.or_eq_false_iff, decide_eq_false_iff_not] at h
  obtain ⟨-, hallow, himportant⟩ := h
  simp only [Rule.priority, priorityOf, himportant]
  cases ha : br.rule.action <;> simp_all

theorem winner_spec (hcount : rules.length < 2 ^ 32) (htell : NamesTell rx rules name)
    (hcover : TokensCovered rx rules name)
    (h : winner env rx rules name rtype client = some id) :
    ∃ br, rules[id]? = some br ∧ Acts rx br name rtype client ∧
      ∀ br' ∈ rules, Acts rx br' name rtype client →
        br'.rule.priority ≤ br.rule.priority := by
  have hfirst := fun i => @mem_first_iff env rx rules name rtype client i hcount htell
  have hblock := fun i => @mem_block_iff rx rules name rtype client i hcount hcover
  rw [winner] at h
  split at h
  · rename_i id₁ hmax
    cases h
    obtain ⟨hmem, hle⟩ := firstMax_spec hmax
    obtain ⟨br, hbr, hacts, -⟩ := (hfirst id).mp hmem
    refine ⟨br, hbr, hacts, ?_⟩
    intro br' hmem' hacts'
    obtain ⟨i, hi⟩ := List.mem_iff_getElem?.mp hmem'
    cases hf : isFirst br' with
    | true =>
        have := hle i ((hfirst i).mpr ⟨br', hi, hacts', hf⟩)
        rwa [priorityAt_eq hi, priorityAt_eq hbr] at this
    | false =>
        rw [priority_of_not_isFirst hf]
        exact priorityOf_pos _ _
  · rename_i hnone
    obtain ⟨hmem, hle⟩ := firstMax_spec h
    obtain ⟨br, hbr, hacts, -⟩ := (hblock id).mp hmem
    refine ⟨br, hbr, hacts, ?_⟩
    intro br' hmem' hacts'
    obtain ⟨i, hi⟩ := List.mem_iff_getElem?.mp hmem'
    cases hf : isFirst br' with
    | true =>
        have hin := (hfirst i).mpr ⟨br', hi, hacts', hf⟩
        rw [firstMax_eq_none_iff.mp hnone] at hin
        simp at hin
    | false =>
        have := hle i ((hblock i).mpr ⟨br', hi, hacts', hf⟩)
        rwa [priorityAt_eq hi, priorityAt_eq hbr] at this

theorem winner_eq_none_iff (hcount : rules.length < 2 ^ 32) (htell : NamesTell rx rules name)
    (hcover : TokensCovered rx rules name) :
    winner env rx rules name rtype client = none ↔
      ∀ br ∈ rules, ¬ Acts rx br name rtype client := by
  have hfirst := fun i => @mem_first_iff env rx rules name rtype client i hcount htell
  have hblock := fun i => @mem_block_iff rx rules name rtype client i hcount hcover
  constructor
  · intro h br hmem hacts
    obtain ⟨i, hi⟩ := List.mem_iff_getElem?.mp hmem
    rw [winner] at h
    split at h
    · cases h
    · rename_i hnone
      cases hf : isFirst br with
      | true =>
          have hin := (hfirst i).mpr ⟨br, hi, hacts, hf⟩
          rw [firstMax_eq_none_iff.mp hnone] at hin
          simp at hin
      | false =>
          have hin := (hblock i).mpr ⟨br, hi, hacts, hf⟩
          rw [firstMax_eq_none_iff.mp h] at hin
          simp at hin
  · intro h
    cases hw : winner env rx rules name rtype client with
    | none => rfl
    | some id =>
        obtain ⟨br, hbr, hacts, -⟩ := winner_spec hcount htell hcover hw
        exact absurd hacts (h br (List.mem_of_getElem? hbr))

end

/-! ## Verdicts -/

/-- Slices are valid and rewrites carry data, so no verdict panics. -/
structure Storable (rules : List BuildRule) : Prop where
  count : rules.length < 2 ^ 32
  raw : ∀ i br, rules[i]? = some br → (storedRaw rules i br).isSome = true
  domain : DomainsReadable rules
  rewrite : ∀ br ∈ rules, br.rule.action = .rewrite →
    ∃ m data, br.rule.mods = some m ∧ m.rewrite = some data

/-- The verdict of rule `id` with its source line as stored. -/
def verdictWith (text : Text) (id : Nat) (br : BuildRule) : Verdict :=
  let info : MatchInfo := ⟨text, br.rule.listId % 2 ^ 16, id⟩
  match br.rule.action with
  | .allow => .allow (some info)
  | .block => .block info
  | .rewrite => .rewrite info ((br.rule.mods.bind (·.rewrite)).getD (.rcode .noError))

theorem verdictOf_eq {env : BuildEnv} {rx : RegexEngine} {rules : List BuildRule}
    {e : FilterEngine} (hb : Built env rx rules e) {id : Nat} {br : BuildRule}
    (hbr : rules[id]? = some br) {text : Text} (hraw : storedRaw rules id br = some text)
    (hrewrite : br.rule.action = .rewrite →
      ∃ m data, br.rule.mods = some m ∧ m.rewrite = some data) :
    e.verdictOf id = some (verdictWith text id br) := by
  obtain ⟨r, hr⟩ := hb.reads id br hbr
  simp only [FilterEngine.verdictOf, hr.record, hr.raw, hraw, hr.action, hr.listId,
    hr.mods, Option.bind_eq_bind, Option.bind_some, verdictWith]
  cases ha : br.rule.action with
  | allow => rfl
  | block => rfl
  | rewrite =>
      obtain ⟨m, data, hm, hdata⟩ := hrewrite ha
      simp [hm, hdata]

theorem check_eq {env : BuildEnv} {rx : RegexEngine} {rules : List BuildRule}
    {e : FilterEngine} (hb : Built env rx rules e) (hs : Storable rules)
    (query rtype : Text) (client : ClientInfo) :
    (winner env rx rules (FilterEngine.normalizeQuery query) rtype client = none ∧
      e.check rx query rtype client = some (.allow none)) ∨
    ∃ id br text, winner env rx rules (FilterEngine.normalizeQuery query) rtype client =
        some id ∧ rules[id]? = some br ∧ storedRaw rules id br = some text ∧
      e.check rx query rtype client = some (verdictWith text id br) := by
  rw [FilterEngine.check, FilterEngine.bestId_eq hb hs.count hs.domain]
  cases hw : winner env rx rules (FilterEngine.normalizeQuery query) rtype client with
  | none => exact .inl ⟨rfl, rfl⟩
  | some id =>
      obtain ⟨br, hbr, -⟩ := (Option.any_eq_true _ _).mp (mem_of_winner hw).2
      obtain ⟨text, htext⟩ := Option.isSome_iff_exists.mp (hs.raw id br hbr)
      refine .inr ⟨id, br, text, rfl, hbr, htext, ?_⟩
      exact verdictOf_eq hb hbr htext (hs.rewrite br (List.mem_of_getElem? hbr))

/-! ## Compiled lists -/

theorem namesKept_of_addressable {rules : List BuildRule} (hfit : Addressable rules)
    (hnames : ∀ br ∈ rules, utf8Len br.rule.pattern.name ≤ 255) : NamesKept rules := by
  intro i br hbr hsource
  have hname : domainText br = br.rule.pattern.name := rfl
  have hlen := hnames br (List.mem_of_getElem? hbr)
  rw [storedDomain_eq hfit hbr hsource, hname, Nat.mod_eq_of_lt (by omega)]
  have hsplit := splitBytes_append br.rule.pattern.name []
  rw [List.append_nil] at hsplit
  rw [hsplit]
  rfl

theorem isAscii_of_subset {t u : Text} (h : t ⊆ u) (hu : isAscii u = true) :
    isAscii t = true := by
  simp only [isAscii, List.all_eq_true] at hu ⊢
  exact fun c hc => hu c (h hc)

theorem tokensCovered_of_wellParsed (rx : RegexEngine) {rules : List BuildRule}
    {name : Text} (hparsed : ∀ br ∈ rules, WellParsed br)
    (hascii : ∀ br ∈ rules, isAscii br.rule.raw = true) (hname : isAscii name = true) :
    TokensCovered rx rules name := by
  intro br hbr source hsource hm tok htok
  rcases (hparsed br hbr).tokens with hnil | ⟨body, sub, start, stop, hp, htoks, hbody⟩
  · simp [hnil] at htok
  · have hsrc : source = wildcardSource body sub start stop := by
      simpa [regexSource, hp] using hsource.symm
    rw [hsrc, rx.isMatch_wildcard] at hm
    rw [htoks] at htok
    exact tokenizePatternSafe_subset rx.tokenSafe
      (isAscii_of_subset hbody (hascii br hbr)) hname hm htok

theorem isAscii_normalizeQuery {query : Text} (h : isAscii query = true) :
    isAscii (FilterEngine.normalizeQuery query) = true := by
  rw [FilterEngine.normalizeQuery]
  split
  · have htrim := isAscii_of_subset (trimEndMatches_subset '.' query) h
    simpa [isAscii, toAsciiLowercase, isAsciiChar_toLower] using htrim
  · exact h

theorem splitBytes_of_isAscii {t : Text} (h : isAscii t = true) {n : Nat}
    (hn : n ≤ t.length) : splitBytes t n = some (t.take n, t.drop n) := by
  have htake : isAscii (t.take n) = true := isAscii_of_subset (List.take_subset n t) h
  have hlen : utf8Len (t.take n) = n := by
    rw [utf8Len_of_isAscii htake, List.length_take, Nat.min_eq_left hn]
  have hsplit := splitBytes_append (t.take n) (t.drop n)
  rwa [List.take_append_drop, hlen] at hsplit

private theorem storedRaw_of_isAscii {rules : List BuildRule} (hfit : Addressable rules)
    {i : Nat} {br : BuildRule} (hbr : rules[i]? = some br)
    (hascii : isAscii br.rule.raw = true) :
    storedRaw rules i br = some (br.rule.raw.take maxRawLen) := by
  rw [storedRaw_eq hfit hbr, utf8Len_of_isAscii hascii,
    splitBytes_of_isAscii hascii (Nat.min_le_left _ _), Option.map_some, Nat.min_comm]
  exact congrArg some List.take_eq_take_min.symm

/--
Compiled from ASCII lines with hosts names of at most 255 bytes, an engine whose
offsets fit into 32 bits agrees with the plain matcher on every ASCII query, for
any hash, any unstable sort and any regex engine.
-/
theorem check_agrees_of_addressable (env : BuildEnv) (ext : External) (lists : Lists)
    (hascii : ∀ br ∈ compiledRules ext lists, isAscii br.rule.raw = true)
    (hhosts : ∀ br ∈ compiledRules ext lists, IsHosts br →
      utf8Len br.rule.pattern.name ≤ 255)
    (hfit : Addressable (compiledRules ext lists)) :
    ∃ e, compile env ext lists = some e ∧
      ∀ query rtype client, isAscii query = true →
        Agrees ext.rx (compiledRules ext lists) e query rtype client := by
  set rules := compiledRules ext lists with hrules
  have hparsed : ∀ br ∈ rules, WellParsed br := fun br h => wellParsed_of_mem h
  have hnames : ∀ br ∈ rules, utf8Len br.rule.pattern.name ≤ 255 := by
    intro br hbr
    rcases (hparsed br hbr).name with hh | hle
    · exact hhosts br hbr hh
    · omega
  have hkept := namesKept_of_addressable hfit hnames
  have hstorable : Storable rules :=
    { count := hfit.count
      raw := fun i br hbr => by
        rw [storedRaw_of_isAscii hfit hbr (hascii br (List.mem_of_getElem? hbr))]
        rfl
      domain := hkept.readable
      rewrite := fun br hbr => (hparsed br hbr).rewrite }
  obtain ⟨e, he, hb⟩ := fromRules_built env ext.rx hfit.count
  refine ⟨e, he, ?_⟩
  intro query rtype client hquery
  have hcover := tokensCovered_of_wellParsed ext.rx hparsed hascii
    (isAscii_normalizeQuery hquery)
  rcases check_eq hb hstorable query rtype client with ⟨hnone, hcheck⟩ |
    ⟨id, br, text, hw, hbr, htext, hcheck⟩
  · refine ⟨_, hcheck, ?_, fun h => absurd rfl h⟩
    have hiff := @winner_eq_none_iff env ext.rx rules _ rtype client hfit.count hkept.tells hcover
    exact iff_of_true rfl (hiff.mp hnone)
  · obtain ⟨br', hbr', hacts, hmax⟩ := winner_spec hfit.count hkept.tells hcover hw
    obtain rfl : br = br' := Option.some.inj (hbr.symm.trans hbr')
    rw [storedRaw_of_isAscii hfit hbr (hascii br (List.mem_of_getElem? hbr)),
      Option.some.injEq] at htext
    subst htext
    have hne : verdictWith (br.rule.raw.take maxRawLen) id br ≠ .allow none := by
      rw [verdictWith]
      cases br.rule.action <;> simp
    refine ⟨_, hcheck, ?_, ?_⟩
    · refine iff_of_false hne ?_
      exact fun h => h br (List.mem_of_getElem? hbr) hacts
    · intro _
      refine ⟨id, br, hbr, hacts, hmax, ?_⟩
      rw [IsVerdictOf, verdictWith]
      cases ha : br.rule.action with
      | allow => rfl
      | block => rfl
      | rewrite =>
          obtain ⟨m, data, hm, hdata⟩ := hstorable.rewrite br (List.mem_of_getElem? hbr) ha
          exact ⟨m, data, hm, hdata, by simp [hm, hdata, matchInfo]⟩

def demoLists : Lists :=
  [(1, "demo".toList,
    "||ads.example^\n@@||ok.ads.example^\n||*.click.net^\n0.0.0.0 t.example\n".toList)]

theorem check_agrees_demoLists :
    ∃ e, compile (plainEnv List.length) referenceExternal demoLists = some e ∧
      ∀ query rtype client, isAscii query = true →
        Agrees referenceEngine (compiledRules referenceExternal demoLists) e query rtype
          client := by
  have hshort : ∀ br ∈ compiledRules referenceExternal demoLists,
      utf8Len br.rule.pattern.name ≤ 255 := by decide +kernel
  have hfit : Addressable (compiledRules referenceExternal demoLists) :=
    addressable_of_lt (by decide +kernel) (by decide +kernel) (by decide +kernel)
  exact check_agrees_of_addressable _ _ _ (by decide +kernel)
    (fun br hbr _ => hshort br hbr) hfit

end Bulwark.Filter
