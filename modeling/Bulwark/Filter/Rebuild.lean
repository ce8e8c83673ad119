import Bulwark.Filter.Front

/-!
# Two builds of the same rules

Every build of an engine draws a new domain hash and sorts its index entries
with a sort that may leave equal hashes in any order.  Among rules of one
priority the first candidate wins, so two builds can answer one query
differently.  They never do exactly when all domain rules that can win agree on
the action and the rewrite data.
-/

namespace Bulwark.Filter

open Bulwark.Foundation

/-- The kind of a verdict, with the data of a rewrite. -/
inductive Ruling where
  | allow
  | block
  | rewrite (data : RewriteData)
  deriving DecidableEq, Repr

def Verdict.ruling : Verdict → Ruling
  | .allow _ => .allow
  | .block _ => .block
  | .rewrite _ data => .rewrite data

/-- Build and ask; `none` when the check panics. -/
def rulingIn (env : BuildEnv) (rx : RegexEngine) (rules : List BuildRule)
    (query rtype : Text) (client : ClientInfo) : Option Ruling := do
  let e ← fromRules env rx rules
  let v ← e.check rx query rtype client
  some v.ruling

/-- Any two builds succeed and give the query the same ruling. -/
def RebuildKeepsRuling (rx : RegexEngine) (rules : List BuildRule) (query rtype : Text)
    (client : ClientInfo) : Prop :=
  ∀ env₁ env₂, (fromRules env₁ rx rules).isSome = true ∧
    (fromRules env₂ rx rules).isSome = true ∧
    rulingIn env₁ rx rules query rtype client = rulingIn env₂ rx rules query rtype client

/-! ## The ruling of one rule -/

/-- What the rule at position `id` makes of a query it wins. -/
def rulingAt (rules : List BuildRule) (id : Nat) : Option Ruling := do
  let br ← rules[id]?
  let _ ← storedRaw rules id br
  match br.rule.action with
  | .allow => some .allow
  | .block => some .block
  | .rewrite => do
      let m ← br.rule.mods
      let data ← m.rewrite
      some (.rewrite data)

def rulingOf (rules : List BuildRule) : Option Nat → Option Ruling
  | none => some .allow
  | some id => rulingAt rules id

section

variable {env : BuildEnv} {rx : RegexEngine} {rules : List BuildRule} {e : FilterEngine}

theorem verdictOf_ruling (hb : Built env rx rules e) (id : Nat) :
    (e.verdictOf id).map Verdict.ruling = rulingAt rules id := by
  cases hbr : rules[id]? with
  | none =>
      have hrec : e.rules[id]? = none := by
        rw [List.getElem?_eq_none_iff] at hbr ⊢
        rw [hb.length]
        exact hbr
      simp [FilterEngine.verdictOf, rulingAt, hrec, hbr]
  | some br =>
      obtain ⟨r, hr⟩ := hb.reads id br hbr
      simp only [FilterEngine.verdictOf, rulingAt, hbr, hr.record, hr.raw, hr.action, hr.mods,
        Option.bind_eq_bind, Option.bind_some]
      cases storedRaw rules id br with
      | none => rfl
      | some text =>
          cases br.rule.action with
          | allow => rfl
          | block => rfl
          | rewrite =>
              cases br.rule.mods with
              | none => rfl
              | some m => cases hdata : m.rewrite <;> simp [hdata, Verdict.ruling]

theorem rulingIn_eq (query rtype : Text) (client : ClientInfo)
    (h : Searchable rx rules (FilterEngine.normalizeQuery query)) (env : BuildEnv) :
    (fromRules env rx rules).isSome = true ∧
      rulingIn env rx rules query rtype client = rulingOf rules
        (winner env rx rules (FilterEngine.normalizeQuery query) rtype client) := by
  obtain ⟨e, he, hb⟩ := fromRules_built env rx h.count
  refine ⟨by rw [he]; rfl, ?_⟩
  have hbest := @FilterEngine.bestId_eq env rx rules e (FilterEngine.normalizeQuery query)
    rtype client hb h.count h.readable
  simp only [rulingIn, he, FilterEngine.check, hbest, Option.bind_eq_bind, Option.bind_some]
  cases winner env rx rules (FilterEngine.normalizeQuery query) rtype client with
  | none => rfl
  | some id =>
      rw [rulingOf, ← verdictOf_ruling hb, Option.map_eq_bind]
      rfl

end

/-! ## When two builds agree -/

/-- The rule at position `id` can win, in some build. -/
def FrontAt (rx : RegexEngine) (rules : List BuildRule) (name rtype : Text)
    (client : ClientInfo) (id : Nat) : Prop :=
  ∃ br, rules[id]? = some br ∧ Front rx rules name rtype client br

theorem rulingOf_winner_eq {rx : RegexEngine} {rules : List BuildRule} {name rtype : Text}
    {client : ClientInfo} (h : Searchable rx rules name)
    (hone : ∀ i j, FrontAt rx rules name rtype client i →
      FrontAt rx rules name rtype client j → rulingAt rules i = rulingAt rules j)
    (env₁ env₂ : BuildEnv) :
    rulingOf rules (winner env₁ rx rules name rtype client) =
      rulingOf rules (winner env₂ rx rules name rtype client) := by
  by_cases hfront : ∃ br, Front rx rules name rtype client br
  · obtain ⟨br, hf⟩ := hfront
    obtain ⟨i, br₁, hw₁, hi, hf₁⟩ := @winner_of_front env₁ _ _ _ _ _ _ h hf
    obtain ⟨j, br₂, hw₂, hj, hf₂⟩ := @winner_of_front env₂ _ _ _ _ _ _ h hf
    rw [hw₁, hw₂]
    exact hone i j ⟨br₁, hi, hf₁⟩ ⟨br₂, hj, hf₂⟩
  · -- The scans go through lists in rule order, which no build changes.
    have hnone : ∀ br, ¬ Front rx rules name rtype client br := by simpa using hfront
    rw [winner_of_no_front h hnone, winner_of_no_front h hnone]

/--
Rebuilding keeps the ruling, for every hash and every order of equal hashes,
exactly when all domain rules that can win have one ruling.
-/
theorem rebuild_keeps_ruling_iff (rx : RegexEngine) {rules : List BuildRule}
    (query rtype : Text) (client : ClientInfo)
    (h : Searchable rx rules (FilterEngine.normalizeQuery query)) :
    RebuildKeepsRuling rx rules query rtype client ↔
      ∀ i j, FrontAt rx rules (FilterEngine.normalizeQuery query) rtype client i →
        FrontAt rx rules (FilterEngine.normalizeQuery query) rtype client j →
        rulingAt rules i = rulingAt rules j := by
  constructor
  · rintro hsame i j ⟨br₁, hi, hf₁⟩ ⟨br₂, hj, hf₂⟩
    -- Let each of the two rules win its build.
    obtain ⟨a, ha⟩ := exists_place h hi hf₁.leads (plainEnv fun _ => 0) rfl
    obtain ⟨b, hb⟩ := exists_place h hj hf₂.leads (plainEnv fun _ => 0) rfl
    have heq := (hsame (tieEnv (fun _ => 0) fun _ => a) (tieEnv (fun _ => 0) fun _ => b)).2.2
    rw [(rulingIn_eq _ _ _ h _).2, (rulingIn_eq _ _ _ h _).2, ha _ rfl, hb _ rfl] at heq
    exact heq
  · intro hone env₁ env₂
    obtain ⟨hbuilt₁, hruling₁⟩ := rulingIn_eq query rtype client h env₁
    obtain ⟨hbuilt₂, hruling₂⟩ := rulingIn_eq query rtype client h env₂
    refine ⟨hbuilt₁, hbuilt₂, ?_⟩
    rw [hruling₁, hruling₂]
    exact rulingOf_winner_eq h hone env₁ env₂

/-! ## A block and a rewrite of one name -/

/-- A short list is sorted in place; with these the list is long enough to be partitioned. -/
def otherNames : List Text :=
  let letters := "abcdefghijkl".toList
  letters.flatMap fun c => letters.map fun d => [c, d] ++ ".net".toList

def tiedLists : Lists :=
  [(1, "demo".toList, "||ads.com^\n||ads.com^$dnsrewrite=1.2.3.4\n".toList ++
    otherNames.flatMap fun name => "||".toList ++ name ++ "^\n".toList)]

def tiedRules : List BuildRule := compiledRules referenceExternal tiedLists

def blockRule (name : Text) : BuildRule where
  rule :=
    { raw := "||".toList ++ name ++ "^".toList
      action := .block
      pattern := .subdomain name
      mods := none
      listId := 1 }
  badfilter := false
  signature := "||".toList ++ name ++ "^|$".toList
  indexTokens := []

def rewriteRule (name : Text) (addr : Ipv4Addr) : BuildRule where
  rule :=
    { raw := "||".toList ++ name ++ "^$dnsrewrite=1.2.3.4".toList
      action := .rewrite
      pattern := .subdomain name
      mods := some { rewrite := some (.a addr) }
      listId := 1 }
  badfilter := false
  signature := "||".toList ++ name ++ "^|$dnsrewrite=1.2.3.4".toList
  indexTokens := []

theorem tiedRules_eq : tiedRules = blockRule "ads.com".toList ::
    rewriteRule "ads.com".toList 0x01020304 :: otherNames.map blockRule := by
  decide +kernel

def lettersHash (name : Text) : Nat := name.foldl (fun h c => h * 31 + c.toNat) 0

/-- Like `plainEnv`, but the sort leaves equal hashes in reverse order. -/
def reverseEnv (dhash : Text → Nat) : BuildEnv where
  dhash := dhash
  sortByHash pairs := pairs.reverse.insertionSort fun p q => p.1 ≤ q.1
  contentHasher bytes := bytes.foldl (fun h b => h * 257 + b.toNat) 0
  sort_perm pairs := (List.perm_insertionSort _ _).trans (List.reverse_perm pairs)
  sort_sorted _ := pairwise_insertionSort_key Prod.fst _

theorem searchable_tiedRules (rx : RegexEngine) (name : Text) : Searchable rx tiedRules name := by
  rw [tiedRules_eq]
  have hkept : NamesKept (blockRule "ads.com".toList ::
      rewriteRule "ads.com".toList 0x01020304 :: otherNames.map blockRule) :=
    namesKept_of_addressable (addressable_of_lt (by decide +kernel) (by decide +kernel)
      (by decide +kernel)) (by decide +kernel)
  exact ⟨by decide +kernel, hkept.readable, hkept.tells⟩

theorem rebuild_keeps_ruling_tiedRules :
    Searchable referenceEngine tiedRules (FilterEngine.normalizeQuery "ads.com".toList) ∧
      (RebuildKeepsRuling referenceEngine tiedRules "ads.com".toList "A".toList {} ↔
        ∀ i j, FrontAt referenceEngine tiedRules
            (FilterEngine.normalizeQuery "ads.com".toList) "A".toList {} i →
          FrontAt referenceEngine tiedRules
            (FilterEngine.normalizeQuery "ads.com".toList) "A".toList {} j →
          rulingAt tiedRules i = rulingAt tiedRules j) :=
  ⟨searchable_tiedRules _ _,
    rebuild_keeps_ruling_iff referenceEngine _ _ _ (searchable_tiedRules _ _)⟩

/-- With one hash and two orders of the entries of the name, it is blocked or rewritten. -/
theorem rebuild_turns_block_into_rewrite :
    rulingIn (plainEnv lettersHash) referenceEngine tiedRules "ads.com".toList "A".toList {} =
      some .block ∧
    rulingIn (reverseEnv lettersHash) referenceEngine tiedRules "ads.com".toList "A".toList {} =
      some (.rewrite (.a 0x01020304)) ∧
    ¬ RebuildKeepsRuling referenceEngine tiedRules "ads.com".toList "A".toList {} := by
  obtain ⟨hplain, hreverse⟩ : rulingIn (plainEnv lettersHash) referenceEngine tiedRules
      "ads.com".toList "A".toList {} = some .block ∧
    rulingIn (reverseEnv lettersHash) referenceEngine tiedRules "ads.com".toList "A".toList {} =
      some (.rewrite (.a 0x01020304)) := by
    rw [tiedRules_eq]
    decide +kernel
  refine ⟨hplain, hreverse, ?_⟩
  intro hsame
  have heq := (hsame (plainEnv lettersHash) (reverseEnv lettersHash)).2.2
  rw [hplain, hreverse] at heq
  cases heq

end Bulwark.Filter
