import Bulwark.Filter.Engine

/-!
# Where compiled rules come from

Every rule handed to the engine is one parsed from a line of one of the lists,
with the list's id filled in.  A parsed rule carries the data its action needs,
only a wildcard has index tokens, and they are those of its own body.
-/

namespace Bulwark.Filter

open Bulwark.Foundation

/-! ## Modifiers -/

def ModState.Complete (st : ModState) : Prop :=
  st.action = .rewrite → st.mods.rewrite.isSome = true

theorem bind_ok {ε α β : Type} {x : Except ε α} {f : α → Except ε β} {b : β}
    (h : (x >>= f) = .ok b) : ∃ a, x = .ok a ∧ f a = .ok b := by
  cases x with
  | error e => cases h
  | ok a => exact ⟨a, rfl, h⟩

theorem applyModifier_complete {ext : External} {key value : Text} {st st' : ModState}
    (h : applyModifier ext key value st = .ok (some st')) (hst : st.Complete) :
    st'.Complete := by
  rw [applyModifier] at h
  split at h
  · cases h
    exact hst
  split at h
  · cases h
    exact hst
  split at h
  · obtain ⟨f, -, h⟩ := bind_ok h
    cases h
    exact hst
  split at h
  · obtain ⟨f, -, h⟩ := bind_ok h
    cases h
    exact hst
  split at h
  · obtain ⟨f, -, h⟩ := bind_ok h
    cases h
    exact hst
  split at h
  · dsimp only at h
    split at h
    · cases h
    · cases h
      exact hst
  split at h
  · obtain ⟨data, -, h⟩ := bind_ok h
    cases h
    exact fun _ => rfl
  · cases h

theorem applyModifiers_complete {ext : External} {toks : List Text}
    {st st' : ModState} (h : applyModifiers ext toks st = .ok (some st'))
    (hst : st.Complete) : st'.Complete := by
  induction toks generalizing st with
  | nil =>
      cases h
      exact hst
  | cons tok toks ih =>
      rw [applyModifiers] at h
      split at h
      · exact ih h hst
      · split at h
        · cases h
        · cases h
        · rename_i st₁ hone
          exact ih h (applyModifier_complete hone hst)

/-! ## Patterns -/

/-- The first half of `stripAnchors`. -/
def stripFront (p : Text) : Text × Bool × Bool :=
  match "||".toList.isPrefixOf? p with
  | some rest => (rest, true, false)
  | none =>
      match ['|'].isPrefixOf? p with
      | some rest => (rest, false, true)
      | none => (p, false, false)

/-- The second half of `stripAnchors`. -/
def stripBack (s : Text) : Text × Bool :=
  match ['^'].isSuffixOf? s with
  | some rest => (rest, true)
  | none =>
      match ['|'].isSuffixOf? s with
      | some rest => (rest, true)
      | none => (s, false)

theorem stripAnchors_eq (p : Text) :
    stripAnchors p = ⟨trimEndMatches '^' (stripBack (stripFront p).1).1,
      (stripFront p).2.1, (stripFront p).2.2, (stripBack (stripFront p).1).2⟩ :=
  rfl

theorem stripFront_subset (p : Text) : (stripFront p).1 ⊆ p := by
  unfold stripFront
  split
  · rename_i rest h
    rw [isPrefixOf?_eq_some h]
    exact List.subset_append_right _ _
  · split
    · rename_i rest h
      rw [isPrefixOf?_eq_some h]
      exact List.subset_append_right _ _
    · exact List.Subset.refl _

theorem stripBack_subset (s : Text) : (stripBack s).1 ⊆ s := by
  unfold stripBack
  split
  · rename_i rest h
    rw [isSuffixOf?_eq_some h]
    exact List.subset_append_left _ _
  · split
    · rename_i rest h
      rw [isSuffixOf?_eq_some h]
      exact List.subset_append_left _ _
    · exact List.Subset.refl _

theorem stripAnchors_subset (p : Text) : (stripAnchors p).body ⊆ p := by
  rw [stripAnchors_eq]
  intro c hc
  have hback := trimEndMatches_subset _ _ hc
  exact stripFront_subset _ (stripBack_subset _ hback)

theorem splitModifiers_subset (s : Text) : (splitModifiers s).1 ⊆ s := by
  intro c hc
  rw [splitModifiers] at hc
  split at hc
  · rename_i hslash
    split at hc
    · rename_i before after hsplit
      rw [splitOnceStr_eq_some hsplit]
      have hmem : c ∈ before ∨ c = '/' := by simpa using hc
      rcases hmem with hmem | rfl
      · simp [hmem]
      · exact List.mem_append_left _ (List.mem_append_right _ (by decide))
    · exact hc
  · split at hc
    · rename_i before after hsplit
      rw [(splitOnce_eq_some hsplit).1]
      simp [hc]
    · exact hc

theorem splitException_subset (line : Text) : (splitException line).2 ⊆ line := by
  intro c hc
  rw [splitException] at hc
  split at hc
  · rename_i rest h
    rw [isPrefixOf?_eq_some h]
    exact List.mem_append_right _ hc
  · exact hc

/-- Tokens are absent, or those of the wildcard's own body. -/
def TokensOf (raw : Text) (pattern : Pattern) (toks : List UInt32) : Prop :=
  toks = [] ∨ ∃ body sub start stop,
    pattern = .wildcard ⟨wildcardSource body sub start stop⟩ ∧
    toks = tokenizePatternSafe (toAsciiLowercase body) ∧ body ⊆ raw

inductive PatternOf (ext : External) (p : Text) : Pattern → List UInt32 → Prop where
  | regex (re : Regex) : PatternOf ext p (.regex re) []
  | wildcard {re : Regex} (hre : buildWildcardRegex ext (stripAnchors p).body
      (stripAnchors p).subdomain (stripAnchors p).start (stripAnchors p).stop = .ok re) :
      PatternOf ext p (.wildcard re)
        (tokenizePatternSafe (toAsciiLowercase (stripAnchors p).body))
  | address {ip : Text} (hip : ipLiteral (stripAnchors p).body = some ip) :
      PatternOf ext p (.exact ip) []
  | exact (hhost : isDnsHostname (normDomain (stripAnchors p).body) = true) :
      PatternOf ext p (.exact (normDomain (stripAnchors p).body)) []
  | subdomain (hhost : isDnsHostname (normDomain (stripAnchors p).body) = true) :
      PatternOf ext p (.subdomain (normDomain (stripAnchors p).body)) []

theorem patternOf_of_parse {ext : External} {p : Text} {pattern : Pattern}
    {toks : List UInt32} (h : parsePattern ext p = .ok (pattern, toks)) :
    PatternOf ext p pattern toks := by
  rw [parsePattern] at h
  split at h
  · dsimp only at h
    split at h
    · cases h
    · obtain ⟨re, -, h⟩ := bind_ok h
      cases h
      exact .regex re
  · dsimp only at h
    split at h
    · obtain ⟨re, hre, h⟩ := bind_ok h
      cases h
      exact .wildcard hre
    · split at h
      · rename_i ip hip
        cases h
        exact .address hip
      · split at h
        · cases h
        split at h
        · cases h
        rename_i hhost
        have hhost' : isDnsHostname (normDomain (stripAnchors p).body) = true := by
          simpa using hhost
        split at h
        · cases h
          exact .exact hhost'
        · cases h
          exact .subdomain hhost'

theorem parsePattern_tokens {ext : External} {p : Text} {pattern : Pattern}
    {toks : List UInt32} (h : parsePattern ext p = .ok (pattern, toks)) :
    TokensOf p pattern toks := by
  cases patternOf_of_parse h with
  | wildcard hre =>
      rw [buildWildcardRegex, compileRegex] at hre
      split at hre
      · cases hre
        exact .inr ⟨_, _, _, _, rfl, rfl, stripAnchors_subset p⟩
      · cases hre
  | regex | address | exact | subdomain => exact .inl rfl

/-! ## Lengths of adblock names -/

private theorem utf8Len_le (t : Text) : utf8Len t ≤ 4 * t.length := by
  induction t with
  | nil => simp
  | cons c t ih =>
      have hc : c.utf8Size ≤ 4 := Char.utf8Size_le_four c
      rw [utf8Len_cons, List.length_cons]
      omega

private theorem length_joinWith_le (sep : Text) (parts : List Text) {n : Nat}
    (h : ∀ t ∈ parts, t.length ≤ n) :
    (joinWith sep parts).length ≤ parts.length * (n + sep.length) := by
  induction parts with
  | nil => simp [joinWith]
  | cons t parts ih =>
      have ht := h t List.mem_cons_self
      have hrest := ih fun u hu => h u (List.mem_cons_of_mem _ hu)
      cases parts with
      | nil =>
          simp only [joinWith, List.length_cons, List.length_nil]
          omega
      | cons u rest =>
          rw [joinWith, List.length_append, List.length_append, List.length_cons,
            Nat.succ_mul]
          omega

private theorem length_renderIpv4Addr (addr : Ipv4Addr) :
    (renderIpv4Addr addr).length ≤ 16 := by
  have hn : addr.toNat < 2 ^ 32 := addr.isLt
  have hdec : ∀ m, m < 256 → (renderDecimal m).length ≤ 3 := by
    intro m hm
    exact (Nat.length_toDigits_le_iff (by decide) (by decide)).mpr (by omega)
  have hparts : ∀ t ∈ [addr.toNat / 2 ^ 24, addr.toNat / 2 ^ 16 % 256,
      addr.toNat / 2 ^ 8 % 256, addr.toNat % 256].map renderDecimal, t.length ≤ 3 := by
    intro t ht
    simp only [List.map_cons, List.map_nil, List.mem_cons, List.not_mem_nil,
      or_false] at ht
    rcases ht with rfl | rfl | rfl | rfl <;> apply hdec <;> omega
  have hjoin := length_joinWith_le ['.'] _ hparts
  simpa [renderIpv4Addr] using hjoin

private theorem length_renderSegments {segs : List Nat}
    (h : ∀ seg ∈ segs, seg < 65536) : (renderSegments segs).length ≤ segs.length * 5 := by
  have hparts : ∀ t ∈ segs.map (Nat.toDigits 16), t.length ≤ 4 := by
    intro t ht
    obtain ⟨seg, hseg, rfl⟩ := List.mem_map.mp ht
    have hlt := h seg hseg
    exact (Nat.length_toDigits_le_iff (by decide) (by decide)).mpr (by omega)
  have hjoin := length_joinWith_le [':'] _ hparts
  simpa [renderSegments] using hjoin

theorem length_renderIpAddr (ip : IpAddr) : (renderIpAddr ip).length ≤ 62 := by
  cases ip with
  | v4 addr => exact le_trans (length_renderIpv4Addr addr) (by decide)
  | v6 addr =>
      have hsegs : ∀ seg ∈ segments addr, seg < 65536 := by
        intro seg hseg
        obtain ⟨i, -, rfl⟩ := List.mem_map.mp hseg
        exact Nat.mod_lt _ (by decide)
      have hlen : (segments addr).length = 8 := by simp [segments]
      simp only [renderIpAddr, renderIpv6Addr]
      split
      · have h4 := length_renderIpv4Addr (BitVec.ofNat 32 addr.toNat)
        rw [List.length_append]
        have h7 : "::ffff:".toList.length = 7 := rfl
        omega
      · split
        · set zeros := longestZeros (segments addr)
          have hfront := length_renderSegments fun seg h =>
            hsegs seg (List.mem_of_mem_take (i := zeros.start) h)
          have hback := length_renderSegments fun seg h =>
            hsegs seg (List.mem_of_mem_drop (i := zeros.start + zeros.len) h)
          have h2 : "::".toList.length = 2 := rfl
          rw [List.length_append, List.length_append]
          simp only [List.length_take, List.length_drop] at hfront hback
          omega
        · have := length_renderSegments hsegs
          omega

def Pattern.name : Pattern → Text
  | .exact d | .subdomain d => d
  | .wildcard _ | .regex _ => []

private theorem utf8Len_of_isDnsHostname {t : Text} (h : isDnsHostname t = true) :
    utf8Len t ≤ 253 := by
  simp only [isDnsHostname, Bool.and_eq_true, decide_eq_true_eq] at h
  exact h.1.2

theorem parsePattern_name {ext : External} {p : Text} {pattern : Pattern}
    {toks : List UInt32} (h : parsePattern ext p = .ok (pattern, toks)) :
    utf8Len pattern.name ≤ 253 := by
  cases patternOf_of_parse h with
  | regex | wildcard => exact Nat.zero_le _
  | address hip =>
      obtain ⟨addr, -, rfl⟩ := Option.map_eq_some_iff.mp hip
      have hlen := length_renderIpAddr addr
      have hutf := utf8Len_le (renderIpAddr addr)
      simp only [Pattern.name]
      omega
  | exact hhost | subdomain hhost => exact utf8Len_of_isDnsHostname hhost

/-! ## Lines -/

def patternText (line : Text) : Text :=
  trim (splitModifiers (splitException line).2).1

def modifierText (line : Text) : Option Text :=
  (splitModifiers (splitException line).2).2

def adblockRule (line : Text) (pattern : Pattern) (toks : List UInt32)
    (st : ModState) : BuildRule where
  rule :=
    { raw := line
      action := st.action
      pattern := pattern
      mods := if st.mods.isEmpty then none else some st.mods
      listId := 0 }
  badfilter := st.badfilter
  signature := makeSignature (splitException line).1 (patternText line)
    (modifierText line)
  indexTokens := toks

structure AdblockParse (ext : External) (line : Text) (br : BuildRule) where
  pattern : Pattern
  toks : List UInt32
  st : ModState
  parsedPattern : parsePattern ext (patternText line) = .ok (pattern, toks)
  parsedMods : applyModifiers ext (modifierTokens (modifierText line))
    { action := (splitException line).1 } = .ok (some st)
  eq : br = adblockRule line pattern toks st

theorem parseAdblock_rules {ext : External} {line : Text} {rules : List BuildRule}
    (h : parseAdblock ext line = .ok (.rules rules)) :
    ∃ br, rules = [br] ∧ Nonempty (AdblockParse ext line br) := by
  rw [parseAdblock] at h
  dsimp only at h
  split at h
  · cases h
  · obtain ⟨⟨pattern, toks⟩, hpattern, h⟩ := bind_ok h
    obtain ⟨mods, hmods, h⟩ := bind_ok h
    cases mods with
    | none => cases h
    | some st =>
        cases h
        exact ⟨_, rfl, ⟨⟨pattern, toks, st, hpattern, hmods, rfl⟩⟩⟩

theorem parseAdblock_eq {ext : External} {line : Text} {pattern : Pattern}
    {toks : List UInt32} {st : ModState} (hne : patternText line ≠ [])
    (hpattern : parsePattern ext (patternText line) = .ok (pattern, toks))
    (hmods : applyModifiers ext (modifierTokens (modifierText line))
      { action := (splitException line).1 } = .ok (some st)) :
    parseAdblock ext line = .ok (.rules [adblockRule line pattern toks st]) := by
  rw [patternText] at hne hpattern
  rw [modifierText] at hmods
  rw [parseAdblock]
  dsimp only
  rw [if_neg hne, hpattern, hmods]
  rfl

structure HostsParse (line : Text) (br : BuildRule) where
  first : Text
  host : Text
  ip : IpAddr
  first_eq : (splitWhitespace line).head? = some first
  mem_host : host ∈ splitWhitespace line
  parsedIp : parseIpAddr first = some ip
  nonempty : normDomain host ≠ []
  eq : br = hostsRule first host (normDomain host) ip

theorem tryParseHosts_rules {line : Text} {rules : List BuildRule} {br : BuildRule}
    (h : tryParseHosts line = some rules) (hbr : br ∈ rules) :
    Nonempty (HostsParse line br) := by
  rw [tryParseHosts] at h
  split at h
  · cases h
  · rename_i first parts hwords
    split at h
    · cases h
    · rename_i ip hip
      dsimp only at h
      split at h
      · cases h
      · cases h
        obtain ⟨host, hmem, hhost⟩ := List.mem_filterMap.mp hbr
        have hword : host ∈ splitWhitespace line := by
          rw [hwords]
          exact List.mem_cons_of_mem _ ((List.takeWhile_sublist _).subset hmem)
        split at hhost
        · cases hhost
        · rename_i hkeep
          cases hhost
          exact ⟨⟨first, host, ip, by rw [hwords]; rfl, hword, hip,
            fun hnil => hkeep (.inl hnil), rfl⟩⟩

def isHostsLine (line : Text) : Bool := (tryParseHosts line).isSome

theorem parseLine_rules {ext : External} {line : Text} {rules : List BuildRule}
    {br : BuildRule} (h : parseLine ext line = .ok (.rules rules)) (hbr : br ∈ rules) :
    (isHostsLine (trim line) = true ∧ Nonempty (HostsParse (trim line) br)) ∨
      (isHostsLine (trim line) = false ∧ Nonempty (AdblockParse ext (trim line) br)) := by
  rw [parseLine] at h
  split at h
  · cases h
  split at h
  · cases h
  split at h
  · rename_i hosts hhosts
    split at h
    · cases h
    · cases h
      exact .inl ⟨by rw [isHostsLine, hhosts]; rfl, tryParseHosts_rules hhosts hbr⟩
  · rename_i hnone
    split at h
    · cases h
    · obtain ⟨br', rfl, hparse⟩ := parseAdblock_rules h
      obtain rfl : br = br' := by simpa using hbr
      exact .inr ⟨by rw [isHostsLine, hnone]; rfl, hparse⟩

/-! ## Lists -/

/-- A parsed rule as a rule of list `listId`. -/
def withList (listId : Nat) (br : BuildRule) : BuildRule :=
  { br with rule := { br.rule with listId := listId } }

structure Origin (ext : External) (lists : Lists) (br : BuildRule) where
  list : Nat × Text × Text
  line : Text
  rules : List BuildRule
  parsed : BuildRule
  mem_list : list ∈ lists
  mem_line : line ∈ lines list.2.2
  parse : parseLine ext line = .ok (.rules rules)
  mem_rules : parsed ∈ rules
  active : parsed.badfilter = false
  eq : br = withList list.1 parsed

section

variable {ext : External}

def parsedRules (ext : External) (line : Text) : List BuildRule :=
  match parseLine ext line with
  | .ok (.rules rules) => rules
  | _ => []

theorem mem_parsedRules {line : Text} {br : BuildRule} :
    br ∈ parsedRules ext line ↔
      ∃ rules, parseLine ext line = .ok (.rules rules) ∧ br ∈ rules := by
  unfold parsedRules
  constructor
  · intro h
    split at h
    · rename_i rules hparse
      exact ⟨rules, hparse, h⟩
    · cases h
  · rintro ⟨rules, hparse, h⟩
    rwa [hparse]

/-- Every rule of a list, in order, under the id of the list. -/
def listRules (ext : External) (l : Nat × Text × Text) : List BuildRule :=
  (lines l.2.2).flatMap fun line => (parsedRules ext line).map (withList l.1)

/-- `c'` is `c` with these rules added, those of `$badfilter` as signatures only. -/
structure Added (new : List BuildRule) (c c' : Compiler) : Prop where
  rules : c'.rules = c.rules ++ new.filter fun br => !br.badfilter
  sigs : ∀ sig, sig ∈ c'.badfilterSigs ↔
    sig ∈ c.badfilterSigs ∨ ∃ br ∈ new, br.badfilter = true ∧ br.signature = sig

theorem Added.refl (c : Compiler) : Added [] c c where
  rules := by simp
  sigs := by simp

theorem Added.trans {new new' : List BuildRule} {c c' c'' : Compiler}
    (h : Added new c c') (h' : Added new' c' c'') : Added (new ++ new') c c'' where
  rules := by rw [h'.rules, h.rules, List.filter_append, List.append_assoc]
  sigs sig := by
    rw [h'.sigs, h.sigs]
    simp only [List.mem_append, or_and_right, exists_or, or_assoc]

theorem Added.foldl {α σ : Type} (compiler : σ → Compiler) {step : σ → α → σ}
    {adds : α → List BuildRule} (h : ∀ st x, Added (adds x) (compiler st) (compiler (step st x)))
    (l : List α) (st : σ) :
    Added (l.flatMap adds) (compiler st) (compiler (l.foldl step st)) := by
  induction l generalizing st with
  | nil => exact Added.refl _
  | cons x l ih =>
      rw [List.flatMap_cons, List.foldl_cons]
      exact (h st x).trans (ih (step st x))

theorem added_addRule (listId : Nat) (st : Compiler × ListStats) (br : BuildRule) :
    Added [withList listId br] st.1 (Compiler.addRule listId st br).1 := by
  obtain ⟨rule, badfilter, sig, toks⟩ := br
  cases badfilter with
  | true =>
      constructor
      · simp [Compiler.addRule, withList]
      · intro sig'
        simp only [Compiler.addRule, withList, if_true, List.mem_cons, List.not_mem_nil,
          or_false, exists_eq_left, true_and]
        rw [or_comm, eq_comm]
  | false => constructor <;> simp [Compiler.addRule, withList]

theorem added_addLine (listId : Nat) (st : Compiler × ListStats) (line : Text) :
    Added ((parsedRules ext line).map (withList listId)) st.1
      (Compiler.addLine ext listId st line).1 := by
  rw [Compiler.addLine, parsedRules]
  rcases parseLine ext line with _ | rules | _ | _
  · exact Added.refl _
  · have hloop := Added.foldl Prod.fst (added_addRule listId) rules st
    rwa [← List.map_eq_flatMap] at hloop
  · exact Added.refl _
  · exact Added.refl _

theorem added_compileLists (lists : Lists) :
    Added (lists.flatMap (listRules ext)) {} (compileLists ext lists) := by
  have hlist : ∀ (c : Compiler) (l : Nat × Text × Text),
      Added (listRules ext l) c (c.addList ext l.1 l.2.1 l.2.2).1 := by
    intro c l
    have hline := @added_addLine ext l.1
    obtain ⟨hrules, hsigs⟩ := Added.foldl Prod.fst hline (lines l.2.2) (c, ⟨l.1, l.2.1, 0, 0, 0⟩)
    exact ⟨hrules, hsigs⟩
  exact Added.foldl id hlist lists {}

theorem mem_listRules {lists : Lists} {br : BuildRule}
    (h : br ∈ lists.flatMap (listRules ext)) :
    ∃ l ∈ lists, ∃ line ∈ lines l.2.2, ∃ rules, parseLine ext line = .ok (.rules rules) ∧
      ∃ parsed ∈ rules, br = withList l.1 parsed := by
  obtain ⟨l, hl, h⟩ := List.mem_flatMap.mp h
  obtain ⟨line, hline, h⟩ := List.mem_flatMap.mp h
  obtain ⟨parsed, hparsed, rfl⟩ := List.mem_map.mp h
  obtain ⟨rules, hparse, hmem⟩ := mem_parsedRules.mp hparsed
  exact ⟨l, hl, line, hline, rules, hparse, parsed, hmem, rfl⟩

theorem mem_compileLists {lists : Lists} {br : BuildRule}
    (h : br ∈ (compileLists ext lists).rules) : Nonempty (Origin ext lists br) := by
  rw [(added_compileLists lists).rules, List.nil_append, List.mem_filter] at h
  obtain ⟨hmem, hactive⟩ := h
  obtain ⟨l, hl, line, hline, rules, hparse, parsed, hparsed, heq⟩ := mem_listRules hmem
  have hbad : parsed.badfilter = false := by
    rw [heq] at hactive
    simpa [withList] using hactive
  exact ⟨⟨l, line, rules, parsed, hl, hline, hparse, hparsed, hbad, heq⟩⟩

theorem mem_badfilterSigs {lists : Lists} {sig : Text}
    (h : sig ∈ (compileLists ext lists).badfilterSigs) :
    ∃ l ∈ lists, ∃ line ∈ lines l.2.2, ∃ rules, parseLine ext line = .ok (.rules rules) ∧
      ∃ bad ∈ rules, bad.badfilter = true ∧ bad.signature = sig := by
  rcases ((added_compileLists lists).sigs sig).mp h with h | ⟨br, hmem, hbad, hsig⟩
  · cases h
  · obtain ⟨l, hl, line, hline, rules, hparse, parsed, hparsed, rfl⟩ := mem_listRules hmem
    exact ⟨l, hl, line, hline, rules, hparse, parsed, hparsed, hbad, hsig⟩

theorem keepFirst_sublist (seen : List Text) (rules : List BuildRule) :
    (keepFirst seen rules).Sublist rules := by
  induction rules generalizing seen with
  | nil => exact List.Sublist.slnil
  | cons br rules ih =>
      rw [keepFirst]
      split
      · exact (ih seen).cons br
      · exact (ih _).cons_cons br

theorem pruneRedundant_sublist (active : List BuildRule) :
    (pruneRedundant active).Sublist active := by
  rw [pruneRedundant]
  split
  · exact List.Sublist.refl _
  · exact List.filter_sublist

theorem mem_active {lists : Lists} {br : BuildRule}
    (h : br ∈ (compileLists ext lists).active) : Nonempty (Origin ext lists br) := by
  have hkept := (keepFirst_sublist _ _).subset h
  exact mem_compileLists (List.mem_filter.mp hkept).1

theorem mem_compiledRules {lists : Lists} {br : BuildRule}
    (h : br ∈ compiledRules ext lists) : Nonempty (Origin ext lists br) :=
  mem_active ((pruneRedundant_sublist _).subset h)

end

/-! ## What every compiled rule satisfies -/

def IsHosts (br : BuildRule) : Prop :=
  ∃ line listId parsed, Nonempty (HostsParse line parsed) ∧ br = withList listId parsed

structure WellParsed (br : BuildRule) : Prop where
  tokens : TokensOf br.rule.raw br.rule.pattern br.indexTokens
  rewrite : br.rule.action = .rewrite →
    ∃ m data, br.rule.mods = some m ∧ m.rewrite = some data
  name : IsHosts br ∨ utf8Len br.rule.pattern.name ≤ 253

private theorem wellParsed_hosts {line : Text} {br : BuildRule}
    (h : HostsParse line br) (listId : Nat) : WellParsed (withList listId br) := by
  have hosts := h
  obtain ⟨first, host, ip, -, -, hip, hne, rfl⟩ := h
  constructor
  · exact .inl rfl
  · intro haction
    by_cases hblock : isBlockingIp ip = true
    · simp [withList, hostsRule, hblock] at haction
    · exact ⟨_, _, if_neg hblock, rfl⟩
  · exact .inl ⟨line, listId, _, ⟨hosts⟩, rfl⟩

private theorem wellParsed_adblock {ext : External} {line : Text} {br : BuildRule}
    (h : AdblockParse ext line br) (listId : Nat) : WellParsed (withList listId br) := by
  obtain ⟨pattern, toks, st, hpattern, hmods, rfl⟩ := h
  constructor
  · rcases parsePattern_tokens hpattern with hnil | ⟨body, sub, start, stop, hp, ht, hsub⟩
    · exact .inl hnil
    · refine .inr ⟨body, sub, start, stop, hp, ht, ?_⟩
      intro c hc
      exact splitException_subset line
        (splitModifiers_subset _ (trim_subset _ (hsub hc)))
  · intro haction
    have hstart : ModState.Complete { action := (splitException line).1 } := by
      intro hrw
      rw [splitException] at hrw
      split at hrw <;> cases hrw
    have hsome := applyModifiers_complete hmods hstart haction
    obtain ⟨data, hdata⟩ := Option.isSome_iff_exists.mp hsome
    have hne : st.mods.isEmpty = false := by
      simp [RuleMods.isEmpty, hdata]
    exact ⟨st.mods, data, by simp [withList, adblockRule, hne], hdata⟩
  · exact .inr (parsePattern_name hpattern)

theorem wellParsed_of_origin {ext : External} {lists : Lists} {br : BuildRule}
    (o : Origin ext lists br) : WellParsed br := by
  rw [o.eq]
  rcases parseLine_rules o.parse o.mem_rules with ⟨-, h⟩ | ⟨-, h⟩
  · obtain ⟨h⟩ := h
    exact wellParsed_hosts h _
  · obtain ⟨h⟩ := h
    exact wellParsed_adblock h _

theorem wellParsed_of_mem {ext : External} {lists : Lists} {br : BuildRule}
    (h : br ∈ compiledRules ext lists) : WellParsed br := by
  obtain ⟨o⟩ := mem_compiledRules h
  exact wellParsed_of_origin o

end Bulwark.Filter
