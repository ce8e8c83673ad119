import Bulwark.Foundation.Utf8
import Bulwark.Filter.Agreement
import Bulwark.Filter.ClientBlind

/-!
# What the content hash identifies

Cached verdicts are kept as long as `content_hash` stays the same, and they are
shared between clients unless some rule depends on the client.  The hasher is
fed the source line, the list id and the action of every rule.  This is enough:
a source line parses back to its rule, so equal streams come from equal rules.
-/

namespace Bulwark.Filter

open Bulwark.Foundation

/-! ## Source lines parse back -/

/-- The rebuilt line of a hosts rule, `address name`, is a hosts line for it alone. -/
private theorem tryParseHosts_raw {line : Text} {rules : List BuildRule} {br : BuildRule}
    (hstart : trimStart line = line) (h : tryParseHosts line = some rules)
    (hbr : br ∈ rules) :
    trim br.rule.raw = br.rule.raw ∧ br.rule.raw.head? = line.head? ∧
      tryParseHosts br.rule.raw = some [br] := by
  rw [tryParseHosts] at h
  split at h
  · cases h
  rename_i first parts hwords
  split at h
  · cases h
  rename_i ip hip
  dsimp only at h
  split at h
  · cases h
  cases h
  obtain ⟨host, hmem, hhost⟩ := List.mem_filterMap.mp hbr
  split at hhost
  · cases hhost
  rename_i hkeep
  cases hhost
  have hname : startsWith ['#'] host = false := by
    simpa using List.mem_takeWhile_imp hmem
  obtain ⟨hne₁, hword₁⟩ := of_mem_splitWhitespace (hwords ▸ List.mem_cons_self)
  obtain ⟨hne₂, hword₂⟩ : host ≠ [] ∧ ∀ c ∈ host, isWhitespace c = false := by
    apply of_mem_splitWhitespace
    rw [hwords]
    exact List.mem_cons_of_mem _ ((List.takeWhile_sublist _).subset hmem)
  have hraw : (hostsRule first host (normDomain host) ip).rule.raw = first ++ ' ' :: host :=
    List.append_assoc first [' '] host
  rw [hraw]
  refine ⟨trim_pair hne₁ hne₂ hword₁ hword₂, ?_, ?_⟩
  · rw [List.head?_append_of_ne_nil _ hne₁, head?_first_word hstart hwords]
  · have hhosts : [host].takeWhile (fun tok => !startsWith ['#'] tok) = [host] := by
      simp [hname]
    rw [tryParseHosts, splitWhitespace_pair hne₁ hne₂ hword₁ hword₂]
    dsimp only
    rw [hip]
    dsimp only
    rw [hhosts, if_neg (List.cons_ne_nil _ _), List.filterMap_cons, if_neg hkeep]
    rfl

theorem parseLine_raw {ext : External} {line : Text} {rules : List BuildRule}
    {br : BuildRule} (h : parseLine ext line = .ok (.rules rules)) (hbr : br ∈ rules) :
    parseLine ext br.rule.raw = .ok (.rules [br]) := by
  have hline := h
  rw [parseLine] at h
  split at h
  · cases h
  rename_i hne
  split at h
  · cases h
  rename_i hmark
  split at h
  · rename_i hosts hhosts
    split at h
    · cases h
    cases h
    obtain ⟨htrim, hhead, hagain⟩ := tryParseHosts_raw (trimStart_trim line) hhosts hbr
    have hne' : br.rule.raw ≠ [] := by
      intro hnil
      rw [hnil, List.head?_nil, eq_comm, List.head?_eq_none_iff] at hhead
      exact hne hhead
    simp only [startsWith_singleton, ← hhead] at hmark
    rw [parseLine]
    simp only [htrim, hagain, startsWith_singleton, if_neg hne', if_neg hmark,
      List.cons_ne_nil, if_false]
  · split at h
    · cases h
    obtain ⟨br', rfl, ⟨parse⟩⟩ := parseAdblock_rules h
    obtain rfl : br = br' := by simpa using hbr
    have hraw : br.rule.raw = trim line := by
      rw [parse.eq]
      rfl
    rw [← hline, hraw, parseLine, parseLine, trim_trim]

/-! ## The stream determines the rules -/

/-- What the stream keeps of a rule. -/
def streamed (br : BuildRule) : Text × Nat × Action :=
  (br.rule.raw, br.rule.listId % 2 ^ 32, br.rule.action)

private theorem tag_inj {a b : Action} (h : a.tag.toUInt8 = b.tag.toUInt8) : a = b := by
  cases a <;> cases b <;> first | rfl | (revert h; decide)

private theorem listId_inj {m n : Nat}
    (h : (List.range 4).map (fun i => (m / 256 ^ i % 256).toUInt8) =
      (List.range 4).map (fun i => (n / 256 ^ i % 256).toUInt8)) :
    m % 2 ^ 32 = n % 2 ^ 32 := by
  have hbyte : ∀ i ∈ List.range 4, m / 256 ^ i % 256 = n / 256 ^ i % 256 := by
    intro i hi
    have hi := congrArg UInt8.toNat (List.map_inj_left.mp h i hi)
    simpa using hi
  have h₀ := hbyte 0 (by decide)
  have h₁ := hbyte 1 (by decide)
  have h₂ := hbyte 2 (by decide)
  have h₃ := hbyte 3 (by decide)
  omega

private theorem contentBytes_append_inj {r r' : Rule} {s s' : List UInt8}
    (h : contentBytes r ++ s = contentBytes r' ++ s') :
    r.raw = r'.raw ∧ r.listId % 2 ^ 32 = r'.listId % 2 ^ 32 ∧ r.action = r'.action ∧
      s = s' := by
  have hshape : ∀ (r : Rule) (s : List UInt8), contentBytes r ++ s =
      utf8Bytes r.raw ++ 0xff ::
        ((List.range 4).map (fun i => (r.listId / 256 ^ i % 256).toUInt8) ++
          r.action.tag.toUInt8 :: s) := by
    intro r s
    simp only [contentBytes, utf8Bytes, List.append_assoc, List.cons_append, List.nil_append]
  rw [hshape, hshape] at h
  obtain ⟨hraw, hrest⟩ := utf8Bytes_mark_inj h
  obtain ⟨hid, hrest⟩ := List.append_inj hrest (by simp)
  obtain ⟨htag, hs⟩ := List.cons.inj hrest
  exact ⟨hraw, listId_inj hid, tag_inj htag, hs⟩

theorem content_inj {rules rules' : List BuildRule}
    (h : (rules.flatMap fun br => contentBytes br.rule) =
      rules'.flatMap fun br => contentBytes br.rule) :
    rules.map streamed = rules'.map streamed := by
  have hne : ∀ r, contentBytes r ≠ [] := by simp [contentBytes]
  induction rules generalizing rules' with
  | nil =>
      cases rules' with
      | nil => rfl
      | cons br rules' => simp [hne] at h
  | cons br rules ih =>
      cases rules' with
      | nil => simp [hne] at h
      | cons br' rules' =>
          obtain ⟨hraw, hid, haction, hrest⟩ := contentBytes_append_inj h
          rw [List.map_cons, List.map_cons, ih hrest, streamed, streamed, hraw, hid, haction]

/-- The ids of these lists are 32-bit numbers. -/
def IdsFit (lists : Lists) : Prop := ∀ l ∈ lists, l.1 < 2 ^ 32

section

variable {ext : External} {lists lists' : Lists}

private theorem eq_of_streamed (hids : IdsFit lists) (hids' : IdsFit lists')
    {br br' : BuildRule} (hbr : br ∈ compiledRules ext lists)
    (hbr' : br' ∈ compiledRules ext lists') (h : streamed br = streamed br') : br = br' := by
  obtain ⟨o⟩ := mem_compiledRules hbr
  obtain ⟨o'⟩ := mem_compiledRules hbr'
  have hback := parseLine_raw o.parse o.mem_rules
  have hback' := parseLine_raw o'.parse o'.mem_rules
  simp only [streamed, o.eq, o'.eq, withList, Prod.mk.injEq] at h
  obtain ⟨hraw, hid, -⟩ := h
  rw [Nat.mod_eq_of_lt (hids _ o.mem_list), Nat.mod_eq_of_lt (hids' _ o'.mem_list)] at hid
  -- Both were parsed from the same line.
  have hparsed : o.parsed = o'.parsed := by
    rw [hraw, hback'] at hback
    simpa using hback.symm
  rw [o.eq, o'.eq, hid, hparsed]

theorem compiledRules_eq_of_content (hids : IdsFit lists) (hids' : IdsFit lists')
    (h : ((compiledRules ext lists).flatMap fun br => contentBytes br.rule) =
      (compiledRules ext lists').flatMap fun br => contentBytes br.rule) :
    compiledRules ext lists = compiledRules ext lists' := by
  have hmap := content_inj h
  have hlen : (compiledRules ext lists).length = (compiledRules ext lists').length := by
    simpa using congrArg List.length hmap
  refine List.ext_getElem hlen fun i hi hi' => ?_
  apply eq_of_streamed hids hids' (List.getElem_mem hi) (List.getElem_mem hi')
  have hat := congrArg (·[i]?) hmap
  simpa [List.getElem?_eq_getElem hi, List.getElem?_eq_getElem hi'] using hat

end

/-! ## Matching rules -/

structure RuleView where
  raw : Text
  listId : Nat
  action : Action
  rewrite : Option RewriteData
  priority : Nat
  deriving DecidableEq, Repr

def Rule.view (r : Rule) : RuleView where
  raw := r.raw
  listId := r.listId
  action := r.action
  rewrite := r.mods.bind (·.rewrite)
  priority := r.priority

def matching (rx : RegexEngine) (rules : List BuildRule) (name rtype : Text)
    (client : ClientInfo) : Set RuleView :=
  {v | ∃ br ∈ rules, Acts rx br name rtype client ∧ br.rule.view = v}

/-- What building an engine from `lists` feeds to its content hasher. -/
def hashedContent (env : BuildEnv) (ext : External) (lists : Lists) : List UInt8 :=
  (Builder.ofRules env (compiledRules ext lists)).content

theorem acts_client {rx : RegexEngine} {br : BuildRule}
    (h : br.rule.mods.any isClientDependent = false) (name rtype : Text)
    (client client' : ClientInfo) :
    Acts rx br name rtype client ↔ Acts rx br name rtype client' := by
  rw [Acts, Acts]
  cases hm : br.rule.mods with
  | none => rfl
  | some m =>
      rw [hm, Option.any_some] at h
      rw [modsApply_client h _ _ _ client client']

theorem matching_client {env : BuildEnv} {rx : RegexEngine} {rules : List BuildRule}
    {e : FilterEngine} (he : fromRules env rx rules = some e)
    (h : e.hasClientDependentRules = false) (name rtype : Text) (client client' : ClientInfo) :
    matching rx rules name rtype client = matching rx rules name rtype client' := by
  have hflag : e.hasClientDependentRules =
      rules.any fun br => br.rule.mods.any isClientDependent := by
    rw [← (Builder.ofRules_holds env rules).clientDependent]
    simp only [fromRules, Option.bind_eq_bind, Option.bind_eq_some_iff, Option.some.injEq] at he
    obtain ⟨_, -, _, -, rfl⟩ := he
    rfl
  rw [hflag, List.any_eq_false] at h
  ext v
  constructor
  · rintro ⟨br, hbr, hacts, hview⟩
    exact ⟨br, hbr, (acts_client (by simpa using h br hbr) ..).mp hacts, hview⟩
  · rintro ⟨br, hbr, hacts, hview⟩
    exact ⟨br, hbr, (acts_client (by simpa using h br hbr) ..).mp hacts, hview⟩

/--
Engines that feed the same bytes to the content hasher have the same matching
rules for every query, and for any two clients when no rule depends on the
client; source lines parse back to their rules.
-/
theorem contentHash_identifies (ext : External) (env env' : BuildEnv) {lists lists' : Lists}
    {e e' : FilterEngine} (hids : IdsFit lists) (hids' : IdsFit lists')
    (he : compile env ext lists = some e) (he' : compile env' ext lists' = some e')
    (hsame : hashedContent env ext lists = hashedContent env' ext lists') :
    (∀ name rtype client, matching ext.rx (compiledRules ext lists) name rtype client =
      matching ext.rx (compiledRules ext lists') name rtype client) ∧
    (e.hasClientDependentRules = false ∨ e'.hasClientDependentRules = false →
      ∀ name rtype client client',
      matching ext.rx (compiledRules ext lists) name rtype client =
        matching ext.rx (compiledRules ext lists') name rtype client') ∧
    (∀ line rules br, parseLine ext line = .ok (.rules rules) → br ∈ rules →
      parseLine ext br.rule.raw = .ok (.rules [br])) := by
  rw [hashedContent, hashedContent, (Builder.ofRules_holds _ _).content,
    (Builder.ofRules_holds _ _).content] at hsame
  have hrules := compiledRules_eq_of_content hids hids' hsame
  refine ⟨fun name rtype client => by rw [hrules], ?_, fun line rules br => parseLine_raw⟩
  rintro (hblind | hblind) name rtype client client'
  · rw [← hrules]
    exact matching_client he hblind name rtype client client'
  · rw [hrules]
    exact matching_client he' hblind name rtype client client'

def respacedLists : Lists :=
  [(1, "a".toList, "! title\n  ||ads.com^\n1.2.3.4   host.lan # router\n".toList)]

def plainLists : Lists :=
  [(1, "b".toList, "||ads.com^\n1.2.3.4 host.lan\n".toList)]

theorem contentHash_identifies_respacedLists :
    ∃ e e', compile (plainEnv List.length) referenceExternal respacedLists = some e ∧
      compile (plainEnv List.length) referenceExternal plainLists = some e' ∧
      e.hasClientDependentRules = false ∧
      ∀ name rtype client client',
        matching referenceEngine (compiledRules referenceExternal respacedLists) name rtype
            client =
          matching referenceEngine (compiledRules referenceExternal plainLists) name rtype
            client' := by
  obtain ⟨e, he⟩ := Option.isSome_iff_exists.mp (show (compile (plainEnv List.length)
    referenceExternal respacedLists).isSome = true by decide +kernel)
  obtain ⟨e', he'⟩ := Option.isSome_iff_exists.mp (show (compile (plainEnv List.length)
    referenceExternal plainLists).isSome = true by decide +kernel)
  have hblind : e.hasClientDependentRules = false := by
    have hflag : (compile (plainEnv List.length) referenceExternal respacedLists).map
        (·.hasClientDependentRules) = some false := by decide +kernel
    rw [he] at hflag
    simpa using hflag
  exact ⟨e, e', he, he', hblind, (contentHash_identifies referenceExternal _ _
    (by unfold IdsFit; decide) (by unfold IdsFit; decide) he he' (by decide +kernel)).2.1
      (.inl hblind)⟩

end Bulwark.Filter
