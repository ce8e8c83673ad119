import Bulwark.Filter.Agreement

/-!
# Signatures

Signatures decide which rules are the same: the first one is kept, and
`$badfilter` cancels all of them.  A signature lowercases the pattern and sorts
the modifiers.  This loses the address of a hosts line, the letter case of a
regex, and which of two values of one modifier came last.  Where none of these
matters, rules with equal signatures are interchangeable.
-/

namespace Bulwark.Filter

open Bulwark.Foundation

/-! ## Letter case in patterns -/

section

variable {sep : Char} (hsep : isCaseless sep = true)

include hsep

private theorem contains_lower (t : Text) :
    contains sep (toAsciiLowercase t) = contains sep t := by
  rw [contains, contains, toAsciiLowercase, List.any_map]
  congr 1
  funext c
  rw [Function.comp_apply, Bool.eq_iff_iff, beq_iff_eq, beq_iff_eq, toLower_eq_iff hsep]

private theorem trimEndMatches_lower (t : Text) :
    trimEndMatches sep (toAsciiLowercase t) = toAsciiLowercase (trimEndMatches sep t) := by
  have hp : ((· == sep) ∘ Char.toLower) = (· == sep) := by
    funext c
    rw [Function.comp_apply, Bool.eq_iff_iff, beq_iff_eq, beq_iff_eq, toLower_eq_iff hsep]
  rw [trimEndMatches, trimEndMatches, toAsciiLowercase, toAsciiLowercase,
    List.rdropWhile, List.rdropWhile, ← List.map_reverse, List.dropWhile_map, hp,
    List.map_reverse]

end

private theorem isWhitespace_toLower (c : Char) :
    isWhitespace c.toLower = isWhitespace c := by
  rw [Bool.eq_iff_iff]
  simp only [isWhitespace, toNat_toLower, Bool.or_eq_true, Bool.and_eq_true,
    decide_eq_true_eq, beq_iff_eq]
  split <;> omega

private theorem trim_lower (t : Text) :
    trim (toAsciiLowercase t) = toAsciiLowercase (trim t) := by
  have hp : isWhitespace ∘ Char.toLower = isWhitespace := funext isWhitespace_toLower
  rw [trim, trim, trimEnd, trimEnd, trimStart, trimStart, toAsciiLowercase,
    toAsciiLowercase, List.rdropWhile, List.rdropWhile, List.dropWhile_map, hp,
    ← List.map_reverse, List.dropWhile_map, hp, List.map_reverse]

private theorem isPrefixOf?_lower {p : Text} (hp : p.all isCaseless = true)
    (t : Text) :
    p.isPrefixOf? (toAsciiLowercase t) = (p.isPrefixOf? t).map toAsciiLowercase := by
  induction p generalizing t with
  | nil => cases t <;> rfl
  | cons c p ih =>
      cases t with
      | nil => rfl
      | cons d t =>
          rw [List.all_cons, Bool.and_eq_true] at hp
          have hcd : (c == d.toLower) = (c == d) := by
            rw [Bool.eq_iff_iff, beq_iff_eq, beq_iff_eq, eq_comm, toLower_eq_iff hp.1, eq_comm]
          have htail := ih hp.2 t
          rw [toAsciiLowercase] at htail
          simp only [toAsciiLowercase, List.map_cons, List.isPrefixOf?, hcd, htail]
          split <;> rfl

private theorem isSuffixOf?_lower {p : Text} (hp : p.all isCaseless = true)
    (t : Text) :
    p.isSuffixOf? (toAsciiLowercase t) = (p.isSuffixOf? t).map toAsciiLowercase := by
  have hrev : (toAsciiLowercase t).reverse = toAsciiLowercase t.reverse := by
    simp [toAsciiLowercase]
  rw [List.isSuffixOf?, List.isSuffixOf?, hrev,
    isPrefixOf?_lower (by rwa [List.all_reverse])]
  cases p.reverse.isPrefixOf? t.reverse <;> simp [toAsciiLowercase]

theorem normDomain_lower (t : Text) : normDomain (toAsciiLowercase t) = normDomain t := by
  rw [normDomain, normDomain, trim_lower, trimEndMatches_lower (by decide),
    toAsciiLowercase_idem]

theorem ipLiteral_lower (t : Text) : ipLiteral (toAsciiLowercase t) = ipLiteral t := by
  rw [ipLiteral, ipLiteral, isPrefixOf?_lower (by decide)]
  cases hopen : ['['].isPrefixOf? t with
  | none => simp [parseIpAddr_lower]
  | some rest =>
      simp only [Option.map_some, Option.bind_some]
      rw [isSuffixOf?_lower (by decide)]
      cases hclose : [']'].isSuffixOf? rest <;> simp [parseIpAddr_lower]

private theorem stripFront_lower (p : Text) :
    stripFront (toAsciiLowercase p) = Prod.map toAsciiLowercase id (stripFront p) := by
  rw [stripFront, stripFront, isPrefixOf?_lower (by decide), isPrefixOf?_lower (by decide)]
  cases "||".toList.isPrefixOf? p with
  | some rest => rfl
  | none => cases ['|'].isPrefixOf? p <;> rfl

private theorem stripBack_lower (s : Text) :
    stripBack (toAsciiLowercase s) = Prod.map toAsciiLowercase id (stripBack s) := by
  rw [stripBack, stripBack, isSuffixOf?_lower (by decide), isSuffixOf?_lower (by decide)]
  cases ['^'].isSuffixOf? s with
  | some rest => rfl
  | none => cases ['|'].isSuffixOf? s <;> rfl

theorem stripAnchors_lower (p : Text) :
    stripAnchors (toAsciiLowercase p) =
      { stripAnchors p with body := toAsciiLowercase (stripAnchors p).body } := by
  rw [stripAnchors_eq, stripAnchors_eq, stripFront_lower]
  have hcaret : isCaseless '^' = true := by decide
  simp only [Prod.map, id, stripBack_lower, trimEndMatches_lower hcaret]

private theorem compileRegex_ok {ext : External} {source : Text} {re : Regex}
    (h : compileRegex ext source = .ok re) : re = ⟨source⟩ := by
  rw [compileRegex] at h
  split at h
  · cases h
    rfl
  · cases h

theorem parsePattern_lower {ext : External} {p p' : Text} {pattern pattern' : Pattern}
    {toks toks' : List UInt32} (hlower : toAsciiLowercase p = toAsciiLowercase p')
    (hp : isRegexPattern p = false) (hp' : isRegexPattern p' = false)
    (h : parsePattern ext p = .ok (pattern, toks))
    (h' : parsePattern ext p' = .ok (pattern', toks')) (name : Text) :
    PatternMatches ext.rx pattern name ↔ PatternMatches ext.rx pattern' name := by
  have hanchors := stripAnchors_lower p
  rw [hlower, stripAnchors_lower p'] at hanchors
  obtain ⟨hbody, hsub, hstart, hstop⟩ := Anchored.mk.inj hanchors
  have hglob : ∀ c, isCaseless c = true →
      contains c (stripAnchors p').body = contains c (stripAnchors p).body := by
    intro c hc
    rw [← contains_lower hc, hbody, contains_lower hc]
  rw [parsePattern, hp, if_neg Bool.false_ne_true] at h
  rw [parsePattern, hp', if_neg Bool.false_ne_true] at h'
  dsimp only at h h'
  rw [hglob '*' (by decide), hglob '^' (by decide), ← ipLiteral_lower, hbody,
    ipLiteral_lower, ← normDomain_lower, hbody, normDomain_lower, hstart] at h'
  split at h
  · rename_i hwild
    rw [if_pos hwild] at h'
    obtain ⟨re, hre, h⟩ := bind_ok h
    obtain ⟨re', hre', h'⟩ := bind_ok h'
    cases h
    cases h'
    rw [compileRegex_ok hre, compileRegex_ok hre', hsub, hstop]
    simp only [PatternMatches]
    rw [ext.rx.isMatch_wildcard_lower hbody.symm]
  · rename_i hwild
    rw [if_neg hwild] at h'
    have hsame : Except.ok (pattern, toks) = Except.ok (pattern', toks') := h.symm.trans h'
    cases hsame
    exact Iff.rfl

/-! ## The last value of each modifier -/

def lastValue (key : Text) : List Text → Option Text
  | [] => none
  | tok :: toks =>
      (lastValue key toks).or
        (if (keyValue (trim tok)).1 = key then some (keyValue (trim tok)).2 else none)

/-- The state after a modifier whose value parses. -/
def setModifier (ext : External) (key value : Text) (st : ModState) : ModState where
  action :=
    if key = "dnsrewrite".toList then
      if st.action = .block then .rewrite else st.action
    else st.action
  badfilter := if key = "badfilter".toList then true else st.badfilter
  mods :=
    { important := if key = "important".toList then true else st.mods.important
      dnstype :=
        if key = "dnstype".toList then (parseDnstype value).toOption else st.mods.dnstype
      client :=
        if key = "client".toList then (parseClient ext value).toOption else st.mods.client
      ctag := if key = "ctag".toList then (parseCtag value).toOption else st.mods.ctag
      denyallow :=
        if key = "denyallow".toList then (nonEmptyParts value).map normDomain
        else st.mods.denyallow
      rewrite :=
        if key = "dnsrewrite".toList then (parseDnsrewrite value).toOption
        else st.mods.rewrite }

theorem applyModifier_eq {ext : External} {key value : Text} {st st' : ModState}
    (h : applyModifier ext key value st = .ok (some st')) :
    st' = setModifier ext key value st := by
  rw [applyModifier] at h
  split at h
  · rename_i hkey
    cases h
    rw [hkey]
    rfl
  split at h
  · rename_i hkey
    cases h
    rw [hkey]
    rfl
  split at h
  · rename_i hkey
    obtain ⟨f, hf, h⟩ := bind_ok h
    cases h
    rw [hkey, setModifier, hf]
    rfl
  split at h
  · rename_i hkey
    obtain ⟨f, hf, h⟩ := bind_ok h
    cases h
    rw [hkey, setModifier, hf]
    rfl
  split at h
  · rename_i hkey
    obtain ⟨f, hf, h⟩ := bind_ok h
    cases h
    rw [hkey, setModifier, hf]
    rfl
  split at h
  · rename_i hkey
    dsimp only at h
    split at h
    · cases h
    · cases h
      rw [hkey]
      rfl
  split at h
  · rename_i hkey
    obtain ⟨data, hdata, h⟩ := bind_ok h
    cases h
    rw [hkey, setModifier, hdata]
    rfl
  · cases h

/-- A field that only one key sets, to a value that forgets the old one. -/
theorem applyModifiers_field {α : Type} {ext : External} {key : Text}
    (get : ModState → α) (f : Text → α → α) (hkey : key ≠ [])
    (hset : ∀ k v st,
      get (setModifier ext k v st) = if k = key then f v (get st) else get st)
    (hf : ∀ v v' a, f v (f v' a) = f v a) {toks : List Text} {st st' : ModState}
    (h : applyModifiers ext toks st = .ok (some st')) :
    get st' = (lastValue key toks).elim (get st) fun v => f v (get st) := by
  induction toks generalizing st with
  | nil =>
      cases h
      rfl
  | cons tok toks ih =>
      rw [applyModifiers] at h
      rw [lastValue]
      split at h
      · rename_i hempty
        have hother : ¬ (keyValue (trim tok)).1 = key := by
          rw [hempty]
          exact fun heq => hkey heq.symm
        rw [ih h, if_neg hother, Option.or_none]
      · split at h
        · cases h
        · cases h
        · rename_i st₁ hone
          rw [ih h, applyModifier_eq hone, hset]
          cases lastValue key toks with
          | some v =>
              rw [Option.some_or, Option.elim_some, Option.elim_some]
              split
              · exact hf v _ _
              · rfl
          | none =>
              rw [Option.none_or, Option.elim_none]
              split <;> rfl

/-- Modifiers with a value, of which only the last one counts. -/
def valuedKeys : List Text :=
  ["dnstype", "client", "ctag", "denyallow", "dnsrewrite"].map String.toList

/-- What the last value of a modifier sets, where there is one. -/
def lastSetting (ext : External) (key : Text) (toks : List Text) : Option ModState :=
  (lastValue key toks).map fun value => setModifier ext key value { action := .block }

theorem applyModifiers_congr {ext : External} {toks toks' : List Text}
    {action : Action} {st st' : ModState}
    (hlast : ∀ key ∈ valuedKeys, lastSetting ext key toks = lastSetting ext key toks')
    (himportant : (lastValue "important".toList toks).isSome =
      (lastValue "important".toList toks').isSome)
    (h : applyModifiers ext toks { action := action } = .ok (some st))
    (h' : applyModifiers ext toks' { action := action } = .ok (some st')) :
    st.action = st'.action ∧ st.mods = st'.mods := by
  have hvalued : ∀ {α : Type} (key : Text) (get : ModState → α) (f : Text → α),
      key ∈ valuedKeys → (∀ k v st, get (setModifier ext k v st) =
        if k = key then f v else get st) → get st = get st' := by
    intro α key get f hkey hset
    have hne : key ≠ [] := by
      rintro rfl
      exact absurd hkey (by decide)
    have hread : ∀ {toks : List Text} {st : ModState},
        applyModifiers ext toks { action := action } = .ok (some st) →
        get st = (lastSetting ext key toks).elim (get { action := action }) get := by
      intro toks st h
      rw [applyModifiers_field get (fun v _ => f v) hne hset (fun _ _ _ => rfl) h, lastSetting]
      cases lastValue key toks with
      | none => rfl
      | some v => simp [hset]
    rw [hread h, hread h', hlast key hkey]
  constructor
  · -- an exception stays one, and the value of a rewrite does not matter
    have hread : ∀ {toks : List Text} {st : ModState},
        applyModifiers ext toks { action := action } = .ok (some st) →
        st.action = (lastSetting ext "dnsrewrite".toList toks).elim action
          fun _ => if action = .block then .rewrite else action := by
      intro toks st h
      rw [applyModifiers_field ModState.action (fun _ a => if a = .block then .rewrite else a)
        (by decide) (fun _ _ _ => rfl) (fun _ _ a => by cases a <;> rfl) h, lastSetting]
      cases lastValue "dnsrewrite".toList toks <;> rfl
    rw [hread h, hread h', hlast _ (by decide)]
  · have hdnstype := hvalued "dnstype".toList (·.mods.dnstype) _ (by decide)
      fun _ _ _ => rfl
    have hclient := hvalued "client".toList (·.mods.client) _ (by decide) fun _ _ _ => rfl
    have hctag := hvalued "ctag".toList (·.mods.ctag) _ (by decide) fun _ _ _ => rfl
    have hdenyallow := hvalued "denyallow".toList (·.mods.denyallow) _ (by decide)
      fun _ _ _ => rfl
    have hrewrite := hvalued "dnsrewrite".toList (·.mods.rewrite) _ (by decide)
      fun _ _ _ => rfl
    have hflag : ∀ {toks : List Text} {st : ModState},
        applyModifiers ext toks { action := action } = .ok (some st) →
        st.mods.important = (lastValue "important".toList toks).isSome := by
      intro toks st h
      rw [applyModifiers_field (fun st => st.mods.important) (fun _ _ => true) (by decide)
        (fun _ _ _ => rfl) (fun _ _ _ => rfl) h]
      cases lastValue "important".toList toks <;> rfl
    have himp : st.mods.important = st'.mods.important := by
      rw [hflag h, hflag h', himportant]
    cases hm : st.mods
    cases hm' : st'.mods
    simp_all

/-! ## Reading a signature back -/

/-- The modifiers as the signature lists them, before they are sorted. -/
def signatureParts (mods : Option Text) : List Text :=
  ((modifierTokens mods).map trim).filter fun s => s ≠ [] && s ≠ "badfilter".toList

private theorem makeSignature_eq (action : Action) (p : Text) (mods : Option Text) :
    makeSignature action p mods =
      (if action = .allow then "@@".toList else []) ++ (toAsciiLowercase p ++ '|' :: '$' ::
        joinWith [','] ((signatureParts mods).insertionSort fun a b => textLe a b = true)) := by
  cases mods <;>
    simp only [makeSignature, signatureParts, modifierTokens, List.append_assoc] <;> rfl

private theorem mem_signatureParts {mods : Option Text} {part : Text}
    (h : part ∈ signatureParts mods) : part ≠ [] ∧ ',' ∉ part := by
  simp only [signatureParts, List.mem_filter, List.mem_map, Bool.and_eq_true,
    decide_eq_true_eq] at h
  obtain ⟨⟨tok, htok, rfl⟩, hne, -⟩ := h
  refine ⟨hne, fun hcomma => ?_⟩
  have hmem := trim_subset tok hcomma
  cases mods with
  | none => simp [modifierTokens] at htok
  | some m =>
      rw [modifierTokens, List.splitOn_eq_splitOnP] at htok
      have hsep := (mem_of_mem_splitOnP htok hmem).2
      simp at hsep

theorem signatureParts_perm {mods mods' : Option Text}
    (h : joinWith [','] ((signatureParts mods).insertionSort fun a b => textLe a b = true) =
      joinWith [','] ((signatureParts mods').insertionSort fun a b => textLe a b = true)) :
    (signatureParts mods).Perm (signatureParts mods') := by
  have hparts : ∀ {mods : Option Text}, ∀ t ∈ (signatureParts mods).insertionSort
      fun a b => textLe a b = true, t ≠ [] ∧ ',' ∉ t := by
    intro mods t ht
    exact mem_signatureParts ((List.mem_insertionSort _).mp ht)
  have hsort := joinWith_inj hparts hparts h
  have hperm := List.perm_insertionSort (fun a b => textLe a b = true) (signatureParts mods)
  rw [hsort] at hperm
  exact hperm.symm.trans (List.perm_insertionSort _ _)

def partsWith (key : Text) (mods : Option Text) : List Text :=
  (signatureParts mods).filter fun part => (keyValue part).1 = key

theorem lastValue_eq {key : Text} (hne : key ≠ []) (hbad : key ≠ "badfilter".toList)
    (mods : Option Text) : lastValue key (modifierTokens mods) =
      (partsWith key mods).getLast?.map fun part => (keyValue part).2 := by
  have hkeyed : partsWith key mods =
      ((modifierTokens mods).map trim).filter fun part => (keyValue part).1 = key := by
    rw [partsWith, signatureParts, List.filter_filter]
    refine List.filter_congr fun part _ => ?_
    by_cases hkey : (keyValue part).1 = key
    · have hempty : part ≠ [] := by
        rintro rfl
        exact hne hkey.symm
      have hother : part ≠ "badfilter".toList := by
        rintro rfl
        exact hbad hkey.symm
      rw [decide_eq_true hempty, decide_eq_true hother, Bool.and_self, Bool.and_true]
    · rw [decide_eq_false hkey, Bool.false_and]
  rw [hkeyed]
  induction modifierTokens mods with
  | nil => rfl
  | cons tok toks ih =>
      rw [lastValue, ih, List.map_cons, List.filter_cons]
      by_cases hkey : (keyValue (trim tok)).1 = key
      · simp only [hkey, decide_true, if_true, List.getLast?_cons]
        cases (List.filter _ _).getLast? <;> rfl
      · simp [hkey]

theorem lastValue_perm {key : Text} (hkey : key ∈ valuedKeys) {mods mods' : Option Text}
    (h : (signatureParts mods).Perm (signatureParts mods'))
    (honce : (partsWith key mods).length ≤ 1) :
    lastValue key (modifierTokens mods) = lastValue key (modifierTokens mods') := by
  have hne : key ≠ [] ∧ key ≠ "badfilter".toList := by
    refine ⟨?_, ?_⟩ <;>
    · rintro rfl
      exact absurd hkey (by decide)
  have hparts : (partsWith key mods).Perm (partsWith key mods') := h.filter _
  have hsame : partsWith key mods = partsWith key mods' := by
    match hlist : partsWith key mods, honce with
    | [], _ => exact (List.nil_perm.mp (hlist ▸ hparts)).symm
    | [part], _ => exact (List.perm_singleton.mp (hlist ▸ hparts).symm).symm
  rw [lastValue_eq hne.1 hne.2, lastValue_eq hne.1 hne.2, hsame]

theorem isSome_lastValue_perm {key : Text} (hne : key ≠ []) (hbad : key ≠ "badfilter".toList)
    {mods mods' : Option Text} (h : (signatureParts mods).Perm (signatureParts mods')) :
    (lastValue key (modifierTokens mods)).isSome =
      (lastValue key (modifierTokens mods')).isSome := by
  have hparts : (partsWith key mods).Perm (partsWith key mods') := h.filter _
  rw [lastValue_eq hne hbad, lastValue_eq hne hbad, Option.isSome_map, Option.isSome_map,
    Bool.eq_iff_iff, List.getLast?_isSome, List.getLast?_isSome, ne_eq, ne_eq,
    ← List.length_eq_zero_iff, ← List.length_eq_zero_iff, hparts.length_eq]

theorem splitModifiers_isPrefix (s : Text) : (splitModifiers s).1 <+: s := by
  rw [splitModifiers]
  split
  · split
    · rename_i before after hsplit
      rw [splitOnceStr_eq_some hsplit]
      exact ⟨'$' :: after, by simp⟩
    · exact List.prefix_rfl
  · split
    · rename_i before after hsplit
      rw [(splitOnce_eq_some hsplit).1]
      exact ⟨'$' :: after, rfl⟩
    · exact List.prefix_rfl

/-- A pattern that does not start with a slash ends before the first dollar sign. -/
theorem dollar_notMem_patternText {line : Text}
    (h : startsWith ['/'] (patternText line) = false) : '$' ∉ patternText line := by
  rw [patternText] at h ⊢
  generalize (splitException line).2 = body at h ⊢
  intro hmem
  have hbody : startsWith ['/'] body = false := by
    by_contra hslash
    rw [Bool.not_eq_false] at hslash
    have hfirst : ∃ tail, (splitModifiers body).1 = '/' :: tail := by
      rw [startsWith, List.isPrefixOf_iff_prefix] at hslash
      obtain ⟨rest, rfl⟩ := hslash
      rw [splitModifiers, if_pos (by rfl)]
      split
      · rename_i before after hsplit
        cases before with
        | nil => exact ⟨[], rfl⟩
        | cons c before =>
            have heq := splitOnceStr_eq_some hsplit
            rw [List.append_assoc, List.cons_append] at heq
            obtain ⟨rfl, -⟩ := List.cons.inj heq
            exact ⟨before ++ ['/'], rfl⟩
      · exact ⟨rest, rfl⟩
    obtain ⟨tail, htail⟩ := hfirst
    rw [htail, startsWith_singleton, head?_trim_cons tail (by decide)] at h
    simp at h
  have hcut := trim_subset _ hmem
  rw [splitModifiers, hbody, if_neg Bool.false_ne_true] at hcut
  split at hcut
  · rename_i before after hsplit
    exact (splitOnce_eq_some hsplit).2 hcut
  · rename_i hnone
    exact splitOnce_eq_none hnone hcut

theorem startsWith_patternText {line : Text} (hline : trimStart line = line)
    (h : (splitException line).1 = .block) :
    startsWith "@@".toList (patternText line) = false := by
  have hbody : (splitException line).2 = line ∧ startsWith "@@".toList line = false := by
    rw [splitException] at h ⊢
    split at h
    · cases h
    · rename_i hnone
      refine ⟨rfl, ?_⟩
      by_contra hstart
      rw [Bool.not_eq_false, startsWith, List.isPrefixOf_iff_prefix] at hstart
      obtain ⟨rest, rfl⟩ := hstart
      cases hnone
  rw [patternText, hbody.1]
  by_contra hstart
  rw [Bool.not_eq_false, startsWith, List.isPrefixOf_iff_prefix] at hstart
  have hprefix := hstart.trans (trim_isPrefix (splitModifiers_isPrefix line) hline)
  rw [← List.isPrefixOf_iff_prefix] at hprefix
  have := hbody.2
  rw [startsWith, hprefix] at this
  cases this

private theorem startsWith_at_lower {p t : Text}
    (h : startsWith "@@".toList (toAsciiLowercase p ++ '|' :: t) = true) :
    startsWith "@@".toList p = true := by
  have hat : isCaseless '@' = true := by decide
  rw [startsWith, List.isPrefixOf_iff_prefix] at h ⊢
  obtain ⟨rest, hrest⟩ := h
  rcases p with _ | ⟨c, _ | ⟨d, p⟩⟩
  · cases hrest
  · exact absurd (List.cons.inj (List.cons.inj hrest).2).1 (by decide)
  · obtain ⟨hc, htail⟩ := List.cons.inj hrest
    obtain ⟨hd, -⟩ := List.cons.inj htail
    rw [(toLower_eq_iff hat).mp hc.symm, (toLower_eq_iff hat).mp hd.symm]
    exact ⟨p, rfl⟩

/-! ## Interchangeable rules -/

def rewriteData (br : BuildRule) : Option RewriteData := br.rule.mods.bind (·.rewrite)

/-- The two rules act on the same queries, in the same way. -/
structure Interchangeable (rx : RegexEngine) (a b : BuildRule) : Prop where
  action : a.rule.action = b.rule.action
  priority : a.rule.priority = b.rule.priority
  rewrite : rewriteData a = rewriteData b
  acts : ∀ name rtype client, Acts rx a name rtype client ↔ Acts rx b name rtype client

private theorem interchangeable_of_eq {rx : RegexEngine} {a b : BuildRule}
    (haction : a.rule.action = b.rule.action) (hmods : a.rule.mods = b.rule.mods)
    (hpattern : ∀ name, PatternMatches rx a.rule.pattern name ↔
      PatternMatches rx b.rule.pattern name) : Interchangeable rx a b where
  action := haction
  priority := by rw [Rule.priority, Rule.priority, haction, hmods]
  rewrite := by rw [rewriteData, rewriteData, hmods]
  acts name rtype client := by rw [Acts, Acts, hpattern, haction, hmods]

def hostsAddress (line : Text) : Option IpAddr :=
  (splitWhitespace line).head?.bind parseIpAddr

/-- Patterns with a leading slash differ at most in letter case, regexes not at all. -/
def PatternsAlike (p p' : Text) : Prop :=
  startsWith ['/'] p = true →
    if isRegexPattern p || isRegexPattern p' then p = p'
    else toAsciiLowercase p = toAsciiLowercase p'

/-- The lines do not differ in what signatures leave out. -/
def SignatureSafe (ext : External) (line line' : Text) : Prop :=
  match isHostsLine line, isHostsLine line' with
  | true, true =>
      hostsAddress line = hostsAddress line' ∨ (hostsAddress line).any isBlockingIp = true
  | true, false => '$' ∉ line
  | false, true => '$' ∉ line'
  | false, false =>
      PatternsAlike (patternText line) (patternText line') ∧
        ∀ key ∈ valuedKeys, lastSetting ext key (modifierTokens (modifierText line)) =
          lastSetting ext key (modifierTokens (modifierText line'))

/-- Of such a line a signature only leaves out the address, or which of several rewrites
comes last. -/
def PlainLine (line : Text) : Prop :=
  match isHostsLine line with
  | true => '$' ∉ line
  | false => startsWith ['/'] (patternText line) = false ∧
      ∀ key ∈ valuedKeys, key ≠ "dnsrewrite".toList →
        (partsWith key (modifierText line)).length ≤ 1

/-- The same line, up to the case of the pattern and the order of the modifiers. -/
structure SameText (line line' : Text) : Prop where
  exception : (splitException line).1 = (splitException line').1
  pattern : toAsciiLowercase (patternText line) = toAsciiLowercase (patternText line')
  regex : (isRegexPattern (patternText line) || isRegexPattern (patternText line')) = true →
    patternText line = patternText line'
  mods : (signatureParts (modifierText line)).Perm (signatureParts (modifierText line'))

private theorem splitException_cases (line : Text) :
    (splitException line).1 = .allow ∨ (splitException line).1 = .block := by
  rw [splitException]
  split
  · exact .inl rfl
  · exact .inr rfl

private theorem exception_of_signature {line line' : Text} (hline' : trimStart line' = line')
    (hallow : (splitException line).1 = .allow)
    (h : makeSignature (splitException line).1 (patternText line) (modifierText line) =
      makeSignature (splitException line').1 (patternText line') (modifierText line')) :
    (splitException line').1 = .allow := by
  rcases splitException_cases line' with hallow' | hblock
  · exact hallow'
  · rw [makeSignature_eq, makeSignature_eq, hallow, hblock, if_pos rfl, if_neg (by decide),
      List.nil_append] at h
    have hmarker : startsWith "@@".toList (patternText line') = true := by
      apply startsWith_at_lower
      rw [← h, startsWith, List.isPrefixOf_iff_prefix]
      exact List.prefix_append _ _
    rw [startsWith_patternText hline' hblock] at hmarker
    cases hmarker

private theorem isRegexPattern_slash {p : Text} (h : isRegexPattern p = true) :
    startsWith ['/'] p = true := by
  simp only [isRegexPattern, Bool.and_eq_true] at h
  exact h.1.1

theorem sameText_of_signature {line line' : Text} (hline : trimStart line = line)
    (hline' : trimStart line' = line')
    (hsafe : PatternsAlike (patternText line) (patternText line'))
    (h : makeSignature (splitException line).1 (patternText line) (modifierText line) =
      makeSignature (splitException line').1 (patternText line') (modifierText line')) :
    SameText line line' := by
  have hexception : (splitException line).1 = (splitException line').1 := by
    rcases splitException_cases line with hl | hl
    · rw [hl, exception_of_signature hline' hl h]
    · rcases splitException_cases line' with hl' | hl'
      · rw [hl', exception_of_signature hline hl' h.symm]
      · rw [hl, hl']
  rw [makeSignature_eq, makeSignature_eq, hexception] at h
  have htail := List.append_cancel_left h
  have hslash : startsWith ['/'] (patternText line) = startsWith ['/'] (patternText line') := by
    have hhead : ∀ p t : Text, startsWith ['/'] (toAsciiLowercase p ++ '|' :: t) =
        startsWith ['/'] p := by
      intro p t
      rw [startsWith_singleton, startsWith_singleton]
      cases p with
      | nil => rfl
      | cons c p =>
          rw [Bool.eq_iff_iff]
          simp [toAsciiLowercase, toLower_eq_iff (show isCaseless '/' = true by decide)]
    rw [← hhead, htail, hhead]
  by_cases hs : startsWith ['/'] (patternText line) = true
  · have halike := hsafe hs
    have hpattern : toAsciiLowercase (patternText line) =
        toAsciiLowercase (patternText line') := by
      split at halike
      · rw [halike]
      · exact halike
    rw [hpattern] at htail
    have hjoin := (List.cons.inj (List.cons.inj (List.append_cancel_left htail)).2).2
    exact ⟨hexception, hpattern, fun hre => by rwa [if_pos hre] at halike,
      signatureParts_perm hjoin⟩
  · have hs' : ¬ startsWith ['/'] (patternText line') = true := by rwa [← hslash]
    have hdollar : ∀ {l : Text}, ¬ startsWith ['/'] (patternText l) = true →
        '$' ∉ toAsciiLowercase (patternText l) ++ ['|'] := by
      intro l hl hmem
      rcases List.mem_append.mp hmem with hmem | hmem
      · obtain ⟨c, hc, hlow⟩ := List.mem_map.mp hmem
        rw [toLower_eq_iff (by decide)] at hlow
        rw [hlow] at hc
        exact dollar_notMem_patternText (by simpa using hl) hc
      · exact absurd hmem (by decide)
    have hcut := congrArg (splitOnce '$') htail
    rw [List.append_cons, List.append_cons (toAsciiLowercase (patternText line')) '|',
      splitOnce_append (hdollar hs), splitOnce_append (hdollar hs'), Option.some.injEq,
      Prod.mk.injEq] at hcut
    refine ⟨hexception, List.append_cancel_right hcut.1, fun hre => ?_,
      signatureParts_perm hcut.2⟩
    rw [Bool.or_eq_true] at hre
    rcases hre with hre | hre
    · exact absurd (isRegexPattern_slash hre) hs
    · exact absurd (isRegexPattern_slash hre) hs'

section

variable {ext : External} {line line' : Text} {br br' : BuildRule}

private theorem parsePattern_alike {p p' : Text} {pattern pattern' : Pattern}
    {toks toks' : List UInt32} (hlower : toAsciiLowercase p = toAsciiLowercase p')
    (hregex : (isRegexPattern p || isRegexPattern p') = true → p = p')
    (h : parsePattern ext p = .ok (pattern, toks))
    (h' : parsePattern ext p' = .ok (pattern', toks')) (name : Text) :
    PatternMatches ext.rx pattern name ↔ PatternMatches ext.rx pattern' name := by
  cases hre : isRegexPattern p || isRegexPattern p' with
  | true =>
      rw [hregex hre, h'] at h
      cases h
      exact Iff.rfl
  | false =>
      rw [Bool.or_eq_false_iff] at hre
      exact parsePattern_lower hlower hre.1 hre.2 h h' name

theorem AdblockParse.interchangeable (a : AdblockParse ext line br)
    (a' : AdblockParse ext line' br') (htext : SameText line line')
    (hlast : ∀ key ∈ valuedKeys, lastSetting ext key (modifierTokens (modifierText line)) =
      lastSetting ext key (modifierTokens (modifierText line'))) :
    Interchangeable ext.rx br br' := by
  have himportant : (lastValue "important".toList (modifierTokens (modifierText line))).isSome =
      (lastValue "important".toList (modifierTokens (modifierText line'))).isSome :=
    isSome_lastValue_perm (by decide) (by decide) htext.mods
  have hmods' := a'.parsedMods
  rw [← htext.exception] at hmods'
  obtain ⟨haction, hmods⟩ := applyModifiers_congr hlast himportant a.parsedMods hmods'
  rw [a.eq, a'.eq]
  apply interchangeable_of_eq
  · exact haction
  · simp only [adblockRule, hmods]
  · exact parsePattern_alike htext.pattern htext.regex a.parsedPattern a'.parsedPattern

private theorem hostsRule_signature {first first' host host' domain domain' : Text}
    {ip ip' : IpAddr}
    (h : (hostsRule first host domain ip).signature =
      (hostsRule first' host' domain' ip').signature) :
    domain = domain' ∧ isBlockingIp ip = isBlockingIp ip' := by
  -- The kind behind the last bar has no bar in it.
  have hread : ∀ (domain : Text) (block : Bool),
      splitOnce '|' ("hosts|".toList ++ domain ++ ['|'] ++
        (if block then "block".toList else "rewrite".toList)).reverse =
      some ((if block then "block".toList else "rewrite".toList).reverse,
        ("hosts|".toList ++ domain).reverse) := by
    intro domain block
    rw [List.reverse_append, List.reverse_append, List.reverse_singleton,
      List.singleton_append]
    exact splitOnce_append (by cases block <;> decide) _
  have hcut := congrArg (fun t : Text => splitOnce '|' t.reverse) h
  simp only [hostsRule, hread, Option.some.injEq, Prod.mk.injEq, List.reverse_inj] at hcut
  have hkinds : ∀ b b' : Bool, (if b then "block".toList else "rewrite".toList) =
      (if b' then "block".toList else "rewrite".toList) → b = b' := by decide
  exact ⟨List.append_cancel_left hcut.2, hkinds _ _ hcut.1⟩

theorem HostsParse.address (a : HostsParse line br) : hostsAddress line = some a.ip := by
  rw [hostsAddress, a.first_eq]
  exact a.parsedIp

theorem HostsParse.interchangeable {rx : RegexEngine} (a : HostsParse line br)
    (a' : HostsParse line' br') (hsig : br.signature = br'.signature)
    (haddress : hostsAddress line = hostsAddress line' ∨
      (hostsAddress line).any isBlockingIp = true) : Interchangeable rx br br' := by
  rw [a.address, a'.address, Option.some.injEq, Option.any_some] at haddress
  rw [a.eq, a'.eq] at hsig ⊢
  obtain ⟨hdomain, hblock⟩ := hostsRule_signature hsig
  apply interchangeable_of_eq
  · simp only [hostsRule, hblock]
  · rcases haddress with hip | hip
    · simp only [hostsRule, hip]
    · simp only [hostsRule, ← hblock, hip, if_true]
  · intro name
    simp only [hostsRule, hdomain]

theorem HostsParse.signature_ne (a : HostsParse line br) (a' : AdblockParse ext line' br')
    (hdollar : '$' ∉ line) : br.signature ≠ br'.signature := by
  intro hsig
  have hmem : '$' ∈ br'.signature := by
    rw [a'.eq, adblockRule, makeSignature_eq]
    simp
  rw [← hsig, a.eq] at hmem
  have hdomain : '$' ∈ normDomain a.host := by
    have hkind : '$' ∉ (if isBlockingIp a.ip then "block".toList else "rewrite".toList) := by
      split <;> decide
    simp only [hostsRule, List.mem_append, hkind, or_false] at hmem
    rcases hmem with (hmem | hmem) | hmem
    · exact absurd hmem (by decide)
    · exact hmem
    · exact absurd hmem (by decide)
  obtain ⟨c, hc, hlow⟩ := List.mem_map.mp hdomain
  rw [(toLower_eq_iff (by decide)).mp hlow] at hc
  have hhost := trim_subset _ (trimEndMatches_subset _ _ hc)
  exact hdollar (mem_of_mem_splitOnP (List.mem_filter.mp a.mem_host).1 hhost).1

def ParsedFrom (ext : External) (line : Text) (br : BuildRule) : Prop :=
  ∃ rules, parseLine ext line = .ok (.rules rules) ∧ br ∈ rules

theorem interchangeable_of_safe (h : ParsedFrom ext line br) (h' : ParsedFrom ext line' br')
    (hsafe : SignatureSafe ext (trim line) (trim line'))
    (hsig : br.signature = br'.signature) : Interchangeable ext.rx br br' := by
  obtain ⟨rules, hparse, hmem⟩ := h
  obtain ⟨rules', hparse', hmem'⟩ := h'
  rw [SignatureSafe] at hsafe
  rcases parseLine_rules hparse hmem with ⟨hkind, ⟨a⟩⟩ | ⟨hkind, ⟨a⟩⟩
  · rcases parseLine_rules hparse' hmem' with ⟨hkind', ⟨a'⟩⟩ | ⟨hkind', ⟨a'⟩⟩
    · rw [hkind, hkind'] at hsafe
      exact a.interchangeable a' hsig hsafe
    · rw [hkind, hkind'] at hsafe
      exact absurd hsig (a.signature_ne a' hsafe)
  · rcases parseLine_rules hparse' hmem' with ⟨hkind', ⟨a'⟩⟩ | ⟨hkind', ⟨a'⟩⟩
    · rw [hkind, hkind'] at hsafe
      exact absurd hsig.symm (a'.signature_ne a hsafe)
    · rw [hkind, hkind'] at hsafe
      rw [a.eq, a'.eq] at hsig
      have htext := sameText_of_signature (trimStart_trim line) (trimStart_trim line')
        hsafe.1 hsig
      exact a.interchangeable a' htext hsafe.2

/-! ## Plain lines -/

theorem HostsParse.address_of_interchangeable {rx : RegexEngine} (a : HostsParse line br)
    (a' : HostsParse line' br') (hsig : br.signature = br'.signature)
    (h : Interchangeable rx br br') : hostsAddress line = hostsAddress line' ∨
      (hostsAddress line).any isBlockingIp = true := by
  rw [a.address, a'.address, Option.some.injEq, Option.any_some]
  have hrewrite := h.rewrite
  rw [a.eq, a'.eq] at hsig hrewrite
  obtain ⟨-, hblock⟩ := hostsRule_signature hsig
  cases hip : isBlockingIp a.ip with
  | true => exact .inr rfl
  | false =>
      rw [hip] at hblock
      refine .inl ?_
      simp only [rewriteData, hostsRule, hip, ← hblock, if_false, Bool.false_eq_true,
        Option.bind_some, Option.some.injEq] at hrewrite
      cases hfirst : a.ip <;> cases hsecond : a'.ip <;> simp_all

theorem rewriteData_adblockRule (line : Text) (pattern : Pattern) (toks : List UInt32)
    (st : ModState) : rewriteData (adblockRule line pattern toks st) = st.mods.rewrite := by
  rw [rewriteData, adblockRule]
  dsimp only
  split
  · rename_i hempty
    simp only [RuleMods.isEmpty, Bool.and_eq_true, Option.isNone_iff_eq_none] at hempty
    exact hempty.2.symm
  · rfl

theorem AdblockParse.rewriteData_eq (a : AdblockParse ext line br) : rewriteData br =
    (lastSetting ext "dnsrewrite".toList (modifierTokens (modifierText line))).bind
      (·.mods.rewrite) := by
  have hread := applyModifiers_field (fun st => st.mods.rewrite)
    (fun v _ => (parseDnsrewrite v).toOption) (by decide) (fun _ _ _ => rfl)
    (fun _ _ _ => rfl) a.parsedMods
  have hmods : rewriteData br = a.st.mods.rewrite :=
    (congrArg rewriteData a.eq).trans (rewriteData_adblockRule ..)
  rw [hmods, hread, lastSetting]
  cases lastValue "dnsrewrite".toList (modifierTokens (modifierText line)) <;> rfl

/-- Rewrites with the same data set the same. -/
theorem lastSetting_of_rewrite {toks toks' : List Text}
    (hsome : (lastValue "dnsrewrite".toList toks).isSome =
      (lastValue "dnsrewrite".toList toks').isSome)
    (h : (lastSetting ext "dnsrewrite".toList toks).bind (·.mods.rewrite) =
      (lastSetting ext "dnsrewrite".toList toks').bind (·.mods.rewrite)) :
    lastSetting ext "dnsrewrite".toList toks = lastSetting ext "dnsrewrite".toList toks' := by
  unfold lastSetting at h ⊢
  cases hv : lastValue "dnsrewrite".toList toks with
  | none =>
      rw [hv] at hsome
      have hnone := Option.isSome_eq_false_iff.mp hsome.symm
      rw [Option.isNone_iff_eq_none] at hnone
      rw [hnone]
  | some v =>
      rw [hv] at hsome
      obtain ⟨v', hv'⟩ := Option.isSome_iff_exists.mp hsome.symm
      rw [hv, hv'] at h
      have hdata : (parseDnsrewrite v).toOption = (parseDnsrewrite v').toOption := h
      rw [hv', Option.map_some, Option.map_some, setModifier, setModifier, hdata]
      rfl

/-- Plain lines with equal signatures are safe where their rules are interchangeable. -/
theorem safe_of_interchangeable (h : ParsedFrom ext line br) (h' : ParsedFrom ext line' br')
    (hplain : PlainLine (trim line)) (hplain' : PlainLine (trim line'))
    (hsig : br.signature = br'.signature) (hsame : Interchangeable ext.rx br br') :
    SignatureSafe ext (trim line) (trim line') := by
  obtain ⟨rules, hparse, hmem⟩ := h
  obtain ⟨rules', hparse', hmem'⟩ := h'
  rw [PlainLine] at hplain hplain'
  rw [SignatureSafe]
  rcases parseLine_rules hparse hmem with ⟨hkind, ⟨a⟩⟩ | ⟨hkind, ⟨a⟩⟩
  · rcases parseLine_rules hparse' hmem' with ⟨hkind', ⟨a'⟩⟩ | ⟨hkind', ⟨a'⟩⟩
    · rw [hkind, hkind']
      exact a.address_of_interchangeable a' hsig hsame
    · rw [hkind] at hplain
      rw [hkind, hkind']
      exact hplain
  · rcases parseLine_rules hparse' hmem' with ⟨hkind', ⟨a'⟩⟩ | ⟨hkind', ⟨a'⟩⟩
    · rw [hkind'] at hplain'
      rw [hkind, hkind']
      exact hplain'
    · rw [hkind] at hplain
      rw [hkind, hkind']
      have halike : PatternsAlike (patternText (trim line)) (patternText (trim line')) := by
        intro hslash
        rw [hplain.1] at hslash
        cases hslash
      have hrewrite := hsame.rewrite
      rw [a.rewriteData_eq, a'.rewriteData_eq] at hrewrite
      rw [a.eq, a'.eq] at hsig
      have htext := sameText_of_signature (trimStart_trim line) (trimStart_trim line') halike hsig
      refine ⟨halike, fun key hkey => ?_⟩
      by_cases hdns : key = "dnsrewrite".toList
      · subst hdns
        exact lastSetting_of_rewrite
          (isSome_lastValue_perm (by decide) (by decide) htext.mods) hrewrite
      · rw [lastSetting, lastSetting, lastValue_perm hkey htext.mods (hplain.2 key hkey hdns)]

private theorem isHostsLine_of_badfilter (h : ParsedFrom ext line br)
    (hbad : br.badfilter = true) : isHostsLine (trim line) = false := by
  obtain ⟨rules, hparse, hmem⟩ := h
  rcases parseLine_rules hparse hmem with ⟨hkind, ⟨a⟩⟩ | ⟨hkind, -⟩
  · rw [a.eq] at hbad
    cases hbad
  · exact hkind

theorem sameText_of_safe (h : ParsedFrom ext line br) (h' : ParsedFrom ext line' br')
    (hsafe : SignatureSafe ext (trim line) (trim line'))
    (hsig : br.signature = br'.signature) (hbad : br'.badfilter = true) :
    SameText (trim line) (trim line') := by
  have hkind' := isHostsLine_of_badfilter h' hbad
  obtain ⟨rules, hparse, hmem⟩ := h
  obtain ⟨rules', hparse', hmem'⟩ := h'
  rw [SignatureSafe, hkind'] at hsafe
  rcases parseLine_rules hparse' hmem' with ⟨hhosts, -⟩ | ⟨-, ⟨a'⟩⟩
  · rw [hkind'] at hhosts
    cases hhosts
  rcases parseLine_rules hparse hmem with ⟨hkind, ⟨a⟩⟩ | ⟨hkind, ⟨a⟩⟩
  · rw [hkind] at hsafe
    exact absurd hsig (a.signature_ne a' hsafe)
  · rw [hkind] at hsafe
    rw [a.eq, a'.eq] at hsig
    exact sameText_of_signature (trimStart_trim line) (trimStart_trim line') hsafe.1 hsig

end

/-! ## Lists -/

def LineOf (lists : Lists) (line : Text) : Prop := ∃ l ∈ lists, line ∈ lines l.2.2

/-- Lines of the lists with a signature in common are safe to identify by it. -/
def SafeLists (ext : External) (lists : Lists) : Prop :=
  ∀ line line' br br', LineOf lists line → LineOf lists line' →
    ParsedFrom ext line br → ParsedFrom ext line' br' →
    br.signature = br'.signature → SignatureSafe ext (trim line) (trim line')

/-- What identifying rules by their signatures promises. -/
structure SignaturesSound (ext : External) (lists : Lists) : Prop where
  interchangeable : ∀ line line' br br', LineOf lists line → LineOf lists line' →
    ParsedFrom ext line br → ParsedFrom ext line' br' →
    br.signature = br'.signature → Interchangeable ext.rx br br'
  /-- A duplicate is dropped for a rule that does the same. -/
  kept : ∀ br ∈ (compileLists ext lists).rules,
    br.signature ∉ (compileLists ext lists).badfilterSigs →
    ∃ br' ∈ (compileLists ext lists).active, Interchangeable ext.rx br br'
  /-- A cancelled rule has the text of a `$badfilter` line. -/
  cancelled : ∀ br ∈ (compileLists ext lists).rules,
    br.signature ∈ (compileLists ext lists).badfilterSigs →
    ∃ line line' parsed bad listId, LineOf lists line ∧ LineOf lists line' ∧
      ParsedFrom ext line parsed ∧ br = withList listId parsed ∧
      ParsedFrom ext line' bad ∧ bad.badfilter = true ∧
      SameText (trim line) (trim line') ∧ Interchangeable ext.rx br bad

private theorem exists_keepFirst (seen : List Text) {rules : List BuildRule}
    {br : BuildRule} (h : br ∈ rules) :
    br.signature ∈ seen ∨ ∃ br' ∈ keepFirst seen rules, br.signature = br'.signature := by
  induction rules generalizing seen with
  | nil => cases h
  | cons first rules ih =>
      rw [keepFirst]
      rcases List.mem_cons.mp h with rfl | h
      · split
        · rename_i hseen
          exact .inl hseen
        · exact .inr ⟨_, List.mem_cons_self, rfl⟩
      · split
        · exact ih seen h
        · rcases ih (first.signature :: seen) h with hseen | ⟨br', hmem, hsig⟩
          · rcases List.mem_cons.mp hseen with hfirst | hseen
            · exact .inr ⟨first, List.mem_cons_self, hfirst⟩
            · exact .inl hseen
          · exact .inr ⟨br', List.mem_cons_of_mem _ hmem, hsig⟩

private theorem Interchangeable.withList {rx : RegexEngine} {a b : BuildRule}
    (h : Interchangeable rx a b) (i j : Nat) :
    Interchangeable rx (withList i a) (withList j b) where
  action := h.action
  priority := h.priority
  rewrite := h.rewrite
  acts := h.acts

private theorem SafeLists.sound {ext : External} {lists : Lists}
    (hsafe : SafeLists ext lists) : SignaturesSound ext lists where
  interchangeable line line' br br' hline hline' h h' hsig :=
    interchangeable_of_safe h h' (hsafe line line' br br' hline hline' h h' hsig) hsig
  kept br hbr hactive := by
    have hmem : br ∈ (compileLists ext lists).rules.filter
        fun br => br.signature ∉ (compileLists ext lists).badfilterSigs :=
      List.mem_filter.mpr ⟨hbr, by simpa using hactive⟩
    rcases exists_keepFirst [] hmem with hseen | ⟨br', hbr', hsig⟩
    · cases hseen
    · refine ⟨br', hbr', ?_⟩
      obtain ⟨o⟩ := mem_compileLists hbr
      obtain ⟨o'⟩ := mem_active hbr'
      rw [o.eq, o'.eq] at hsig ⊢
      have hparsed : ParsedFrom ext o.line o.parsed := ⟨o.rules, o.parse, o.mem_rules⟩
      have hparsed' : ParsedFrom ext o'.line o'.parsed := ⟨o'.rules, o'.parse, o'.mem_rules⟩
      have hline := hsafe o.line o'.line o.parsed o'.parsed ⟨o.list, o.mem_list, o.mem_line⟩
        ⟨o'.list, o'.mem_list, o'.mem_line⟩ hparsed hparsed' hsig
      exact (interchangeable_of_safe hparsed hparsed' hline hsig).withList _ _
  cancelled br hbr hsigs := by
    obtain ⟨o⟩ := mem_compileLists hbr
    obtain ⟨l, hl, line', hline', rules', hparse', bad, hmem', hbad, hsig⟩ :=
      mem_badfilterSigs hsigs
    rw [o.eq] at hsig ⊢
    have hparsed : ParsedFrom ext o.line o.parsed := ⟨o.rules, o.parse, o.mem_rules⟩
    have hparsed' : ParsedFrom ext line' bad := ⟨rules', hparse', hmem'⟩
    have hline := hsafe o.line line' o.parsed bad ⟨o.list, o.mem_list, o.mem_line⟩
      ⟨l, hl, hline'⟩ hparsed hparsed' hsig.symm
    refine ⟨o.line, line', o.parsed, bad, o.list.1, ⟨o.list, o.mem_list, o.mem_line⟩,
      ⟨l, hl, hline'⟩, hparsed, rfl, hparsed', hbad, ?_, ?_⟩
    · exact sameText_of_safe hparsed hparsed' hline hsig.symm hbad
    · have hsame := interchangeable_of_safe hparsed hparsed' hline hsig.symm
      exact hsame.withList o.list.1 bad.rule.listId

/--
Where lines with equal signatures agree on hosts addresses, on regex texts and on what
the last value of each modifier sets, rules with equal signatures are interchangeable,
no rule is lost to de-duplication, and `$badfilter` cancels only its own text.  Of plain
lines no less will do.
-/
theorem signaturesSound_of_safe {ext : External} {lists : Lists} :
    (SafeLists ext lists → SignaturesSound ext lists) ∧
      ((∀ line, LineOf lists line → PlainLine (trim line)) →
        (SignaturesSound ext lists ↔ SafeLists ext lists)) := by
  refine ⟨SafeLists.sound, fun hplain => ⟨fun hsound => ?_, SafeLists.sound⟩⟩
  intro line line' br br' hline hline' h h' hsig
  have hsame := hsound.interchangeable line line' br br' hline hline' h h' hsig
  exact safe_of_interchangeable h h' (hplain line hline) (hplain line' hline') hsig hsame

/-! ## Checking lists -/

instance (ext : External) (line line' : Text) : Decidable (SignatureSafe ext line line') := by
  unfold SignatureSafe
  split <;> (try unfold PatternsAlike) <;> infer_instance

/-- Rules of the two lines with equal signatures exist only if the lines are safe. -/
def linesSafe (ext : External) (line line' : Text) : Bool :=
  match parseLine ext line, parseLine ext line' with
  | .ok (.rules rules), .ok (.rules rules') =>
      rules.all (fun br => rules'.all fun br' => br.signature ≠ br'.signature) ||
        SignatureSafe ext (trim line) (trim line')
  | _, _ => true

theorem safeLists_of_linesSafe {ext : External} {lists : Lists}
    (h : ∀ l ∈ lists, ∀ l' ∈ lists, ∀ line ∈ lines l.2.2, ∀ line' ∈ lines l'.2.2,
      linesSafe ext line line' = true) : SafeLists ext lists := by
  rintro line line' br br' ⟨l, hl, hline⟩ ⟨l', hl', hline'⟩ ⟨rules, hparse, hmem⟩
    ⟨rules', hparse', hmem'⟩ hsig
  have hcheck := h l hl l' hl' line hline line' hline'
  rw [linesSafe, hparse, hparse', Bool.or_eq_true] at hcheck
  rcases hcheck with hne | hsafe
  · have hne' := List.all_eq_true.mp (List.all_eq_true.mp hne br hmem) br' hmem'
    rw [decide_eq_true_eq] at hne'
    exact absurd hsig hne'
  · exact of_decide_eq_true hsafe

/-- Duplicates in another spelling, a cancelled rule, and two blocking addresses. -/
def respelledLists : Lists :=
  [(1, "rules".toList,
      "||Ads.com^$important,dnstype=A\n||x.com^\n||x.com^$badfilter\n0.0.0.0 a.com".toList),
    (2, "more".toList, "||ads.com^$dnstype=A,important\n127.0.0.1 A.com".toList)]

theorem signaturesSound_respelledLists :
    SafeLists referenceExternal respelledLists ∧
      SignaturesSound referenceExternal respelledLists := by
  have hsafe : SafeLists referenceExternal respelledLists :=
    safeLists_of_linesSafe (by decide +kernel)
  exact ⟨hsafe, signaturesSound_of_safe.1 hsafe⟩

def conflictingHosts : Lists :=
  [(1, "hosts".toList, "1.2.3.4 a.com\n5.6.7.8 a.com".toList)]

/-- Two hosts lines for one name: the second address is dropped as a duplicate. -/
theorem conflictingHosts_unsound :
    ¬ SignaturesSound referenceExternal conflictingHosts ∧
      ((compileLists referenceExternal conflictingHosts).rules.map rewriteData =
        [some (.a 0x01020304), some (.a 0x05060708)]) ∧
      ((compileLists referenceExternal conflictingHosts).active.map rewriteData =
        [some (.a 0x01020304)]) := by
  refine ⟨fun hsound => ?_, by decide +kernel, by decide +kernel⟩
  have hlines : lines "1.2.3.4 a.com\n5.6.7.8 a.com".toList =
      ["1.2.3.4 a.com".toList, "5.6.7.8 a.com".toList] := by decide +kernel
  have hline : ∀ line ∈ ["1.2.3.4 a.com".toList, "5.6.7.8 a.com".toList],
      LineOf conflictingHosts line := by
    intro line hline
    exact ⟨_, List.mem_singleton_self _, by rwa [hlines]⟩
  have hparse : ∀ (first : Text) (addr : Ipv4Addr),
      (first = "1.2.3.4".toList ∧ addr = 0x01020304) ∨
        (first = "5.6.7.8".toList ∧ addr = 0x05060708) →
      ParsedFrom referenceExternal (first ++ " a.com".toList)
        (hostsRule first "a.com".toList "a.com".toList (.v4 addr)) := by
    rintro first addr (⟨rfl, rfl⟩ | ⟨rfl, rfl⟩)
    · exact ⟨_, by decide +kernel, List.mem_singleton_self _⟩
    · exact ⟨_, by decide +kernel, List.mem_singleton_self _⟩
  have hsame := hsound.interchangeable _ _ _ _ (hline _ (by decide)) (hline _ (by decide))
    (hparse "1.2.3.4".toList _ (.inl ⟨rfl, rfl⟩)) (hparse "5.6.7.8".toList _ (.inr ⟨rfl, rfl⟩))
    (by decide +kernel)
  exact absurd hsame.rewrite (by decide +kernel)

end Bulwark.Filter
