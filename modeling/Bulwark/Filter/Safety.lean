import Bulwark.Filter.HostsList

/-!
# Slices and panics

Records store the length of their line in 16 bits, saturating, and the length
of their name in 8 bits, truncating.  Both cuts are byte cuts.  A check can
only panic at a cut inside a character: this is exact.
-/

namespace Bulwark.Filter

open Bulwark.Foundation

/-- Every slice a record asks for exists, and every rewrite carries data. -/
def SlicesValid (e : FilterEngine) : Prop :=
  ∀ r ∈ e.rules, (e.raw r).isSome = true ∧
    (r.kind.isScan = false → (e.domain r).isSome = true) ∧
    (r.action = .rewrite →
      ∃ m data, e.modsOf r = some (some m) ∧ m.rewrite = some data)

/-- Compilation completes, all slices are valid, and no check panics. -/
def NeverPanics (env : BuildEnv) (ext : External) (lists : Lists) : Prop :=
  ∃ e, compile env ext lists = some e ∧ SlicesValid e ∧
    ∀ query rtype client, (e.check ext.rx query rtype client).isSome = true

/-- The range `start .. start + len`, with a 32-bit start, is cut at characters. -/
def CutClean (t : Text) (start len : Nat) : Prop :=
  isCharBoundary t (asU32 start) = true ∧ isCharBoundary t (asU32 start + len) = true

/--
The cuts of rule `i`: its line keeps at most 65535 bytes, its name keeps its
length modulo 256; both are found behind the lines and names of earlier rules.
-/
def CutsClean (rules : List BuildRule) (i : Nat) (br : BuildRule) : Prop :=
  CutClean (rules.flatMap (·.rule.raw)) (utf8Len ((rules.take i).flatMap (·.rule.raw)))
      (min (utf8Len br.rule.raw) 65535) ∧
    (regexSource br = none →
      CutClean (rules.flatMap (·.rule.pattern.name))
        (utf8Len ((rules.take i).flatMap (·.rule.pattern.name)))
        (utf8Len br.rule.pattern.name % 256))

private theorem cutsClean_iff {rules : List BuildRule} {i : Nat} {br : BuildRule} :
    CutsClean rules i br ↔ (storedRaw rules i br).isSome = true ∧
      (regexSource br = none → (storedDomain rules i br).isSome = true) := by
  rw [storedRaw, storedDomain, isSome_sliceBytes_iff, isSome_sliceBytes_iff]
  exact Iff.rfl

private theorem isScan_iff (br : BuildRule) :
    (ruleKind br).isScan = false ↔ regexSource br = none := by
  rw [ruleKind, regexSource]
  cases br.rule.pattern <;> simp [Kind.isScan]

theorem slicesValid_iff {env : BuildEnv} {rx : RegexEngine} {rules : List BuildRule}
    {e : FilterEngine} (hb : Built env rx rules e)
    (hrewrite : ∀ br ∈ rules, br.rule.action = .rewrite →
      ∃ m data, br.rule.mods = some m ∧ m.rewrite = some data) :
    SlicesValid e ↔ ∀ i br, rules[i]? = some br → CutsClean rules i br := by
  constructor
  · intro h i br hbr
    obtain ⟨r, hr⟩ := hb.reads i br hbr
    obtain ⟨hraw, hdomain, -⟩ := h r (List.mem_of_getElem? hr.record)
    rw [cutsClean_iff, ← hr.raw]
    refine ⟨hraw, fun hs => ?_⟩
    have hscan : r.kind.isScan = false := by rw [hr.kind, isScan_iff, hs]
    rw [← hr.domain hscan]
    exact hdomain hscan
  · intro h r hmem
    obtain ⟨i, hi⟩ := List.mem_iff_getElem?.mp hmem
    have hlt := (List.getElem?_eq_some_iff.mp hi).1
    rw [hb.length] at hlt
    have hbr : rules[i]? = some (rules.get ⟨i, hlt⟩) := List.getElem?_eq_getElem hlt
    obtain ⟨r', hr⟩ := hb.reads i _ hbr
    obtain rfl : r = r' := Option.some.inj (hi.symm.trans hr.record)
    obtain ⟨hraw, hdomain⟩ := cutsClean_iff.mp (h i _ hbr)
    refine ⟨by rw [hr.raw]; exact hraw, fun hscan => ?_, fun haction => ?_⟩
    · rw [hr.domain hscan]
      exact hdomain ((isScan_iff _).mp (by rw [← hr.kind, hscan]))
    · rw [hr.action] at haction
      obtain ⟨m, data, hm, hdata⟩ := hrewrite _ (List.mem_of_getElem? hbr) haction
      exact ⟨m, data, by rw [hr.mods, hm], hdata⟩

theorem cutsClean_of_addressable {rules : List BuildRule} (hfit : Addressable rules)
    {i : Nat} {br : BuildRule} (hbr : rules[i]? = some br) :
    CutsClean rules i br ↔
      isCharBoundary br.rule.raw (min (utf8Len br.rule.raw) 65535) = true ∧
        (regexSource br = none → isCharBoundary br.rule.pattern.name
          (utf8Len br.rule.pattern.name % 256) = true) := by
  rw [cutsClean_iff, storedRaw_eq hfit hbr, Option.isSome_map]
  refine and_congr Iff.rfl (forall_congr' fun hs => ?_)
  rw [storedDomain_eq hfit hbr hs, Option.isSome_map]
  exact Iff.rfl

/--
With fewer than `2 ^ 32` rules kept, nothing panics, for any lists and queries,
exactly when no rule is cut inside a character.
-/
theorem neverPanics_iff_cutsClean (env : BuildEnv) (ext : External) (lists : Lists)
    (hcount : (compiledRules ext lists).length < 2 ^ 32) :
    NeverPanics env ext lists ↔
      ∀ i br, (compiledRules ext lists)[i]? = some br →
        CutsClean (compiledRules ext lists) i br := by
  have hrewrite : ∀ br ∈ compiledRules ext lists, br.rule.action = .rewrite →
      ∃ m data, br.rule.mods = some m ∧ m.rewrite = some data :=
    fun br h => (wellParsed_of_mem h).rewrite
  obtain ⟨e, he, hb⟩ := fromRules_built env ext.rx hcount
  constructor
  · rintro ⟨e', he', hslices, -⟩
    obtain rfl : e = e' := Option.some.inj (he.symm.trans he')
    exact (slicesValid_iff hb hrewrite).mp hslices
  · intro hclean
    refine ⟨e, he, (slicesValid_iff hb hrewrite).mpr hclean, ?_⟩
    have hstorable : Storable (compiledRules ext lists) :=
      { count := hcount
        raw := fun i br hbr => (cutsClean_iff.mp (hclean i br hbr)).1
        domain := fun i br hbr => (cutsClean_iff.mp (hclean i br hbr)).2
        rewrite := hrewrite }
    intro query rtype client
    rcases check_eq hb hstorable query rtype client with ⟨-, hcheck⟩ |
      ⟨id, br, text, -, -, -, hcheck⟩ <;> rw [hcheck] <;> rfl

theorem neverPanics_demoLists :
    (compiledRules referenceExternal demoLists).length < 2 ^ 32 ∧
      NeverPanics (plainEnv List.length) referenceExternal demoLists := by
  have hcount : (compiledRules referenceExternal demoLists).length < 2 ^ 32 := by
    decide +kernel
  have hfit : Addressable (compiledRules referenceExternal demoLists) :=
    addressable_of_lt hcount (by decide +kernel) (by decide +kernel)
  have hcuts : ∀ br ∈ compiledRules referenceExternal demoLists,
      isCharBoundary br.rule.raw (min (utf8Len br.rule.raw) 65535) = true ∧
        isCharBoundary br.rule.pattern.name (utf8Len br.rule.pattern.name % 256) =
          true := by decide +kernel
  refine ⟨hcount, (neverPanics_iff_cutsClean _ _ _ hcount).mpr fun i br hbr => ?_⟩
  obtain ⟨hraw, hname⟩ := hcuts br (List.mem_of_getElem? hbr)
  exact (cutsClean_of_addressable hfit hbr).mpr ⟨hraw, fun _ => hname⟩

/-! ## A line cut inside a character -/

def acutes (n : Nat) : Text := List.replicate n (Char.ofNat 233)

def longLine (n : Nat) : Text := "||ab.com^$denyallow=".toList ++ acutes n

def longRule (n : Nat) : BuildRule :=
  withList 1 (adblockRule (longLine n) (.subdomain "ab.com".toList) []
    { action := .block, mods := { denyallow := [acutes n] } })

private theorem splitBytes_acutes_odd (n k : Nat) :
    splitBytes (acutes n) (2 * k + 1) = none := by
  induction n generalizing k with
  | zero => rfl
  | succ n ih =>
      have hsize : (Char.ofNat 233).utf8Size = 2 := by decide
      have hcons : acutes (n + 1) = Char.ofNat 233 :: acutes n := rfl
      rw [hcons, splitBytes, hsize]
      split
      · obtain ⟨k, rfl⟩ : ∃ j, k = j + 1 := ⟨k - 1, by omega⟩
        rw [show 2 * (k + 1) + 1 - 2 = 2 * k + 1 by omega, ih]
        rfl
      · rfl

private theorem utf8Len_acutes (n : Nat) : utf8Len (acutes n) = 2 * n := by
  have hsize : (Char.ofNat 233).utf8Size = 2 := by decide
  simp [acutes, utf8Len, hsize, Nat.mul_comm]

private theorem mem_acutes {n : Nat} {c : Char} (h : c ∈ acutes n) :
    c = Char.ofNat 233 := List.eq_of_mem_replicate h

private theorem isCosmetic_acutes (n : Nat) : isCosmetic (acutes n) = false := by
  induction n with
  | zero => rfl
  | succ n ih => exact ih

private theorem splitOn_acutes {sep : Char} (hsep : Char.ofNat 233 ≠ sep) {front : Text}
    (hfront : sep ∉ front) (n : Nat) :
    (front ++ acutes n).splitOn sep = [front ++ acutes n] := by
  rw [List.splitOn_eq_splitOnP]
  apply List.splitOnP_eq_singleton
  intro c hc
  rw [beq_eq_false_iff_ne]
  rintro rfl
  rcases List.mem_append.mp hc with hc | hc
  · exact hfront hc
  · exact hsep (mem_acutes hc).symm

private theorem trim_acutes (front : Text) (n : Nat)
    (hfront : ∀ c, front.head? = some c → isWhitespace c = false) :
    trim (front ++ acutes (n + 1)) = front ++ acutes (n + 1) := by
  have hacute : isWhitespace (Char.ofNat 233) = false := by decide
  apply trim_of_ends
  · intro c hc
    cases front with
    | nil => rwa [← mem_acutes (List.mem_of_mem_head? hc)] at hacute
    | cons d front => exact hfront c hc
  · intro c hc
    rw [List.getLast?_append_of_ne_nil _ (by simp [acutes])] at hc
    rwa [← mem_acutes (List.mem_of_getLast? hc)] at hacute

private theorem applyModifiers_longLine (ext : External) (n : Nat) :
    applyModifiers ext (modifierTokens (modifierText (longLine (n + 1))))
      { action := .block } =
      .ok (some { action := .block, mods := { denyallow := [acutes (n + 1)] } }) := by
  have htext : modifierText (longLine (n + 1)) =
      some ("denyallow=".toList ++ acutes (n + 1)) := rfl
  have htokens : modifierTokens (modifierText (longLine (n + 1))) =
      ["denyallow=".toList ++ acutes (n + 1)] := by
    rw [htext, modifierTokens]
    exact splitOn_acutes (by decide) (by decide) _
  have htrim : trim ("denyallow=".toList ++ acutes (n + 1)) =
      "denyallow=".toList ++ acutes (n + 1) := by
    apply trim_acutes
    intro c hc
    cases hc
    decide
  have hkey : keyValue ("denyallow=".toList ++ acutes (n + 1)) =
      ("denyallow".toList, acutes (n + 1)) := rfl
  have hparts : nonEmptyParts (acutes (n + 1)) = [acutes (n + 1)] := by
    have hsplit : (acutes (n + 1)).splitOn '|' = [acutes (n + 1)] := by
      have hempty : '|' ∉ ([] : Text) := List.not_mem_nil
      simpa using splitOn_acutes (by decide) hempty (n + 1)
    rw [nonEmptyParts, hsplit]
    rfl
  have hnorm : normDomain (acutes (n + 1)) = acutes (n + 1) := by
    have htrim : trim (acutes (n + 1)) = acutes (n + 1) :=
      trim_acutes [] n (by simp)
    have hdot : trimEndMatches '.' (acutes (n + 1)) = acutes (n + 1) := by
      rw [trimEndMatches, List.rdropWhile_eq_self_iff]
      intro hne
      rw [mem_acutes (List.getLast_mem hne)]
      decide
    have hlower : toAsciiLowercase (acutes (n + 1)) = acutes (n + 1) := by
      rw [toAsciiLowercase, acutes, List.map_replicate]
      rfl
    rw [normDomain, htrim, hdot, hlower]
  have hne : "denyallow=".toList ++ acutes (n + 1) ≠ [] := List.cons_ne_nil _ _
  have hone : applyModifier ext "denyallow".toList (acutes (n + 1)) { action := .block } =
      .ok (some { action := .block, mods := { denyallow := [acutes (n + 1)] } }) := by
    rw [applyModifier, if_neg (by decide), if_neg (by decide), if_neg (by decide),
      if_neg (by decide), if_neg (by decide), if_pos rfl, hparts, List.map_singleton,
      hnorm]
    rfl
  rw [htokens, applyModifiers, htrim, if_neg hne, hkey, hone]
  rfl

private theorem parseLine_longLine (n : Nat) :
    parseLine referenceExternal (longLine (n + 1)) =
      .ok (.rules [adblockRule (longLine (n + 1)) (.subdomain "ab.com".toList) []
        { action := .block, mods := { denyallow := [acutes (n + 1)] } }]) := by
  have htrim : trim (longLine (n + 1)) = longLine (n + 1) := by
    apply trim_acutes
    intro c hc
    cases hc
    decide
  have hws : ∀ c ∈ longLine (n + 1), isWhitespace c = false := by
    intro c hc
    have hfront : "||ab.com^$denyallow=".toList.all (fun c => !isWhitespace c) = true := by
      decide
    rcases List.mem_append.mp hc with hc | hc
    · simpa using List.all_eq_true.mp hfront c hc
    · rw [mem_acutes hc]
      decide
  have hhosts : tryParseHosts (longLine (n + 1)) = none := by
    have hsplit : splitWhitespace (longLine (n + 1)) = [longLine (n + 1)] := by
      rw [splitWhitespace, List.splitOnP_eq_singleton hws]
      rfl
    have hip : parseIpAddr (longLine (n + 1)) = none := rfl
    rw [tryParseHosts, hsplit]
    simp only [hip]
  have hcosmetic : isCosmetic (longLine (n + 1)) = false := isCosmetic_acutes (n + 1)
  have hmark : (startsWith ['!'] (longLine (n + 1)) ||
      startsWith ['#'] (longLine (n + 1)) || startsWith ['['] (longLine (n + 1))) =
      false := rfl
  have hpattern : parsePattern referenceExternal "||ab.com^".toList =
      .ok (.subdomain "ab.com".toList, []) := rfl
  have hparse : parseAdblock referenceExternal (longLine (n + 1)) =
      .ok (.rules [adblockRule (longLine (n + 1)) (.subdomain "ab.com".toList) []
        { action := .block, mods := { denyallow := [acutes (n + 1)] } }]) := by
    have htext : patternText (longLine (n + 1)) = "||ab.com^".toList := rfl
    rw [← htext] at hpattern
    exact parseAdblock_eq (by rw [htext]; decide) hpattern
      (applyModifiers_longLine referenceExternal n)
  have hne : longLine (n + 1) ≠ [] := List.cons_ne_nil _ _
  rw [parseLine, htrim, if_neg hne, hmark, if_neg Bool.false_ne_true, hhosts]
  simp only [hcosmetic]
  exact hparse

private theorem compiledRules_longLine (n : Nat) :
    compiledRules referenceExternal [(1, [], longLine (n + 1))] = [longRule (n + 1)] := by
  have hlines : lines (longLine (n + 1)) = [longLine (n + 1)] := by
    apply lines_eq_singleton
    · intro hmem
      rcases List.mem_append.mp hmem with hmem | hmem
      · revert hmem
        decide
      · have := mem_acutes hmem
        revert this
        decide
    · exact List.cons_ne_nil _ _
  have hcompile : (compileLists referenceExternal [(1, [], longLine (n + 1))]).active =
      [longRule (n + 1)] := by
    simp only [compileLists, List.foldl_cons, List.foldl_nil, Compiler.addList, hlines,
      Compiler.addLine, parseLine_longLine]
    rfl
  rw [compiledRules, hcompile]
  rfl

theorem addressable_singleton (br : BuildRule) : Addressable [br] where
  count := by simp
  raw i hi := by
    obtain rfl : i = 0 := by simpa using hi
    simp
  domains i br' hbr _ := by
    have hi := (List.getElem?_eq_some_iff.mp hbr).1
    obtain rfl : i = 0 := by simpa using hi
    simp

private theorem acts_longRule (rx : RegexEngine) (n : Nat) (rtype : Text)
    (client : ClientInfo) : Acts rx (longRule (n + 1)) "ab.com".toList rtype client := by
  have hdeny : isSubdomainOf "ab.com".toList (acutes (n + 1)) = false := by
    rw [Bool.eq_false_iff, ne_eq, isSubdomainOf_iff]
    have hmem : Char.ofNat 233 ∈ acutes (n + 1) := by simp [acutes]
    have hnot : Char.ofNat 233 ∉ "ab.com".toList := by decide
    rintro (heq | ⟨front, heq⟩)
    · rw [heq] at hnot
      exact hnot hmem
    · rw [heq] at hnot
      exact hnot (List.mem_append_right _ (List.mem_cons_of_mem _ hmem))
  have hmods : (longRule (n + 1)).rule.mods =
      some { denyallow := [acutes (n + 1)] } := rfl
  refine ⟨.inl rfl, ?_⟩
  rw [hmods, modsApply]
  simp only [Option.all_none, List.any_cons, hdeny, List.any_nil, Bool.or_self,
    Bool.and_false, Bool.not_false, Bool.and_self]

private theorem storedRaw_longRule :
    storedRaw [longRule 32758] 0 (longRule 32758) = none := by
  have hraw : (longRule 32758).rule.raw =
      "||ab.com^$denyallow=".toList ++ acutes 32758 := rfl
  have hfront : utf8Len "||ab.com^$denyallow=".toList = 20 := by decide +kernel
  have hcut : splitBytes ("||ab.com^$denyallow=".toList ++ acutes 32758) 65535 = none := by
    have hsplit := splitBytes_append_add "||ab.com^$denyallow=".toList (acutes 32758)
      (2 * 32757 + 1)
    rw [splitBytes_acutes_odd, hfront] at hsplit
    exact hsplit
  rw [storedRaw_eq (addressable_singleton _) rfl, hraw, utf8Len_append, hfront,
    utf8Len_acutes]
  rw [show min (20 + 2 * 32758) maxRawLen = 65535 from rfl, hcut]
  rfl

/--
A line of 65536 bytes whose last character takes two: matching it panics, since
the record keeps 65535 bytes.
-/
theorem check_panics_on_cut_line :
    ∃ e, compile (plainEnv fun _ => 0) referenceExternal [(1, [], longLine 32758)] =
        some e ∧
      e.check referenceEngine "ab.com".toList "A".toList {} = none ∧
      ¬ NeverPanics (plainEnv fun _ => 0) referenceExternal [(1, [], longLine 32758)] := by
  have hfit := addressable_singleton (longRule 32758)
  obtain ⟨e, he, hb⟩ := fromRules_built (plainEnv fun _ => 0) referenceEngine hfit.count
  have hcompile : compile (plainEnv fun _ => 0) referenceExternal
      [(1, [], longLine 32758)] = some e := by
    rw [compile, compiledRules_longLine]
    exact he
  have hkept : NamesKept [longRule 32758] := by
    apply namesKept_of_addressable hfit
    intro br hbr
    obtain rfl := List.mem_singleton.mp hbr
    exact (by decide +kernel : utf8Len "ab.com".toList ≤ 255)
  have hcover : TokensCovered referenceEngine [longRule 32758] "ab.com".toList := by
    intro br hbr source hsource
    obtain rfl := List.mem_singleton.mp hbr
    cases hsource
  have hname : FilterEngine.normalizeQuery "ab.com".toList = "ab.com".toList := by
    decide +kernel
  have hcheck : e.check referenceEngine "ab.com".toList "A".toList {} = none := by
    rw [FilterEngine.check, hname, FilterEngine.bestId_eq hb hfit.count hkept.readable]
    cases hw : winner (plainEnv fun _ => 0) referenceEngine [longRule 32758]
        "ab.com".toList "A".toList {} with
    | none =>
        rw [winner_eq_none_iff hfit.count hkept.tells hcover] at hw
        exact absurd (acts_longRule _ _ _ _) (hw _ (List.mem_singleton.mpr rfl))
    | some id =>
        obtain ⟨br, hbr, -⟩ := winner_spec hfit.count hkept.tells hcover hw
        have hid := (List.getElem?_eq_some_iff.mp hbr).1
        obtain rfl : id = 0 := by simpa using hid
        obtain ⟨r, hr⟩ := hb.reads 0 (longRule 32758) rfl
        simp only [Option.bind_eq_bind, Option.bind_some, FilterEngine.verdictOf,
          hr.record, hr.raw, storedRaw_longRule, Option.bind_none]
  refine ⟨e, hcompile, hcheck, ?_⟩
  rintro ⟨e', he', -, htotal⟩
  obtain rfl : e = e' := Option.some.inj (hcompile.symm.trans he')
  have hsome : (e.check referenceEngine "ab.com".toList "A".toList {}).isSome = true :=
    htotal _ _ _
  rw [hcheck] at hsome
  cases hsome

end Bulwark.Filter
