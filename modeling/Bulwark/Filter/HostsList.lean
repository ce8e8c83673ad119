import Bulwark.Filter.Agreement

/-!
# Blocklists in hosts format

The common kind of list: one unspecified address and one name on each line.
It compiles to one exact block for each name, in order.  With enough names the
32-bit offsets into the domain arena wrap, and the last names are no longer
found.
-/

namespace Bulwark.Filter

open Bulwark.Foundation

/-! ## Compiling -/

/-- A name of lower-case letters that hosts parsing keeps. -/
structure PlainName (name : Text) : Prop where
  letters : ∀ c ∈ name, 97 ≤ c.toNat ∧ c.toNat ≤ 122
  nonempty : name ≠ []
  kept : name ∉ hostsNoise

def hostsLine (name : Text) : Text := "0.0.0.0 ".toList ++ name

def hostsText (names : List Text) : Text := names.flatMap fun n => hostsLine n ++ ['\n']

def blockHost (name : Text) : BuildRule :=
  hostsRule "0.0.0.0".toList name name (.v4 0)

private theorem not_whitespace {c : Char} (h : 97 ≤ c.toNat ∧ c.toNat ≤ 122) :
    isWhitespace c = false := by
  simp only [isWhitespace, Bool.or_eq_false_iff, Bool.and_eq_false_iff,
    decide_eq_false_iff_not, beq_eq_false_iff_ne]
  omega

private theorem address_no_whitespace : ∀ c ∈ "0.0.0.0".toList, isWhitespace c = false := by
  have hall : "0.0.0.0".toList.all (fun c => !isWhitespace c) = true := by decide
  exact fun c hc => by simpa using List.all_eq_true.mp hall c hc

section

variable {name : Text} (h : PlainName name)

include h

private theorem PlainName.no_whitespace : ∀ c ∈ name, isWhitespace c = false :=
  fun c hc => not_whitespace (h.letters c hc)

private theorem trim_hostsLine : trim (hostsLine name) = hostsLine name :=
  trim_pair (by decide) h.nonempty address_no_whitespace h.no_whitespace

private theorem normDomain_plain : normDomain name = name := by
  have htrim : trim name = name := by
    apply trim_of_ends
    · exact fun c hc => h.no_whitespace c (List.mem_of_mem_head? hc)
    · exact fun c hc => h.no_whitespace c (List.mem_of_getLast? hc)
  have hdot : trimEndMatches '.' name = name := by
    rw [trimEndMatches, List.rdropWhile_eq_self_iff]
    intro hne heq
    have hlast := h.letters _ (List.getLast_mem hne)
    rw [beq_iff_eq.mp heq] at hlast
    revert hlast
    decide
  have hlower : toAsciiLowercase name = name := by
    refine (List.map_congr_left fun c hc => ?_).trans (List.map_id name)
    have hc := h.letters c hc
    exact toLower_eq_self (by omega)
  rw [normDomain, htrim, hdot, hlower]

private theorem splitWhitespace_hostsLine :
    splitWhitespace (hostsLine name) = ["0.0.0.0".toList, name] :=
  splitWhitespace_pair (by decide) h.nonempty address_no_whitespace h.no_whitespace

private theorem tryParseHosts_hostsLine :
    tryParseHosts (hostsLine name) = some [blockHost name] := by
  have hip : parseIpAddr "0.0.0.0".toList = some (.v4 0) := by decide +kernel
  have hhash : startsWith ['#'] name = false := by
    cases hname : name with
    | nil => rfl
    | cons c t =>
        have hc := h.letters c (by simp [hname])
        have hne : '#' ≠ c := by
          rintro rfl
          revert hc
          decide
        simp [startsWith, List.isPrefixOf, hne]
  rw [tryParseHosts, splitWhitespace_hostsLine h]
  simp only [hip, List.takeWhile_cons, hhash, Bool.not_false, if_true,
    List.takeWhile_nil, List.filterMap_cons, List.filterMap_nil, normDomain_plain h,
    h.nonempty, h.kept, or_self, if_false, List.cons_ne_nil]
  rfl

theorem parseLine_hostsLine (ext : External) :
    parseLine ext (hostsLine name) = .ok (.rules [blockHost name]) := by
  rw [parseLine, trim_hostsLine h]
  have hne : hostsLine name ≠ [] := List.cons_ne_nil _ _
  have hmark : (startsWith ['!'] (hostsLine name) || startsWith ['#'] (hostsLine name) ||
      startsWith ['['] (hostsLine name)) = false := rfl
  rw [if_neg hne, hmark, if_neg Bool.false_ne_true, tryParseHosts_hostsLine h]
  rfl

end

theorem lines_hostsText {names : List Text} (h : ∀ n ∈ names, PlainName n) :
    lines (hostsText names) = names.map hostsLine := by
  induction names with
  | nil => rfl
  | cons n names ih =>
      have hn := h n List.mem_cons_self
      have hrest := ih fun m hm => h m (List.mem_cons_of_mem _ hm)
      have hfeed : '\n' ∉ hostsLine n := by
        intro hmem
        rcases List.mem_append.mp hmem with hmem | hmem
        · revert hmem
          decide
        · have := hn.letters _ hmem
          revert this
          decide
      have hreturn : ([] ++ hostsLine n).getLast? ≠ some '\r' := by
        intro hlast
        have hname : n.getLast? = some '\r' :=
          (List.getLast?_append_of_ne_nil _ hn.nonempty).symm.trans hlast
        have := hn.letters _ (List.mem_of_getLast? hname)
        revert this
        decide
      rw [lines] at hrest ⊢
      rw [hostsText, List.flatMap_cons, List.append_assoc, List.singleton_append,
        linesFrom_line hfeed hreturn, List.nil_append, List.map_cons]
      exact congrArg _ hrest

private theorem foldl_hostsLines (ext : External) (listId : Nat) {names : List Text}
    (h : ∀ n ∈ names, PlainName n) (st : Compiler × ListStats) :
    let c := ((names.map hostsLine).foldl (Compiler.addLine ext listId) st).1
    c.rules = st.1.rules ++ names.map (withList listId ∘ blockHost) ∧
      c.badfilterSigs = st.1.badfilterSigs := by
  induction names generalizing st with
  | nil => simp
  | cons n names ih =>
      have hline : Compiler.addLine ext listId st (hostsLine n) =
          Compiler.addRule listId st (blockHost n) := by
        rw [Compiler.addLine, parseLine_hostsLine (h n List.mem_cons_self)]
        rfl
      have hbad : (blockHost n).badfilter = false := rfl
      rw [List.map_cons, List.foldl_cons, hline]
      obtain ⟨hrules, hsigs⟩ := ih (fun m hm => h m (List.mem_cons_of_mem _ hm))
        (Compiler.addRule listId st (blockHost n))
      refine ⟨?_, ?_⟩
      · rw [hrules]
        simp [Compiler.addRule, hbad, withList]
      · rw [hsigs]
        simp [Compiler.addRule, hbad]

private theorem keepFirst_of_nodup {seen : List Text} {rules : List BuildRule}
    (hnodup : (rules.map (·.signature)).Nodup)
    (hseen : ∀ br ∈ rules, br.signature ∉ seen) : keepFirst seen rules = rules := by
  induction rules generalizing seen with
  | nil => rfl
  | cons br rules ih =>
      rw [List.map_cons, List.nodup_cons] at hnodup
      rw [keepFirst, if_neg (hseen br List.mem_cons_self), ih hnodup.2]
      intro br' hbr' hmem
      rcases List.mem_cons.mp hmem with heq | hmem
      · exact hnodup.1 (heq ▸ List.mem_map_of_mem hbr')
      · exact hseen br' (List.mem_cons_of_mem _ hbr') hmem

private theorem signature_blockHost (name : Text) :
    (blockHost name).signature = "hosts|".toList ++ name ++ "|block".toList := by
  have hblock : isBlockingIp (.v4 0) = true := rfl
  rw [blockHost, hostsRule]
  simp only [hblock, if_true, List.append_assoc, List.singleton_append]
  rfl

theorem compiledRules_hostsText (ext : External) (listId : Nat) (title : Text)
    {names : List Text} (h : ∀ n ∈ names, PlainName n) (hnodup : names.Nodup) :
    compiledRules ext [(listId, title, hostsText names)] =
      names.map (withList listId ∘ blockHost) := by
  obtain ⟨hrules, hsigs⟩ := foldl_hostsLines ext listId h
    (({}, ⟨listId, title, 0, 0, 0⟩) : Compiler × ListStats)
  have hcompile : (compileLists ext [(listId, title, hostsText names)]).rules =
        names.map (withList listId ∘ blockHost) ∧
      (compileLists ext [(listId, title, hostsText names)]).badfilterSigs = [] := by
    simp only [compileLists, List.foldl_cons, List.foldl_nil, Compiler.addList,
      lines_hostsText h]
    exact ⟨hrules, hsigs⟩
  have hsignatures : ((names.map (withList listId ∘ blockHost)).map
      (·.signature)).Nodup := by
    rw [List.map_map]
    refine hnodup.map ?_
    intro a b hab
    have hsig : (blockHost a).signature = (blockHost b).signature := hab
    rw [signature_blockHost, signature_blockHost] at hsig
    exact List.append_cancel_left (List.append_cancel_right hsig)
  have hactive : (compileLists ext [(listId, title, hostsText names)]).active =
      names.map (withList listId ∘ blockHost) := by
    rw [Compiler.active, hcompile.1, hcompile.2]
    rw [List.filter_eq_self.mpr (by simp), keepFirst_of_nodup hsignatures (by simp)]
  rw [compiledRules, hactive, pruneRedundant]
  have hsubsumers : (names.map (withList listId ∘ blockHost)).filterMap subsumer = [] := by
    rw [List.filterMap_eq_nil_iff]
    intro br hbr
    obtain ⟨n, -, rfl⟩ := List.mem_map.mp hbr
    rfl
  rw [if_pos hsubsumers]

/-! ## Wrapping offsets -/

def bitName (i : Nat) : Text :=
  (List.range 255).map fun k => if i.testBit k then 'b' else 'a'

theorem length_bitName (i : Nat) : (bitName i).length = 255 := by
  simp [bitName]

theorem plainName_bitName (i : Nat) : PlainName (bitName i) where
  letters c hc := by
    obtain ⟨k, -, rfl⟩ := List.mem_map.mp hc
    split <;> decide
  nonempty hnil := by
    have hlen := length_bitName i
    simp [hnil] at hlen
  kept hmem := by
    have hlen : ∀ t ∈ hostsNoise, t.length ≠ 255 := by decide
    exact hlen _ hmem (length_bitName i)

theorem getElem?_bitName {i k : Nat} (hk : k < 255) :
    (bitName i)[k]? = some (if i.testBit k then 'b' else 'a') := by
  simp [bitName, hk]

theorem bitName_injective {i j : Nat} (hi : i < 2 ^ 255) (hj : j < 2 ^ 255)
    (h : bitName i = bitName j) : i = j := by
  apply Nat.eq_of_testBit_eq
  intro k
  rcases Nat.lt_or_ge k 255 with hk | hk
  · have hget := congrArg (fun t : Text => t[k]?) h
    simp only [getElem?_bitName hk, Option.some.injEq] at hget
    cases hb : i.testBit k <;> cases hb' : j.testBit k <;> simp [hb, hb'] at hget ⊢
  · have hpow : 2 ^ 255 ≤ 2 ^ k := Nat.pow_le_pow_right (by decide) hk
    rw [Nat.testBit_lt_two_pow (lt_of_lt_of_le hi hpow),
      Nat.testBit_lt_two_pow (lt_of_lt_of_le hj hpow)]

/-- One more name than the 32-bit offsets can address. -/
def wrapCount : Nat := 16843011

def wrapNames : List Text := (List.range wrapCount).map bitName

def wrapRules : List BuildRule := wrapNames.map (withList 1 ∘ blockHost)

private theorem nodup_wrapNames : wrapNames.Nodup := by
  refine List.Nodup.map_on ?_ List.nodup_range
  intro i hi j hj h
  have hlt : ∀ k ∈ List.range wrapCount, k < 2 ^ 255 := by
    intro k hk
    have := List.mem_range.mp hk
    exact lt_trans this (by decide)
  exact bitName_injective (hlt i hi) (hlt j hj) h

private theorem getElem?_wrapRules {i : Nat} {br : BuildRule}
    (h : wrapRules[i]? = some br) :
    i < wrapCount ∧ br = withList 1 (blockHost (bitName i)) := by
  simp only [wrapRules, wrapNames, List.getElem?_map, Option.map_eq_some_iff,
    List.getElem?_eq_some_iff] at h
  obtain ⟨n, ⟨j, ⟨hj, hget⟩, rfl⟩, rfl⟩ := h
  rw [List.getElem_range] at hget
  subst hget
  exact ⟨by simpa using hj, rfl⟩

private theorem length_flatMap_bitName (l : List Nat) :
    (l.flatMap bitName).length = 255 * l.length := by
  induction l with
  | nil => rfl
  | cons i l ih =>
      rw [List.flatMap_cons, List.length_append, length_bitName, ih, List.length_cons]
      omega

private theorem getElem?_flatMap_bitName (l : List Nat) (q : Nat) {k : Nat}
    (hk : k < 255) :
    (l.flatMap bitName)[255 * q + k]? = (l[q]?).bind fun i => (bitName i)[k]? := by
  induction l generalizing q with
  | nil => simp
  | cons i l ih =>
      rw [List.flatMap_cons]
      cases q with
      | zero =>
          rw [List.getElem?_append_left (by rw [length_bitName]; omega)]
          simp
      | succ q =>
          rw [List.getElem?_append_right (by rw [length_bitName]; omega), length_bitName,
            show 255 * (q + 1) + k - 255 = 255 * q + k by omega, ih]
          rfl

private theorem isAscii_flatMap_bitName (l : List Nat) :
    isAscii (l.flatMap bitName) = true := by
  simp only [isAscii, List.all_eq_true, List.mem_flatMap]
  rintro c ⟨i, -, hc⟩
  have := (plainName_bitName i).letters c hc
  simp only [isAsciiChar, decide_eq_true_eq]
  omega

private theorem flatMap_domainText (l : List Nat) :
    (l.map fun i => withList 1 (blockHost (bitName i))).flatMap domainText =
      l.flatMap bitName := by
  rw [List.flatMap_map]
  rfl

private theorem sliceBytes_of_isAscii {t : Text} (h : isAscii t = true) {start len : Nat}
    (hle : start + len ≤ t.length) :
    sliceBytes t start len = some ((t.drop start).take len) := by
  have hdrop : isAscii (t.drop start) = true :=
    isAscii_of_subset (List.drop_subset start t) h
  rw [sliceBytes, splitBytes_of_isAscii h (by omega)]
  simp only [Option.bind_eq_bind, Option.bind_some]
  rw [splitBytes_of_isAscii hdrop (by rw [List.length_drop]; omega)]
  rfl

private theorem storedDomain_wrapRules {i : Nat} {br : BuildRule}
    (h : wrapRules[i]? = some br) :
    ∃ t, storedDomain wrapRules i br = some t ∧ ∀ k < 255,
      t[k]? = ((List.range wrapCount).flatMap bitName)[asU32 (255 * i) + k]? := by
  obtain ⟨hi, rfl⟩ := getElem?_wrapRules h
  have hrules : wrapRules = (List.range wrapCount).map fun i =>
      withList 1 (blockHost (bitName i)) := by
    rw [wrapRules, wrapNames, List.map_map]
    rfl
  have htake : utf8Len ((wrapRules.take i).flatMap domainText) = 255 * i := by
    rw [hrules, ← List.map_take, flatMap_domainText,
      utf8Len_of_isAscii (isAscii_flatMap_bitName _), length_flatMap_bitName,
      List.length_take, List.length_range, Nat.min_eq_left hi.le]
  have hlen : utf8Len (domainText (withList 1 (blockHost (bitName i)))) % 256 = 255 := by
    have hname : domainText (withList 1 (blockHost (bitName i))) =
        [i].flatMap bitName := by
      simp only [List.flatMap_cons, List.flatMap_nil, List.append_nil]
      rfl
    rw [hname, utf8Len_of_isAscii (isAscii_flatMap_bitName _), length_flatMap_bitName]
    rfl
  have hfits : asU32 (255 * i) + 255 ≤
      ((List.range wrapCount).flatMap bitName).length := by
    rw [length_flatMap_bitName, List.length_range]
    have : asU32 (255 * i) ≤ 255 * i := Nat.mod_le _ _
    omega
  refine ⟨(((List.range wrapCount).flatMap bitName).drop (asU32 (255 * i))).take 255,
    ?_, ?_⟩
  · rw [storedDomain, htake, hlen, hrules, flatMap_domainText]
    exact sliceBytes_of_isAscii (isAscii_flatMap_bitName _) hfits
  · intro k hk
    rw [List.getElem?_take_of_lt hk, List.getElem?_drop]

private theorem storedDomain_ne_last {i : Nat} {br : BuildRule}
    (h : wrapRules[i]? = some br) :
    (storedDomain wrapRules i br).any (· == bitName 16843010) = false := by
  obtain ⟨hi, -⟩ := getElem?_wrapRules h
  obtain ⟨t, ht, hget⟩ := storedDomain_wrapRules h
  rw [ht, Option.any_some, beq_eq_false_iff_ne]
  rintro rfl
  have hrange : ∀ q < wrapCount, (List.range wrapCount)[q]? = some q := fun q hq =>
    List.getElem?_range hq
  rw [wrapCount] at hi
  rcases Nat.lt_or_ge i 16843010 with hlt | hge
  · -- Offsets below the last one do not wrap: the record holds its own name.
    have hoff : asU32 (255 * i) = 255 * i := asU32_of_lt (by omega)
    have hname : bitName 16843010 = bitName i := by
      apply List.ext_getElem?
      intro k
      rcases Nat.lt_or_ge k 255 with hk | hk
      · have hi' : i < wrapCount := lt_trans hlt (by decide)
        rw [hget k hk, hoff, getElem?_flatMap_bitName _ _ hk, hrange i hi']
        rfl
      · rw [List.getElem?_eq_none (by rw [length_bitName]; exact hk),
          List.getElem?_eq_none (by rw [length_bitName]; exact hk)]
    have := bitName_injective (by decide) (lt_trans hlt (by decide)) hname
    omega
  · obtain rfl : i = 16843010 := by omega
    have hoff : asU32 (255 * 16843010) + 8 = 255 * 1 + 7 := by decide
    have h8 := hget 8 (by decide)
    rw [hoff, getElem?_flatMap_bitName _ _ (by decide), hrange 1 (by decide)] at h8
    simp only [Option.bind_some] at h8
    rw [getElem?_bitName (by decide), getElem?_bitName (by decide)] at h8
    revert h8
    decide

def wrapLists : Lists := [(1, "names".toList, hostsText wrapNames)]

private theorem compiledRules_wrapLists :
    compiledRules referenceExternal wrapLists = wrapRules := by
  have hplain : ∀ n ∈ wrapNames, PlainName n := by
    intro n hn
    obtain ⟨i, -, rfl⟩ := List.mem_map.mp hn
    exact plainName_bitName i
  rw [wrapLists, compiledRules_hostsText _ _ _ hplain nodup_wrapNames, wrapRules]

private theorem winner_of_no_match {env : BuildEnv} {rx : RegexEngine}
    {rules : List BuildRule} {name : Text}
    (h : ∀ id br, rules[id]? = some br → storedMatches rules id br name = false)
    (rtype : Text) (client : ClientInfo) :
    winner env rx rules name rtype client = none := by
  have hpass : ∀ ids : List Nat, ids.filter (passes rules name rtype client) = [] := by
    intro ids
    rw [List.filter_eq_nil_iff]
    intro id _
    cases hbr : rules[id]? with
    | none => simp [passes, hbr]
    | some br => simp [passes, hbr, h id br hbr]
  simp [winner, hpass, firstMax]

private theorem storedMatches_wrapRules {id : Nat} {br : BuildRule}
    (hbr : wrapRules[id]? = some br) :
    storedMatches wrapRules id br (bitName 16843010) = false := by
  have hpattern : br.rule.pattern = .exact (bitName id) := by
    rw [(getElem?_wrapRules hbr).2]
    rfl
  simp only [storedMatches, hpattern]
  exact storedDomain_ne_last hbr

/--
The last of 16843011 names of 255 letters, all on one hosts list, is not
blocked: its offset, 255 times 16843010, is taken modulo `2 ^ 32`.
-/
theorem check_misses_name_past_4GiB :
    (∀ br ∈ compiledRules referenceExternal wrapLists, isAscii br.rule.raw = true) ∧
    (∀ br ∈ compiledRules referenceExternal wrapLists, IsHosts br →
      utf8Len br.rule.pattern.name ≤ 255) ∧
    isAscii (bitName 16843010) = true ∧
    ∃ e, compile (plainEnv fun _ => 0) referenceExternal wrapLists = some e ∧
      e.check referenceEngine (bitName 16843010) "A".toList {} = some (.allow none) ∧
      ¬ Agrees referenceEngine (compiledRules referenceExternal wrapLists) e
        (bitName 16843010) "A".toList {} := by
  have hlast : wrapRules[16843010]? = some (withList 1 (blockHost (bitName 16843010))) := by
    simp only [wrapRules, wrapNames, List.getElem?_map]
    rw [List.getElem?_range (by decide)]
    rfl
  have hascii : ∀ i, isAscii (bitName i) = true := by
    intro i
    simpa using isAscii_flatMap_bitName [i]
  have hcount : wrapRules.length < 2 ^ 32 := by
    simp only [wrapRules, wrapNames, List.length_map, List.length_range]
    decide
  have hname : FilterEngine.normalizeQuery (bitName 16843010) = bitName 16843010 := by
    decide +kernel
  obtain ⟨e, he, hb⟩ := fromRules_built (plainEnv fun _ => 0) referenceEngine hcount
  have hread : DomainsReadable wrapRules := by
    intro i br hbr _
    obtain ⟨t, ht, -⟩ := storedDomain_wrapRules hbr
    rw [ht]
    rfl
  have hcheck : e.check referenceEngine (bitName 16843010) "A".toList {} =
      some (.allow none) := by
    rw [FilterEngine.check, hname, FilterEngine.bestId_eq hb hcount hread,
      winner_of_no_match fun _ _ => storedMatches_wrapRules]
    rfl
  rw [compile, compiledRules_wrapLists]
  refine ⟨?_, ?_, hascii _, e, he, hcheck, ?_⟩
  · intro br hbr
    obtain ⟨i, hi⟩ := List.mem_iff_getElem?.mp hbr
    obtain ⟨-, rfl⟩ := getElem?_wrapRules hi
    have hraw : (withList 1 (blockHost (bitName i))).rule.raw =
        "0.0.0.0".toList ++ [' '] ++ bitName i := rfl
    rw [hraw, isAscii, List.all_append, ← isAscii, ← isAscii, hascii]
    rfl
  · intro br hbr _
    obtain ⟨i, hi⟩ := List.mem_iff_getElem?.mp hbr
    obtain ⟨-, rfl⟩ := getElem?_wrapRules hi
    have hpattern : (withList 1 (blockHost (bitName i))).rule.pattern.name =
        bitName i := rfl
    rw [hpattern, utf8Len_of_isAscii (hascii i), length_bitName]
  · rintro ⟨v, hv, hiff, -⟩
    obtain rfl : v = .allow none := Option.some.inj (hv.symm.trans hcheck)
    rw [hname] at hiff
    exact hiff.mp rfl _ (List.mem_of_getElem? hlast) ⟨rfl, rfl⟩

end Bulwark.Filter
