import Bulwark.Filter.Scan

/-!
# Index tokens of patterns in any script

Two characters outside ASCII equal an ASCII letter when case is folded.  A token that is
taken right beside one of them is no token of the names the pattern matches, since there
the letter belongs to the run.
-/

namespace Bulwark.Filter

open Bulwark.Foundation

/-! ## Simple case folding -/

def longS : Char := Char.ofNat 0x17f

def kelvinSign : Char := Char.ofNat 0x212a

/-- Simple case folding, as far as ASCII characters take part in it. -/
def simpleFold (c : Char) : Char :=
  if c = longS then 's' else if c = kelvinSign then 'k' else c.toLower

/-- Equality with ASCII characters is that of simple case folding. -/
def FoldsSimply (rx : RegexEngine) : Prop :=
  ∀ c d, isAsciiChar d = true → rx.foldEq c d = (simpleFold c == d.toLower)

/-! ## The property of the index -/

/-- The tokens of a body are tokens of every ASCII name its regex matches, and a rule that is
filed under one of them is reached. -/
structure IndexSafe (rx : RegexEngine) (body : Text) (sub start stop : Bool) : Prop where
  tokens : ∀ name, isAscii name = true →
    rx.isMatch (wildcardSource body sub start stop) name = true →
      ∀ tok ∈ tokenizePatternSafe (toAsciiLowercase body), tok ∈ forEachQueryToken name
  reached : ∀ name, isAscii name = true →
    rx.isMatch (wildcardSource body sub start stop) name = true →
      ∀ (source : Nat → Text) (tokenIndex : Bool) (entries : ScanMeta) (id : Nat),
        source id = wildcardSource body sub start stop →
          (id, tokenizePatternSafe (toAsciiLowercase body)) ∈ entries →
            id ∈ scanHits rx source tokenIndex entries name (forEachQueryToken name)

/-! ## Folded characters -/

theorem toLower_simpleFold (c : Char) : (simpleFold c).toLower = simpleFold c := by
  unfold simpleFold
  split_ifs
  · decide
  · decide
  · exact toLower_toLower c

theorem simpleFold_of_isAsciiChar {c : Char} (h : isAsciiChar c = true) :
    simpleFold c = c.toLower := by
  have hs : c ≠ longS := by
    rintro rfl
    exact absurd h (by decide)
  have hk : c ≠ kelvinSign := by
    rintro rfl
    exact absurd h (by decide)
  rw [simpleFold, if_neg hs, if_neg hk]

theorem simpleFold_eq_iff {c d : Char} (hascii : isAsciiChar d = true)
    (hd : isCaseless d = true) : simpleFold c = d ↔ c = d := by
  constructor
  · intro h
    unfold simpleFold at h
    split_ifs at h
    · rw [← h] at hd
      exact absurd hd (by decide)
    · rw [← h] at hd
      exact absurd hd (by decide)
    · exact (toLower_eq_iff hd).mp h
  · rintro rfl
    rw [simpleFold_of_isAsciiChar hascii]
    exact (toLower_eq_iff hd).mpr rfl

/-! ## The hash -/

def hashByte (h : UInt32) (c : Char) : UInt32 :=
  (h ^^^ c.toLower.toNat.toUInt32) * 0x01000193

theorem fastHash_append (t u : Text) : fastHash (t ++ u) = u.foldl hashByte (fastHash t) :=
  List.foldl_append

theorem mul_prime_inj {x y : UInt32} (h : x * 0x01000193 = y * 0x01000193) : x = y := by
  have hinv := congrArg (· * 0x359c449b) h
  have hone : (0x01000193 * 0x359c449b : UInt32) = 1 := by decide
  simpa [UInt32.mul_assoc, hone] using hinv

theorem hashByte_inj {h h' : UInt32} {c : Char} (heq : hashByte h c = hashByte h' c) :
    h = h' := by
  simpa using mul_prime_inj heq

/-- Runs that differ in their first character only have different hashes. -/
theorem foldl_hashByte_inj {h h' : UInt32} (t : Text)
    (heq : t.foldl hashByte h = t.foldl hashByte h') : h = h' := by
  induction t generalizing h h' with
  | nil => exact heq
  | cons c t ih => exact hashByte_inj (ih heq)

theorem hashByte_ne (h : UInt32) : hashByte h 'q' ≠ hashByte h 'r' := by
  intro heq
  have hxor := mul_prime_inj heq
  rw [UInt32.xor_right_inj] at hxor
  exact absurd hxor (by decide)

/-! ## What folding matches -/

section

variable {rx : RegexEngine}

theorem FoldsSimply.eqv (h : FoldsSimply rx) {c d : Char} (hd : isAsciiChar d = true)
    (heq : (foldAlphabet rx.foldEq).eqv c d = true) : simpleFold c = d.toLower := by
  change rx.foldEq c d = true at heq
  rwa [h c d hd, beq_iff_eq] at heq

theorem FoldsSimply.eqv_simpleFold (h : FoldsSimply rx) {c : Char}
    (hc : isAsciiChar (simpleFold c) = true) :
    (foldAlphabet rx.foldEq).eqv c (simpleFold c) = true := by
  change rx.foldEq c (simpleFold c) = true
  rw [h c _ hc, toLower_simpleFold, beq_self_eq_true]

theorem FoldsSimply.foldedBy (h : FoldsSimply rx) (body : Text) :
    FoldedBy (foldAlphabet rx.foldEq) simpleFold body where
  star _ := simpleFold_eq_iff (by decide) (by decide)
  caret := by decide
  token c _ d hd heq := by rw [h.eqv hd heq, isTokenChar_toLower]
  lower c _ d hd heq _ := by rw [h.eqv hd heq, toLower_toLower]
  sep := rx.tokenSafe.sep
  dot d hd heq := by
    rw [← isTokenChar_toLower, ← h.eqv hd heq]
    decide

theorem FoldsSimply.isSep_bang (h : FoldsSimply rx) :
    (foldAlphabet rx.foldEq).isSep '!' = true := by
  have hclass : hostClass.any (fun c => simpleFold c == '!') = false := by decide
  have hany : hostClass.any (rx.foldEq · '!') = hostClass.any (fun c => simpleFold c == '!') := by
    congr 1
    funext c
    exact h c '!' (by decide)
  simp [foldAlphabet, hany, hclass]

end

/-! ## A name without a token that is not forced -/

section

variable (tok : UInt32)

/-- A character that keeps the run before it from having this hash. -/
def afterRun (run : Text) : Char := if fastHash (run ++ ['q']) = tok then 'r' else 'q'

def beforeRun (run : Text) : Char := if fastHash ('q' :: run) = tok then 'r' else 'q'

/--
A text that the body stands for: its own characters, and in place of a star, or behind an open
end, characters that lengthen the runs there.  `run` is the run so far.
-/
def evadeFrom (stop : Bool) : Text → Text → Text
  | run, [] => if stop then [] else [afterRun tok run]
  | run, c :: body =>
      if c = '*' then
        let next := beforeRun tok ((body.map simpleFold).takeWhile isTokenChar)
        afterRun tok run :: '!' :: next :: evadeFrom stop [next] body
      else if c = '^' then '!' :: evadeFrom stop [] body
      else
        simpleFold c :: evadeFrom stop
          (if isTokenChar (simpleFold c) then run ++ [simpleFold c] else []) body

variable {tok}

theorem fastHash_afterRun (run : Text) : fastHash (run ++ [afterRun tok run]) ≠ tok := by
  unfold afterRun
  split
  · rename_i h
    rw [← h, fastHash_append, fastHash_append]
    exact (hashByte_ne _).symm
  · assumption

theorem fastHash_beforeRun (run : Text) : fastHash (beforeRun tok run :: run) ≠ tok := by
  unfold beforeRun
  split
  · rename_i h
    rw [← h]
    intro heq
    exact hashByte_ne _ (foldl_hashByte_inj run heq).symm
  · assumption

theorem isTokenChar_afterRun (run : Text) : isTokenChar (afterRun tok run) = true := by
  unfold afterRun
  split <;> decide

theorem isTokenChar_beforeRun (run : Text) : isTokenChar (beforeRun tok run) = true := by
  unfold beforeRun
  split <;> decide

theorem not_mem_pushRun {run : Text} (h : fastHash run ≠ tok) : tok ∉ pushRun run := by
  unfold pushRun
  split
  · simpa using h.symm
  · simp

theorem not_mem_evadeFrom {stop exact : Bool} {run run' body : Text}
    (hexact : exact = true → run' = run)
    (hloose : exact = false →
      fastHash (run' ++ (body.map simpleFold).takeWhile isTokenChar) ≠ tok)
    (h : tok ∉ forcedTokensFrom stop exact run (body.map simpleFold)) :
    tok ∉ queryTokensFrom run' (evadeFrom tok stop run' body) := by
  induction body generalizing run run' exact with
  | nil =>
      cases stop with
      | false =>
          simp only [evadeFrom, Bool.false_eq_true, if_false]
          rw [queryTokensFrom_token (isTokenChar_afterRun run')]
          exact not_mem_pushRun (fastHash_afterRun run')
      | true =>
          cases exact with
          | true =>
              rw [List.map_nil, mem_forcedTokensFrom_nil] at h
              rw [hexact rfl]
              exact fun hmem => h ⟨rfl, rfl, hmem⟩
          | false => exact not_mem_pushRun (by simpa using hloose rfl)
  | cons c body ih =>
      rw [List.map_cons] at h hloose
      by_cases hstar : c = '*'
      · subst hstar
        rw [show simpleFold '*' = '*' by decide, mem_forcedTokensFrom_star] at h
        simp only [evadeFrom, if_true]
        rw [queryTokensFrom_token (isTokenChar_afterRun run'),
          mem_queryTokensFrom_other (by decide), queryTokensFrom_token (isTokenChar_beforeRun _)]
        rintro (hmem | hmem)
        · exact not_mem_pushRun (fastHash_afterRun run') hmem
        · refine ih (by simp) (fun _ => ?_) h hmem
          exact fastHash_beforeRun _
      have hfold : simpleFold c ≠ '*' := by
        rwa [Ne, simpleFold_eq_iff (by decide) (by decide)]
      -- The run is the forced one or has another hash, and so has what the body adds to it.
      have hpush : isTokenChar (simpleFold c) = false → tok ∉ pushRun run' := by
        intro hT
        cases exact with
        | true =>
            rw [mem_forcedTokensFrom_other hT hfold] at h
            rw [hexact rfl]
            exact fun hmem => h (.inl ⟨rfl, hmem⟩)
        | false => exact not_mem_pushRun (by simpa [hT] using hloose rfl)
      have hrest : isTokenChar (simpleFold c) = false →
          tok ∉ queryTokensFrom [] (evadeFrom tok stop [] body) := by
        intro hT
        rw [mem_forcedTokensFrom_other hT hfold] at h
        exact ih (fun _ => rfl) (by simp) fun hmem => h (.inr hmem)
      by_cases hcaret : c = '^'
      · subst hcaret
        simp only [evadeFrom, if_neg hstar, if_true]
        rw [mem_queryTokensFrom_other (by decide)]
        exact fun hmem => hmem.elim (hpush (by decide)) (hrest (by decide))
      · simp only [evadeFrom, if_neg hstar, if_neg hcaret]
        cases hT : isTokenChar (simpleFold c) with
        | true =>
            rw [forcedTokensFrom_token hT] at h
            rw [queryTokensFrom_token hT, if_pos rfl]
            refine ih (fun he => by rw [hexact he]) (fun he => ?_) h
            simpa [hT] using hloose he
        | false =>
            rw [mem_queryTokensFrom_other hT, if_neg (by simp)]
            exact fun hmem => hmem.elim (hpush hT) (hrest hT)

theorem stands_evadeFrom {rx : RegexEngine} (hfold : FoldsSimply rx) (stop : Bool) (run : Text)
    {body : Text} (hbody : ∀ c ∈ body, isAsciiChar (simpleFold c) = true) :
    ∃ m rest, evadeFrom tok stop run body = m ++ rest ∧ (stop = true → rest = []) ∧
      (foldAlphabet rx.foldEq).Stands (body.map bodyItem) m rest := by
  induction body generalizing run with
  | nil => exact ⟨[], evadeFrom tok stop run [], rfl, by simp +contextual [evadeFrom], .nil⟩
  | cons c body ih =>
      simp only [List.mem_cons, forall_eq_or_imp] at hbody
      -- A character of the name that an item stands for comes before what the rest stands for.
      have hcons : ∀ run' m₁, (∀ rest, (foldAlphabet rx.foldEq).Consumes (bodyItem c) m₁ rest) →
          ∃ m rest, m₁ ++ evadeFrom tok stop run' body = m ++ rest ∧ (stop = true → rest = []) ∧
            (foldAlphabet rx.foldEq).Stands ((c :: body).map bodyItem) m rest := by
        intro run' m₁ hc
        obtain ⟨m, rest, heq, hstop, hs⟩ := ih run' hbody.2
        exact ⟨m₁ ++ m, rest, by rw [heq, List.append_assoc], hstop, .cons (hc _) hs⟩
      by_cases hstar : c = '*'
      · subst hstar
        have hline : ∀ run : Text, afterRun tok run ≠ '\n' ∧ beforeRun tok run ≠ '\n' := by
          intro run
          unfold afterRun beforeRun
          constructor <;> split <;> decide
        simp only [evadeFrom, if_true]
        refine hcons _ [_, '!', _] fun rest d hd => ?_
        simp only [List.mem_cons, List.not_mem_nil, or_false] at hd
        rcases hd with rfl | rfl | rfl
        · exact (hline _).1
        · decide
        · exact (hline _).2
      by_cases hcaret : c = '^'
      · subst hcaret
        simp only [evadeFrom, if_neg hstar, if_true]
        exact hcons _ ['!'] fun rest => .inl ⟨'!', rfl, hfold.isSep_bang⟩
      · simp only [evadeFrom, if_neg hstar, if_neg hcaret]
        refine hcons _ [simpleFold c] fun rest => ?_
        rw [bodyItem, if_neg hstar, if_neg hcaret]
        exact ⟨_, rfl, hfold.eqv_simpleFold hbody.1⟩

theorem isAscii_evadeFrom (stop : Bool) (run : Text) {body : Text}
    (hbody : ∀ c ∈ body, isAsciiChar (simpleFold c) = true) :
    isAscii (evadeFrom tok stop run body) = true := by
  have hextra : ∀ run : Text, isAsciiChar (afterRun tok run) = true ∧
      isAsciiChar (beforeRun tok run) = true := fun run =>
    ⟨isAsciiChar_of_token (isTokenChar_afterRun run),
      isAsciiChar_of_token (isTokenChar_beforeRun run)⟩
  induction body generalizing run with
  | nil => cases stop <;> simp [evadeFrom, isAscii, hextra]
  | cons c body ih =>
      simp only [List.mem_cons, forall_eq_or_imp] at hbody
      have htail := fun run => ih run hbody.2
      have hbang : isAsciiChar '!' = true := by decide
      unfold isAscii at htail ⊢
      unfold evadeFrom
      split
      · simp [hextra, htail, hbang]
      split
      · simp [htail, hbang]
      · simp [htail, hbody.1]

end

/-! ## Exactly when the index is safe -/

section

variable {rx : RegexEngine} {body name : Text} {sub start stop : Bool} {tok : UInt32}

/-- A token that is not forced is missing in some name that is matched. -/
theorem FoldsSimply.exists_match (h : FoldsSimply rx)
    (hbody : ∀ c ∈ body, isAsciiChar (simpleFold c) = true)
    (htok : tok ∉ forcedTokens (body.map simpleFold) (sub || start) stop) :
    ∃ name, isAscii name = true ∧
      rx.isMatch (wildcardSource body sub start stop) name = true ∧
        tok ∉ forEachQueryToken name := by
  unfold forcedTokens at htok
  unfold forEachQueryToken
  cases hanchor : sub || start with
  | true =>
      rw [hanchor] at htok
      obtain ⟨m, rest, heq, hstop, hs⟩ := @stands_evadeFrom tok _ h stop [] body hbody
      refine ⟨evadeFrom tok stop [] body, isAscii_evadeFrom stop [] hbody, ?_,
        not_mem_evadeFrom (fun _ => rfl) (by simp) htok⟩
      rw [rx.isMatch_wildcard, search_wildcardItems_iff, heq]
      refine ⟨[], m, rest, rfl, ?_, hstop, hs⟩
      unfold Opens
      cases sub with
      | true => exact .inl rfl
      | false =>
          rw [Bool.false_or] at hanchor
          subst hanchor
          rfl
  | false =>
      rw [hanchor] at htok
      obtain ⟨rfl, rfl⟩ := Bool.or_eq_false_iff.mp hanchor
      -- What is before the match lengthens the first run.
      let first := beforeRun tok ((body.map simpleFold).takeWhile isTokenChar)
      obtain ⟨m, rest, heq, hstop, hs⟩ := @stands_evadeFrom tok _ h stop [first] body hbody
      have hfirst : isTokenChar first = true := isTokenChar_beforeRun _
      refine ⟨first :: evadeFrom tok stop [first] body, ?_, ?_, ?_⟩
      · simp only [isAscii, List.all_cons, Bool.and_eq_true]
        exact ⟨isAsciiChar_of_token hfirst, isAscii_evadeFrom stop [first] hbody⟩
      · rw [rx.isMatch_wildcard, search_wildcardItems_iff, heq]
        exact ⟨[first], m, rest, rfl, trivial, hstop, hs⟩
      · rw [queryTokensFrom_token hfirst]
        exact not_mem_evadeFrom (by simp) (fun _ => fastHash_beforeRun _) htok

theorem FoldsSimply.readable_of_match (h : FoldsSimply rx) (hname : isAscii name = true)
    (hmatch : rx.isMatch (wildcardSource body sub start stop) name = true) :
    ∀ c ∈ body, isAsciiChar (simpleFold c) = true := by
  intro c hc
  rw [rx.isMatch_wildcard, search_wildcardItems_iff] at hmatch
  obtain ⟨before, m, rest, rfl, -, -, hs⟩ := hmatch
  simp only [isAscii, List.all_append, Bool.and_eq_true] at hname
  by_cases hitem : bodyItem c = .lit c
  · have hmem := List.mem_map_of_mem (f := bodyItem) hc
    rw [hitem] at hmem
    obtain ⟨d, hd, heqv⟩ := hs.lit_mem hmem
    have hascii := List.all_eq_true.mp hname.2.1 d hd
    rw [h.eqv hascii heqv, isAsciiChar_toLower]
    exact hascii
  · unfold bodyItem at hitem
    split_ifs at hitem with hstar hcaret
    · rw [hstar]
      decide
    · rw [hcaret]
      decide
    · exact absurd rfl hitem

theorem indexSafe_of_tokens
    (h : ∀ name, isAscii name = true →
      rx.isMatch (wildcardSource body sub start stop) name = true →
        ∀ tok ∈ tokenizePatternSafe (toAsciiLowercase body), tok ∈ forEachQueryToken name) :
    IndexSafe rx body sub start stop where
  tokens := h
  reached name hname hmatch source tokenIndex entries id hsource hentry :=
    scanHits_complete hentry (by rw [hsource]; exact hmatch) fun _ => h name hname hmatch

/--
Exactly when the index is safe for a pattern: it has a character that no ASCII character
equals, or, with the two letters read as ASCII, each of its tokens is that of a run which
neither a star nor an open end touches.
-/
theorem indexSafe_iff (hfold : FoldsSimply rx) (body : Text) (sub start stop : Bool) :
    IndexSafe rx body sub start stop ↔
      (∃ c ∈ body, isAsciiChar (simpleFold c) = false) ∨
        ∀ tok ∈ tokenizePatternSafe (toAsciiLowercase body),
          tok ∈ forcedTokens (body.map simpleFold) (sub || start) stop := by
  constructor
  · intro h
    by_cases hbody : ∀ c ∈ body, isAsciiChar (simpleFold c) = true
    · right
      intro tok htok
      by_contra hforced
      obtain ⟨name, hname, hmatch, hnot⟩ := hfold.exists_match hbody hforced
      exact hnot (h.tokens name hname hmatch tok htok)
    · left
      simpa using hbody
  · intro h
    apply indexSafe_of_tokens
    intro name hname hmatch tok htok
    rcases h with ⟨c, hc, hno⟩ | h
    · rw [hfold.readable_of_match hname hmatch c hc] at hno
      cases hno
    · rw [rx.isMatch_wildcard] at hmatch
      exact mem_of_search (hfold.foldedBy body) hname hmatch (h tok htok)

end

/-! ## An engine that folds case so -/

theorem simpleFold_toLower (c : Char) : simpleFold c.toLower = simpleFold c := by
  by_cases h : isAsciiChar c = true
  · rw [simpleFold_of_isAsciiChar h,
      simpleFold_of_isAsciiChar (by rw [isAsciiChar_toLower]; exact h), toLower_toLower]
  · rw [toLower_eq_self]
    simp [isAsciiChar] at h
    omega

def foldingIsMatch (source name : Text) : Bool :=
  (foldAlphabet fun c d => simpleFold c == simpleFold d).search (sourceItems source) name

def foldingEngine : RegexEngine where
  build _ _ := .ok ()
  isMatch := foldingIsMatch
  setBuild _ _ := true
  setMatches patterns name := (List.range patterns.length).filter fun i =>
    (patterns[i]?).any (foldingIsMatch · name)
  foldEq c d := simpleFold c == simpleFold d
  mem_setMatches _ _ _ := mem_matching
  foldEq_ascii c d hc hd := by
    rw [simpleFold_of_isAsciiChar hc, simpleFold_of_isAsciiChar hd]
  foldEq_toLower c d := by rw [simpleFold_toLower]
  isMatch_wildcard body sub start stop name := by
    rw [foldingIsMatch, sourceItems_wildcardSource]

theorem foldsSimply_foldingEngine : FoldsSimply foldingEngine := by
  intro c d hd
  exact congrArg (simpleFold c == ·) (simpleFold_of_isAsciiChar hd)

/-- The anchor forces the token that the long s takes from the second run. -/
theorem indexSafe_iff_anchored :
    IndexSafe foldingEngine "abc.ſabc.x*".toList true false false := by
  refine (indexSafe_iff foldsSimply_foldingEngine _ true false false).mpr (.inr ?_)
  have hall : (tokenizePatternSafe (toAsciiLowercase "abc.ſabc.x*".toList)).all (fun tok =>
      (forcedTokens ("abc.ſabc.x*".toList.map simpleFold) true false).contains tok) = true := by
    decide +kernel
  intro tok htok
  simpa using List.all_eq_true.mp hall tok htok

/-- A rule that is filed under `abc`, which is no token of a name it matches. -/
theorem longS_missed :
    ∃ re toks, parsePattern referenceExternal "||*.ſabc.net^".toList = .ok (.wildcard re, toks) ∧
      re.asStr = wildcardSource "*.ſabc.net".toList true false true ∧
      toks = tokenizePatternSafe (toAsciiLowercase "*.ſabc.net".toList) ∧
      foldingEngine.isMatch re.asStr "x.sabc.net".toList = true ∧
      fastHash "abc".toList ∈ toks ∧
      fastHash "abc".toList ∉ forEachQueryToken "x.sabc.net".toList ∧
      ¬ IndexSafe foldingEngine "*.ſabc.net".toList true false true := by
  have hmatch : foldingEngine.isMatch (wildcardSource "*.ſabc.net".toList true false true)
      "x.sabc.net".toList = true := by decide +kernel
  have htok : fastHash "abc".toList ∈
      tokenizePatternSafe (toAsciiLowercase "*.ſabc.net".toList) := by decide +kernel
  have hnot : fastHash "abc".toList ∉ forEachQueryToken "x.sabc.net".toList := by decide +kernel
  exact ⟨_, _, rfl, rfl, rfl, hmatch, htok, hnot,
    fun h => hnot (h.tokens _ (by decide) hmatch _ htok)⟩

end Bulwark.Filter
