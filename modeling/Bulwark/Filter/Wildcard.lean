import Bulwark.Foundation.Regexp
import Bulwark.Filter.Parsed

/-!
# What wildcard rules mean

The meaning of a pattern with `*` and `^` as AdBlock syntax gives it, and that of the regex
which is generated for it.
-/

namespace Bulwark.Filter

open Bulwark.Foundation

/-! ## AdBlock syntax -/

/-- Letters, digits and the characters that do not separate. -/
def isHostChar (d : Char) : Bool := d.isAlphanum || d == '.' || d == '_' || d == '-'

/-- `Stands body m rest`: the body of a pattern stands for `m`, which `rest` follows. -/
inductive Stands : Text → Text → Text → Prop where
  | nil {rest : Text} : Stands [] [] rest
  | star {body m rest : Text} (any : Text) (h : Stands body m rest) :
      Stands ('*' :: body) (any ++ m) rest
  | separator {d : Char} {body m rest : Text} (hd : isHostChar d = false)
      (h : Stands body m rest) : Stands ('^' :: body) (d :: m) rest
  | atEnd {body : Text} (h : Stands body [] []) : Stands ('^' :: body) [] []
  | char {c d : Char} {body m rest : Text} (hstar : c ≠ '*') (hsep : c ≠ '^')
      (hcd : c.toLower = d.toLower) (h : Stands body m rest) :
      Stands (c :: body) (d :: m) rest

/-- Where a pattern may begin to match. -/
inductive Opening where
  | label
  | start
  | anywhere
  deriving DecidableEq, Repr

def Opening.Allows : Opening → Text → Prop
  | .label, before => before = [] ∨ ∃ t, before = t ++ ['.']
  | .start, before => before = []
  | .anywhere, _ => True

structure AdblockPattern where
  opening : Opening
  body : Text
  atEnd : Bool
  deriving DecidableEq, Repr

def AdblockPattern.Matches (p : AdblockPattern) (name : Text) : Prop :=
  ∃ before m rest, name = before ++ m ++ rest ∧ p.opening.Allows before ∧
    (p.atEnd = true → rest = []) ∧ Stands p.body m rest

def openingMark : Text → Opening × Text
  | '|' :: '|' :: s => (.label, s)
  | '|' :: s => (.start, s)
  | s => (.anywhere, s)

def endMark (s : Text) : Text × Bool :=
  if s.getLast? = some '^' ∨ s.getLast? = some '|' then (s.dropLast, true) else (s, false)

/-- The marks at the two ends of a pattern and what is between them. -/
def readAdblock (p : Text) : AdblockPattern where
  opening := (openingMark p).1
  body := (endMark (openingMark p).2).1
  atEnd := (endMark (openingMark p).2).2

/-- Further separators right before the mark of the end are dropped. -/
def AdblockPattern.withoutStray (p : AdblockPattern) : AdblockPattern :=
  { p with body := if p.atEnd then trimEndMatches '^' p.body else p.body }

/-! ## The generated regex -/

/-- `[^a-z0-9._-]` -/
def separatorClass : CharClass :=
  ⟨true, [('a', 'z'), ('0', '9'), ('.', '.'), ('_', '_'), ('-', '-')]⟩

open Regexp in
def wildcardTokens (c : Char) : List Token :=
  if c = '*' then [.set .dot, .star]
  else if c = '^' then [.group, .set separatorClass, .bar, .eol, .close]
  else [.set (.single c)]

def wildcardRegexp (c : Char) : Regexp :=
  if c = '*' then .star (.set .dot)
  else if c = '^' then .alt (.seqAll [.set separatorClass]) (.seqAll [.eol])
  else .set (.single c)

theorem lex_separatorSource (rest : Text) :
    Regexp.lex none (separatorSource ++ rest) =
      (Regexp.lex none rest).map (wildcardTokens '^' ++ ·) := by
  have hsource : separatorSource ++ rest = '(' :: '?' :: ':' :: '[' :: '^' :: 'a' :: '-' :: 'z' ::
      '0' :: '-' :: '9' :: '.' :: '_' :: '-' :: ']' :: '|' :: '$' :: ')' :: rest := rfl
  rw [hsource, Regexp.lex_group, Regexp.lex_negated]
  iterate 9 rw [Regexp.lex_classChar (by decide) (by decide)]
  rw [Regexp.lex_classClose (by decide)]
  iterate 3 rw [Regexp.lex_symbol (by decide) (by decide) (by decide)]
  cases Regexp.lex none rest <;> rfl

theorem lex_wildcardChar (c : Char) (rest : Text) :
    Regexp.lex none (wildcardChar c ++ rest) =
      (Regexp.lex none rest).map (wildcardTokens c ++ ·) := by
  unfold wildcardChar
  split
  · rename_i hc
    subst hc
    change Regexp.lex none ('.' :: '*' :: rest) = _
    iterate 2 rw [Regexp.lex_symbol (by decide) (by decide) (by decide)]
    cases Regexp.lex none rest <;> rfl
  split
  · rename_i hc
    subst hc
    exact lex_separatorSource rest
  rename_i hstar hcaret
  unfold wildcardTokens
  rw [if_neg hstar, if_neg hcaret]
  split
  · rename_i hspecial
    obtain ⟨d, hd, heq⟩ := List.any_eq_true.mp hspecial
    obtain rfl : d = c := beq_iff_eq.mp heq
    have hmeta : regexSpecials.all (contains · Regexp.metaChars) = true := by decide
    exact Regexp.lex_escape (List.all_eq_true.mp hmeta d hd)
  · rename_i hspecial
    have hne : ∀ d ∈ regexSpecials, c ≠ d := by
      rintro d hd rfl
      exact hspecial (List.any_eq_true.mpr ⟨c, hd, beq_self_eq_true c⟩)
    have hbracket : contains c "\\([]\x7b\x7d".toList = false := by
      unfold contains
      rw [List.any_eq_false]
      intro d hd heq
      have hsub : "\\([]\x7b\x7d".toList.all (regexSpecials.contains ·) = true := by decide
      have hspec := List.contains_iff_mem.mp (List.all_eq_true.mp hsub d hd)
      exact hne d hspec (beq_iff_eq.mp heq).symm
    have hsymbol : Regexp.symbol c = some (.set (.single c)) := by
      unfold Regexp.symbol
      rw [if_neg (hne '.' (by decide)), if_neg hcaret, if_neg (hne '$' (by decide)), if_neg hstar,
        if_neg (hne '+' (by decide)), if_neg (hne '?' (by decide)), if_neg (hne '|' (by decide)),
        if_neg (hne ')' (by decide)), hbracket, if_neg Bool.false_ne_true]
    rw [List.singleton_append, Regexp.lex_symbol (hne '\\' (by decide)) (hne '(' (by decide))
      (hne '[' (by decide)), hsymbol]
    rfl

theorem lex_body (body rest : Text) :
    Regexp.lex none (body.flatMap wildcardChar ++ rest) =
      (Regexp.lex none rest).map (body.flatMap wildcardTokens ++ ·) := by
  induction body with
  | nil => simp
  | cons c body ih =>
      rw [List.flatMap_cons, List.append_assoc, lex_wildcardChar, ih]
      cases Regexp.lex none rest <;> simp

theorem parseTokens_wildcard (c : Char) (ts : List Regexp.Token) (l : Regexp.Level)
    (ls : List Regexp.Level) :
    Regexp.parseTokens (wildcardTokens c ++ ts) l ls =
      Regexp.parseTokens ts (l.push (wildcardRegexp c)) ls := by
  unfold wildcardTokens wildcardRegexp
  split
  · rfl
  split
  · rfl
  · rfl

theorem parseTokens_body (body : Text) (ts : List Regexp.Token) (parts : List Regexp) :
    Regexp.parseTokens (body.flatMap wildcardTokens ++ ts) ⟨[], parts⟩ [] =
      Regexp.parseTokens ts ⟨[], (body.map wildcardRegexp).reverse ++ parts⟩ [] := by
  induction body generalizing parts with
  | nil => rfl
  | cons c body ih =>
      rw [List.flatMap_cons, List.append_assoc, parseTokens_wildcard]
      change Regexp.parseTokens _ ⟨[], wildcardRegexp c :: parts⟩ [] = _
      rw [ih]
      simp

def openingRegexp (sub start : Bool) : List Regexp :=
  if sub then [.alt (.seqAll [.bol]) (.seqAll [.set (.single '.')])]
  else if start then [.bol] else []

/-- What the generated source says. -/
def bodyRegexp (body : Text) (sub start stop : Bool) : Regexp :=
  .seqAll (openingRegexp sub start ++ body.map wildcardRegexp ++ if stop then [.eol] else [])

theorem lex_opening (sub start : Bool) (rest : Text) :
    Regexp.lex none ((if sub then "(?:^|\\.)".toList else if start then ['^'] else []) ++ rest) =
      (Regexp.lex none rest).map ((if sub then [.group, .bol, .bar, .set (.single '.'), .close]
        else if start then [.bol] else []) ++ ·) := by
  cases sub with
  | true =>
      change Regexp.lex none ('(' :: '?' :: ':' :: '^' :: '|' :: '\\' :: '.' :: ')' :: rest) = _
      rw [Regexp.lex_group]
      iterate 2 rw [Regexp.lex_symbol (by decide) (by decide) (by decide)]
      rw [Regexp.lex_escape (by decide),
        Regexp.lex_symbol (by decide) (by decide) (by decide)]
      cases Regexp.lex none rest <;> rfl
  | false =>
      cases start with
      | true =>
          change Regexp.lex none ('^' :: rest) = _
          rw [Regexp.lex_symbol (by decide) (by decide) (by decide)]
          cases Regexp.lex none rest <;> rfl
      | false => simp

theorem parse_wildcardSource (body : Text) (sub start stop : Bool) :
    Regexp.parse (wildcardSource body sub start stop) =
      some (true, bodyRegexp body sub start stop) := by
  have htail : Regexp.lex none (if stop then ['$'] else []) =
      some (if stop then [.eol] else []) := by
    cases stop with
    | true => rw [if_pos rfl, Regexp.lex_symbol (by decide) (by decide) (by decide)]; rfl
    | false => rfl
  have hprefix : ∀ t : Text, Regexp.parse ("(?i)".toList ++ t) =
      (Regexp.lex none t).bind fun tokens =>
        (Regexp.parseTokens tokens ⟨[], []⟩ []).map (true, ·) := fun t => rfl
  unfold wildcardSource
  rw [List.append_assoc, List.append_assoc, hprefix, lex_opening, lex_body, htail]
  simp only [Option.map_some, Option.bind_some]
  have hopening : ∀ ts : List Regexp.Token,
      Regexp.parseTokens ((if sub then [.group, .bol, .bar, .set (.single '.'), .close]
        else if start then [.bol] else []) ++ ts) ⟨[], []⟩ [] =
      Regexp.parseTokens ts ⟨[], (openingRegexp sub start).reverse⟩ [] := by
    intro ts
    cases sub <;> cases start <;> rfl
  rw [hopening, parseTokens_body]
  unfold bodyRegexp
  cases stop with
  | true =>
      change some (true, Regexp.seqAll (List.reverse (.eol :: (_ ++ _)))) = _
      simp
  | false =>
      change some (true, Regexp.seqAll (List.reverse _)) = _
      simp

/-! ## Its matches -/

theorem toLower_eq_toLower_iff {c d : Char} :
    c.toLower = d.toLower ↔
      c.toNat = d.toNat ∨ c.toNat = d.toLower.toNat ∨ c.toNat = d.toUpper.toNat := by
  rw [← Char.toNat_inj, toNat_toLower, toNat_toLower, toNat_toUpper]
  split_ifs <;> omega

theorem mem_single {c d : Char} :
    (CharClass.single c).mem true d = true ↔ c.toLower = d.toLower := by
  rw [CharClass.mem_iff, toLower_eq_toLower_iff]
  simp only [CharClass.covers_iff, CharClass.single, List.mem_singleton, exists_eq_left,
    true_iff, true_and]
  omega

theorem isHostChar_iff (d : Char) :
    isHostChar d = true ↔ ((48 ≤ d.toNat ∧ d.toNat ≤ 57) ∨ (65 ≤ d.toNat ∧ d.toNat ≤ 90) ∨
      (97 ≤ d.toNat ∧ d.toNat ≤ 122)) ∨ d.toNat = 46 ∨ d.toNat = 95 ∨ d.toNat = 45 := by
  have htoken : isTokenChar d = d.isAlphanum := rfl
  unfold isHostChar
  rw [← isTokenChar_iff, htoken]
  simp only [Bool.or_eq_true, beq_iff_eq, ← Char.toNat_inj, Char.reduceToNat, or_assoc]

theorem mem_separatorClass {d : Char} :
    separatorClass.mem true d = true ↔ isHostChar d = false := by
  have hfalse : isHostChar d = false ↔ ¬ isHostChar d = true := by simp
  rw [CharClass.mem_iff, hfalse, isHostChar_iff]
  simp only [CharClass.covers_iff, separatorClass, List.mem_cons, List.not_mem_nil, or_false,
    exists_eq_or_imp, exists_eq_left, Char.reduceToNat, toNat_toLower, toNat_toUpper, true_and,
    Bool.true_eq_false, false_iff]
  split_ifs <;> omega

theorem mem_dot {d : Char} : CharClass.dot.mem true d = true ↔ d ≠ '\n' := by
  rw [CharClass.mem_iff, ne_eq, ← Char.toNat_inj]
  simp only [CharClass.covers_iff, CharClass.dot, List.mem_singleton, exists_eq_left,
    Char.reduceToNat, toNat_toLower, toNat_toUpper, true_and, Bool.true_eq_false, false_iff]
  split_ifs <;> omega

theorem matches_body {body before m rest : Text} (hline : '\n' ∉ m) :
    Regexp.Matches true (.seqAll (body.map wildcardRegexp)) before m rest ↔
      Stands body m rest := by
  induction body generalizing before m with
  | nil =>
      rw [List.map_nil, Regexp.matches_seqAll_nil]
      constructor
      · rintro rfl
        exact .nil
      · intro h
        cases h
        rfl
  | cons c body ih =>
      rw [List.map_cons, Regexp.matches_seqAll_cons]
      have hrest : ∀ m₁ m₂ : Text, m = m₁ ++ m₂ → '\n' ∉ m₂ :=
        fun m₁ m₂ hm hmem => hline (hm ▸ List.mem_append_right _ hmem)
      unfold wildcardRegexp
      by_cases hstar : c = '*'
      · subst hstar
        rw [if_pos rfl]
        simp only [Regexp.matches_star_set, mem_dot]
        constructor
        · rintro ⟨m₁, m₂, hm, -, h⟩
          rw [hm]
          exact .star m₁ ((ih (hrest m₁ m₂ hm)).mp h)
        · intro h
          cases h with
          | star any h =>
              refine ⟨any, _, rfl, ?_, (ih (hrest _ _ rfl)).mpr h⟩
              rintro d hd rfl
              exact hline (List.mem_append_left _ hd)
          | char hne => exact absurd rfl hne
      rw [if_neg hstar]
      by_cases hsep : c = '^'
      · subst hsep
        rw [if_pos rfl]
        simp only [Regexp.matches_alt, Regexp.matches_seqAll_singleton, Regexp.matches_set,
          Regexp.matches_eol, mem_separatorClass]
        constructor
        · rintro ⟨m₁, m₂, hm, ⟨d, rfl, hd⟩ | ⟨rfl, hend⟩, h⟩
          · rw [hm]
            exact .separator hd ((ih (hrest _ m₂ hm)).mp h)
          · obtain ⟨rfl, rfl⟩ := List.append_eq_nil_iff.mp hend
            obtain rfl : m = [] := hm
            exact .atEnd ((ih (by simp)).mp h)
        · intro h
          cases h with
          | separator hd h => exact ⟨[_], _, rfl, .inl ⟨_, rfl, hd⟩, (ih (hrest [_] _ rfl)).mpr h⟩
          | atEnd h => exact ⟨[], [], rfl, .inr ⟨rfl, rfl⟩, (ih (by simp)).mpr h⟩
          | char _ hne => exact absurd rfl hne
      rw [if_neg hsep]
      simp only [Regexp.matches_set, mem_single]
      constructor
      · rintro ⟨m₁, m₂, hm, ⟨d, rfl, hd⟩, h⟩
        rw [hm]
        exact .char hstar hsep hd ((ih (hrest _ m₂ hm)).mp h)
      · intro h
        cases h with
        | star => exact absurd rfl hstar
        | separator => exact absurd rfl hsep
        | atEnd => exact absurd rfl hsep
        | char _ _ hd h => exact ⟨[_], _, rfl, ⟨_, rfl, hd⟩, (ih (hrest [_] _ rfl)).mpr h⟩

def openingOf (sub start : Bool) : Opening :=
  if sub then .label else if start then .start else .anywhere

theorem allows_of_matches {sub start : Bool} {before m after : Text}
    (h : Regexp.Matches true (.seqAll (openingRegexp sub start)) before m after) :
    (openingOf sub start).Allows (before ++ m) := by
  unfold openingRegexp at h
  unfold openingOf
  cases sub with
  | true =>
      simp only [if_true, Regexp.matches_seqAll_singleton, Regexp.matches_alt, Regexp.matches_bol,
        Regexp.matches_set, mem_single] at h
      rcases h with ⟨rfl, rfl⟩ | ⟨d, rfl, hd⟩
      · exact .inl rfl
      · have hdot : '.' = d := by
          have := (toLower_eq_iff (c := d) (d := '.') (by decide)).mp hd.symm
          exact this.symm
        exact .inr ⟨before, by rw [hdot]⟩
  | false =>
      cases start with
      | true =>
          simp only [Bool.false_eq_true, if_false, if_true, Regexp.matches_seqAll_singleton,
            Regexp.matches_bol] at h
          rw [h.1, h.2]
          rfl
      | false => trivial

theorem matches_of_allows {sub start : Bool} {before : Text}
    (h : (openingOf sub start).Allows before) (after : Text) :
    ∃ b m, before = b ++ m ∧
      Regexp.Matches true (.seqAll (openingRegexp sub start)) b m after := by
  unfold openingOf at h
  unfold openingRegexp
  cases sub with
  | true =>
      rcases h with rfl | ⟨t, rfl⟩
      · exact ⟨[], [], rfl, by simp⟩
      · exact ⟨t, ['.'], rfl, by simp [mem_single]⟩
  | false =>
      cases start with
      | true =>
          obtain rfl : before = [] := h
          exact ⟨[], [], rfl, by simp⟩
      | false => exact ⟨before, [], by simp, by simp⟩

theorem finds_bodyRegexp {body name : Text} (hline : '\n' ∉ name) (sub start stop : Bool) :
    Regexp.Finds true (bodyRegexp body sub start stop) name ↔
      (AdblockPattern.mk (openingOf sub start) body stop).Matches name := by
  unfold Regexp.Finds bodyRegexp AdblockPattern.Matches
  constructor
  · rintro ⟨before, m, after, rfl, h⟩
    obtain ⟨m₁, m₂, rfl, hfront, hstop⟩ := Regexp.matches_seqAll_append.mp h
    obtain ⟨m₃, m₄, rfl, hopen, hbody⟩ := Regexp.matches_seqAll_append.mp hfront
    have hmiddle : '\n' ∉ m₄ := fun hmem => hline (by simp [hmem])
    have hend : m₂ = [] ∧ (stop = true → after = []) := by
      cases stop with
      | true => simpa using hstop
      | false => simpa using hstop
    obtain ⟨rfl, hafter⟩ := hend
    refine ⟨before ++ m₃, m₄, after, by simp, allows_of_matches hopen, hafter, ?_⟩
    exact (matches_body hmiddle).mp hbody
  · rintro ⟨before, m, rest, rfl, hopen, hrest, hstands⟩
    obtain ⟨b, m₁, rfl, hfront⟩ := matches_of_allows hopen (m ++ ([] ++ rest))
    have hmiddle : '\n' ∉ m := fun hmem => hline (by simp [hmem])
    refine ⟨b, m₁ ++ m ++ [], rest, by simp, ?_⟩
    refine Regexp.matches_seqAll_append.mpr ⟨m₁ ++ m, [], rfl, ?_, ?_⟩
    · exact Regexp.matches_seqAll_append.mpr
        ⟨m₁, m, rfl, hfront, (matches_body hmiddle).mpr hstands⟩
    · cases stop with
      | true => simpa using hrest rfl
      | false => simp

theorem sourceFinds_iff {body name : Text} (hline : '\n' ∉ name) (sub start stop : Bool) :
    Regexp.SourceFinds (wildcardSource body sub start stop) name ↔
      (AdblockPattern.mk (openingOf sub start) body stop).Matches name := by
  rw [← finds_bodyRegexp hline]
  unfold Regexp.SourceFinds
  rw [parse_wildcardSource]
  constructor
  · rintro ⟨fold, r, heq, h⟩
    cases heq
    exact h
  · exact fun h => ⟨_, _, rfl, h⟩

/-! ## The marks of a pattern -/

theorem isSuffixOf?_singleton (c : Char) (s : Text) :
    [c].isSuffixOf? s = if s.getLast? = some c then some s.dropLast else none := by
  induction s using List.reverseRecOn with
  | nil => rfl
  | append_singleton s d _ =>
      rw [List.getLast?_concat, List.dropLast_concat]
      by_cases hd : d = c
      · subst hd
        simp [List.isSuffixOf?, List.isPrefixOf?]
      · have hd' : ¬ (c == d) = true := by simpa using fun h => hd h.symm
        simp [List.isSuffixOf?, List.isPrefixOf?, hd, hd']

theorem stripFront_eq (p : Text) :
    stripFront p = ((openingMark p).2, decide ((openingMark p).1 = .label),
      decide ((openingMark p).1 = .start)) := by
  fun_cases openingMark p with
  | case1 s => rfl
  | case2 s hbar =>
      cases s with
      | nil => rfl
      | cons d s =>
          have hd : ¬ '|' = d := by
            rintro rfl
            exact hbar s rfl
          simp [stripFront, List.isPrefixOf?, hd]
  | case3 _ hbars hbar =>
      cases p with
      | nil => rfl
      | cons c p =>
          have hc : ¬ '|' = c := by
            rintro rfl
            exact hbar p rfl
          simp [stripFront, List.isPrefixOf?, hc]

theorem stripBack_eq (s : Text) : stripBack s = endMark s := by
  unfold stripBack endMark
  rw [isSuffixOf?_singleton, isSuffixOf?_singleton]
  by_cases hsep : s.getLast? = some '^'
  · simp [hsep]
  · by_cases hbar : s.getLast? = some '|'
    · simp [hbar]
    · simp [hsep, hbar]

theorem trimEndMatches_of_endMark {s : Text} (h : (endMark s).2 = false) :
    trimEndMatches '^' (endMark s).1 = (endMark s).1 := by
  unfold endMark at h ⊢
  split_ifs at h ⊢ with hlast
  refine List.rdropWhile_eq_self_iff.mpr fun hne heq => hlast (.inl ?_)
  rw [List.getLast?_eq_some_getLast hne, beq_iff_eq.mp heq]

/-- What the parser cuts off are the marks and the stray separators before the last one. -/
theorem stripAnchors_eq_withoutStray (p : Text) :
    (stripAnchors p).body = (readAdblock p).withoutStray.body ∧
      openingOf (stripAnchors p).subdomain (stripAnchors p).start = (readAdblock p).opening ∧
      (stripAnchors p).stop = (readAdblock p).atEnd := by
  rw [stripAnchors_eq, stripFront_eq, stripBack_eq]
  refine ⟨?_, ?_, rfl⟩
  · unfold AdblockPattern.withoutStray readAdblock
    dsimp only
    split_ifs with hend
    · rfl
    · exact trimEndMatches_of_endMark (by simpa using hend)
  · unfold openingOf readAdblock
    dsimp only
    cases (openingMark p).1 <;> rfl

theorem source_of_wildcard {ext : External} {p : Text} {re : Regex} {toks : List UInt32}
    (h : parsePattern ext p = .ok (.wildcard re, toks)) :
    re.asStr = wildcardSource (stripAnchors p).body (stripAnchors p).subdomain
      (stripAnchors p).start (stripAnchors p).stop := by
  cases patternOf_of_parse h with
  | wildcard hre =>
      unfold buildWildcardRegex compileRegex at hre
      split at hre
      · cases hre
        rfl
      · cases hre

/-- A wildcard rule finds a name exactly where the name can be split as the syntax says, the
separators that stand before the mark of the end left out. -/
theorem wildcard_iff_matches {ext : External} {p : Text} {re : Regex} {toks : List UInt32}
    (h : parsePattern ext p = .ok (.wildcard re, toks)) {name : Text} (hline : '\n' ∉ name) :
    Regexp.SourceFinds re.asStr name ↔ (readAdblock p).withoutStray.Matches name := by
  obtain ⟨hbody, hopening, hstop⟩ := stripAnchors_eq_withoutStray p
  rw [source_of_wildcard h, sourceFinds_iff hline, hbody, hopening, hstop]
  rfl

theorem wildcard_adsStar :
    ∃ re toks, parsePattern referenceExternal "||ads.*^".toList = .ok (.wildcard re, toks) ∧
      '\n' ∉ "x.ads.net".toList ∧ Regexp.SourceFinds re.asStr "x.ads.net".toList := by
  obtain ⟨re, toks, hparse⟩ : ∃ re toks,
      parsePattern referenceExternal "||ads.*^".toList = .ok (.wildcard re, toks) := ⟨_, _, rfl⟩
  refine ⟨re, toks, hparse, by decide, (wildcard_iff_matches hparse (by decide)).mpr ?_⟩
  have hstands : Stands "ads.*".toList ("ads.".toList ++ "net".toList) [] :=
    .char (by decide) (by decide) rfl <| .char (by decide) (by decide) rfl <|
      .char (by decide) (by decide) rfl <| .char (by decide) (by decide) rfl <|
        .star "net".toList .nil
  exact ⟨"x.".toList, "ads.net".toList, [], rfl, .inr ⟨['x'], rfl⟩, fun _ => rfl, hstands⟩

/-- A separator before the mark of the end is ignored, where the syntax lets it stand for a
character. -/
theorem straySeparator_ignored :
    ∃ re toks, parsePattern referenceExternal "*a^^".toList = .ok (.wildcard re, toks) ∧
      (readAdblock "*a^^".toList).Matches "a!".toList ∧
      ¬ Regexp.SourceFinds re.asStr "a!".toList := by
  refine ⟨⟨wildcardSource "*a".toList false false true⟩, _, rfl, ?_, fun h => ?_⟩
  · have hstands : Stands "*a^".toList "a!".toList [] :=
      .star [] (.char (by decide) (by decide) rfl (.separator rfl .nil))
    exact ⟨[], "a!".toList, [], rfl, trivial, fun _ => rfl, hstands⟩
  · obtain ⟨before, m, rest, hname, -, hrest, hstands⟩ := (sourceFinds_iff (by decide) ..).mp h
    obtain rfl : rest = [] := hrest rfl
    change Stands ['*', 'a'] m [] at hstands
    cases hstands with
    | char hne => exact absurd rfl hne
    | star any hstands =>
        cases hstands with
        | char _ _ hd hnil =>
            cases hnil
            -- the name would have to end in an `a`
            have hlast := congrArg List.getLast? hname
            rw [List.append_nil, ← List.append_assoc, List.getLast?_concat] at hlast
            obtain rfl := Option.some.inj hlast
            exact absurd hd (by decide)

end Bulwark.Filter
