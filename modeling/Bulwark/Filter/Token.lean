import Mathlib.Data.List.Dedup
import Bulwark.Foundation.Glob

/-!
# Token index of wildcard patterns

`token.rs` hashes the alphanumeric runs of a query name and those runs of a
wildcard body that no `*` can extend.  A non-ASCII character has only bytes
above 127 in UTF-8, none of them a token byte, so scanning characters finds the
same runs as scanning bytes.
-/

namespace Bulwark.Filter

open Bulwark.Foundation

def minTokenLen : Nat := 3

def isTokenChar (c : Char) : Bool := c.isAlphanum

/-- 32-bit FNV-1a, case-insensitive on ASCII. -/
def fastHash (t : Text) : UInt32 :=
  t.foldl (fun h c => (h ^^^ c.toLower.toNat.toUInt32) * 0x01000193) 0x811c9dc5

def pushRun (run : Text) : List UInt32 :=
  if minTokenLen ≤ run.length then [fastHash run] else []

/-- The scan of a query name; `run` holds the characters since `start`. -/
def queryTokensFrom : Text → Text → List UInt32
  | run, [] => pushRun run
  | run, c :: t =>
      if isTokenChar c then queryTokensFrom (run ++ [c]) t
      else pushRun run ++ queryTokensFrom [] t

def forEachQueryToken (name : Text) : List UInt32 := queryTokensFrom [] name

/-- `before` is the character preceding the current run, if there is one. -/
def patternTokensFrom : Option Char → Text → Text → List UInt32
  | _, _, [] => []
  | before, run, c :: t =>
      if isTokenChar c then patternTokensFrom before (run ++ [c]) t
      else
        (if before.any (· ≠ '*') ∧ c ≠ '*' then pushRun run else []) ++
          patternTokensFrom (some c) [] t

/-- Hashes of the runs that neither a `*` nor an end of the body touches. -/
def tokenizePatternSafe (body : Text) : List UInt32 :=
  ((patternTokensFrom none [] body).insertionSort (· ≤ ·)).dedup

example : tokenizePatternSafe "*.doubleclick.net".toList =
    [fastHash "doubleclick".toList] := by decide +kernel

/-! ## Runs -/

theorem isTokenChar_iff (c : Char) :
    isTokenChar c = true ↔
      (48 ≤ c.toNat ∧ c.toNat ≤ 57) ∨ (65 ≤ c.toNat ∧ c.toNat ≤ 90) ∨
        (97 ≤ c.toNat ∧ c.toNat ≤ 122) := by
  have hn : c.toNat = c.val.toNat := rfl
  have hclasses : isTokenChar c = (c.isUpper || c.isLower || c.isDigit) := rfl
  have hupper : c.isUpper = decide (c.val ≥ 'A'.val ∧ c.val ≤ 'Z'.val) := rfl
  have hlower : c.isLower = (decide (c.val ≥ 'a'.val) && decide (c.val ≤ 'z'.val)) := rfl
  have hdigit : c.isDigit = (decide (c.val ≥ '0'.val) && decide (c.val ≤ '9'.val)) := rfl
  rw [hclasses, hupper, hlower, hdigit]
  simp only [Bool.or_eq_true, Bool.and_eq_true, decide_eq_true_eq, ge_iff_le,
    UInt32.le_iff_toNat_le, hn]
  simp only [Char.reduceVal, UInt32.reduceToNat]
  tauto

@[simp] theorem isTokenChar_toLower (c : Char) :
    isTokenChar c.toLower = isTokenChar c := by
  rw [Bool.eq_iff_iff, isTokenChar_iff, isTokenChar_iff, toNat_toLower]
  split <;> omega

theorem fastHash_congr {t u : Text} (h : toAsciiLowercase t = toAsciiLowercase u) :
    fastHash t = fastHash u := by
  have key : ∀ t : Text, fastHash t =
      (toAsciiLowercase t).foldl
        (fun h c => (h ^^^ c.toNat.toUInt32) * 0x01000193) 0x811c9dc5 := by
    intro t
    rw [fastHash, toAsciiLowercase, List.foldl_map]
  rw [key, key, h]

/-! ## Items of a wildcard body -/

def bodyItem (c : Char) : GlobItem :=
  if c = '*' then .any else if c = '^' then .sep else .lit c

def wildcardItems (body : Text) (subdomainAnchor startAnchor endAnchor : Bool) :
    List GlobItem :=
  (if subdomainAnchor then [.label] else if startAnchor then [.start] else []) ++
    body.map bodyItem ++ (if endAnchor then [.stop] else [])

/--
What the index needs to know about the alphabet on ASCII names: letters and
digits equal only themselves up to case, and nothing else equals one of them.
-/
structure TokenSafe (A : Alphabet) : Prop where
  token : ∀ c d, isTokenChar c = true → isAsciiChar d = true →
    A.eqv c d = true → d.toLower = c.toLower
  other : ∀ c d, isAsciiChar c = true → isTokenChar c = false →
    isAsciiChar d = true → A.eqv c d = true → isTokenChar d = false
  sep : ∀ d, isAsciiChar d = true → A.isSep d = true → isTokenChar d = false

/-! ## Matches of a body -/

def Opens (A : Alphabet) (sub start : Bool) (before : Text) : Prop :=
  if sub then before = [] ∨ ∃ t d, before = t ++ [d] ∧ A.eqv '.' d = true
  else if start then before = [] else True

section

variable {A : Alphabet}

theorem isFree_bodyItem (c : Char) : Alphabet.isFree (bodyItem c) = true := by
  unfold bodyItem
  split_ifs <;> rfl

theorem matchItems_body {body t : Text} {stop atStart : Bool} :
    A.matchItems (body.map bodyItem ++ if stop then [.stop] else []) atStart t = true ↔
      ∃ m rest, t = m ++ rest ∧ (stop = true → rest = []) ∧
        A.Stands (body.map bodyItem) m rest := by
  rw [A.matchItems_free_iff (by simp [isFree_bodyItem])]
  cases stop <;> simp [Alphabet.matchItems, Alphabet.matchItem, and_comm]

theorem search_wildcardItems_iff {body name : Text} {sub start stop : Bool} :
    A.search (wildcardItems body sub start stop) name = true ↔
      ∃ before m rest, name = before ++ (m ++ rest) ∧ Opens A sub start before ∧
        (stop = true → rest = []) ∧ A.Stands (body.map bodyItem) m rest := by
  rw [A.search_iff]
  cases sub with
  | true =>
      have hitems : wildcardItems body true start stop =
          .label :: (body.map bodyItem ++ if stop then [.stop] else []) := rfl
      simp only [hitems, A.matchItems_label_iff, matchItems_body]
      constructor
      · rintro ⟨before, t, rfl, ⟨hstart, m, rest, rfl, h⟩ | ⟨d, t, rfl, hd, m, rest, rfl, h⟩⟩
        · exact ⟨before, m, rest, rfl, .inl (List.isEmpty_iff.mp hstart), h⟩
        · exact ⟨before ++ [d], m, rest, by simp, .inr ⟨before, d, rfl, hd⟩, h⟩
      · rintro ⟨before, m, rest, rfl, rfl | ⟨t, d, rfl, hd⟩, h⟩
        · exact ⟨[], m ++ rest, rfl, .inl ⟨rfl, m, rest, rfl, h⟩⟩
        · exact ⟨t, d :: (m ++ rest), by simp, .inr ⟨d, _, rfl, hd, m, rest, rfl, h⟩⟩
  | false =>
      cases start with
      | true =>
          have hitems : wildcardItems body false true stop =
              .start :: (body.map bodyItem ++ if stop then [.stop] else []) := rfl
          simp only [hitems, A.matchItems_start_iff, matchItems_body]
          constructor
          · rintro ⟨before, t, rfl, hstart, m, rest, rfl, h⟩
            exact ⟨before, m, rest, rfl, List.isEmpty_iff.mp hstart, h⟩
          · rintro ⟨before, m, rest, rfl, rfl, h⟩
            exact ⟨[], m ++ rest, rfl, rfl, m, rest, rfl, h⟩
      | false =>
          have hitems : wildcardItems body false false stop =
              body.map bodyItem ++ if stop then [.stop] else [] := rfl
          simp only [hitems, matchItems_body]
          constructor
          · rintro ⟨before, t, rfl, m, rest, rfl, h⟩
            exact ⟨before, m, rest, rfl, trivial, h⟩
          · rintro ⟨before, m, rest, rfl, -, h⟩
            exact ⟨before, m ++ rest, rfl, m, rest, rfl, h⟩

theorem stands_cons_iff {c : Char} {body m rest : Text} :
    A.Stands ((c :: body).map bodyItem) m rest ↔
      ∃ m₁ m₂, m = m₁ ++ m₂ ∧ A.Consumes (bodyItem c) m₁ (m₂ ++ rest) ∧
        A.Stands (body.map bodyItem) m₂ rest := by
  constructor
  · intro h
    cases h with
    | cons h hs => exact ⟨_, _, rfl, h, hs⟩
  · rintro ⟨m₁, m₂, rfl, h, hs⟩
    exact .cons h hs

end

/-! ## Tokens that no match can change -/

/--
The runs of a body that are whole tokens of every match: `exact` says that the run began
where it is matched, at an anchor or after a character other than `*`.
-/
def forcedTokensFrom (stop : Bool) : Bool → Text → Text → List UInt32
  | exact, run, [] => if exact && stop then pushRun run else []
  | exact, run, c :: body =>
      if isTokenChar c then forcedTokensFrom stop exact (run ++ [c]) body
      else (if exact && c ≠ '*' then pushRun run else []) ++
        forcedTokensFrom stop (c ≠ '*') [] body

def forcedTokens (body : Text) (anchored stop : Bool) : List UInt32 :=
  forcedTokensFrom stop anchored [] body

/-! ## Forced runs are tokens of every match -/

section

variable {tok : UInt32} {stop exact : Bool} {run body t : Text} {c : Char}

theorem queryTokensFrom_token (hc : isTokenChar c = true) :
    queryTokensFrom run (c :: t) = queryTokensFrom (run ++ [c]) t := by
  rw [queryTokensFrom, if_pos hc]

theorem mem_queryTokensFrom_other (hc : isTokenChar c = false) :
    tok ∈ queryTokensFrom run (c :: t) ↔ tok ∈ pushRun run ∨ tok ∈ queryTokensFrom [] t := by
  simp [queryTokensFrom, hc]

theorem forcedTokensFrom_token (hc : isTokenChar c = true) :
    forcedTokensFrom stop exact run (c :: body) =
      forcedTokensFrom stop exact (run ++ [c]) body := by
  rw [forcedTokensFrom, if_pos hc]

theorem mem_forcedTokensFrom_other (hc : isTokenChar c = false) (hstar : c ≠ '*') :
    tok ∈ forcedTokensFrom stop exact run (c :: body) ↔
      (exact = true ∧ tok ∈ pushRun run) ∨ tok ∈ forcedTokensFrom stop true [] body := by
  cases exact <;> simp [forcedTokensFrom, hc, hstar]

theorem mem_forcedTokensFrom_star :
    tok ∈ forcedTokensFrom stop exact run ('*' :: body) ↔
      tok ∈ forcedTokensFrom stop false [] body := by
  have hc : isTokenChar '*' = false := by decide
  simp [forcedTokensFrom, hc]

theorem mem_forcedTokensFrom_nil :
    tok ∈ forcedTokensFrom stop exact run [] ↔
      exact = true ∧ stop = true ∧ tok ∈ pushRun run := by
  cases exact <;> cases stop <;> simp [forcedTokensFrom]

theorem pushRun_congr {run' : Text} (h : toAsciiLowercase run' = toAsciiLowercase run) :
    pushRun run' = pushRun run := by
  have hlen : run'.length = run.length := by
    simpa [toAsciiLowercase] using congrArg List.length h
  rw [pushRun, pushRun, hlen, fastHash_congr h]

theorem queryTokensFrom_append (run before t : Text) :
    ∃ run', ∀ tok ∈ queryTokensFrom run' t, tok ∈ queryTokensFrom run (before ++ t) := by
  induction before generalizing run with
  | nil => exact ⟨run, fun _ h => h⟩
  | cons c before ih =>
      rw [List.cons_append, queryTokensFrom]
      split
      · exact ih _
      · obtain ⟨run', h⟩ := ih []
        exact ⟨run', fun tok htok => List.mem_append_right _ (h tok htok)⟩

end

/--
What the characters of a body, each folded to one, have to do with those of ASCII names:
they are in tokens together, as the same letters, and separators and dots are in none.
-/
structure FoldedBy (A : Alphabet) (fold : Char → Char) (body : Text) : Prop where
  star : ∀ c, fold c = '*' ↔ c = '*'
  caret : isTokenChar (fold '^') = false
  token : ∀ c ∈ body, ∀ d, isAsciiChar d = true → A.eqv c d = true →
    isTokenChar (fold c) = isTokenChar d
  lower : ∀ c ∈ body, ∀ d, isAsciiChar d = true → A.eqv c d = true → isTokenChar d = true →
    (fold c).toLower = d.toLower
  sep : ∀ d, isAsciiChar d = true → A.isSep d = true → isTokenChar d = false
  dot : ∀ d, isAsciiChar d = true → A.eqv '.' d = true → isTokenChar d = false

section

variable {A : Alphabet} {fold : Char → Char} {tok : UInt32}

theorem FoldedBy.tail {c : Char} {body : Text} (h : FoldedBy A fold (c :: body)) :
    FoldedBy A fold body :=
  { h with
    token := fun c hc => h.token c (List.mem_cons_of_mem _ hc)
    lower := fun c hc => h.lower c (List.mem_cons_of_mem _ hc) }

theorem mem_of_forced {stop exact : Bool} {body m rest run run' : Text}
    (hA : FoldedBy A fold body) (hs : A.Stands (body.map bodyItem) m rest)
    (hm : isAscii m = true) (hstop : stop = true → rest = [])
    (hrun : exact = true → toAsciiLowercase run' = toAsciiLowercase run)
    (h : tok ∈ forcedTokensFrom stop exact run (body.map fold)) :
    tok ∈ queryTokensFrom run' (m ++ rest) := by
  induction body generalizing m run run' exact with
  | nil =>
      cases hs
      obtain ⟨hexact, hend, h⟩ := mem_forcedTokensFrom_nil.mp h
      rw [hstop hend, List.nil_append, queryTokensFrom, pushRun_congr (hrun hexact)]
      exact h
  | cons c body ih =>
      obtain ⟨m₁, m₂, rfl, hc, hs'⟩ := stands_cons_iff.mp hs
      simp only [isAscii, List.all_append, Bool.and_eq_true] at hm
      rw [List.map_cons] at h
      rw [List.append_assoc]
      by_cases hstar : c = '*'
      · -- Whatever the star stands for, no run that touches it is forced.
        rw [(hA.star c).mpr hstar, mem_forcedTokensFrom_star] at h
        obtain ⟨run'', hsub⟩ := queryTokensFrom_append run' m₁ (m₂ ++ rest)
        exact hsub tok (ih hA.tail hs' hm.2 (by simp) h)
      have hfold : fold c ≠ '*' := fun heq => hstar ((hA.star c).mp heq)
      -- A character that is in no token ends the run on both sides.
      have hother : ∀ {d}, isTokenChar (fold c) = false → isTokenChar d = false →
          tok ∈ queryTokensFrom run' (d :: (m₂ ++ rest)) := by
        intro d hcT hdT
        rw [mem_forcedTokensFrom_other hcT hfold] at h
        rw [mem_queryTokensFrom_other hdT]
        exact h.imp (fun h => by rw [pushRun_congr (hrun h.1)]; exact h.2)
          fun h => ih hA.tail hs' hm.2 (fun _ => rfl) h
      by_cases hcaret : c = '^'
      · subst hcaret
        rcases hc with ⟨d, rfl, hd⟩ | ⟨rfl, hnil⟩
        · exact hother hA.caret (hA.sep d (by simpa using hm.1) hd)
        · -- The separator is the end of the name: nothing follows.
          rw [mem_forcedTokensFrom_other hA.caret hfold] at h
          rw [List.nil_append, hnil]
          rcases h with h | h
          · rw [queryTokensFrom, pushRun_congr (hrun h.1)]
            exact h.2
          · have hempty := ih hA.tail hs' hm.2 (fun _ => rfl) h
            rw [hnil] at hempty
            cases hempty
      · rw [bodyItem, if_neg hstar, if_neg hcaret] at hc
        obtain ⟨d, rfl, hd⟩ := hc
        have hascii : isAsciiChar d = true := by simpa using hm.1
        have htoken := hA.token c List.mem_cons_self d hascii hd
        cases hdT : isTokenChar d with
        | true =>
            have hlower := hA.lower c List.mem_cons_self d hascii hd hdT
            rw [forcedTokensFrom_token (htoken.trans hdT)] at h
            rw [List.singleton_append, queryTokensFrom_token hdT]
            refine ih hA.tail hs' hm.2 (fun hexact => ?_) h
            rw [toAsciiLowercase_append, toAsciiLowercase_append, hrun hexact]
            simp [toAsciiLowercase, hlower]
        | false => exact hother (htoken.trans hdT) hdT

theorem mem_of_search {body name : Text} {sub start stop : Bool} (hA : FoldedBy A fold body)
    (hname : isAscii name = true)
    (h : A.search (wildcardItems body sub start stop) name = true)
    (htok : tok ∈ forcedTokens (body.map fold) (sub || start) stop) :
    tok ∈ forEachQueryToken name := by
  rw [search_wildcardItems_iff] at h
  obtain ⟨before, m, rest, rfl, hopen, hstop, hs⟩ := h
  simp only [isAscii, List.all_append, Bool.and_eq_true] at hname
  obtain ⟨hbefore, hm, -⟩ := hname
  -- At an anchor the scan is between two runs.
  have hfresh : (sub || start) = true → ∀ {t : Text}, tok ∈ queryTokensFrom [] t →
      tok ∈ queryTokensFrom [] (before ++ t) := by
    intro hanchor t ht
    cases sub with
    | false =>
        rw [Bool.false_or] at hanchor
        subst hanchor
        rw [show before = [] from hopen]
        exact ht
    | true =>
        rcases hopen with rfl | ⟨front, d, rfl, hd⟩
        · exact ht
        · simp only [List.all_append, List.all_cons, Bool.and_eq_true] at hbefore
          have hdot := hA.dot d hbefore.2.1 hd
          obtain ⟨run, hsub⟩ := queryTokensFrom_append [] front (d :: t)
          simpa using hsub tok ((mem_queryTokensFrom_other hdot).mpr (.inr ht))
  unfold forcedTokens at htok
  unfold forEachQueryToken
  cases hanchor : sub || start with
  | true =>
      rw [hanchor] at htok
      exact hfresh hanchor (mem_of_forced hA hs hm hstop (fun _ => rfl) htok)
  | false =>
      rw [hanchor] at htok
      obtain ⟨run, hsub⟩ := queryTokensFrom_append [] before (m ++ rest)
      exact hsub tok (mem_of_forced hA hs hm hstop (by simp) htok)

end

/-! ## Interior tokens -/

/-- A run with a neighbour on both sides, neither of them a star, is forced. -/
theorem patternTokensFrom_forced {before : Option Char} {stop exact : Bool} {run t : Text}
    (hbefore : before.any (· ≠ '*') = true → exact = true) {tok : UInt32}
    (h : tok ∈ patternTokensFrom before run t) : tok ∈ forcedTokensFrom stop exact run t := by
  induction t generalizing before exact run with
  | nil => cases h
  | cons c t ih =>
      cases hc : isTokenChar c with
      | true =>
          rw [patternTokensFrom, if_pos hc] at h
          rw [forcedTokensFrom_token hc]
          exact ih hbefore h
      | false =>
          rw [patternTokensFrom, if_neg (by simp [hc]), List.mem_append] at h
          by_cases hstar : c = '*'
          · subst hstar
            rw [mem_forcedTokensFrom_star]
            refine ih ?_ (h.resolve_left (by simp))
            simp
          · rw [mem_forcedTokensFrom_other hc hstar]
            refine h.imp (fun h => ?_) (ih fun _ => rfl)
            split at h
            · rename_i hside
              exact ⟨hbefore hside.1, h⟩
            · cases h

theorem tokenizePatternSafe_forced {body : Text} (anchored stop : Bool) {tok : UInt32}
    (h : tok ∈ tokenizePatternSafe body) : tok ∈ forcedTokens body anchored stop := by
  rw [tokenizePatternSafe, List.mem_dedup, List.mem_insertionSort] at h
  exact patternTokensFrom_forced (by simp) h

theorem TokenSafe.foldedBy {A : Alphabet} (hA : TokenSafe A) {body : Text}
    (hbody : isAscii body = true) : FoldedBy A Char.toLower body where
  star _ := toLower_eq_iff (by decide)
  caret := by decide
  token c hc d hd h := by
    have hascii := List.all_eq_true.mp hbody c hc
    rw [isTokenChar_toLower]
    cases hcT : isTokenChar c with
    | true => rw [← isTokenChar_toLower, hA.token c d hcT hd h, isTokenChar_toLower, hcT]
    | false => exact (hA.other c d hascii hcT hd h).symm
  lower c hc d hd h hdT := by
    have hascii := List.all_eq_true.mp hbody c hc
    rw [toLower_toLower]
    cases hcT : isTokenChar c with
    | true => exact (hA.token c d hcT hd h).symm
    | false =>
        rw [hA.other c d hascii hcT hd h] at hdT
        cases hdT
  sep := hA.sep
  dot d hd h := hA.other '.' d (by decide) (by decide) hd h

/--
The reverse index loses nothing: every token filed for an ASCII wildcard body
is a token of every ASCII name its items match.
-/
theorem tokenizePatternSafe_subset {A : Alphabet} (hA : TokenSafe A)
    {body name : Text} {sub start stop : Bool}
    (hbody : isAscii body = true) (hname : isAscii name = true)
    (h : A.search (wildcardItems body sub start stop) name = true)
    {tok : UInt32} (htok : tok ∈ tokenizePatternSafe (toAsciiLowercase body)) :
    tok ∈ forEachQueryToken name :=
  mem_of_search (hA.foldedBy hbody) hname h (tokenizePatternSafe_forced _ _ htok)

end Bulwark.Filter
