import Bulwark.Filter.Token

/-!
# The regular-expression engine

Regexes are compiled and run by a library outside the repository, which is a
parameter here.  `RegexEngine` lists the calls the filter makes and what it
relies on: a set reports exactly the patterns that match on their own, the
sources generated for wildcards, a flat fragment of the syntax, have their
documented meaning, and case folding does not tell the ASCII letters of one pair
apart.
-/

namespace Bulwark.Filter

open Bulwark.Foundation

/-! ## Sources generated for wildcards -/

def regexSpecials : Text := "\\.+?()[]\x7b\x7d|$".toList

def separatorSource : Text := "(?:[^a-z0-9._-]|$)".toList

def wildcardChar (c : Char) : Text :=
  if c = '*' then ".*".toList
  else if c = '^' then separatorSource
  else if contains c regexSpecials then ['\\', c]
  else [c]

/-- The string `build_wildcard_regex` assembles. -/
def wildcardSource (body : Text) (subdomainAnchor startAnchor endAnchor : Bool) :
    Text :=
  "(?i)".toList ++
    (if subdomainAnchor then "(?:^|\\.)".toList
      else if startAnchor then ['^'] else []) ++
    body.flatMap wildcardChar ++ (if endAnchor then ['$'] else [])

example : wildcardSource "ads.*".toList true false true =
    "(?i)(?:^|\\.)ads\\..*$".toList := by decide +kernel

/-! ## The engine as a parameter -/

/-- Members of the class `[a-z0-9._-]`. -/
def hostClass : Text := "abcdefghijklmnopqrstuvwxyz0123456789._-".toList

/-- Case-insensitive matching over a case-folding equality. -/
def foldAlphabet (foldEq : Char → Char → Bool) : Alphabet where
  eqv := foldEq
  isSep d := !hostClass.any (foldEq · d)

/--
`build source limit` fails with a message when the source is malformed or its
program exceeds the size limit; `setBuild` is the same for a set.  `foldEq` is
equality under simple case folding.
-/
structure RegexEngine where
  build : Text → Nat → Except Text Unit
  isMatch : Text → Text → Bool
  setBuild : List Text → Nat → Bool
  setMatches : List Text → Text → List Nat
  foldEq : Char → Char → Bool
  mem_setMatches : ∀ patterns name i, i ∈ setMatches patterns name ↔
    ∃ p, patterns[i]? = some p ∧ isMatch p name = true
  foldEq_ascii : ∀ c d, isAsciiChar c = true → isAsciiChar d = true →
    foldEq c d = (c.toLower == d.toLower)
  foldEq_toLower : ∀ c d, foldEq c.toLower d = foldEq c d
  isMatch_wildcard : ∀ body sub start stop name,
    isMatch (wildcardSource body sub start stop) name =
      (foldAlphabet foldEq).search (wildcardItems body sub start stop) name

theorem isAsciiChar_of_token {c : Char} (h : isTokenChar c = true) :
    isAsciiChar c = true := by
  rw [isTokenChar_iff] at h
  simp only [isAsciiChar, decide_eq_true_eq]
  omega

private theorem mem_hostClass_of_token {c : Char} (h : isTokenChar c = true) :
    c.toLower ∈ hostClass := by
  have hn := (isTokenChar_iff c).mp h
  have hlow : c.toLower = Char.ofNat c.toLower.toNat := (Char.ofNat_toNat _).symm
  have hrange : (48 ≤ c.toLower.toNat ∧ c.toLower.toNat ≤ 57) ∨
      (97 ≤ c.toLower.toNat ∧ c.toLower.toNat ≤ 122) := by
    rw [toNat_toLower]
    split <;> omega
  have hall : ∀ n ∈ List.range 123, (48 ≤ n ∧ n ≤ 57) ∨ (97 ≤ n ∧ n ≤ 122) →
      Char.ofNat n ∈ hostClass := by decide +kernel
  rw [hlow]
  exact hall _ (List.mem_range.mpr (by omega)) hrange

theorem RegexEngine.tokenSafe (rx : RegexEngine) :
    TokenSafe (foldAlphabet rx.foldEq) where
  token c d hc hd h := by
    change rx.foldEq c d = true at h
    rw [rx.foldEq_ascii c d (isAsciiChar_of_token hc) hd, beq_iff_eq] at h
    exact h.symm
  other c d hca hc hd h := by
    change rx.foldEq c d = true at h
    rw [rx.foldEq_ascii c d hca hd, beq_iff_eq] at h
    rw [← isTokenChar_toLower, ← h, isTokenChar_toLower]
    exact hc
  sep d hd h := by
    by_contra htok
    have htok : isTokenChar d = true := by simpa using htok
    have hmem := mem_hostClass_of_token htok
    have hfold : rx.foldEq d.toLower d = true := by
      rw [rx.foldEq_ascii _ _ (by rw [isAsciiChar_toLower]; exact hd) hd]
      simp
    have hany : hostClass.any (rx.foldEq · d) = true :=
      List.any_eq_true.mpr ⟨d.toLower, hmem, hfold⟩
    simp [foldAlphabet, hany] at h

theorem RegexEngine.isMatch_wildcard_lower (rx : RegexEngine) {body body' : Text}
    (h : toAsciiLowercase body = toAsciiLowercase body') (sub start stop : Bool)
    (name : Text) :
    rx.isMatch (wildcardSource body sub start stop) name =
      rx.isMatch (wildcardSource body' sub start stop) name := by
  have hitem : ∀ c, bodyItem c.toLower = Alphabet.mapLit Char.toLower (bodyItem c) := by
    intro c
    have hstar : isCaseless '*' = true := by decide
    have hcaret : isCaseless '^' = true := by decide
    simp only [bodyItem, toLower_eq_iff hstar, toLower_eq_iff hcaret]
    split
    · rfl
    split
    · rfl
    · rfl
  have hlower : ∀ body : Text,
      (foldAlphabet rx.foldEq).search
          (wildcardItems (toAsciiLowercase body) sub start stop) name =
        (foldAlphabet rx.foldEq).search (wildcardItems body sub start stop) name := by
    intro body
    rw [← (foldAlphabet rx.foldEq).search_mapLit rx.foldEq_toLower
      (wildcardItems body sub start stop)]
    congr 1
    simp only [wildcardItems, toAsciiLowercase, List.map_append, List.map_map]
    congr 1
    · congr 1
      · split
        · rfl
        · split <;> rfl
      · apply List.map_congr_left
        intro c _
        exact hitem c
    · split <;> rfl
  rw [rx.isMatch_wildcard, rx.isMatch_wildcard, ← hlower body, ← hlower body', h]

/-! ## A reference engine

An engine that reads the generated sources back into items.  It witnesses that
the contract above can be met.
-/

def decodeItem : Text → Option (GlobItem × Text)
  | [] => none
  | c :: t =>
      if c = '(' then
        match "?:^|\\.)".toList.isPrefixOf? t with
        | some rest => some (.label, rest)
        | none => ((separatorSource.drop 1).isPrefixOf? t).map fun rest => (.sep, rest)
      else if c = '.' then some (.any, t.drop 1)
      else if c = '^' then some (.start, t)
      else if c = '$' then some (.stop, t)
      else if c = '\\' then t.head?.map fun d => (.lit d, t.drop 1)
      else some (.lit c, t)

def decodeItems : Nat → Text → List GlobItem
  | 0, _ => []
  | fuel + 1, t =>
      match decodeItem t with
      | none => []
      | some (item, rest) => item :: decodeItems fuel rest

private theorem decodeItem_wildcardChar (c : Char) (rest : Text) :
    decodeItem (wildcardChar c ++ rest) = some (bodyItem c, rest) := by
  unfold wildcardChar bodyItem
  split
  · rfl
  split
  · rfl
  split
  · rfl
  · rename_i hstar hcaret hspecial
    have hne : ∀ d ∈ regexSpecials, ¬ c = d := by
      rintro d hd rfl
      exact hspecial (List.any_eq_true.mpr ⟨c, hd, beq_self_eq_true c⟩)
    rw [List.singleton_append, decodeItem, if_neg (hne '(' (by decide)),
      if_neg (hne '.' (by decide)), if_neg hcaret, if_neg (hne '$' (by decide)),
      if_neg (hne '\\' (by decide))]

private theorem decodeItems_body (body rest : Text) (fuel : Nat) :
    decodeItems (body.length + fuel) (body.flatMap wildcardChar ++ rest) =
      body.map bodyItem ++ decodeItems fuel rest := by
  induction body with
  | nil => simp
  | cons c body ih =>
      rw [List.flatMap_cons, List.append_assoc, List.length_cons,
        show body.length + 1 + fuel = (body.length + fuel) + 1 by omega,
        decodeItems, decodeItem_wildcardChar]
      simp [ih]

private theorem decodeItems_stop (stop : Bool) (fuel : Nat) :
    decodeItems (fuel + 1) (if stop then ['$'] else []) =
      if stop then [.stop] else [] := by
  cases stop <;> cases fuel <;> rfl

private theorem length_flatMap_wildcardChar (body : Text) :
    body.length ≤ (body.flatMap wildcardChar).length := by
  induction body with
  | nil => simp
  | cons c body ih =>
      have hc : 1 ≤ (wildcardChar c).length := by
        unfold wildcardChar
        split_ifs <;> exact Nat.le_add_left 1 _
      simp only [List.flatMap_cons, List.length_append, List.length_cons]
      omega

/-- The items of a generated source, without its leading `(?i)`. -/
def sourceItems (source : Text) : List GlobItem :=
  decodeItems (source.length + 1) (source.drop 4)

private theorem decodeItems_bodyStop (body : Text) (stop : Bool) {fuel : Nat}
    (hfuel : body.length + 1 ≤ fuel) :
    decodeItems fuel (body.flatMap wildcardChar ++ if stop then ['$'] else []) =
      body.map bodyItem ++ if stop then [.stop] else [] := by
  obtain ⟨extra, rfl⟩ := Nat.exists_eq_add_of_le hfuel
  rw [show body.length + 1 + extra = body.length + (extra + 1) by omega,
    decodeItems_body, decodeItems_stop]

theorem sourceItems_wildcardSource (body : Text) (sub start stop : Bool) :
    sourceItems (wildcardSource body sub start stop) =
      wildcardItems body sub start stop := by
  have hlen := length_flatMap_wildcardChar body
  simp only [sourceItems, wildcardSource, wildcardItems, List.append_assoc,
    List.length_append]
  rw [show ∀ t : Text, ("(?i)".toList ++ t).drop 4 = t from fun _ => rfl,
    show "(?i)".toList.length = 4 from rfl]
  generalize hstop : (if stop then ['$'] else []) = tail
  -- The anchor, when there is one, takes one unit of fuel.
  have hanchor : ∀ (item : GlobItem) (source : Text) (fuel : Nat),
      (∀ t, decodeItem (source ++ t) = some (item, t)) →
      body.length + 1 ≤ fuel →
      decodeItems (fuel + 1) (source ++ (body.flatMap wildcardChar ++ tail)) =
        item :: (body.map bodyItem ++ if stop then [.stop] else []) := by
    intro item source fuel hitem hfuel
    rw [decodeItems, hitem, ← hstop]
    simp only [decodeItems_bodyStop body stop hfuel]
  cases sub with
  | true => exact hanchor .label _ _ (fun _ => rfl) (by omega)
  | false =>
      cases start with
      | true => exact hanchor .start ['^'] _ (fun _ => rfl) (by omega)
      | false =>
          rw [← hstop]
          exact decodeItems_bodyStop body stop (by omega)

def asciiFoldEq (c d : Char) : Bool := c.toLower == d.toLower

def referenceIsMatch (source name : Text) : Bool :=
  (foldAlphabet asciiFoldEq).search (sourceItems source) name

def referenceSetMatches (patterns : List Text) (name : Text) : List Nat :=
  (List.range patterns.length).filter fun i =>
    (patterns[i]?).any (referenceIsMatch · name)

theorem mem_matching {isMatch : Text → Text → Bool} {patterns : List Text} {name : Text} {i : Nat} :
    i ∈ (List.range patterns.length).filter (fun i => (patterns[i]?).any (isMatch · name)) ↔
      ∃ p, patterns[i]? = some p ∧ isMatch p name = true := by
  simp only [List.mem_filter, List.mem_range, Option.any_eq_true_iff_get]
  constructor
  · rintro ⟨hi, hsome, hm⟩
    exact ⟨_, (Option.some_get hsome).symm, hm⟩
  · rintro ⟨p, hp, hm⟩
    refine ⟨(List.getElem?_eq_some_iff.mp hp).1, by simp [hp], ?_⟩
    simpa [hp] using hm

/-- Accepts every source; exact on the sources generated for wildcards. -/
def referenceEngine : RegexEngine where
  build _ _ := .ok ()
  isMatch := referenceIsMatch
  setBuild _ _ := true
  setMatches := referenceSetMatches
  foldEq := asciiFoldEq
  mem_setMatches _ _ _ := mem_matching
  foldEq_ascii _ _ _ _ := rfl
  foldEq_toLower c d := by simp [asciiFoldEq]
  isMatch_wildcard body sub start stop name := by
    rw [referenceIsMatch, sourceItems_wildcardSource]

end Bulwark.Filter
