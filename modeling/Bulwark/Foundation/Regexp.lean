import Bulwark.Foundation.Text

/-!
# Regular expressions

Syntax and meaning of the common part of regular-expression dialects: characters,
classes, `.`, the repetitions `*`, `+` and `?`, alternatives, groups, the anchors `^` and
`$` of the whole text, and `(?i)` in front.  Other texts are not read.  Case is folded for
ASCII letters.
-/

namespace Bulwark.Foundation

/-- Ranges of characters, or everything outside of them. -/
structure CharClass where
  negated : Bool
  ranges : List (Char × Char)
  deriving DecidableEq, Repr

namespace CharClass

def single (c : Char) : CharClass := ⟨false, [(c, c)]⟩

/-- `.` -/
def dot : CharClass := ⟨true, [('\n', '\n')]⟩

def covers (cls : CharClass) (d : Char) : Bool :=
  cls.ranges.any fun range => range.1 ≤ d && d ≤ range.2

theorem covers_iff {cls : CharClass} {d : Char} :
    cls.covers d = true ↔ ∃ range ∈ cls.ranges, range.1.toNat ≤ d.toNat ∧
      d.toNat ≤ range.2.toNat := by
  unfold covers
  rw [List.any_eq_true]
  simp only [Bool.and_eq_true, decide_eq_true_eq]
  rfl

/-- Folding comes before negation. -/
def mem (fold : Bool) (cls : CharClass) (d : Char) : Bool :=
  (cls.covers d || (fold && (cls.covers d.toLower || cls.covers d.toUpper))) != cls.negated

theorem mem_iff {fold : Bool} {cls : CharClass} {d : Char} :
    cls.mem fold d = true ↔ (cls.negated = false ↔ (cls.covers d = true ∨
      fold = true ∧ (cls.covers d.toLower = true ∨ cls.covers d.toUpper = true))) := by
  unfold mem
  cases cls.negated <;> cases fold <;> simp

end CharClass

inductive Regexp where
  | empty
  | set (cls : CharClass)
  | bol
  | eol
  | seq (r s : Regexp)
  | alt (r s : Regexp)
  | star (r : Regexp)
  deriving DecidableEq, Repr

namespace Regexp

/-! ## Meaning -/

/-- `Matches fold r before m after`: in `before ++ m ++ after` the part `m` matches. -/
inductive Matches (fold : Bool) : Regexp → Text → Text → Text → Prop where
  | empty {before after : Text} : Matches fold .empty before [] after
  | set {cls : CharClass} {d : Char} {before after : Text} (h : cls.mem fold d = true) :
      Matches fold (.set cls) before [d] after
  | bol {after : Text} : Matches fold .bol [] [] after
  | eol {before : Text} : Matches fold .eol before [] []
  | seq {r s : Regexp} {before m m' after : Text} (hr : Matches fold r before m (m' ++ after))
      (hs : Matches fold s (before ++ m) m' after) :
      Matches fold (.seq r s) before (m ++ m') after
  | left {r s : Regexp} {before m after : Text} (h : Matches fold r before m after) :
      Matches fold (.alt r s) before m after
  | right {r s : Regexp} {before m after : Text} (h : Matches fold s before m after) :
      Matches fold (.alt r s) before m after
  | stop {r : Regexp} {before after : Text} : Matches fold (.star r) before [] after
  | more {r : Regexp} {before m m' after : Text} (hr : Matches fold r before m (m' ++ after))
      (hs : Matches fold (.star r) (before ++ m) m' after) :
      Matches fold (.star r) before (m ++ m') after

/-- Some part of the text matches. -/
def Finds (fold : Bool) (r : Regexp) (t : Text) : Prop :=
  ∃ before m after, t = before ++ m ++ after ∧ Matches fold r before m after

variable {fold : Bool} {before m after : Text}

@[simp] theorem matches_empty : Matches fold .empty before m after ↔ m = [] := by
  constructor
  · intro h
    cases h
    rfl
  · rintro rfl
    exact .empty

@[simp] theorem matches_set {cls : CharClass} :
    Matches fold (.set cls) before m after ↔ ∃ d, m = [d] ∧ cls.mem fold d = true := by
  constructor
  · intro h
    cases h with
    | set h => exact ⟨_, rfl, h⟩
  · rintro ⟨d, rfl, h⟩
    exact .set h

@[simp] theorem matches_bol : Matches fold .bol before m after ↔ before = [] ∧ m = [] := by
  constructor
  · intro h
    cases h
    exact ⟨rfl, rfl⟩
  · rintro ⟨rfl, rfl⟩
    exact .bol

@[simp] theorem matches_eol : Matches fold .eol before m after ↔ m = [] ∧ after = [] := by
  constructor
  · intro h
    cases h
    exact ⟨rfl, rfl⟩
  · rintro ⟨rfl, rfl⟩
    exact .eol

theorem matches_seq {r s : Regexp} :
    Matches fold (.seq r s) before m after ↔ ∃ m₁ m₂, m = m₁ ++ m₂ ∧
      Matches fold r before m₁ (m₂ ++ after) ∧ Matches fold s (before ++ m₁) m₂ after := by
  constructor
  · intro h
    cases h with
    | seq hr hs => exact ⟨_, _, rfl, hr, hs⟩
  · rintro ⟨m₁, m₂, rfl, hr, hs⟩
    exact .seq hr hs

@[simp] theorem matches_alt {r s : Regexp} :
    Matches fold (.alt r s) before m after ↔
      Matches fold r before m after ∨ Matches fold s before m after := by
  constructor
  · intro h
    cases h with
    | left h => exact .inl h
    | right h => exact .inr h
  · rintro (h | h)
    · exact .left h
    · exact .right h

@[simp] theorem matches_star_set {cls : CharClass} :
    Matches fold (.star (.set cls)) before m after ↔ ∀ d ∈ m, cls.mem fold d = true := by
  constructor
  · intro h
    generalize hr : Regexp.star (.set cls) = r at h
    induction h with
    | stop => simp
    | more hone _ _ ih =>
        cases hr
        obtain ⟨d, rfl, hd⟩ := matches_set.mp hone
        intro d' hd'
        rcases List.mem_append.mp hd' with hhere | hlater
        · rwa [List.mem_singleton.mp hhere]
        · exact ih rfl d' hlater
    | _ => cases hr
  · intro h
    induction m generalizing before with
    | nil => exact .stop
    | cons d m ih =>
        have hone : Matches fold (.set cls) before [d] (m ++ after) :=
          .set (h d List.mem_cons_self)
        have hrest : Matches fold (.star (.set cls)) (before ++ [d]) m after :=
          ih fun d' hd' => h d' (List.mem_cons_of_mem _ hd')
        exact .more hone hrest

def seqAll (rs : List Regexp) : Regexp := rs.foldr .seq .empty

theorem matches_seqAll_cons {r : Regexp} {rs : List Regexp} :
    Matches fold (seqAll (r :: rs)) before m after ↔ ∃ m₁ m₂, m = m₁ ++ m₂ ∧
      Matches fold r before m₁ (m₂ ++ after) ∧
      Matches fold (seqAll rs) (before ++ m₁) m₂ after :=
  matches_seq

@[simp] theorem matches_seqAll_nil : Matches fold (seqAll []) before m after ↔ m = [] :=
  matches_empty

@[simp] theorem matches_seqAll_singleton {r : Regexp} :
    Matches fold (seqAll [r]) before m after ↔ Matches fold r before m after := by
  rw [matches_seqAll_cons]
  constructor
  · rintro ⟨m₁, m₂, rfl, hr, hempty⟩
    obtain rfl := matches_empty.mp hempty
    rwa [List.append_nil]
  · exact fun h => ⟨m, [], by simp, h, .empty⟩

theorem matches_seqAll_append {rs ss : List Regexp} :
    Matches fold (seqAll (rs ++ ss)) before m after ↔ ∃ m₁ m₂, m = m₁ ++ m₂ ∧
      Matches fold (seqAll rs) before m₁ (m₂ ++ after) ∧
      Matches fold (seqAll ss) (before ++ m₁) m₂ after := by
  induction rs generalizing before m with
  | nil =>
      constructor
      · exact fun h => ⟨[], m, rfl, .empty, by rwa [List.append_nil]⟩
      · rintro ⟨m₁, m₂, rfl, hempty, h⟩
        obtain rfl := matches_empty.mp hempty
        rwa [List.append_nil] at h
  | cons r rs ih =>
      rw [List.cons_append, matches_seqAll_cons]
      constructor
      · rintro ⟨m₁, m₂, rfl, hr, hrest⟩
        obtain ⟨m₃, m₄, rfl, hrs, hss⟩ := ih.mp hrest
        refine ⟨m₁ ++ m₃, m₄, by simp, ?_, by simpa using hss⟩
        exact matches_seqAll_cons.mpr ⟨m₁, m₃, rfl, by simpa using hr, hrs⟩
      · rintro ⟨m₁, m₂, rfl, hboth, hss⟩
        obtain ⟨m₃, m₄, rfl, hr, hrs⟩ := matches_seqAll_cons.mp hboth
        refine ⟨m₃, m₄ ++ m₂, by simp, by simpa using hr, ?_⟩
        exact ih.mpr ⟨m₄, m₂, rfl, hrs, by simpa using hss⟩

/-! ## Tokens -/

inductive Token where
  | set (cls : CharClass)
  | bol
  | eol
  | star
  | plus
  | quest
  | bar
  | group
  | close
  deriving DecidableEq, Repr

/-- Characters that a backslash turns into themselves. -/
def metaChars : Text := "\\.+*?()|[]\x7b\x7d^$#&-~".toList

/-- What one character says outside of a class. -/
def symbol (c : Char) : Option Token :=
  if c = '.' then some (.set .dot)
  else if c = '^' then some .bol
  else if c = '$' then some .eol
  else if c = '*' then some .star
  else if c = '+' then some .plus
  else if c = '?' then some .quest
  else if c = '|' then some .bar
  else if c = ')' then some .close
  else if contains c "\\([]\x7b\x7d".toList then none
  else some (.set (.single c))

/-- A class that is being read: what is complete, and a character that may begin a range. -/
structure OpenClass where
  negated : Bool
  ranges : List (Char × Char)
  pending : Option Char
  dash : Bool

namespace OpenClass

def start (negated : Bool) : OpenClass := ⟨negated, [], none, false⟩

def flush (cls : OpenClass) : List (Char × Char) :=
  cls.ranges ++ (cls.pending.map fun c => (c, c)).toList ++ if cls.dash then [('-', '-')] else []

def finish (cls : OpenClass) : CharClass := ⟨cls.negated, cls.flush⟩

def add (cls : OpenClass) (c : Char) : OpenClass :=
  match cls.pending with
  | some lo =>
      if cls.dash then
        { cls with ranges := cls.ranges ++ [(lo, c)], pending := none, dash := false }
      else if c = '-' then { cls with dash := true }
      else { cls with ranges := cls.flush, pending := some c }
  | none => { cls with pending := some c }

end OpenClass

/-- Outside of a class, or inside the one that is being read. -/
def lex : Option OpenClass → Text → Option (List Token)
  | none, [] => some []
  | some _, [] => none
  | some cls, c :: t =>
      if c = ']' then
        if cls.flush = [] then none else (lex none t).map (.set cls.finish :: ·)
      else if contains c "[\\&~^".toList then none
      else lex (some (cls.add c)) t
  | none, c :: t =>
      if c = '\\' then
        match t with
        | [] => none
        | d :: t => if contains d metaChars then (lex none t).map (.set (.single d) :: ·) else none
      else if c = '(' then
        match t with
        | '?' :: ':' :: t => (lex none t).map (.group :: ·)
        | '?' :: _ => none
        | t => (lex none t).map (.group :: ·)
      else if c = '[' then
        match t with
        | '^' :: t => lex (some (.start true)) t
        | t => lex (some (.start false)) t
      else (symbol c).bind fun token => (lex none t).map (token :: ·)

section

variable {c d : Char} {t : Text} {cls : OpenClass}

theorem lex_symbol (hescape : c ≠ '\\') (hgroup : c ≠ '(') (hclass : c ≠ '[') :
    lex none (c :: t) = (symbol c).bind fun token => (lex none t).map (token :: ·) := by
  conv_lhs => unfold lex
  rw [if_neg hescape, if_neg hgroup, if_neg hclass]

theorem lex_escape (h : contains d metaChars = true) :
    lex none ('\\' :: d :: t) = (lex none t).map (.set (.single d) :: ·) := by
  rw [lex, if_pos rfl]
  exact if_pos h

theorem lex_group : lex none ('(' :: '?' :: ':' :: t) = (lex none t).map (.group :: ·) := by
  rw [lex, if_neg (by decide), if_pos rfl]
  rfl

theorem lex_negated : lex none ('[' :: '^' :: t) = lex (some (.start true)) t := by
  rw [lex, if_neg (by decide), if_neg (by decide), if_pos rfl]
  rfl

theorem lex_classClose (h : cls.flush ≠ []) :
    lex (some cls) (']' :: t) = (lex none t).map (.set cls.finish :: ·) := by
  rw [lex, if_pos rfl, if_neg h]

theorem lex_classChar (hclose : c ≠ ']') (h : contains c "[\\&~^".toList = false) :
    lex (some cls) (c :: t) = lex (some (cls.add c)) t := by
  rw [lex, if_neg hclose, h, if_neg Bool.false_ne_true]

end

/-! ## Parsing -/

/-- Inside a group: the alternatives before the current one, and its parts so far, the last
first. -/
structure Level where
  alts : List Regexp
  parts : List Regexp

namespace Level

def push (l : Level) (r : Regexp) : Level := { l with parts := r :: l.parts }

def branch (l : Level) : Regexp := seqAll l.parts.reverse

def regexp (l : Level) : Regexp := l.alts.foldl (fun r a => .alt a r) l.branch

end Level

/-- A repetition applies to the last part. -/
def repeated (l : Level) (f : Regexp → Regexp) : Option Level :=
  match l.parts with
  | [] => none
  | r :: rs => some { l with parts := f r :: rs }

def parseTokens : List Token → Level → List Level → Option Regexp
  | [], l, [] => some l.regexp
  | [], _, _ :: _ => none
  | .set cls :: ts, l, ls => parseTokens ts (l.push (.set cls)) ls
  | .bol :: ts, l, ls => parseTokens ts (l.push .bol) ls
  | .eol :: ts, l, ls => parseTokens ts (l.push .eol) ls
  | .star :: ts, l, ls => (repeated l .star).bind fun l => parseTokens ts l ls
  | .plus :: ts, l, ls => (repeated l fun r => .seq r (.star r)).bind fun l => parseTokens ts l ls
  | .quest :: ts, l, ls => (repeated l fun r => .alt r .empty).bind fun l => parseTokens ts l ls
  | .bar :: ts, l, ls => parseTokens ts ⟨l.branch :: l.alts, []⟩ ls
  | .group :: ts, l, ls => parseTokens ts ⟨[], []⟩ (l :: ls)
  | .close :: _, _, [] => none
  | .close :: ts, l, m :: ls => parseTokens ts (m.push l.regexp) ls

/-- The expression a text writes, and whether case is folded. -/
def parse (t : Text) : Option (Bool × Regexp) :=
  let (fold, t) := match "(?i)".toList.isPrefixOf? t with
    | some rest => (true, rest)
    | none => (false, t)
  (lex none t).bind fun tokens => (parseTokens tokens ⟨[], []⟩ []).map (fold, ·)

/-- What a text finds as a regular expression; none where it is not read. -/
def SourceFinds (source t : Text) : Prop :=
  ∃ fold r, parse source = some (fold, r) ∧ Finds fold r t

end Regexp

end Bulwark.Foundation
