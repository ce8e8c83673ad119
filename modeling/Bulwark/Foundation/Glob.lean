import Bulwark.Foundation.Text

/-!
# Searching for item sequences

An item sequence is the flat fragment of regular expressions that wildcard
patterns need: literal characters, `.*`, a separator, and anchors.  Matching is
written with continuations, one item at a time, and carries the flag "nothing
precedes the current position".  What characters count as equal and which ones
separate is given by an `Alphabet`.
-/

namespace Bulwark.Foundation

structure Alphabet where
  eqv : Char → Char → Bool
  isSep : Char → Bool

inductive GlobItem where
  | lit (c : Char)
  | any
  | sep
  | start
  | label
  | stop
  deriving DecidableEq, Repr

namespace Alphabet

variable (A : Alphabet)

/-- Let `k` continue after some number of characters other than a line feed. -/
def anyFrom (k : Bool → Text → Bool) : Bool → Text → Bool
  | atStart, [] => k atStart []
  | atStart, d :: t => k atStart (d :: t) || (d != '\n' && anyFrom k false t)

def matchItem (k : Bool → Text → Bool) : GlobItem → Bool → Text → Bool
  | .lit c, _, t =>
      match t with
      | [] => false
      | d :: t => A.eqv c d && k false t
  | .any, atStart, t => anyFrom k atStart t
  | .sep, atStart, t =>
      match t with
      | [] => k atStart []
      | d :: t => A.isSep d && k false t
  | .start, atStart, t => atStart && k atStart t
  | .label, atStart, t =>
      (atStart && k atStart t) ||
        match t with
        | [] => false
        | d :: t => A.eqv '.' d && k false t
  | .stop, atStart, t => t.isEmpty && k atStart t

def matchItems : List GlobItem → Bool → Text → Bool
  | [], _, _ => true
  | item :: items, atStart, t => A.matchItem (matchItems items) item atStart t

def searchFrom (items : List GlobItem) : Bool → Text → Bool
  | atStart, [] => A.matchItems items atStart []
  | atStart, d :: t =>
      A.matchItems items atStart (d :: t) || searchFrom items false t

def search (items : List GlobItem) (t : Text) : Bool := A.searchFrom items true t

/-! ## What a successful match consumed -/

/-- The text one item stands for, given what follows it. -/
def Consumes : GlobItem → Text → Text → Prop
  | .lit c, m, _ => ∃ d, m = [d] ∧ A.eqv c d = true
  | .any, m, _ => ∀ d ∈ m, d ≠ '\n'
  | .sep, m, rest => (∃ d, m = [d] ∧ A.isSep d = true) ∨ (m = [] ∧ rest = [])
  | .start, m, _ => m = []
  | .label, m, _ => m = [] ∨ ∃ d, m = [d] ∧ A.eqv '.' d = true
  | .stop, m, rest => m = [] ∧ rest = []

private theorem anyFrom_split {k : Bool → Text → Bool} {atStart : Bool}
    {t : Text} (h : anyFrom k atStart t = true) :
    ∃ m rest, t = m ++ rest ∧ (∀ d ∈ m, d ≠ '\n') ∧
      k (atStart && m.isEmpty) rest = true := by
  induction t generalizing atStart with
  | nil => exact ⟨[], [], rfl, by simp, by simpa [anyFrom] using h⟩
  | cons d t ih =>
      simp only [anyFrom, Bool.or_eq_true, Bool.and_eq_true, bne_iff_ne] at h
      rcases h with h | ⟨hd, h⟩
      · exact ⟨[], d :: t, rfl, by simp, by simpa using h⟩
      · obtain ⟨m, rest, rfl, hm, hk⟩ := ih h
        exact ⟨d :: m, rest, rfl, by simpa [hd] using hm, by simpa using hk⟩

theorem matchItem_split {k : Bool → Text → Bool} {item : GlobItem}
    {atStart : Bool} {t : Text} (h : A.matchItem k item atStart t = true) :
    ∃ m rest, t = m ++ rest ∧ A.Consumes item m rest ∧
      k (atStart && m.isEmpty) rest = true := by
  cases item with
  | any => exact anyFrom_split h
  | start =>
      simp only [matchItem, Bool.and_eq_true] at h
      exact ⟨[], t, rfl, rfl, by simpa using h.2⟩
  | stop =>
      simp only [matchItem, Bool.and_eq_true, List.isEmpty_iff] at h
      exact ⟨[], t, rfl, ⟨rfl, h.1⟩, by simpa using h.2⟩
  | lit c =>
      cases t with
      | nil => simp [matchItem] at h
      | cons d t =>
          simp only [matchItem, Bool.and_eq_true] at h
          exact ⟨[d], t, rfl, ⟨d, rfl, h.1⟩, by simpa using h.2⟩
  | sep =>
      cases t with
      | nil => exact ⟨[], [], rfl, .inr ⟨rfl, rfl⟩, by simpa [matchItem] using h⟩
      | cons d t =>
          simp only [matchItem, Bool.and_eq_true] at h
          exact ⟨[d], t, rfl, .inl ⟨d, rfl, h.1⟩, by simpa using h.2⟩
  | label =>
      cases t with
      | nil =>
          simp only [matchItem, Bool.or_false, Bool.and_eq_true] at h
          exact ⟨[], [], rfl, .inl rfl, by simpa using h.2⟩
      | cons d t =>
          simp only [matchItem, Bool.or_eq_true, Bool.and_eq_true] at h
          rcases h with h | h
          · exact ⟨[], d :: t, rfl, .inl rfl, by simpa using h.2⟩
          · exact ⟨[d], t, rfl, .inr ⟨d, rfl, h.1⟩, by simpa using h.2⟩

/-! ## Matching as a relation -/

theorem search_iff {items : List GlobItem} {t : Text} :
    A.search items t = true ↔
      ∃ before rest, t = before ++ rest ∧ A.matchItems items before.isEmpty rest = true := by
  suffices hfrom : ∀ atStart, A.searchFrom items atStart t = true ↔
      ∃ before rest, t = before ++ rest ∧
        A.matchItems items (atStart && before.isEmpty) rest = true by
    simpa [search] using hfrom true
  induction t with
  | nil =>
      intro atStart
      simp [searchFrom]
  | cons d t ih =>
      intro atStart
      simp only [searchFrom, Bool.or_eq_true, ih false]
      constructor
      · rintro (h | ⟨before, rest, rfl, h⟩)
        · exact ⟨[], d :: t, rfl, by simpa using h⟩
        · exact ⟨d :: before, rest, rfl, by simpa using h⟩
      · rintro ⟨before, rest, heq, h⟩
        cases before with
        | nil =>
            cases heq
            exact .inl (by simpa using h)
        | cons b before =>
            cases heq
            exact .inr ⟨before, rest, rfl, by simpa using h⟩

/-- `Stands items m rest`: the items stand for `m`, which `rest` follows. -/
inductive Stands : List GlobItem → Text → Text → Prop where
  | nil {rest : Text} : Stands [] [] rest
  | cons {item : GlobItem} {items : List GlobItem} {m m' rest : Text}
      (h : A.Consumes item m (m' ++ rest)) (hs : Stands items m' rest) :
      Stands (item :: items) (m ++ m') rest

/-- An item whose match does not depend on what comes before it. -/
def isFree : GlobItem → Bool
  | .lit _ | .any | .sep => true
  | .start | .label | .stop => false

theorem anyFrom_append {k : Bool → Text → Bool} {atStart : Bool} {m rest : Text}
    (hm : ∀ d ∈ m, d ≠ '\n') (h : k (atStart && m.isEmpty) rest = true) :
    anyFrom k atStart (m ++ rest) = true := by
  induction m generalizing atStart with
  | nil =>
      cases rest with
      | nil => simpa [anyFrom] using h
      | cons d rest => simp [anyFrom, show k atStart (d :: rest) = true by simpa using h]
  | cons d m ih =>
      simp only [List.mem_cons, forall_eq_or_imp] at hm
      have htail : anyFrom k false (m ++ rest) = true := ih hm.2 (by simpa using h)
      simp [anyFrom, hm.1, htail]

theorem matchItem_of_consumes {k : Bool → Text → Bool} {item : GlobItem} {atStart : Bool}
    {m rest : Text} (hfree : isFree item = true) (hm : A.Consumes item m rest)
    (h : k (atStart && m.isEmpty) rest = true) :
    A.matchItem k item atStart (m ++ rest) = true := by
  cases item with
  | lit c =>
      obtain ⟨d, rfl, hd⟩ := hm
      simpa [matchItem, hd] using h
  | any => exact anyFrom_append hm h
  | sep =>
      rcases hm with ⟨d, rfl, hd⟩ | ⟨rfl, rfl⟩
      · simpa [matchItem, hd] using h
      · simpa [matchItem] using h
  | _ => cases hfree

theorem matchItems_free_iff {items last : List GlobItem} {atStart : Bool} {t : Text}
    (hfree : items.all isFree = true) :
    A.matchItems (items ++ last) atStart t = true ↔
      ∃ m rest, t = m ++ rest ∧ A.Stands items m rest ∧
        A.matchItems last (atStart && m.isEmpty) rest = true := by
  induction items generalizing atStart t with
  | nil =>
      constructor
      · intro h
        exact ⟨[], t, rfl, .nil, by simpa using h⟩
      · rintro ⟨m, rest, rfl, hs, h⟩
        cases hs
        simpa using h
  | cons item items ih =>
      simp only [List.all_cons, Bool.and_eq_true] at hfree
      constructor
      · intro h
        obtain ⟨m, rest, rfl, hm, hk⟩ := A.matchItem_split h
        obtain ⟨m', rest', rfl, hs, hk'⟩ := (ih hfree.2).mp hk
        exact ⟨m ++ m', rest', by simp, .cons hm hs, by cases m <;> simpa using hk'⟩
      · rintro ⟨m, rest, rfl, hs, h⟩
        cases hs with
        | @cons _ _ m m' _ hm hs =>
            rw [List.append_assoc]
            refine A.matchItem_of_consumes hfree.1 hm ((ih hfree.2).mpr ⟨m', rest, rfl, hs, ?_⟩)
            cases m <;> simpa using h

theorem matchItems_start_iff {items : List GlobItem} {atStart : Bool} {t : Text} :
    A.matchItems (.start :: items) atStart t = true ↔
      atStart = true ∧ A.matchItems items atStart t = true := by
  simp [matchItems, matchItem]

theorem matchItems_label_iff {items : List GlobItem} {atStart : Bool} {t : Text} :
    A.matchItems (.label :: items) atStart t = true ↔
      (atStart = true ∧ A.matchItems items atStart t = true) ∨
        ∃ d rest, t = d :: rest ∧ A.eqv '.' d = true ∧ A.matchItems items false rest = true := by
  cases t <;> simp [matchItems, matchItem]

/-- What every literal of the items stands for. -/
theorem Stands.lit_mem {A : Alphabet} {items : List GlobItem} {m rest : Text}
    (h : A.Stands items m rest) {c : Char} (hc : GlobItem.lit c ∈ items) :
    ∃ d ∈ m, A.eqv c d = true := by
  induction h with
  | nil => cases hc
  | cons h _ ih =>
      rcases List.mem_cons.mp hc with rfl | hc
      · obtain ⟨d, rfl, hd⟩ := h
        exact ⟨d, by simp, hd⟩
      · obtain ⟨d, hmem, hd⟩ := ih hc
        exact ⟨d, List.mem_append_right _ hmem, hd⟩

/-! ## Literals that match alike -/

def mapLit (f : Char → Char) : GlobItem → GlobItem
  | .lit c => .lit (f c)
  | item => item

theorem matchItems_mapLit {f : Char → Char} (hf : ∀ c d, A.eqv (f c) d = A.eqv c d)
    (items : List GlobItem) :
    A.matchItems (items.map (mapLit f)) = A.matchItems items := by
  induction items with
  | nil => rfl
  | cons item items ih =>
      funext atStart t
      rw [List.map_cons, matchItems, matchItems, ih]
      cases item with
      | lit c => cases t <;> simp [mapLit, matchItem, hf]
      | _ => rfl

theorem search_mapLit {f : Char → Char} (hf : ∀ c d, A.eqv (f c) d = A.eqv c d)
    (items : List GlobItem) (t : Text) :
    A.search (items.map (mapLit f)) t = A.search items t := by
  rw [search, search]
  suffices hfrom : ∀ atStart, A.searchFrom (items.map (mapLit f)) atStart t =
      A.searchFrom items atStart t from hfrom true
  induction t with
  | nil => exact fun atStart => by rw [searchFrom, searchFrom, A.matchItems_mapLit hf]
  | cons d t ih =>
      exact fun atStart => by rw [searchFrom, searchFrom, A.matchItems_mapLit hf, ih]

end Alphabet

end Bulwark.Foundation
