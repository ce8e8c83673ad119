import Bulwark.Foundation.Text

/-!
# Lines of a text

What `lines` gives for texts put together from lines, and for texts that others are
appended to.  `stripBlank` takes the blank lines off both ends.
-/

namespace Bulwark.Foundation

/-- Every line with a line feed after it. -/
def unlines (ls : List Text) : Text := ls.flatMap fun l => l ++ ['\n']

@[simp] theorem unlines_nil : unlines [] = [] := rfl

@[simp] theorem unlines_cons (l : Text) (ls : List Text) :
    unlines (l :: ls) = l ++ '\n' :: unlines ls := by
  simp [unlines]

@[simp] theorem unlines_append (ls ls' : List Text) :
    unlines (ls ++ ls') = unlines ls ++ unlines ls' := by
  simp [unlines]

/-! ## Reading -/

/-- A text that is one line, and still is with a line feed after it. -/
def IsLine (l : Text) : Prop := '\n' ∉ l ∧ l.getLast? ≠ some '\r'

theorem getLast?_trim_ne (t : Text) : (trim t).getLast? ≠ some '\r' := by
  intro hreturn
  have hne : trim t ≠ [] := by
    intro hnil
    simp [hnil] at hreturn
  have hend := List.rdropWhile_last_not isWhitespace (trimStart t) hne
  rw [List.getLast?_eq_some_getLast hne, Option.some.injEq] at hreturn
  apply hend
  change isWhitespace ((trim t).getLast hne) = true
  rw [hreturn]
  decide

theorem isLine_trim {t : Text} (h : '\n' ∉ trim t) : IsLine (trim t) := ⟨h, getLast?_trim_ne t⟩

theorem lines_unlines {ls : List Text} (h : ∀ l ∈ ls, IsLine l) : lines (unlines ls) = ls := by
  induction ls with
  | nil => simp [lines, linesFrom]
  | cons l ls ih =>
      obtain ⟨hfeed, hreturn⟩ := h l List.mem_cons_self
      have hrest := ih fun k hk => h k (List.mem_cons_of_mem _ hk)
      rw [lines] at hrest ⊢
      rw [unlines_cons, linesFrom_line hfeed (by simpa using hreturn), hrest, List.nil_append]

/-- A line without the carriage return of its ending. -/
def dropReturn (l : Text) : Text := if l.getLast? = some '\r' then l.dropLast else l

theorem linesFrom_feed (acc t : Text) :
    linesFrom acc ('\n' :: t) = dropReturn acc :: linesFrom [] t := by
  rw [linesFrom, dropReturn]
  congr 1
  split <;> simp_all

theorem linesFrom_char {c : Char} (hc : c ≠ '\n') (acc t : Text) :
    linesFrom acc (c :: t) = linesFrom (acc ++ [c]) t :=
  linesFrom.eq_3 acc c t hc

theorem dropReturn_subset (l : Text) : dropReturn l ⊆ l := by
  unfold dropReturn
  split
  · exact List.dropLast_subset l
  · exact List.Subset.refl l

theorem dropReturn_of_ne {l : Text} (h : l.getLast? ≠ some '\r') : dropReturn l = l := if_neg h

theorem feed_notMem_linesFrom {acc t l : Text} (hacc : '\n' ∉ acc) (h : l ∈ linesFrom acc t) :
    '\n' ∉ l := by
  induction t generalizing acc with
  | nil =>
      rw [linesFrom] at h
      split at h
      · cases h
      · rw [List.mem_singleton] at h
        rwa [h]
  | cons c t ih =>
      by_cases hc : c = '\n'
      · rw [hc, linesFrom_feed] at h
        rcases List.mem_cons.mp h with rfl | h
        · exact fun hmem => hacc (dropReturn_subset acc hmem)
        · exact ih List.not_mem_nil h
      · rw [linesFrom_char hc] at h
        exact ih (by simp [hacc, Ne.symm hc]) h

theorem feed_notMem_lines {t l : Text} (h : l ∈ lines t) : '\n' ∉ l :=
  feed_notMem_linesFrom List.not_mem_nil h

/-! ## Appending -/

theorem linesFrom_append_feed (acc t u : Text) :
    linesFrom acc (t ++ '\n' :: u) = linesFrom acc (t ++ ['\n']) ++ lines u := by
  induction t generalizing acc with
  | nil => simp [linesFrom_feed, linesFrom, lines]
  | cons c t ih =>
      simp only [List.cons_append]
      by_cases hc : c = '\n'
      · rw [hc, linesFrom_feed, linesFrom_feed, ih, List.cons_append]
      · rw [linesFrom_char hc, linesFrom_char hc, ih]

/-- A text that ends in a line feed keeps its lines whatever follows. -/
theorem lines_append_feed (t u : Text) :
    lines (t ++ '\n' :: u) = lines (t ++ ['\n']) ++ lines u :=
  linesFrom_append_feed [] t u

/-- The last line of a text as it is, and as it is once a line feed follows. -/
theorem lines_unended {t : Text} (hne : t ≠ []) (hfeed : t.getLast? ≠ some '\n') :
    ∃ front last, lines t = front ++ [last] ∧ lines (t ++ ['\n']) = front ++ [dropReturn last] ∧
      last.getLast? = t.getLast? := by
  have hfrom : ∀ acc : Text, acc ++ t ≠ [] → t.getLast? ≠ some '\n' → ∃ front last,
      linesFrom acc t = front ++ [last] ∧
        linesFrom acc (t ++ ['\n']) = front ++ [dropReturn last] ∧
          last.getLast? = (acc ++ t).getLast? := by
    clear hne hfeed
    induction t with
    | nil =>
        intro acc hne _
        rw [List.append_nil] at hne
        exact ⟨[], acc, by simp [linesFrom, hne], by simp [linesFrom_feed, linesFrom], by simp⟩
    | cons c t ih =>
        intro acc _ hfeed
        by_cases hc : c = '\n'
        · have ht : t ≠ [] := by
            rintro rfl
            simp [hc] at hfeed
          have hlast : (c :: t).getLast? = t.getLast? := by
            rw [List.getLast?_cons_of_ne_nil ht]
          obtain ⟨front, last, hlines, hended, hend⟩ := ih [] (by simpa) (by rwa [← hlast])
          refine ⟨dropReturn acc :: front, last, ?_, ?_, ?_⟩
          · rw [hc, linesFrom_feed, hlines, List.cons_append]
          · rw [hc, List.cons_append, linesFrom_feed, hended, List.cons_append]
          · rw [hend, List.nil_append, List.getLast?_append_of_ne_nil acc (by simp), hlast]
        · obtain ⟨front, last, hlines, hended, hend⟩ := ih (acc ++ [c]) (by simp) (by
            cases t with
            | nil => simp
            | cons d t => rwa [List.getLast?_cons_cons] at hfeed)
          refine ⟨front, last, ?_, ?_, ?_⟩
          · rw [linesFrom_char hc, hlines]
          · rw [List.cons_append, linesFrom_char hc, hended]
          · rw [hend, List.append_assoc, List.singleton_append]
  simpa [lines] using hfrom [] (by simpa) hfeed

theorem endsWith_singleton {c : Char} {t : Text} :
    endsWith [c] t = true ↔ t.getLast? = some c := by
  rw [endsWith, List.isSuffixOf_iff_suffix]
  constructor
  · rintro ⟨front, rfl⟩
    simp
  · intro h
    obtain ⟨front, rfl⟩ := List.getLast?_eq_some_iff.mp h
    exact List.suffix_append front [c]

/-! ## Blank lines at the ends -/

def stripBlank (ls : List Text) : List Text :=
  (ls.dropWhile (· = [])).rdropWhile (· = [])

theorem dropWhile_unlines {ls : List Text} (h : ∀ l ∈ ls, '\n' ∉ l) :
    (unlines ls).dropWhile (· == '\n') = unlines (ls.dropWhile (· = [])) := by
  induction ls with
  | nil => rfl
  | cons l ls ih =>
      have hrest := ih fun k hk => h k (List.mem_cons_of_mem _ hk)
      cases l with
      | nil => simpa using hrest
      | cons c cs =>
          have hc := h (c :: cs) List.mem_cons_self
          simp only [List.mem_cons, not_or] at hc
          simp [Ne.symm hc.1]

theorem rdropWhile_unlines {ls : List Text} (h : ∀ l ∈ ls, '\n' ∉ l) :
    let t := (unlines ls).rdropWhile (· == '\n')
    (if t = [] then [] else t ++ ['\n']) = unlines (ls.rdropWhile (· = [])) := by
  induction ls using List.reverseRecOn with
  | nil => simp
  | append_singleton ls l ih =>
      have hrest := ih fun k hk => h k (List.mem_append_left _ hk)
      have hsplit : unlines (ls ++ [l]) = unlines ls ++ l ++ ['\n'] := by simp
      dsimp only at hrest ⊢
      rw [hsplit, List.rdropWhile_concat_pos _ _ _ (by simp)]
      rcases List.eq_nil_or_concat' l with rfl | ⟨cs, c, rfl⟩
      · rw [List.append_nil, hrest, List.rdropWhile_concat_pos _ _ _ (by simp)]
      · have hc := h (cs ++ [c]) (by simp)
        simp only [List.mem_append, List.mem_singleton, not_or] at hc
        rw [← List.append_assoc, List.rdropWhile_concat_neg _ _ _ (by simp [Ne.symm hc.2]),
          if_neg (by simp), List.rdropWhile_concat_neg _ _ _ (by simp)]
        simp

theorem trimMatches_unlines {ls : List Text} (h : ∀ l ∈ ls, '\n' ∉ l) :
    let t := trimMatches '\n' (unlines ls)
    (if t = [] then [] else t ++ ['\n']) = unlines (stripBlank ls) := by
  rw [trimMatches, dropWhile_unlines h]
  exact rdropWhile_unlines fun l hl => h l ((List.dropWhile_suffix _).subset hl)

/-- The lists `stripBlank` leaves as they are. -/
def NoBlankEnd (ls : List Text) : Prop := ls.head? ≠ some [] ∧ ls.getLast? ≠ some []

theorem stripBlank_append {before ls after : List Text} (hbefore : ∀ l ∈ before, l = [])
    (hafter : ∀ l ∈ after, l = []) (hls : NoBlankEnd ls) :
    stripBlank (before ++ ls ++ after) = ls := by
  rw [stripBlank, List.append_assoc,
    List.dropWhile_append_of_pos (by simpa using hbefore)]
  cases ls with
  | nil =>
      have hnil : after.dropWhile (· = []) = [] := by simpa using hafter
      rw [List.nil_append, hnil, List.rdropWhile_nil]
  | cons l ls =>
      have hl : l ≠ [] := by simpa using hls.1
      rw [List.cons_append, List.dropWhile_cons_of_neg (by simpa using hl), List.rdropWhile,
        ← List.cons_append, List.reverse_append,
        List.dropWhile_append_of_pos (by simpa using hafter),
        ← List.rdropWhile, List.rdropWhile_eq_self_iff]
      intro hne hlast
      apply hls.2
      rw [List.getLast?_eq_some_getLast hne]
      simpa using hlast

theorem exists_stripBlank (ls : List Text) :
    ∃ before after, ls = before ++ stripBlank ls ++ after ∧ (∀ l ∈ before, l = []) ∧
      (∀ l ∈ after, l = []) ∧ NoBlankEnd (stripBlank ls) := by
  refine ⟨ls.takeWhile (· = []), (ls.dropWhile (· = [])).rtakeWhile (· = []), ?_, ?_, ?_, ?_⟩
  · rw [stripBlank, List.append_assoc, List.rdropWhile_append_rtakeWhile,
      List.takeWhile_append_dropWhile]
  · intro l hl
    simpa using List.mem_takeWhile_imp hl
  · intro l hl
    simpa using List.mem_rtakeWhile_imp hl
  · constructor
    · intro hhead
      obtain ⟨after, hafter⟩ := List.rdropWhile_prefix (· = []) (ls.dropWhile (· = []))
      have hfirst := List.head?_dropWhile_not (fun l : Text => decide (l = [])) ls
      rw [← hafter, List.head?_append, ← stripBlank, hhead] at hfirst
      simp at hfirst
    · intro hlast
      have hne : stripBlank ls ≠ [] := by
        intro hnil
        simp [hnil] at hlast
      have hend := List.rdropWhile_last_not (fun l : Text => decide (l = []))
        (ls.dropWhile (· = [])) hne
      rw [List.getLast?_eq_some_getLast hne, Option.some.injEq] at hlast
      exact hend (decide_eq_true hlast)

theorem stripBlank_between {x y : Text} (hx : x ≠ []) (hy : y ≠ []) (front mid back : List Text) :
    ∃ front' back', stripBlank (front ++ x :: (mid ++ y :: back)) =
      front' ++ x :: (mid ++ y :: back') := by
  have hfront : ∀ rest, (front ++ x :: rest).dropWhile (· = []) =
      front.dropWhile (· = []) ++ x :: rest := by
    intro rest
    induction front with
    | nil => simp [hx]
    | cons l front ih => by_cases hl : l = [] <;> simp [hl, ih]
  have hback : ∀ rest, (rest ++ y :: back).rdropWhile (· = []) =
      rest ++ y :: back.rdropWhile (· = []) := by
    intro rest
    induction back using List.reverseRecOn with
    | nil => rw [List.rdropWhile_concat_neg _ _ _ (by simpa using hy), List.rdropWhile_nil]
    | append_singleton back l ih =>
        rw [← List.cons_append, ← List.append_assoc, List.rdropWhile_concat,
          List.rdropWhile_concat]
        split
        · exact ih
        · simp
  refine ⟨front.dropWhile (· = []), back.rdropWhile (· = []), ?_⟩
  rw [stripBlank, hfront, ← List.cons_append, ← List.append_assoc, hback, List.append_assoc,
    List.cons_append]

theorem exists_last_nonblank {ls : List Text} (h : ∃ l ∈ ls, l ≠ []) :
    ∃ front x i, x ≠ [] ∧ ls = front ++ x :: List.replicate i [] := by
  induction ls using List.reverseRecOn with
  | nil => simp at h
  | append_singleton ls l ih =>
      by_cases hl : l = []
      · obtain ⟨k, hk, hne⟩ := h
        rw [hl, List.mem_append, List.mem_singleton] at hk
        obtain ⟨front, x, i, hx, rfl⟩ := ih ⟨k, hk.resolve_right hne, hne⟩
        exact ⟨front, x, i + 1, hx, by rw [hl, List.replicate_succ']; simp⟩
      · exact ⟨ls, l, 0, hl, rfl⟩

theorem exists_first_nonblank {ls : List Text} (h : ∃ l ∈ ls, l ≠ []) :
    ∃ j y back, y ≠ [] ∧ ls = List.replicate j [] ++ y :: back := by
  induction ls with
  | nil => simp at h
  | cons l ls ih =>
      by_cases hl : l = []
      · obtain ⟨k, hk, hne⟩ := h
        rw [hl, List.mem_cons] at hk
        obtain ⟨j, y, back, hy, rfl⟩ := ih ⟨k, hk.resolve_left hne, hne⟩
        exact ⟨j + 1, y, back, hy, by rw [hl, List.replicate_succ, List.cons_append]⟩
      · exact ⟨0, l, ls, hl, rfl⟩

theorem filter_stripBlank {p : Text → Bool} (hp : p [] = false) (ls : List Text) :
    (stripBlank ls).filter p = ls.filter p := by
  obtain ⟨before, after, hls, hbefore, hafter, -⟩ := exists_stripBlank ls
  have hblank : ∀ {ks : List Text}, (∀ l ∈ ks, l = []) → ks.filter p = [] := by
    intro ks hks
    rw [List.filter_eq_nil_iff]
    intro l hl
    simp [hks l hl, hp]
  conv_rhs => rw [hls, List.filter_append, List.filter_append, hblank hbefore, hblank hafter]
  simp

theorem stripBlank_subset (ls : List Text) : stripBlank ls ⊆ ls := by
  intro l hl
  exact (List.dropWhile_suffix _).subset ((List.rdropWhile_prefix _ _).subset hl)

end Bulwark.Foundation
