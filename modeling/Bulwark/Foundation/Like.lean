import Mathlib.Data.List.Infix
import Bulwark.Foundation.Text

/-!
# Patterns of `LIKE`

`text LIKE pattern ESCAPE c` of SQL: `%` stands for any text, `_` for one character, and a
character after the escape for itself.  Letters of ASCII are compared without their case.
-/

namespace Bulwark.Foundation

def likeMatches (escape : Char) : Text → Text → Bool
  | [], t => t = []
  | c :: p, t =>
      if c = escape then
        match p with
        | [] => false
        | d :: p =>
            match t with
            | [] => false
            | x :: t => x.toLower = d.toLower && likeMatches escape p t
      else if c = '%' then t.tails.any fun rest => likeMatches escape p rest
      else
        match t with
        | [] => false
        | x :: t => (c = '_' || x.toLower = c.toLower) && likeMatches escape p t

/-- A backslash before every character that would mean something in a pattern. -/
def likeEscape (t : Text) : Text :=
  t.flatMap fun c => if c ∈ ['\\', '%', '_'] then ['\\', c] else [c]

/-- The text occurs, in any case of its ASCII letters. -/
def ContainsIgnoreCase (needle t : Text) : Prop :=
  toAsciiLowercase needle <:+: toAsciiLowercase t

instance (needle t : Text) : Decidable (ContainsIgnoreCase needle t) :=
  inferInstanceAs (Decidable (toAsciiLowercase needle <:+: toAsciiLowercase t))

theorem likeMatches_any (p t : Text) :
    likeMatches '\\' ('%' :: p) t = true ↔
      ∃ a b, t = a ++ b ∧ likeMatches '\\' p b = true := by
  have hany : likeMatches '\\' ('%' :: p) t =
      t.tails.any fun rest => likeMatches '\\' p rest := by
    rw [likeMatches.eq_def]
    simp
  rw [hany, List.any_eq_true]
  constructor
  · rintro ⟨b, hb, hmatch⟩
    obtain ⟨a, rfl⟩ := (List.mem_tails b t).mp hb
    exact ⟨a, b, rfl, hmatch⟩
  · rintro ⟨a, b, rfl, hmatch⟩
    exact ⟨b, (List.mem_tails _ _).mpr (List.suffix_append a b), hmatch⟩

/-- One escaped character stands for itself, in either case. -/
theorem likeMatches_escaped (c : Char) (p t : Text) :
    likeMatches '\\' (likeEscape [c] ++ p) t = true ↔
      ∃ x b, t = x :: b ∧ x.toLower = c.toLower ∧ likeMatches '\\' p b = true := by
  by_cases hc : c ∈ ['\\', '%', '_']
  · have hescape : likeEscape [c] = ['\\', c] := by
      rw [likeEscape, List.flatMap_singleton, if_pos hc]
    rw [hescape]
    cases t with
    | nil => simp [likeMatches]
    | cons x t => simp [likeMatches]
  · have hescape : likeEscape [c] = [c] := by
      rw [likeEscape, List.flatMap_singleton, if_neg hc]
    simp only [List.mem_cons, List.not_mem_nil, or_false, not_or] at hc
    rw [hescape, List.singleton_append, likeMatches.eq_def]
    cases t with
    | nil => simp [hc]
    | cons x t => simp [hc]

theorem likeMatches_likeEscape (needle p t : Text) :
    likeMatches '\\' (likeEscape needle ++ p) t = true ↔
      ∃ a b, t = a ++ b ∧ toAsciiLowercase a = toAsciiLowercase needle ∧
        likeMatches '\\' p b = true := by
  induction needle generalizing t with
  | nil => simp [likeEscape, toAsciiLowercase]
  | cons c needle ih =>
      have hsplit : likeEscape (c :: needle) ++ p =
          likeEscape [c] ++ (likeEscape needle ++ p) := by simp [likeEscape]
      rw [hsplit, likeMatches_escaped]
      simp only [ih]
      constructor
      · rintro ⟨x, _, rfl, hx, a, b, rfl, ha, hmatch⟩
        refine ⟨x :: a, b, rfl, ?_, hmatch⟩
        rw [toAsciiLowercase, List.map_cons, hx]
        exact congrArg _ ha
      · rintro ⟨a, b, rfl, ha, hmatch⟩
        cases a with
        | nil => simp [toAsciiLowercase] at ha
        | cons x a =>
            simp only [toAsciiLowercase, List.map_cons, List.cons.injEq] at ha
            exact ⟨x, a ++ b, rfl, ha.1, a, b, rfl, ha.2, hmatch⟩

theorem likeMatches_contains (needle t : Text) :
    likeMatches '\\' ('%' :: (likeEscape needle ++ ['%'])) t = true ↔
      ContainsIgnoreCase needle t := by
  have hend : ∀ b, likeMatches '\\' ['%'] b = true := fun b =>
    (likeMatches_any [] b).mpr ⟨b, [], by simp, by simp [likeMatches]⟩
  rw [likeMatches_any]
  simp only [likeMatches_likeEscape, hend, and_true]
  constructor
  · rintro ⟨a, _, rfl, m, b, rfl, hm⟩
    exact ⟨toAsciiLowercase a, toAsciiLowercase b, by simp [← hm]⟩
  · rintro ⟨front, back, h⟩
    rw [List.append_assoc] at h
    obtain ⟨a, rest, rfl, -, hrest⟩ := List.map_eq_append_iff.mp h.symm
    obtain ⟨m, b, rfl, hm, -⟩ := List.map_eq_append_iff.mp hrest
    exact ⟨a, m ++ b, rfl, m, b, rfl, hm⟩

end Bulwark.Foundation
