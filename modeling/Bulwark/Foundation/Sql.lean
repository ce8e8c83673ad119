import Mathlib.Data.Rat.Defs
import Bulwark.Foundation.Like

/-!
# Selecting rows

The part of SQL that a log needs: values, rows by their columns, and conditions with
numbered parameters in the three-valued logic of `NULL`.  A row is selected where the
condition is true.
-/

namespace Bulwark.Foundation

inductive SqlValue where
  | null
  | integer (i : Int)
  | real (x : ℚ)
  | text (t : Text)
  deriving DecidableEq, Repr

abbrev SqlRow (κ : Type) := κ → SqlValue

/-- Conditions; parameters are numbered from 1. -/
inductive SqlExpr (κ : Type) where
  | equals (column : κ) (i : Int)
  | less (column : κ) (n : Nat)
  /-- `column LIKE ?n ESCAPE '\'` -/
  | like (column : κ) (n : Nat)
  | isIn (column : κ) (ns : List Nat)
  | and (a b : SqlExpr κ)
  | or (a b : SqlExpr κ)
  deriving DecidableEq, Repr

namespace SqlValue

def equal : SqlValue → SqlValue → Option Bool
  | .null, _ | _, .null => none
  | a, b => some (a = b)

def less : SqlValue → SqlValue → Option Bool
  | .integer a, .integer b => some (a < b)
  | _, _ => none

def like : SqlValue → SqlValue → Option Bool
  | .text t, .text pattern => some (likeMatches '\\' pattern t)
  | _, _ => none

end SqlValue

/-- Connectives on truth values of which `none` is unknown. -/
def sqlAnd : Option Bool → Option Bool → Option Bool
  | some false, _ | _, some false => some false
  | some true, some true => some true
  | _, _ => none

def sqlOr : Option Bool → Option Bool → Option Bool
  | some true, _ | _, some true => some true
  | some false, some false => some false
  | _, _ => none

@[simp] theorem sqlAnd_eq_true (a b : Option Bool) :
    sqlAnd a b = some true ↔ a = some true ∧ b = some true := by
  rcases a with _ | _ | _ <;> rcases b with _ | _ | _ <;> simp [sqlAnd]

@[simp] theorem sqlOr_eq_true (a b : Option Bool) :
    sqlOr a b = some true ↔ a = some true ∨ b = some true := by
  rcases a with _ | _ | _ <;> rcases b with _ | _ | _ <;> simp [sqlOr]

/-- The value of `?n`; `NULL` if nothing is bound to it. -/
def sqlParam (params : List SqlValue) (n : Nat) : SqlValue :=
  match n with
  | 0 => .null
  | n + 1 => params[n]?.getD .null

variable {κ : Type}

def SqlExpr.eval (params : List SqlValue) (row : SqlRow κ) : SqlExpr κ → Option Bool
  | .equals column i => (row column).equal (.integer i)
  | .less column n => (row column).less (sqlParam params n)
  | .like column n => (row column).like (sqlParam params n)
  | .isIn column ns =>
      ns.foldr (fun n rest => sqlOr ((row column).equal (sqlParam params n)) rest) (some false)
  | .and a b => sqlAnd (a.eval params row) (b.eval params row)
  | .or a b => sqlOr (a.eval params row) (b.eval params row)

def sqlWhere : List (SqlExpr κ) → Option (SqlExpr κ)
  | [] => none
  | e :: es => some (es.foldl .and e)

/-- The condition is true; without one every row is meant. -/
def sqlHolds (condition : Option (SqlExpr κ)) (params : List SqlValue) (row : SqlRow κ) : Bool :=
  condition.all fun e => e.eval params row = some true

def sqlSelect (condition : Option (SqlExpr κ)) (params : List SqlValue)
    (rows : List (SqlRow κ)) : List (SqlRow κ) :=
  rows.filter (sqlHolds condition params)

def sqlDelete (condition : Option (SqlExpr κ)) (params : List SqlValue)
    (rows : List (SqlRow κ)) : List (SqlRow κ) × Nat :=
  (rows.filter fun row => !sqlHolds condition params row, (sqlSelect condition params rows).length)

/-- `LIMIT` and `OFFSET`: a negative limit is none, a negative offset is 0. -/
def sqlPage (limit offset : SqlValue) {α : Type} (rows : List α) : List α :=
  let rest := match offset with
    | .integer i => rows.drop i.toNat
    | _ => rows
  match limit with
  | .integer i => if i < 0 then rest else rest.take i.toNat
  | _ => rest

/-! ## Conditions that hold -/

theorem eval_isIn_eq_true {params : List SqlValue} {row : SqlRow κ} {column : κ}
    {ns : List Nat} :
    (SqlExpr.isIn column ns).eval params row = some true ↔
      ∃ n ∈ ns, (row column).equal (sqlParam params n) = some true := by
  rw [SqlExpr.eval]
  induction ns with
  | nil => simp
  | cons n ns ih => simp [ih]

theorem eval_foldl_and {params : List SqlValue} {row : SqlRow κ} {e : SqlExpr κ}
    {es : List (SqlExpr κ)} :
    (es.foldl .and e).eval params row = some true ↔
      ∀ c ∈ e :: es, c.eval params row = some true := by
  induction es generalizing e with
  | nil => simp
  | cons c es ih =>
      rw [List.foldl_cons, ih]
      simp [SqlExpr.eval, and_assoc]

theorem sqlHolds_where {es : List (SqlExpr κ)} {params : List SqlValue} {row : SqlRow κ} :
    sqlHolds (sqlWhere es) params row = true ↔ ∀ e ∈ es, e.eval params row = some true := by
  cases es with
  | nil => simp [sqlWhere, sqlHolds]
  | cons e es => rw [sqlWhere, sqlHolds, Option.all_some, decide_eq_true_eq, eval_foldl_and]

theorem equal_text_eq_true {t u : Text} :
    (SqlValue.text t).equal (.text u) = some true ↔ t = u := by
  simp [SqlValue.equal]

theorem sqlParam_append (params more : List SqlValue) (i : Nat) :
    sqlParam (params ++ more) (params.length + i + 1) = more[i]?.getD .null := by
  rw [sqlParam, List.getElem?_append_right (by omega), Nat.add_sub_cancel_left]

theorem eval_isIn_texts {row : SqlRow κ} {column : κ} {t : Text} (hrow : row column = .text t)
    (params : List SqlValue) (ts : List Text) (more : List SqlValue) :
    (SqlExpr.isIn column ((List.range ts.length).map fun i => params.length + i + 1)).eval
        (params ++ (ts.map .text ++ more)) row = some true ↔ t ∈ ts := by
  have hparam : ∀ i (h : i < ts.length),
      sqlParam (params ++ (ts.map .text ++ more)) (params.length + i + 1) = .text ts[i] := by
    intro i hi
    rw [sqlParam_append, List.getElem?_append_left (by simpa using hi)]
    simp [hi]
  rw [eval_isIn_eq_true]
  constructor
  · rintro ⟨n, hn, hequal⟩
    obtain ⟨i, hi, rfl⟩ := List.mem_map.mp hn
    rw [List.mem_range] at hi
    rw [hparam i hi, hrow, equal_text_eq_true] at hequal
    rw [hequal]
    exact List.getElem_mem hi
  · intro ht
    obtain ⟨i, hi, rfl⟩ := List.getElem_of_mem ht
    refine ⟨params.length + i + 1, List.mem_map.mpr ⟨i, List.mem_range.mpr hi, rfl⟩, ?_⟩
    rw [hparam i hi, hrow, equal_text_eq_true]

end Bulwark.Foundation
