import Mathlib.Logic.Function.Basic
import Mathlib.Tactic.Common

/-!
# Files that are replaced as a whole

A text is written to a temporary file, which is then renamed over the real one.  Names refer
to inodes: writing goes on in the inode that was opened, whatever it is called meanwhile.
While writers take turns, the real file has a text that was written to its end, at every
moment and wherever a writer stops.
-/

namespace Bulwark.Foundation

variable {α : Type}

/-! ## Names and inodes -/

structure Volume (α : Type) where
  inodes : Nat → List α
  next : Nat
  path : Option Nat
  tmp : Option Nat

namespace Volume

def empty : Volume α := ⟨fun _ => [], 0, none, none⟩

def read (v : Volume α) : Option (List α) := v.path.map v.inodes

/-- Opens the temporary file for writing: it is made, or its text is dropped. -/
def create (v : Volume α) : Volume α × Nat :=
  match v.tmp with
  | some i => ({ v with inodes := Function.update v.inodes i [] }, i)
  | none =>
      ({ v with inodes := Function.update v.inodes v.next [], next := v.next + 1,
                tmp := some v.next }, v.next)

/-- Writes at an offset; what was never written in between is filled. -/
def writeAt (fill : α) (v : Volume α) (i offset : Nat) (chunk : List α) : Volume α :=
  let old := v.inodes i
  let gap := List.replicate (offset - old.length) fill
  { v with
    inodes := Function.update v.inodes i
      (old.take offset ++ gap ++ chunk ++ old.drop (offset + chunk.length)) }

def rename (v : Volume α) : Option (Volume α) :=
  v.tmp.map fun i => { v with path := some i, tmp := none }

end Volume

/-! ## Writers -/

inductive Writer (α : Type) where
  | idle
  | writing (inode : Nat) (text : List α) (done : Nat)
  deriving DecidableEq, Repr

inductive FileAction (α : Type) where
  | create (text : List α)
  | write (n : Nat)
  /-- The rest is not written, or the name cannot be changed; no further try is made. -/
  | fail
  | rename
  deriving DecidableEq, Repr

def replaceStep (fill : α) (v : Volume α) (w : Writer α) (a : FileAction α) :
    Option (Volume α × Writer α) :=
  match w, a with
  | .idle, .create text =>
      let (v, i) := v.create
      some (v, .writing i text 0)
  | .writing i text done, .write n =>
      if done + n ≤ text.length then
        some (v.writeAt fill i done ((text.drop done).take n), .writing i text (done + n))
      else none
  | .writing _ _ _, .fail => some (v, .idle)
  | .writing _ text done, .rename =>
      if done = text.length then v.rename.map (·, .idle) else none
  | _, _ => none

/-- The text that is read after the action. -/
def Writer.saves (w : Writer α) (a : FileAction α) (saved : Option (List α)) :
    Option (List α) :=
  match w, a with
  | .writing _ text _, .rename => some text
  | _, _ => saved

/-! ## One writer at a time -/

def Writer.At (v : Volume α) : Writer α → Prop
  | .idle => True
  | .writing i text done =>
      v.tmp = some i ∧ v.inodes i = text.take done ∧ done ≤ text.length

structure Volume.Replaces (v : Volume α) (w : Writer α) (saved : Option (List α)) : Prop where
  read : v.read = saved
  path_lt : ∀ i, v.path = some i → i < v.next
  tmp_lt : ∀ i, v.tmp = some i → i < v.next
  apart : ∀ i, v.path = some i → v.tmp ≠ some i
  writer : w.At v

namespace Volume.Replaces

variable {v v' : Volume α} {w w' : Writer α} {saved : Option (List α)}

/-- The writer stops, and what it has written so far stays. -/
theorem stop (h : v.Replaces w saved) : v.Replaces .idle saved :=
  ⟨h.read, h.path_lt, h.tmp_lt, h.apart, trivial⟩

theorem read_update (h : v.Replaces w saved) {i : Nat} {next : Nat} {tmp : Option Nat}
    (hi : v.path ≠ some i) (text : List α) :
    Volume.read ⟨Function.update v.inodes i text, next, v.path, tmp⟩ = saved := by
  rw [← h.read]
  unfold Volume.read
  cases hpath : v.path with
  | none => rfl
  | some j =>
      have hne : j ≠ i := by
        rintro rfl
        exact hi hpath
      simp [Function.update_of_ne hne]

theorem create (h : v.Replaces .idle saved) (text : List α) :
    v.create.1.Replaces (.writing v.create.2 text 0) saved := by
  unfold Volume.create
  cases htmp : v.tmp with
  | some i =>
      have hi : v.path ≠ some i := fun hpath => h.apart i hpath htmp
      refine ⟨h.read_update hi [], h.path_lt, ?_, ?_, rfl, ?_, Nat.zero_le _⟩
      · exact fun j hj => h.tmp_lt j (htmp.trans hj)
      · exact fun j hj hjtmp => h.apart j hj (htmp.trans hjtmp)
      · simp
  | none =>
      have hnext : v.path ≠ some v.next := fun hpath => Nat.lt_irrefl _ (h.path_lt _ hpath)
      refine ⟨h.read_update hnext [], ?_, ?_, ?_, rfl, ?_, Nat.zero_le _⟩
      · intro j hj
        exact Nat.lt_succ_of_lt (h.path_lt j hj)
      · rintro j hj
        cases hj
        exact Nat.lt_succ_self _
      · rintro j hj hjtmp
        cases hjtmp
        exact hnext hj
      · simp

theorem writeAt {i done n : Nat} {text : List α} (h : v.Replaces (.writing i text done) saved)
    (fill : α) (hn : done + n ≤ text.length) :
    (v.writeAt fill i done ((text.drop done).take n)).Replaces (.writing i text (done + n))
      saved := by
  obtain ⟨htmp, hinode, hdone⟩ := h.writer
  have hi : v.path ≠ some i := fun hpath => h.apart i hpath htmp
  refine ⟨h.read_update hi _, h.path_lt, h.tmp_lt, h.apart, htmp, ?_, hn⟩
  have hlen : (text.take done).length = done := List.length_take_of_le hdone
  have hfront : (text.take done).take done = text.take done :=
    List.take_of_length_le (Nat.le_of_eq hlen)
  have hback (k : Nat) : (text.take done).drop (done + k) = [] :=
    List.drop_eq_nil_of_le (by omega)
  simp only [Volume.writeAt, Function.update_self, hinode, hlen, Nat.sub_self,
    List.replicate_zero, List.append_nil, hfront, hback]
  exact List.take_add.symm

theorem rename {i : Nat} {text : List α}
    (h : v.Replaces (.writing i text text.length) saved) (hrename : v.rename = some v') :
    v'.Replaces .idle (some text) := by
  obtain ⟨htmp, hinode, -⟩ := h.writer
  unfold Volume.rename at hrename
  rw [htmp] at hrename
  cases hrename
  refine ⟨?_, ?_, by simp, by simp, trivial⟩
  · simp [Volume.read, hinode]
  · rintro j hj
    cases hj
    exact h.tmp_lt i htmp

/-- What a step of a writer leaves, while no other one writes. -/
theorem step {fill : α} {a : FileAction α} (h : v.Replaces w saved)
    (hstep : replaceStep fill v w a = some (v', w')) : v'.Replaces w' (w.saves a saved) := by
  cases w with
  | idle =>
      cases a with
      | create text =>
          cases hstep
          exact h.create text
      | _ => cases hstep
  | writing i text done =>
      cases a with
      | create _ => cases hstep
      | write n =>
          simp only [replaceStep] at hstep
          split at hstep
          · cases hstep
            exact h.writeAt fill (by assumption)
          · cases hstep
      | fail =>
          cases hstep
          exact h.stop
      | rename =>
          simp only [replaceStep] at hstep
          split at hstep
          · subst done
            simp only [Option.map_eq_some_iff, Prod.mk.injEq] at hstep
            obtain ⟨v, hrename, rfl, rfl⟩ := hstep
            exact h.rename hrename
          · cases hstep

end Volume.Replaces

end Bulwark.Foundation
