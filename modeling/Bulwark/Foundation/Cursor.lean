import Bulwark.Foundation.Bytes

/-!
# Bounds-checked readers

A cursor moves forward over a buffer and notes every span it reads.  A reader on
cursors refines one that returns what is left of the buffer: it returns the same,
stops where that one does, never panics and reads only inside the buffer.
-/

namespace Bulwark.Foundation

structure Cursor where
  data : Bytes
  pos : Nat
  spans : List (Nat × Nat)

namespace Cursor

def start (data : Bytes) : Cursor := ⟨data, 0, []⟩

structure Inside (r : Cursor) : Prop where
  pos : r.pos ≤ r.data.length
  spans : ∀ span ∈ r.spans, span.1 ≤ span.2 ∧ span.2 ≤ r.data.length

theorem inside_start (data : Bytes) : (start data).Inside := ⟨Nat.zero_le _, by simp [start]⟩

def rest (r : Cursor) : Bytes := r.data.drop r.pos

end Cursor

/-- Why a reader does not return: the bytes are not what it expects, or the program ends. -/
inductive Halt where
  | cut
  | panic
  deriving DecidableEq, Repr

def Read (α : Type) := Cursor → Except Halt α × Cursor

namespace Read

variable {α β : Type}

def halt (why : Halt) : Read α := fun r => (.error why, r)

instance : Monad Read where
  pure a := fun r => (.ok a, r)
  bind m k := fun r =>
    match m r with
    | (.ok a, r) => k a r
    | (.error why, r) => (.error why, r)

/-- The next `n` bytes.  A sum that is no position is past the end of every buffer. -/
def take (n : Nat) : Read Bytes := fun r =>
  let stop := r.pos + n
  if stop ≤ r.data.length then
    (.ok ((r.data.drop r.pos).take n), { r with pos := stop, spans := (r.pos, stop) :: r.spans })
  else (.error .cut, r)

def le (k : Nat) : Read Nat := do
  let bytes ← take k
  if bytes.length = k then pure (ofLe bytes) else halt .cut

def byte : Read Nat := do
  let bytes ← take 1
  match bytes[0]? with
  | some b => pure b.toNat
  | none => halt .panic

def items (m : Read α) : Nat → Read (List α)
  | 0 => pure []
  | n + 1 => do
      let a ← m
      let as ← items m n
      pure (a :: as)

theorem bind_apply (m : Read α) (k : α → Read β) (r : Cursor) :
    (m >>= k) r = match m r with
      | (.ok a, r) => k a r
      | (.error why, r) => (.error why, r) :=
  rfl

/-! ## Refinement -/

/-- The reader on cursors does what `f` does with the rest of the buffer. -/
def Refines (m : Read α) (f : Bytes → Option (α × Bytes)) : Prop :=
  ∀ r, r.Inside →
    (m r).2.Inside ∧ (m r).2.data = r.data ∧
      match f r.rest with
      | some (a, rest) => (m r).1 = .ok a ∧ (m r).2.rest = rest
      | none => (m r).1 = .error .cut

theorem refines_pure (a : α) : Refines (pure a) fun data => some (a, data) :=
  fun _ h => ⟨h, rfl, rfl, rfl⟩

theorem refines_cut : Refines (halt .cut : Read α) fun _ => none := fun _ h => ⟨h, rfl, rfl⟩

theorem Refines.bind {m : Read α} {f : Bytes → Option (α × Bytes)} {k : α → Read β}
    {g : α → Bytes → Option (β × Bytes)} (hm : Refines m f)
    (hk : ∀ a, Refines (k a) (g a)) :
    Refines (m >>= k) fun data => (f data).bind fun p => g p.1 p.2 := by
  intro r hr
  obtain ⟨hinside, hdata, hresult⟩ := hm r hr
  rw [bind_apply]
  generalize m r = out at hinside hdata hresult ⊢
  obtain ⟨result, r'⟩ := out
  cases hf : f r.rest with
  | none =>
      rw [hf] at hresult
      obtain rfl : result = .error .cut := hresult
      refine ⟨hinside, hdata, ?_⟩
      simp only [hf, Option.bind_none]
  | some p =>
      rw [hf] at hresult
      obtain ⟨heq, hrest⟩ := hresult
      obtain rfl : result = .ok p.1 := heq
      change r'.rest = p.2 at hrest
      obtain ⟨hinside', hdata', hresult'⟩ := hk p.1 r' hinside
      refine ⟨hinside', hdata'.trans hdata, ?_⟩
      rw [hrest] at hresult'
      simp only [hf, Option.bind_some]
      exact hresult'

theorem Refines.congr {m : Read α} {f g : Bytes → Option (α × Bytes)} (hm : Refines m f)
    (h : ∀ data, f data = g data) : Refines m g := by
  obtain rfl : f = g := funext h
  exact hm

theorem refines_ite {c : Prop} [Decidable c] {m m' : Read α} {f f' : Bytes → Option (α × Bytes)}
    (h : c → Refines m f) (h' : ¬ c → Refines m' f') :
    Refines (if c then m else m') fun data => if c then f data else f' data := by
  by_cases hc : c
  · simpa only [if_pos hc] using h hc
  · simpa only [if_neg hc] using h' hc

theorem refines_take (n : Nat) : Refines (take n) fun data =>
    if n ≤ data.length then some (data.take n, data.drop n) else none := by
  intro r hr
  have hpos := hr.pos
  unfold take Cursor.rest
  dsimp only
  rw [List.length_drop]
  by_cases hstop : r.pos + n ≤ r.data.length
  · rw [if_pos hstop, if_pos (by omega)]
    refine ⟨⟨hstop, ?_⟩, rfl, rfl, by rw [List.drop_drop]⟩
    intro span hspan
    rcases List.mem_cons.mp hspan with rfl | hspan
    · exact ⟨Nat.le_add_right _ _, hstop⟩
    · exact hr.spans span hspan
  · rw [if_neg hstop, if_neg (by omega)]
    exact ⟨hr, rfl, rfl⟩

theorem refines_le (k : Nat) : Refines (le k) fun data =>
    (if k ≤ data.length then some (data.take k, data.drop k) else none).map fun p =>
      (ofLe p.1, p.2) := by
  have hbind := (refines_take k).bind fun bytes => @refines_ite Nat (bytes.length = k) _ _ _ _ _
    (fun _ => refines_pure (ofLe bytes)) (fun _ => refines_cut)
  apply hbind.congr
  intro data
  by_cases hk : k ≤ data.length <;> simp [hk]

/-- The byte that was taken is there. -/
theorem refines_byte : Refines byte fun data =>
    (if 1 ≤ data.length then some (data.take 1, data.drop 1) else none).map fun p =>
      (ofLe p.1, p.2) := by
  intro r hr
  obtain ⟨hinside, hdata, hresult⟩ := refines_take 1 r hr
  unfold byte
  rw [bind_apply]
  generalize take 1 r = out at hinside hdata hresult ⊢
  obtain ⟨result, r'⟩ := out
  cases hrest : r.rest with
  | nil =>
      rw [hrest] at hresult
      obtain rfl : result = .error .cut := hresult
      exact ⟨hinside, hdata, rfl⟩
  | cons b rest =>
      rw [hrest] at hresult
      obtain ⟨heq, hdrop⟩ := hresult
      obtain rfl : result = .ok [b] := heq
      exact ⟨hinside, hdata, rfl, hdrop⟩

theorem Refines.items {m : Read α} {f : Bytes → Option (α × Bytes)}
    {fs : Nat → Bytes → Option (List α × Bytes)} (hm : Refines m f)
    (hzero : ∀ data, fs 0 data = some ([], data))
    (hsucc : ∀ n data, fs (n + 1) data =
      (f data).bind fun p => (fs n p.2).bind fun q => some (p.1 :: q.1, q.2)) (n : Nat) :
    Refines (items m n) (fs n) := by
  induction n with
  | zero =>
      have h : fs 0 = fun data => some ([], data) := funext hzero
      rw [h]
      exact refines_pure []
  | succ n ih =>
      have h : fs (n + 1) = fun data =>
          (f data).bind fun p => (fs n p.2).bind fun q => some (p.1 :: q.1, q.2) :=
        funext (hsucc n)
      rw [h]
      exact hm.bind fun a => ih.bind fun as => refines_pure (a :: as)

end Read

end Bulwark.Foundation
