import Bulwark.Foundation.Bytes

/-!
# Frames on a stream

A frame is a body behind a header of fixed width that tells its length.  A reader takes
header and body in turn, each as soon as enough has arrived.  What it has read and what
it still holds is always the whole stream, so the pieces the stream arrives in do not
matter, and a stream has at most one reading.
-/

namespace Bulwark.Foundation

structure Framing (β : Type) where
  width : Nat
  limit : Nat
  header : Nat → List β
  size : List β → Nat
  length_header : ∀ n, (header n).length = width
  size_header : ∀ n, n ≤ limit → size (header n) = n
  header_size : ∀ h, h.length = width → header (size h) = h ∧ size h ≤ limit

/-- `read_exact` on what has arrived. -/
def readExact {β : Type} (n : Nat) (unread : List β) : Option (List β × List β) :=
  if n ≤ unread.length then some (unread.take n, unread.drop n) else none

theorem readExact_eq_some {β : Type} {n : Nat} {unread got rest : List β} :
    readExact n unread = some (got, rest) ↔ unread = got ++ rest ∧ got.length = n := by
  unfold readExact
  constructor
  · intro h
    split at h
    · rename_i hle
      cases h
      simp [hle]
    · cases h
  · rintro ⟨rfl, rfl⟩
    simp

namespace Framing

variable {β : Type} (F : Framing β)

def frame (body : List β) : List β := F.header body.length ++ body

def stream (bodies : List (List β)) : List β := bodies.flatMap F.frame

def Fits (bodies : List (List β)) : Prop := ∀ body ∈ bodies, body.length ≤ F.limit

@[simp] theorem stream_nil : F.stream [] = [] := rfl

@[simp] theorem stream_cons (body : List β) (bodies : List (List β)) :
    F.stream (body :: bodies) = F.frame body ++ F.stream bodies := rfl

@[simp] theorem stream_append (as bs : List (List β)) :
    F.stream (as ++ bs) = F.stream as ++ F.stream bs := List.flatMap_append

@[simp] theorem stream_singleton (body : List β) : F.stream [body] = F.frame body := by
  simp [stream]

@[simp] theorem fits_nil : F.Fits [] := by simp [Fits]

@[simp] theorem fits_append {as bs : List (List β)} :
    F.Fits (as ++ bs) ↔ F.Fits as ∧ F.Fits bs := by
  simp [Fits, or_imp, forall_and]

variable {F}

theorem frame_cancel {a b x y : List β} (h : F.frame a ++ x = F.frame b ++ y)
    (ha : a.length ≤ F.limit) (hb : b.length ≤ F.limit) : a = b ∧ x = y := by
  unfold frame at h
  rw [List.append_assoc, List.append_assoc] at h
  obtain ⟨hheader, hbody⟩ :=
    List.append_inj h ((F.length_header _).trans (F.length_header _).symm)
  have hlength : a.length = b.length := by
    have hsize := congrArg F.size hheader
    rwa [F.size_header _ ha, F.size_header _ hb] at hsize
  exact List.append_inj hbody hlength

/-- A stream has one reading of each number of bodies. -/
theorem stream_cancel {as bs : List (List β)} {x y : List β}
    (h : F.stream as ++ x = F.stream bs ++ y) (hlength : as.length = bs.length) (ha : F.Fits as)
    (hb : F.Fits bs) : as = bs ∧ x = y := by
  induction as generalizing bs with
  | nil =>
      cases bs with
      | nil => exact ⟨rfl, h⟩
      | cons b bs => cases hlength
  | cons a as ih =>
      cases bs with
      | nil => cases hlength
      | cons b bs =>
          simp only [stream_cons, List.append_assoc] at h
          obtain ⟨rfl, hrest⟩ :=
            frame_cancel h (ha a List.mem_cons_self) (hb b List.mem_cons_self)
          obtain ⟨rfl, rfl⟩ := ih hrest (by simpa using hlength)
            (fun body hbody => ha body (List.mem_cons_of_mem _ hbody))
            fun body hbody => hb body (List.mem_cons_of_mem _ hbody)
          exact ⟨rfl, rfl⟩

theorem stream_prefix {as bs : List (List β)} {x y : List β}
    (h : F.stream as ++ x = F.stream bs ++ y) (hlength : as.length ≤ bs.length) (ha : F.Fits as)
    (hb : F.Fits bs) : as <+: bs := by
  have hsplit : bs = bs.take as.length ++ bs.drop as.length := by simp
  rw [hsplit, stream_append, List.append_assoc] at h
  have htake : F.Fits (bs.take as.length) := fun body hbody => hb body (List.mem_of_mem_take hbody)
  obtain ⟨heq, -⟩ := stream_cancel h (by simp [hlength]) ha htake
  rw [heq]
  exact List.take_prefix _ _

end Framing

@[simp] theorem u16At_toBe16 (x : UInt16) : u16At (toBe16 x) 0 = some x :=
  congrArg some (be16_toBe16 x)

def be16Size (header : Bytes) : Nat := ((u16At header 0).getD 0).toNat

theorem be16Size_toBe16 (n : Nat) (hn : n ≤ 65535) : be16Size (toBe16 (.ofNat n)) = n := by
  simp [be16Size]
  omega

theorem toBe16_be16Size (header : Bytes) (hlength : header.length = 2) :
    toBe16 (.ofNat (be16Size header)) = header ∧ be16Size header ≤ 65535 := by
  obtain ⟨hi, lo, rfl⟩ := List.length_eq_two.mp hlength
  have := hi.toNat_lt
  have := lo.toNat_lt
  refine ⟨?_, Nat.le_of_lt_succ (UInt16.toNat_lt _)⟩
  simp [be16Size, u16At, toBe16, be16, ← UInt8.toNat_inj]
  omega

/-- Two bytes in front, the length in network order. -/
def be16Framing : Framing UInt8 where
  width := 2
  limit := 65535
  header n := toBe16 (.ofNat n)
  size := be16Size
  length_header _ := rfl
  size_header := be16Size_toBe16
  header_size := toBe16_be16Size

/-! ## Readers -/

structure FrameReader (β : Type) where
  /-- The length of the body that comes next, where its header has been read. -/
  expected : Option Nat
  unread : List β

namespace FrameReader

variable {β : Type} (F : Framing β)

def start : FrameReader β := ⟨none, []⟩

def feed (r : FrameReader β) (chunk : List β) : FrameReader β :=
  { r with unread := r.unread ++ chunk }

/-- Takes the header or the body that is next; a body is handed out. -/
def next (r : FrameReader β) : Option (Option (List β) × FrameReader β) :=
  match r.expected with
  | none => (readExact F.width r.unread).map fun (h, rest) => (none, ⟨some (F.size h), rest⟩)
  | some n => (readExact n r.unread).map fun (body, rest) => (some body, ⟨none, rest⟩)

/-- What has arrived and belongs to no body that was handed out. -/
def held (r : FrameReader β) : List β := (r.expected.map F.header).getD [] ++ r.unread

def Sound (r : FrameReader β) : Prop := ∀ n, r.expected = some n → n ≤ F.limit

@[simp] theorem held_start : (start : FrameReader β).held F = [] := rfl

@[simp] theorem sound_start : (start : FrameReader β).Sound F := by simp [Sound, start]

@[simp] theorem held_feed (r : FrameReader β) (chunk : List β) :
    (r.feed chunk).held F = r.held F ++ chunk := by
  simp [held, feed]

@[simp] theorem sound_feed (r : FrameReader β) (chunk : List β) :
    (r.feed chunk).Sound F ↔ r.Sound F := Iff.rfl

variable {F}

theorem held_of_next {r r' : FrameReader β} {body : Option (List β)} (hsound : r.Sound F)
    (h : r.next F = some (body, r')) :
    r.held F = F.stream body.toList ++ r'.held F ∧ F.Fits body.toList ∧ r'.Sound F := by
  unfold next at h
  cases hexpected : r.expected with
  | none =>
      simp only [hexpected, Option.map_eq_some_iff, Prod.exists, Prod.mk.injEq] at h
      obtain ⟨header, rest, hread, rfl, rfl⟩ := h
      obtain ⟨hunread, hlength⟩ := readExact_eq_some.mp hread
      obtain ⟨hheader, hlimit⟩ := F.header_size header hlength
      refine ⟨?_, F.fits_nil, ?_⟩
      · simp [held, hexpected, hunread, hheader]
      · simpa [Sound] using hlimit
  | some n =>
      simp only [hexpected, Option.map_eq_some_iff, Prod.exists, Prod.mk.injEq] at h
      obtain ⟨body, rest, hread, rfl, rfl⟩ := h
      obtain ⟨hunread, hlength⟩ := readExact_eq_some.mp hread
      refine ⟨?_, ?_, by simp [Sound]⟩
      · simp [held, hexpected, hunread, hlength, Framing.frame]
      · simpa [Framing.Fits, hlength] using hsound n hexpected

theorem incomplete_of_next {r : FrameReader β} (hsound : r.Sound F) (h : r.next F = none)
    {body rest : List β} (hbody : body.length ≤ F.limit) : r.held F ≠ F.frame body ++ rest := by
  intro heq
  unfold next at h
  cases hexpected : r.expected with
  | none =>
      simp only [hexpected, Option.map_eq_none_iff, readExact, ite_eq_right_iff, reduceCtorEq,
        imp_false] at h
      simp only [held, hexpected, Option.map_none, Option.getD_none, List.nil_append] at heq
      apply h
      simp [heq, Framing.frame, F.length_header]
  | some n =>
      simp only [hexpected, Option.map_eq_none_iff, readExact, ite_eq_right_iff, reduceCtorEq,
        imp_false] at h
      simp only [held, hexpected, Option.map_some, Option.getD_some, Framing.frame,
        List.append_assoc] at heq
      obtain ⟨hheader, hunread⟩ :=
        List.append_inj heq ((F.length_header _).trans (F.length_header _).symm)
      have hsize := congrArg F.size hheader
      rw [F.size_header _ (hsound n hexpected), F.size_header _ hbody] at hsize
      apply h
      simp [hunread, hsize]

end FrameReader

end Bulwark.Foundation
