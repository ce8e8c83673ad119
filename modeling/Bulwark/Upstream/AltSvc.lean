import Mathlib.Tactic.Linarith
import Bulwark.Foundation.Text

/-!
# HTTP/3 discovery

What a DoH transport learns from an `Alt-Svc` header.  An instant is a time of the
monotonic clock: seconds in 64 bits with a sign, and nanoseconds.  A lifetime is a number
of seconds.  `none` stands for a panic, which ends the server.
-/

namespace Bulwark.Upstream

open Bulwark.Foundation

/-! ## Instants -/

structure Instant where
  secs : Int
  nanos : Nat
  secs_ge : -2 ^ 63 ≤ secs
  secs_lt : secs < 2 ^ 63
  nanos_lt : nanos < 10 ^ 9
  deriving DecidableEq, Repr

namespace Instant

def total (t : Instant) : Int := t.secs * 10 ^ 9 + t.nanos

/-- `t > now` -/
def isAfter (t now : Instant) : Bool :=
  now.secs < t.secs || (now.secs = t.secs && now.nanos < t.nanos)

/-- `now + Duration::from_secs(secs)` -/
def addSecs (now : Instant) (secs : Nat) : Option Instant :=
  if h : now.secs + secs < 2 ^ 63 then
    some
      { now with
        secs := now.secs + secs
        secs_ge := by linarith [now.secs_ge]
        secs_lt := h }
  else none

theorem isAfter_iff (t now : Instant) : t.isAfter now = true ↔ now.total < t.total := by
  have hnow := now.nanos_lt
  have ht := t.nanos_lt
  simp only [isAfter, total, Bool.or_eq_true, Bool.and_eq_true, decide_eq_true_eq]
  omega

end Instant

/-! ## The header -/

inductive AltSvcH3 where
  | found (ma : Nat)
  | clear
  | absent
  deriving DecidableEq, Repr

def defaultAltSvcMa : Nat := 86400

/-- `parse::<u64>()`, which allows a sign. -/
def parseU64 (t : Text) : Option Nat :=
  let digits := if t.head? = some '+' then t.tail else t
  (parseDecimal digits).filter (· < 2 ^ 64)

def entryProtocol (entry : Text) : Text :=
  let proto := trim ((entry.splitOn ';').headD [])
  trim ((proto.splitOn '=').headD [])

def isH3 (entry : Text) : Bool :=
  entryProtocol entry = "h3".toList || startsWith "h3-".toList (entryProtocol entry)

/-- The lifetime of an entry: its first `ma=`, if that is a number. -/
def entryLifetime (entry : Text) : Nat :=
  let params := ((entry.splitOn ';').map trim).tail
  ((params.findSome? ("ma=".toList.isPrefixOf? ·)).bind fun s => parseU64 (trim s)).getD
    defaultAltSvcMa

def firstH3 : List Text → AltSvcH3
  | [] => .absent
  | entry :: rest => if isH3 entry then .found (entryLifetime entry) else firstH3 rest

def parseAltSvcH3 (value : Text) : AltSvcH3 :=
  let value := trim value
  if toAsciiLowercase value = "clear".toList then .clear else firstH3 (value.splitOn ',')

/-! ## What is learned -/

inductive H3Mode where
  | forced
  | auto (until' : Option Instant)
  deriving DecidableEq, Repr

def h3Fresh (mode : H3Mode) (now : Instant) : Bool :=
  match mode with
  | .auto until' => until'.any fun t => t.isAfter now
  | .forced => false

def learnAltSvc (mode : H3Mode) (now : Instant) (decision : AltSvcH3) : Option H3Mode :=
  match mode with
  | .forced => some .forced
  | .auto until' =>
      match decision with
      | .found ma => (now.addSecs ma).map fun t => .auto (some t)
      | .clear => some (.auto none)
      | .absent => some (.auto until')

/-! ## Lifetimes -/

/-- The header offers HTTP/3 for so many seconds: its first entry for it says so. -/
def Advertises (value : Text) (ma : Nat) : Prop :=
  toAsciiLowercase (trim value) ≠ "clear".toList ∧
    ∃ before entry after, (trim value).splitOn ',' = before ++ entry :: after ∧
      (∀ e ∈ before, isH3 e = false) ∧ isH3 entry = true ∧ entryLifetime entry = ma

theorem firstH3_eq_found {entries : List Text} {ma : Nat} :
    firstH3 entries = .found ma ↔ ∃ before entry after, entries = before ++ entry :: after ∧
      (∀ e ∈ before, isH3 e = false) ∧ isH3 entry = true ∧ entryLifetime entry = ma := by
  induction entries with
  | nil =>
      refine iff_of_false (fun h => by cases h) ?_
      rintro ⟨before, entry, after, h, -⟩
      simp at h
  | cons e rest ih =>
      rw [firstH3]
      cases he : isH3 e with
      | true =>
          rw [if_pos rfl]
          constructor
          · intro h
            cases h
            exact ⟨[], e, rest, rfl, fun _ h => (List.not_mem_nil h).elim, he, rfl⟩
          · rintro ⟨before, entry, after, h, hbefore, hentry, rfl⟩
            cases before with
            | nil =>
                cases h
                rfl
            | cons b before =>
                cases h
                rw [hbefore e List.mem_cons_self] at he
                cases he
      | false =>
          rw [if_neg (by simp), ih]
          constructor
          · rintro ⟨before, entry, after, rfl, hbefore, hentry⟩
            refine ⟨e :: before, entry, after, rfl, fun d hd => ?_, hentry⟩
            rcases List.mem_cons.mp hd with rfl | hd
            · exact he
            · exact hbefore d hd
          · rintro ⟨before, entry, after, h, hbefore, hentry, hma⟩
            cases before with
            | nil =>
                cases h
                rw [hentry] at he
                cases he
            | cons b before =>
                cases h
                exact ⟨before, entry, after, rfl,
                  fun d hd => hbefore d (List.mem_cons_of_mem _ hd), hentry, hma⟩

theorem parseAltSvcH3_eq_found {value : Text} {ma : Nat} :
    parseAltSvcH3 value = .found ma ↔ Advertises value ma := by
  rw [parseAltSvcH3, Advertises]
  by_cases hclear : toAsciiLowercase (trim value) = "clear".toList
  · simp [hclear]
  · rw [if_neg hclear, firstH3_eq_found]
    exact ⟨fun h => ⟨hclear, h⟩, fun h => h.2⟩

/-- Learning ends, and HTTP/3 is used for exactly the lifetime, as long as the clock can
count to the end of it. -/
theorem learnAltSvc_completes_iff (value : Text) (until' : Option Instant) (now : Instant) :
    (∃ mode, learnAltSvc (.auto until') now (parseAltSvcH3 value) = some mode ∧
      ∀ ma, Advertises value ma → ∀ t : Instant,
        h3Fresh mode t = true ↔ t.total < now.total + ma * 10 ^ 9) ↔
    ∀ ma, Advertises value ma → now.secs + ma < 2 ^ 63 := by
  constructor
  · rintro ⟨mode, hlearn, -⟩ ma hma
    rw [parseAltSvcH3_eq_found.mpr hma] at hlearn
    obtain ⟨t, ht, -⟩ := Option.map_eq_some_iff.mp hlearn
    rw [Instant.addSecs] at ht
    split at ht
    · assumption
    · cases ht
  · intro hfits
    cases hdecision : parseAltSvcH3 value with
    | found ma =>
        have hma := parseAltSvcH3_eq_found.mp hdecision
        have hsum := hfits ma hma
        refine ⟨_, by rw [learnAltSvc, Instant.addSecs, dif_pos hsum]; rfl, fun ma' hma' t => ?_⟩
        rw [← parseAltSvcH3_eq_found, hdecision] at hma'
        cases hma'
        rw [h3Fresh, Option.any_some, Instant.isAfter_iff, Instant.total, Instant.total]
        simp only [Instant.total]
        constructor <;> intro h <;> linarith
    | clear =>
        refine ⟨_, rfl, fun ma hma => ?_⟩
        rw [← parseAltSvcH3_eq_found, hdecision] at hma
        cases hma
    | absent =>
        refine ⟨_, rfl, fun ma hma => ?_⟩
        rw [← parseAltSvcH3_eq_found, hdecision] at hma
        cases hma

example : parseAltSvcH3 "h2=\":443\"; ma=3600, h3-29=\":443\"; ma=600".toList = .found 600 := by
  decide +kernel

theorem learnAltSvc_panics :
    learnAltSvc (.auto none) ⟨0, 0, by decide, by decide, by decide⟩
      (parseAltSvcH3 "h3=\":443\"; ma=18446744073709551615".toList) = none := by
  decide +kernel

end Bulwark.Upstream
