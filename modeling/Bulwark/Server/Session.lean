import Bulwark.Foundation.Base64
import Bulwark.Foundation.Literal
import Bulwark.Foundation.Utf8

/-!
# Sessions

A session is a token that the server has signed: the time it was issued at and the time it
expires at, with a keyed hash over both.  There is one text for every token, and nothing
but its expiry ends a session.
-/

namespace Bulwark.Server

open Bulwark.Foundation

structure Claims where
  iat : UInt64
  exp : UInt64
  deriving DecidableEq, Repr

/-- `serde_json::to_vec`. -/
def Claims.toVec (c : Claims) : Bytes :=
  utf8Bytes ("\x7b\"iat\":".toList ++ renderDecimal c.iat.toNat ++ ",\"exp\":".toList ++
    renderDecimal c.exp.toNat ++ "\x7d".toList)

structure SessionSigner where
  secret : Bytes
  ttl : UInt64

inductive SessionVerdict where
  | invalid
  | valid
  | refresh
  deriving DecidableEq, Repr

def sessionTtlSecs : UInt64 := 14 * 24 * 3600

/-- The fixed header, for HS256. -/
def jwtHeaderB64 : Text := "eyJhbGciOiJIUzI1NiIsInR5cCI6IkpXVCJ9".toList

namespace SessionSigner

def new (secretB64 : Text) (ttl : UInt64) : SessionSigner :=
  ⟨(Base64.decode secretB64).getD (utf8Bytes secretB64), ttl⟩

section

variable (mac : Bytes → Bytes → Bytes) (fromSlice : Bytes → Option Claims) (s : SessionSigner)

def sign (signingInput : Text) : Text := Base64.encode (mac s.secret (utf8Bytes signingInput))

def token (signingInput : Text) : Text := signingInput ++ '.' :: s.sign mac signingInput

def signingInput (payload : Bytes) : Text := jwtHeaderB64 ++ '.' :: Base64.encode payload

/-- Times add up modulo the width of the counter. -/
def claimsAt (now : UInt64) : Claims := ⟨now, now + s.ttl⟩

def issue (now : UInt64) : Text := s.token mac (signingInput (s.claimsAt now).toVec)

def verifyInner (token : Text) : Option Claims :=
  match splitn '.' 4 token with
  | [header, payload, sig] =>
      if header ≠ jwtHeaderB64 then none
      else do
        let expected ← Base64.decode sig
        if mac s.secret (utf8Bytes (header ++ '.' :: payload)) = expected then
          let payload ← Base64.decode payload
          fromSlice payload
        else none
  | _ => none

def check (now : UInt64) (token : Text) : SessionVerdict :=
  match s.verifyInner mac fromSlice token with
  | none => .invalid
  | some claims =>
      if claims.exp ≤ now then .invalid
      else if claims.iat + s.ttl / 2 ≤ now then .refresh
      else .valid

def verify (now : UInt64) (token : Text) : Bool := s.check mac fromSlice now token ≠ .invalid

end

/-! ## Tokens -/

section

variable {mac : Bytes → Bytes → Bytes} {fromSlice : Bytes → Option Claims} {s : SessionSigner}

theorem dot_notMem_encode (bytes : Bytes) : '.' ∉ Base64.encode bytes := by
  intro h
  have hdot : '.' ∉ Base64.alphabet := by decide
  exact hdot (Base64.mem_encode h)

theorem dot_notMem_header : '.' ∉ jwtHeaderB64 := by decide

theorem splitn_four {a b c : Text} (ha : '.' ∉ a) (hb : '.' ∉ b) (hc : '.' ∉ c) :
    splitn '.' 4 (a ++ '.' :: (b ++ '.' :: c)) = [a, b, c] := by
  have hlast : splitOnce '.' c = none := by
    cases h : splitOnce '.' c with
    | none => rfl
    | some pair =>
        obtain ⟨rfl, -⟩ := splitOnce_eq_some h
        simp at hc
  simp [splitn, splitOnce_append ha, splitOnce_append hb, hlast]

theorem eq_of_splitn_four {t a b c : Text} (h : splitn '.' 4 t = [a, b, c]) :
    t = a ++ '.' :: (b ++ '.' :: c) := by
  simp only [splitn] at h
  split at h
  · simp at h
  · rename_i before after hfirst
    obtain ⟨rfl, -⟩ := splitOnce_eq_some hfirst
    split at h
    · simp at h
    · rename_i before' after' hsecond
      obtain ⟨rfl, -⟩ := splitOnce_eq_some hsecond
      split at h
      · simp only [List.cons.injEq, and_true] at h
        obtain ⟨rfl, rfl, rfl⟩ := h
        rfl
      · simp at h

theorem token_signingInput (payload : Bytes) : s.token mac (signingInput payload) =
    jwtHeaderB64 ++ '.' :: (Base64.encode payload ++ '.' :: s.sign mac (signingInput payload)) := by
  simp [token, signingInput]

theorem verifyInner_token (payload : Bytes) :
    s.verifyInner mac fromSlice (s.token mac (signingInput payload)) = fromSlice payload := by
  have hsplit := splitn_four dot_notMem_header (dot_notMem_encode payload)
    (dot_notMem_encode (mac s.secret (utf8Bytes (signingInput payload))))
  rw [token_signingInput, verifyInner, sign, hsplit]
  simp [Base64.decode_encode, signingInput]

/-- A text that is accepted is the one text of the token of its payload. -/
theorem token_of_verifyInner {t : Text} {claims : Claims}
    (h : s.verifyInner mac fromSlice t = some claims) :
    ∃ payload, fromSlice payload = some claims ∧ t = s.token mac (signingInput payload) := by
  unfold verifyInner at h
  split at h
  · rename_i header payload sig hsplit
    obtain rfl := eq_of_splitn_four hsplit
    split at h
    · cases h
    · rename_i hheader
      simp only [ne_eq, not_not] at hheader
      simp only [Option.bind_eq_bind, Option.bind_eq_some_iff] at h
      obtain ⟨expected, hexpected, h⟩ := h
      split at h
      · rename_i hmac
        obtain ⟨bytes, hbytes, h⟩ := Option.bind_eq_some_iff.mp h
        refine ⟨bytes, h, ?_⟩
        subst hheader hmac
        rw [token_signingInput, sign, signingInput, Base64.encode_of_decode hbytes,
          Base64.encode_of_decode hexpected]
      · cases h
  · cases h

theorem fresh_of_exp {now ttl later : UInt64} (h : ¬ now + ttl ≤ later) :
    later.toNat < now.toNat + ttl.toNat := by
  simp only [UInt64.le_iff_toNat_le, UInt64.toNat_add] at h
  have := Nat.mod_le (now.toNat + ttl.toNat) (2 ^ 64)
  omega

end

end SessionSigner

end Bulwark.Server
