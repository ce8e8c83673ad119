import Bulwark.Server.Session
import Bulwark.Server.Setup

/-!
# Who may call the API

Every request passes the check of its origin, and all but four routes ask for a session.  A
session starts with a login or the setup, and goes on as long as it is used: past half its
lifetime the response brings a new token.
-/

namespace Bulwark.Server

open Bulwark.Foundation
open Bulwark.Api (AuthConfig)

/-! ## Requests -/

/-- The headers that are read, where their values are texts. -/
structure Headers where
  cookie : Option Text := none
  origin : Option Text := none
  host : Option Text := none
  secFetchSite : Option Text := none
  xForwardedProto : Option Text := none

inductive Method where
  | get
  | head
  | options
  | post
  | put
  | delete
  | other
  deriving DecidableEq, Repr

def Method.reads : Method → Bool
  | .get | .head | .options => true
  | _ => false

structure Request where
  method : Method
  path : Text
  headers : Headers
  /-- The body, where it is read as credentials. -/
  body : Option Credentials := none

/-- Accepts missing origins and origins matching `Host`. -/
def originMatchesHost (headers : Headers) : Bool :=
  match headers.origin with
  | none => true
  | some origin =>
      match splitOnceStr "://".toList origin, headers.host with
      | some (_, o), some h => toAsciiLowercase o = toAsciiLowercase h
      | _, _ => false

/-- `Sec-Fetch-Site` takes precedence. -/
def crossOriginProtection (request : Request) : Bool :=
  request.method.reads ||
    match request.headers.secFetchSite with
    | some site => site = "same-origin".toList || site = "none".toList
    | none => originMatchesHost request.headers

/-! ## Cookies -/

def sessionCookieName : Text := "bw_session".toList

def sessionAttributes (secure : Bool) : Text :=
  "; HttpOnly; SameSite=Lax; Path=/; Max-Age=".toList ++ renderDecimal sessionTtlSecs.toNat ++
    if secure then "; Secure".toList else []

def sessionCookie (token : Text) (secure : Bool) : Text :=
  sessionCookieName ++ '=' :: token ++ sessionAttributes secure

def logoutCookie : Text := sessionCookieName ++ "=; HttpOnly; Path=/; Max-Age=0".toList

def cookieValue (kv : Text) : Option Text :=
  (splitOnce '=' (trim kv)).bind fun (k, v) => if k = sessionCookieName then some v else none

def cookieToken (headers : Headers) : Option Text :=
  headers.cookie.bind fun cookie => (cookie.splitOn ';').findSome? cookieValue

def isHttps (headers : Headers) : Bool :=
  headers.xForwardedProto.any fun p => toAsciiLowercase p = "https".toList

/-! ## Routes -/

structure Route where
  path : Text
  methods : List Method
  guarded : Bool

/-- What `get` serves. -/
def getting : List Method := [.get, .head]

def publicRoutes : List (Text × List Method) :=
  [("/api/status".toList, getting), ("/api/setup".toList, [.post]),
    ("/api/login".toList, [.post]), ("/api/logout".toList, [.post])]

def protectedRoutes : List (Text × List Method) :=
  [("/api/config".toList, getting),
    ("/api/config/upstreams".toList, [.put]),
    ("/api/config/cache".toList, [.put]),
    ("/api/config/filtering".toList, [.put]),
    ("/api/config/server".toList, [.put]),
    ("/api/config/querylog".toList, [.put]),
    ("/api/config/upstreamlog".toList, [.put]),
    ("/api/config/stats".toList, [.put]),
    ("/api/config/privacy".toList, [.put]),
    ("/api/filters".toList, getting),
    ("/api/filters/custom".toList, [.put]),
    ("/api/filters/rule".toList, [.post]),
    ("/api/filters/check".toList, [.post]),
    ("/api/filters/lists".toList, [.post]),
    ("/api/filters/lists/\x7bid\x7d".toList, [.put, .delete]),
    ("/api/filters/lists/\x7bid\x7d/refresh".toList, [.post]),
    ("/api/clients".toList, getting ++ [.post]),
    ("/api/clients/\x7bid\x7d".toList, [.put, .delete]),
    ("/api/stats".toList, getting),
    ("/api/stats/reset".toList, [.post]),
    ("/api/querylog".toList, getting ++ [.delete]),
    ("/api/upstreamlog".toList, [.delete]),
    ("/api/upstreamlog/export".toList, getting),
    ("/api/upstreams".toList, getting),
    ("/api/upstreams/test".toList, [.post])]

def router : List Route :=
  publicRoutes.map (fun (path, methods) => ⟨path, methods, false⟩) ++
    protectedRoutes.map fun (path, methods) => ⟨path, methods, true⟩

/-! ## The API -/

inductive Occasion where
  | setup (creds : Credentials)
  | login (auth : AuthConfig) (creds : Credentials)
  | renewal (parent : Text) (checkedAt : UInt64)

structure Issue where
  token : Text
  issuedAt : UInt64
  occasion : Occasion

structure Handled where
  request : Request
  token : Text
  checkedAt : UInt64

structure Sessions where
  auth : AuthConfig
  issued : List Issue := []
  handled : List Handled := []

/-- A request, the times the clock shows while it is served, and the hash that its setup
installs where that succeeds. -/
structure ApiCall where
  request : Request
  now : UInt64
  later : UInt64
  setup : Option Text := none

structure StatusResponse where
  setupNeeded : Bool
  authed : Bool
  deriving DecidableEq, Repr

structure Response where
  status : Nat
  setCookie : Option Text := none
  deriving DecidableEq, Repr

section

variable (mac : Bytes → Bytes → Bytes) (fromSlice : Bytes → Option Claims)
  (verifyPassword : Text → Text → Bool) (signer : SessionSigner)

namespace Sessions

def issue (s : Sessions) (call : ApiCall) (occasion : Occasion) : Sessions :=
  { s with issued := s.issued ++ [⟨signer.issue mac call.later, call.later, occasion⟩] }

def issuedCookie (call : ApiCall) : Option Text :=
  some (sessionCookie (signer.issue mac call.later) (isHttps call.request.headers))

def loginOk (auth : AuthConfig) (creds : Credentials) : Bool :=
  auth.username = creds.username && auth.passwordHash.any (verifyPassword creds.password)

def login (s : Sessions) (call : ApiCall) : Sessions × Response :=
  match call.request.body with
  -- the extractor says which client error it is
  | none => (s, { status := 400 })
  | some creds =>
      if loginOk verifyPassword s.auth creds then
        (s.issue mac signer call (.login s.auth creds),
          { status := 200, setCookie := issuedCookie mac signer call })
      else (s, { status := 401 })

def setup (s : Sessions) (call : ApiCall) : Sessions × Response :=
  match call.request.body, call.setup with
  | some creds, some hash =>
      ({ s with
          auth := { s.auth with username := creds.username, passwordHash := some hash } }.issue
          mac signer call (.setup creds),
        { status := 200, setCookie := issuedCookie mac signer call })
  | _, _ => (s, { status := 400 })

def servePublic (s : Sessions) (call : ApiCall) : Sessions × Response :=
  if call.request.path = "/api/login".toList then
    s.login mac verifyPassword signer call
  else if call.request.path = "/api/setup".toList then s.setup mac signer call
  else if call.request.path = "/api/logout".toList then
    (s, { status := 200, setCookie := some logoutCookie })
  else (s, { status := 200 })

def handle (s : Sessions) (route : Route) (call : ApiCall) (token : Text) :
    Sessions × Response :=
  if call.request.method ∈ route.methods then
    ({ s with handled := s.handled ++ [⟨call.request, token, call.now⟩] }, { status := 200 })
  else (s, { status := 405 })

/-- Rejects requests without a valid session. -/
def requireAuth (s : Sessions) (route : Route) (call : ApiCall) : Sessions × Response :=
  match cookieToken call.request.headers with
  | none => (s, { status := 401 })
  | some token =>
      match signer.check mac fromSlice call.now token with
      | .invalid => (s, { status := 401 })
      | .valid => s.handle route call token
      | .refresh =>
          let (s, response) := s.handle route call token
          (s.issue mac signer call (.renewal token call.now),
            { response with setCookie := issuedCookie mac signer call })

/-- What the status says, apart from the version and the addresses of the server. -/
def status (s : Sessions) (call : ApiCall) : StatusResponse where
  setupNeeded := s.auth.needsSetup
  authed := (cookieToken call.request.headers).any (signer.verify mac fromSlice call.now)

def serve (s : Sessions) (call : ApiCall) : Sessions × Response :=
  if crossOriginProtection call.request then
    match router.find? fun route => route.path = call.request.path with
    | none => (s, { status := 404 })
    | some route =>
        if route.guarded then s.requireAuth mac fromSlice signer route call
        else if call.request.method ∈ route.methods then
          s.servePublic mac verifyPassword signer call
        else (s, { status := 405 })
  else (s, { status := 403 })

def step (s : Sessions) (call : ApiCall) : Option Sessions :=
  some (s.serve mac fromSlice verifyPassword signer call).1

end Sessions

/-! ## Sessions and where they come from -/

/-- The credentials were right when the session started. -/
def Occasion.Entry : Occasion → Prop
  | .setup _ => True
  | .login auth creds => Sessions.loginOk verifyPassword auth creds = true
  | .renewal _ _ => False

/-- A token that is fresh at the time, and was issued for a login or the setup, or for a
request with such a token. -/
inductive Descends (ttl : UInt64) (issued : List Issue) : Text → UInt64 → Prop where
  | entry {i : Issue} {now : UInt64} (hi : i ∈ issued)
      (hentry : i.occasion.Entry verifyPassword)
      (hfresh : now.toNat < i.issuedAt.toNat + ttl.toNat) : Descends ttl issued i.token now
  | renewal {i : Issue} {parent : Text} {checkedAt now : UInt64} (hi : i ∈ issued)
      (hoccasion : i.occasion = .renewal parent checkedAt)
      (hparent : Descends ttl issued parent checkedAt)
      (hfresh : now.toNat < i.issuedAt.toNat + ttl.toNat) : Descends ttl issued i.token now

/-- Nobody else makes tags: a message that comes with the right one was signed before. -/
def Unforged (s : Sessions) (call : ApiCall) : Prop :=
  ∀ message sig, cookieToken call.request.headers = some (message ++ '.' :: sig) →
    Base64.decode sig = some (mac signer.secret (utf8Bytes message)) →
    ∃ i ∈ s.issued, i.token = signer.token mac message

end

section

variable {mac : Bytes → Bytes → Bytes} {fromSlice : Bytes → Option Claims}
  {verifyPassword : Text → Text → Bool} {signer : SessionSigner} {s : Sessions} {call : ApiCall}

theorem Descends.mono {ttl : UInt64} {issued more : List Issue} {token : Text} {now : UInt64}
    (h : Descends verifyPassword ttl issued token now) (hmore : issued ⊆ more) :
    Descends verifyPassword ttl more token now := by
  induction h with
  | entry hi hentry hfresh => exact .entry (hmore hi) hentry hfresh
  | renewal hi hoccasion _ hfresh ih => exact .renewal (hmore hi) hoccasion ih hfresh

variable (mac verifyPassword signer) in
structure Sessions.Sound (s : Sessions) : Prop where
  token : ∀ i ∈ s.issued, i.token = signer.issue mac i.issuedAt
  occasion : ∀ i ∈ s.issued, i.occasion.Entry verifyPassword ∨
    ∃ parent checkedAt, i.occasion = .renewal parent checkedAt ∧
      Descends verifyPassword signer.ttl s.issued parent checkedAt
  handled : ∀ h ∈ s.handled, crossOriginProtection h.request = true ∧
    Descends verifyPassword signer.ttl s.issued h.token h.checkedAt

theorem Sessions.sound_new (auth : AuthConfig) :
    Sound mac verifyPassword signer { auth := auth } where
  token := by simp
  occasion := by simp
  handled := by simp

/-- What the guard lets through was issued, and is fresh. -/
theorem Sessions.Sound.descends (h : s.Sound mac verifyPassword signer)
    (hserde : ∀ c : Claims, fromSlice c.toVec = some c) (hunforged : Unforged mac signer s call)
    {token : Text} (htoken : cookieToken call.request.headers = some token)
    (hcheck : signer.check mac fromSlice call.now token ≠ .invalid) :
    Descends verifyPassword signer.ttl s.issued token call.now := by
  unfold SessionSigner.check at hcheck
  cases hclaims : signer.verifyInner mac fromSlice token with
  | none => simp [hclaims] at hcheck
  | some claims =>
      obtain ⟨payload, hpayload, rfl⟩ := SessionSigner.token_of_verifyInner hclaims
      obtain ⟨i, hi, hsame⟩ := hunforged _ _ htoken (Base64.decode_encode _)
      have hissued : fromSlice payload = some (signer.claimsAt i.issuedAt) := by
        rw [← @SessionSigner.verifyInner_token mac fromSlice signer payload, ← hsame, h.token i hi,
          SessionSigner.issue, SessionSigner.verifyInner_token, hserde]
      rw [hpayload] at hissued
      cases hissued
      simp only [hclaims] at hcheck
      have hfresh : call.now.toNat < i.issuedAt.toNat + signer.ttl.toNat := by
        refine SessionSigner.fresh_of_exp fun hexpired => ?_
        simp [SessionSigner.claimsAt, hexpired] at hcheck
      rw [← hsame]
      rcases h.occasion i hi with hentry | ⟨parent, checkedAt, hoccasion, hparent⟩
      · exact .entry hi hentry hfresh
      · exact .renewal hi hoccasion hparent hfresh

theorem Sessions.Sound.issue (h : s.Sound mac verifyPassword signer) {occasion : Occasion}
    (hoccasion : occasion.Entry verifyPassword ∨ ∃ parent checkedAt,
      occasion = .renewal parent checkedAt ∧
        Descends verifyPassword signer.ttl s.issued parent checkedAt) :
    (s.issue mac signer call occasion).Sound mac verifyPassword signer := by
  have hmore : s.issued ⊆ (s.issue mac signer call occasion).issued := by
    simp [Sessions.issue]
  refine ⟨fun i hi => ?_, fun i hi => ?_, fun handled hhandled => ?_⟩
  · rcases List.mem_append.mp hi with hi | hi
    · exact h.token i hi
    · rw [List.mem_singleton] at hi
      simp [hi]
  · have hold : i.occasion.Entry verifyPassword ∨ ∃ parent checkedAt,
        i.occasion = .renewal parent checkedAt ∧
          Descends verifyPassword signer.ttl s.issued parent checkedAt := by
      rcases List.mem_append.mp hi with hi | hi
      · exact h.occasion i hi
      · rw [List.mem_singleton] at hi
        simpa [hi] using hoccasion
    rcases hold with hentry | ⟨parent, checkedAt, hrenewal, hparent⟩
    · exact .inl hentry
    · exact .inr ⟨parent, checkedAt, hrenewal, hparent.mono hmore⟩
  · exact (h.handled handled hhandled).imp_right fun hd => hd.mono hmore

theorem Sessions.Sound.handle (h : s.Sound mac verifyPassword signer) {route : Route}
    {token : Text} (horigin : crossOriginProtection call.request = true)
    (hdescends : Descends verifyPassword signer.ttl s.issued token call.now) :
    (s.handle route call token).1.Sound mac verifyPassword signer := by
  unfold Sessions.handle
  split
  · refine ⟨h.token, h.occasion, fun handled hhandled => ?_⟩
    rcases List.mem_append.mp hhandled with hhandled | hhandled
    · exact h.handled handled hhandled
    · rw [List.mem_singleton] at hhandled
      subst hhandled
      exact ⟨horigin, hdescends⟩
  · exact h

theorem Sessions.issued_handle (s : Sessions) (route : Route) (call : ApiCall) (token : Text) :
    (s.handle route call token).1.issued = s.issued := by
  unfold Sessions.handle
  split <;> rfl

theorem Sessions.Sound.requireAuth (h : s.Sound mac verifyPassword signer)
    (hserde : ∀ c : Claims, fromSlice c.toVec = some c) (hunforged : Unforged mac signer s call)
    {route : Route} (horigin : crossOriginProtection call.request = true) :
    (s.requireAuth mac fromSlice signer route call).1.Sound mac verifyPassword signer := by
  unfold Sessions.requireAuth
  split
  · exact h
  · rename_i token htoken
    split
    · exact h
    · rename_i hcheck
      exact h.handle horigin (h.descends hserde hunforged htoken (by simp [hcheck]))
    · rename_i hcheck
      have hdescends := h.descends hserde hunforged htoken (by simp [hcheck])
      refine (h.handle horigin hdescends).issue (.inr ⟨token, call.now, rfl, ?_⟩)
      rwa [Sessions.issued_handle]

theorem Sessions.Sound.servePublic (h : s.Sound mac verifyPassword signer) :
    (s.servePublic mac verifyPassword signer call).1.Sound mac verifyPassword signer := by
  unfold Sessions.servePublic
  split
  · unfold Sessions.login
    split
    · exact h
    · split
      · rename_i hok
        exact h.issue (.inl hok)
      · exact h
  · split
    · unfold Sessions.setup
      split
      · have hinstalled : ∀ auth, Sessions.Sound mac verifyPassword signer
            { s with auth := auth } := fun _ => ⟨h.token, h.occasion, h.handled⟩
        exact (hinstalled _).issue (.inl trivial)
      · exact h
    · split <;> exact h

theorem Sessions.Sound.serve (h : s.Sound mac verifyPassword signer)
    (hserde : ∀ c : Claims, fromSlice c.toVec = some c) (hunforged : Unforged mac signer s call) :
    (s.serve mac fromSlice verifyPassword signer call).1.Sound mac verifyPassword signer := by
  unfold Sessions.serve
  split
  · rename_i horigin
    split
    · exact h
    · split
      · exact h.requireAuth hserde hunforged horigin
      · split
        · exact h.servePublic
        · exact h
  · exact h

end

/-! ## A session -/

section

variable {mac : Bytes → Bytes → Bytes} {fromSlice : Bytes → Option Claims}
  {verifyPassword : Text → Text → Bool} {signer : SessionSigner} {s : Sessions} {call : ApiCall}

/-! ## A browser with a session -/

end

end Bulwark.Server
