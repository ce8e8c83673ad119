import Mathlib.Data.List.Forall2
import Bulwark.Upstream.Health
import Bulwark.Upstream.SpecGrammar

/-!
# Endpoints

`UpstreamSpec::identity` names an endpoint by one text, under which `adopt_health_from`
finds the health an upstream had before a reload.  The parts of the text can be told apart,
but for the mark of forced HTTP/3: it is written like the end of a path.
-/

namespace Bulwark.Upstream

open Bulwark.Foundation

/-! ## Lower case -/

/-- ASCII, and no letter. -/
def isPlain (c : Char) : Bool := isAsciiChar c && isCaseless c

/-- What lower case makes of a character: plain ones stay, and none is made of others. -/
def LowersTo (c : Char) (piece : Text) : Prop :=
  if isPlain c then piece = [c] else piece ≠ [] ∧ ∀ d ∈ piece, isPlain d = false

/-- `str::to_lowercase`, by the tables of Unicode: each character becomes some in its place. -/
structure Lowercase where
  apply : Text → Text
  pieces : ∀ t, ∃ ps : List Text, apply t = ps.flatten ∧ List.Forall₂ LowersTo t ps

theorem isCaseless_eq_false (c : Char) : isCaseless c = false ↔
    (65 ≤ c.toNat ∧ c.toNat ≤ 90) ∨ (97 ≤ c.toNat ∧ c.toNat ≤ 122) := by
  simp [isCaseless]
  omega

theorem lowersTo_toLower (c : Char) : LowersTo c [c.toLower] := by
  unfold LowersTo isPlain
  have hascii := isAsciiChar_toLower c
  have hnat := toNat_toLower c
  split
  · rename_i hplain
    rw [Bool.and_eq_true] at hplain
    rw [(toLower_eq_iff hplain.2).mpr rfl]
  · rename_i hplain
    refine ⟨by simp, fun d hd => ?_⟩
    rw [List.mem_singleton.mp hd, hascii, Bool.and_eq_false_iff]
    rw [Bool.and_eq_true, not_and_or, Bool.not_eq_true, Bool.not_eq_true] at hplain
    refine hplain.imp_right fun hletter => ?_
    rw [isCaseless_eq_false] at hletter ⊢
    split at hnat <;> omega

def asciiLowercase : Lowercase where
  apply := toAsciiLowercase
  pieces := fun t => ⟨t.map fun c => [c.toLower],
    List.map_eq_flatMap.trans List.flatMap_def,
    List.forall₂_map_right_iff.mpr (List.forall₂_same.mpr fun c _ => lowersTo_toLower c)⟩

namespace Lowercase

variable (lower : Lowercase)

theorem mem_iff {c : Char} (hc : isPlain c = true) (t : Text) : c ∈ lower.apply t ↔ c ∈ t := by
  obtain ⟨ps, happly, hpieces⟩ := lower.pieces t
  rw [happly]
  clear happly
  induction hpieces with
  | nil => simp
  | @cons d piece t ps hpiece _ ih =>
      rw [List.flatten_cons, List.mem_append, List.mem_cons, ih]
      refine or_congr_left ?_
      unfold LowersTo at hpiece
      split at hpiece
      · rw [hpiece, List.mem_singleton]
      · rename_i hplain
        refine iff_of_false (fun hmem => ?_) ?_
        · rw [hpiece.2 c hmem] at hc
          cases hc
        · rintro rfl
          exact hplain hc

theorem head?_of_plain {c : Char} (hc : isPlain c = true) {t : Text}
    (h : (lower.apply t).head? = some c) : t.head? = some c := by
  obtain ⟨ps, happly, hpieces⟩ := lower.pieces t
  rw [happly] at h
  cases hpieces with
  | nil => cases h
  | @cons d piece t ps hpiece _ =>
      unfold LowersTo at hpiece
      split at hpiece
      · rw [hpiece] at h
        exact h
      · rw [List.flatten_cons, List.head?_append_of_ne_nil _ hpiece.1] at h
        have hmem := List.mem_of_mem_head? h
        rw [hpiece.2 c hmem] at hc
        cases hc

/-- Plain text is the lower case of itself only. -/
theorem eq_of_plain {t : Text} (h : ∀ c ∈ lower.apply t, isPlain c = true) :
    lower.apply t = t := by
  obtain ⟨ps, happly, hpieces⟩ := lower.pieces t
  rw [happly] at h ⊢
  clear happly
  induction hpieces with
  | nil => rfl
  | @cons d piece t ps hpiece _ ih =>
      rw [List.flatten_cons] at h ⊢
      rw [ih fun c hc => h c (List.mem_append_right _ hc)]
      unfold LowersTo at hpiece
      split at hpiece
      · rw [hpiece, List.singleton_append]
      · obtain ⟨c, hc⟩ := List.exists_mem_of_ne_nil _ hpiece.1
        have hplain := h c (List.mem_append_left _ hc)
        rw [hpiece.2 c hc] at hplain
        cases hplain

theorem apply_plain {t : Text} (h : ∀ c ∈ t, isPlain c = true) : lower.apply t = t := by
  obtain ⟨ps, happly, hpieces⟩ := lower.pieces t
  rw [happly]
  clear happly
  induction hpieces with
  | nil => rfl
  | @cons d piece t ps hpiece _ ih =>
      unfold LowersTo at hpiece
      rw [if_pos (h d List.mem_cons_self)] at hpiece
      rw [List.flatten_cons, hpiece, ih fun c hc => h c (List.mem_cons_of_mem _ hc)]
      rfl

end Lowercase

/-! ## Identities -/

def TransportKind.asStr : TransportKind → Text
  | .udp => "udp".toList
  | .tcp => "tcp".toList
  | .tls => "tls".toList
  | .https => "https".toList
  | .quic => "quic".toList

section

variable (lower : Lowercase)

def hostIdentity : Host → Text
  | .ip (.v6 addr) => '[' :: (renderIpv6Addr addr ++ [']'])
  | .ip (.v4 addr) => lower.apply (renderIpv4Addr addr)
  | .name n => lower.apply n

/-- A canonical endpoint identity for reload matching. -/
def UpstreamSpec.identity (spec : UpstreamSpec) : Text :=
  let h3 := if spec.forceHttp3 then "+h3".toList else []
  spec.kind.asStr ++ "://".toList ++ hostIdentity lower spec.host ++
    ':' :: (renderDecimal spec.port.toNat ++ spec.path ++ h3)

structure PoolMember where
  spec : UpstreamSpec
  health : Health

/-- The map of the old upstreams by identity; a later one takes the place of an earlier. -/
def priorOf (old : List PoolMember) (identity : Text) : Option PoolMember :=
  old.foldl (fun found u => if u.spec.identity lower = identity then some u else found) none

def adoptHealthFrom (new old : List PoolMember) : List PoolMember :=
  new.map fun up =>
    match priorOf lower old (up.spec.identity lower) with
    | some oldUp => { up with health := oldUp.health }
    | none => up

/-! ## Endpoints -/

def SameHost : Host → Host → Prop
  | .ip a, .ip b => a = b
  | .name m, .name n => lower.apply m = lower.apply n
  | _, _ => False

structure SameEndpoint (a b : UpstreamSpec) : Prop where
  kind : a.kind = b.kind
  host : SameHost lower a.host b.host
  port : a.port = b.port
  path : a.path = b.path
  forceHttp3 : a.forceHttp3 = b.forceHttp3

/-- HTTP/3 is forced on one only, whose path the other continues with `+h3`. -/
structure Collides (a b : UpstreamSpec) : Prop where
  kind : a.kind = b.kind
  host : SameHost lower a.host b.host
  port : a.port = b.port
  paths : (a.forceHttp3 = false ∧ b.forceHttp3 = true ∧ a.path = b.path ++ "+h3".toList) ∨
    (a.forceHttp3 = true ∧ b.forceHttp3 = false ∧ b.path = a.path ++ "+h3".toList)

/-- The health of the last of the upstreams at the endpoint, or that of the upstream itself. -/
def Inherits (old : List PoolMember) (up : PoolMember) (health : Health) : Prop :=
  (∃ before oldUp after, old = before ++ oldUp :: after ∧ SameEndpoint lower up.spec oldUp.spec ∧
    (∀ u ∈ after, ¬ SameEndpoint lower up.spec u.spec) ∧ health = oldUp.health) ∨
  ((∀ u ∈ old, ¬ SameEndpoint lower up.spec u.spec) ∧ health = up.health)

/-- Identities tell endpoints apart, and health goes from an endpoint to the same one only. -/
structure ExactEndpoints (new old : List PoolMember) : Prop where
  identity : ∀ up ∈ new, ∀ oldUp ∈ old,
    up.spec.identity lower = oldUp.spec.identity lower ↔ SameEndpoint lower up.spec oldUp.spec
  adopted : List.Forall₂ (fun up up' => up'.spec = up.spec ∧ Inherits lower old up up'.health)
    new (adoptHealthFrom lower new old)

end

/-! ## Specs that are accepted -/

def Accepted (spec : UpstreamSpec) : Prop := ∃ input, UpstreamSpec.parse input = .ok spec

theorem splitHostPort_name_ok {a n : Text} {d port : UInt16} (hslash : '/' ∉ a)
    (h : splitHostPort a d = .ok (.name n, port)) :
    '/' ∉ n ∧ n.head? ≠ some '[' ∧ parseIpAddr n = none := by
  by_cases hbracket : a.head? = some '['
  · obtain ⟨rest, rfl⟩ := List.head?_eq_some_iff.mp hbracket
    obtain ⟨t, after, ip, rfl, hip, hafter⟩ := splitHostPort_bracket_ok h
    rw [portAfter] at hafter
    split at hafter
    · obtain ⟨hname, -⟩ := portOr_eq_ok hafter
      cases hname
    · cases hafter
  rw [splitHostPort, strip_eq_none hbracket] at h
  dsimp only at h
  split at h
  · cases h
  rename_i hip
  split at h
  · rename_i front p hsplit
    obtain ⟨rfl, -⟩ := rsplitOnce_eq_some hsplit
    obtain ⟨hname, -⟩ := portOr_eq_ok h
    rw [hostOf] at hname
    split at hname
    · cases hname
    · rename_i hfront
      cases hname
      refine ⟨fun hmem => hslash (List.mem_append_left _ hmem), fun hhead => hbracket ?_, hfront⟩
      rw [List.head?_append, hhead]
      rfl
  · cases h
    exact ⟨hslash, hbracket, hip⟩

/-- What is known of the parts of an accepted spec. -/
structure WellFormed (spec : UpstreamSpec) : Prop where
  path : ∃ p, spec.path = '/' :: p
  name : ∀ n, spec.host = .name n → '/' ∉ n ∧ n.head? ≠ some '[' ∧ parseIpAddr n = none

theorem Accepted.wellFormed {spec : UpstreamSpec} (h : Accepted spec) : WellFormed spec := by
  obtain ⟨input, hparse⟩ := h
  have hne : trim input ≠ [] := by
    intro hnil
    rw [parse_nil hnil] at hparse
    cases hparse
  cases hscheme : splitScheme (trim input) with
  | error e =>
      rw [parse_error hne hscheme] at hparse
      cases hparse
  | ok parts =>
      obtain ⟨kind, h3, rest⟩ := parts
      obtain ⟨host, port, hsplit, rfl⟩ := (parse_eq_ok_iff hne hscheme).mp hparse
      constructor
      · dsimp only
        rw [splitPath]
        split
        · exact ⟨_, rfl⟩
        · exact ⟨_, rfl⟩
      · rintro n hn
        cases hn
        exact splitHostPort_name_ok (slash_not_mem_splitPath rest) hsplit

/-! ## The parts of an identity -/

theorem isPlain_of_isDigit {c : Char} (h : c.isDigit = true) : isPlain c = true := by
  have hrange : 48 ≤ c.toNat ∧ c.toNat ≤ 57 := by
    simpa [Char.isDigit, UInt32.le_iff_toNat_le] using h
  simp [isPlain, isAsciiChar, isCaseless]
  omega

section

variable {lower : Lowercase}

theorem renderIpv4Addr_plain (addr : Ipv4Addr) : ∀ c ∈ renderIpv4Addr addr, isPlain c = true := by
  intro c hc
  rcases renderIpv4Addr_chars addr c hc with hdigit | rfl
  · exact isPlain_of_isDigit hdigit
  · rfl

theorem hostIdentity_v4 (addr : Ipv4Addr) :
    hostIdentity lower (.ip (.v4 addr)) = renderIpv4Addr addr :=
  lower.apply_plain (renderIpv4Addr_plain addr)

theorem slash_not_mem_hostIdentity {spec : UpstreamSpec} (h : WellFormed spec) :
    '/' ∉ hostIdentity lower spec.host := by
  have hliteral : ∀ ip, '/' ∉ renderIpAddr ip := by
    intro ip hmem
    have hchar := renderIpAddr_chars ip '/' hmem
    cases hchar
  cases hhost : spec.host with
  | name n =>
      intro hmem
      exact (h.name n hhost).1 ((lower.mem_iff rfl n).mp hmem)
  | ip ip =>
      cases ip with
      | v4 addr =>
          rw [hostIdentity_v4]
          exact hliteral (.v4 addr)
      | v6 addr =>
          have hsix : '/' ∉ renderIpv6Addr addr := hliteral (.v6 addr)
          simpa [hostIdentity] using hsix

theorem renderIpv4Addr_ne_bracket (addr : Ipv4Addr) (t : Text) :
    renderIpv4Addr addr ≠ '[' :: t := by
  intro heq
  have hchar : isLiteralChar '[' = true := by
    apply renderIpAddr_chars (.v4 addr)
    rw [renderIpAddr, heq]
    exact List.mem_cons_self
  cases hchar

/-- Names are written like no address. -/
theorem apply_ne_literal {n : Text} (hbracket : n.head? ≠ some '[')
    (hip : parseIpAddr n = none) (ip : IpAddr) :
    lower.apply n ≠ hostIdentity lower (.ip ip) := by
  intro heq
  cases ip with
  | v6 addr =>
      have hhead : (lower.apply n).head? = some '[' := by
        rw [heq]
        rfl
      exact hbracket (lower.head?_of_plain rfl hhead)
  | v4 addr =>
      rw [hostIdentity_v4] at heq
      have hn : lower.apply n = n := by
        apply lower.eq_of_plain
        rw [heq]
        exact renderIpv4Addr_plain addr
      rw [← hn, heq, parseIpAddr_renderIpv4Addr] at hip
      cases hip

theorem hostIdentity_inj {a b : UpstreamSpec} (ha : WellFormed a) (hb : WellFormed b) :
    hostIdentity lower a.host = hostIdentity lower b.host ↔ SameHost lower a.host b.host := by
  cases hhost : a.host with
  | name m =>
      cases hhost' : b.host with
      | name n => exact Iff.rfl
      | ip ip =>
          obtain ⟨-, hbracket, hip⟩ := ha.name m hhost
          exact iff_of_false (apply_ne_literal hbracket hip ip) id
  | ip ip =>
      cases hhost' : b.host with
      | name n =>
          obtain ⟨-, hbracket, hip⟩ := hb.name n hhost'
          exact iff_of_false (fun heq => apply_ne_literal hbracket hip ip heq.symm) id
      | ip ip' =>
          constructor
          · intro heq
            cases ip with
            | v4 addr =>
                cases ip' with
                | v4 addr' =>
                    rw [hostIdentity_v4, hostIdentity_v4] at heq
                    exact congrArg IpAddr.v4 (renderIpv4Addr_inj heq)
                | v6 addr' =>
                    rw [hostIdentity_v4] at heq
                    exact absurd heq (renderIpv4Addr_ne_bracket addr _)
            | v6 addr =>
                cases ip' with
                | v4 addr' =>
                    rw [hostIdentity_v4] at heq
                    exact absurd heq.symm (renderIpv4Addr_ne_bracket addr' _)
                | v6 addr' =>
                    have hrender := List.append_cancel_right (List.cons.inj heq).2
                    exact congrArg IpAddr.v6 (renderIpv6Addr_inj hrender)
          · intro heq
            have hip : ip = ip' := heq
            rw [hip]

def UpstreamSpec.tail (spec : UpstreamSpec) : Text :=
  spec.path ++ if spec.forceHttp3 then "+h3".toList else []

theorem identity_eq_parts {a b : UpstreamSpec} (ha : WellFormed a) (hb : WellFormed b) :
    a.identity lower = b.identity lower ↔
      a.kind = b.kind ∧ SameHost lower a.host b.host ∧ a.port = b.port ∧ a.tail = b.tail := by
  have hkind : ∀ kind : TransportKind, ':' ∉ kind.asStr := by
    intro kind
    cases kind <;> decide
  have hport : ∀ port : UInt16, ∀ {c : Char}, c.isDigit = false → c ∉ renderDecimal port.toNat := by
    intro port c hc hmem
    rw [renderDecimal_chars hmem] at hc
    cases hc
  have hform : ∀ spec : UpstreamSpec, WellFormed spec → ∃ p, spec.tail = '/' :: p ∧
      spec.identity lower = spec.kind.asStr ++ ':' :: '/' :: '/' ::
        ((hostIdentity lower spec.host ++ ':' :: renderDecimal spec.port.toNat) ++ '/' :: p) := by
    intro spec hspec
    obtain ⟨p, hp⟩ := hspec.path
    refine ⟨p ++ if spec.forceHttp3 then "+h3".toList else [], by rw [UpstreamSpec.tail, hp]; rfl,
      ?_⟩
    simp [UpstreamSpec.identity, hp]
  have hslash : ∀ spec : UpstreamSpec, WellFormed spec →
      '/' ∉ hostIdentity lower spec.host ++ ':' :: renderDecimal spec.port.toNat := by
    intro spec hspec hmem
    rcases List.mem_append.mp hmem with hmem | hmem
    · exact slash_not_mem_hostIdentity hspec hmem
    · rcases List.mem_cons.mp hmem with hmem | hmem
      · cases hmem
      · exact hport spec.port (by decide) hmem
  obtain ⟨p, hpa, ha'⟩ := hform a ha
  obtain ⟨q, hqb, hb'⟩ := hform b hb
  rw [hpa, hqb]
  constructor
  · intro heq
    rw [ha', hb'] at heq
    obtain ⟨hkinds, hrest⟩ := append_cons_inj (hkind _) (hkind _) heq
    obtain ⟨hauthority, htails⟩ := append_cons_inj (hslash a ha) (hslash b hb)
      (List.cons.inj (List.cons.inj hrest).2).2
    have hlast := rsplitOnce_append (hostIdentity lower a.host)
      (hport a.port (c := ':') (by decide))
    rw [hauthority, rsplitOnce_append _ (hport b.port (by decide)), Option.some.injEq,
      Prod.mk.injEq] at hlast
    refine ⟨?_, (hostIdentity_inj ha hb).mp hlast.1.symm, ?_, by rw [htails]⟩
    · revert hkinds
      cases a.kind <;> cases b.kind <;> decide
    · exact UInt16.toNat_inj.mp (toDigits_inj (by decide) (by decide) hlast.2.symm)
  · rintro ⟨hkinds, hhost, hports, htails⟩
    rw [ha', hb', hkinds, (hostIdentity_inj ha hb).mpr hhost, hports, (List.cons.inj htails).2]

/-- Two identities are the same for one endpoint, or where `+h3` can be read in two ways. -/
theorem identity_eq {a b : UpstreamSpec} (ha : WellFormed a) (hb : WellFormed b) :
    a.identity lower = b.identity lower ↔ SameEndpoint lower a b ∨ Collides lower a b := by
  rw [identity_eq_parts ha hb]
  constructor
  · rintro ⟨hkind, hhost, hport, htail⟩
    unfold UpstreamSpec.tail at htail
    cases hfa : a.forceHttp3 <;> cases hfb : b.forceHttp3 <;> simp only [hfa, hfb] at htail
    · exact .inl ⟨hkind, hhost, hport, by simpa using htail, by rw [hfa, hfb]⟩
    · exact .inr ⟨hkind, hhost, hport, .inl ⟨hfa, hfb, by simpa using htail⟩⟩
    · exact .inr ⟨hkind, hhost, hport, .inr ⟨hfa, hfb, by simpa using htail.symm⟩⟩
    · exact .inl ⟨hkind, hhost, hport, by simpa using htail, by rw [hfa, hfb]⟩
  · rintro (h | h)
    · exact ⟨h.kind, h.host, h.port,
        by rw [UpstreamSpec.tail, UpstreamSpec.tail, h.path, h.forceHttp3]⟩
    · refine ⟨h.kind, h.host, h.port, ?_⟩
      rcases h.paths with ⟨hfa, hfb, hpath⟩ | ⟨hfa, hfb, hpath⟩ <;>
        simp [UpstreamSpec.tail, hfa, hfb, hpath]

theorem not_sameEndpoint_of_collides {a b : UpstreamSpec} (h : Collides lower a b) :
    ¬ SameEndpoint lower a b := by
  intro hsame
  have hforce := hsame.forceHttp3
  rcases h.paths with ⟨hfa, hfb, -⟩ | ⟨hfa, hfb, -⟩ <;> rw [hfa, hfb] at hforce <;> cases hforce

/-! ## Adoption -/

theorem priorOf_eq_some {old : List PoolMember} {identity : Text} {u : PoolMember}
    (h : priorOf lower old identity = some u) :
    ∃ before after, old = before ++ u :: after ∧ u.spec.identity lower = identity ∧
      ∀ v ∈ after, v.spec.identity lower ≠ identity := by
  induction old using List.reverseRecOn with
  | nil => cases h
  | append_singleton old v ih =>
      rw [priorOf, List.foldl_append, List.foldl_cons, List.foldl_nil] at h
      split at h
      · rename_i hv
        cases h
        exact ⟨old, [], rfl, hv, by simp⟩
      · rename_i hv
        obtain ⟨before, after, rfl, hu, hafter⟩ := ih h
        refine ⟨before, after ++ [v], by simp, hu, fun w hw => ?_⟩
        rcases List.mem_append.mp hw with hw | hw
        · exact hafter w hw
        · rwa [List.mem_singleton.mp hw]

theorem priorOf_eq_none {old : List PoolMember} {identity : Text}
    (h : priorOf lower old identity = none) : ∀ u ∈ old, u.spec.identity lower ≠ identity := by
  induction old using List.reverseRecOn with
  | nil => simp
  | append_singleton old v ih =>
      rw [priorOf, List.foldl_append, List.foldl_cons, List.foldl_nil] at h
      split at h
      · cases h
      · rename_i hv
        intro u hu
        rcases List.mem_append.mp hu with hu | hu
        · exact ih h u hu
        · rwa [List.mem_singleton.mp hu]

theorem adopted_of_identity {new old : List PoolMember}
    (h : ∀ up ∈ new, ∀ oldUp ∈ old,
      up.spec.identity lower = oldUp.spec.identity lower ↔ SameEndpoint lower up.spec oldUp.spec) :
    List.Forall₂ (fun up up' => up'.spec = up.spec ∧ Inherits lower old up up'.health)
      new (adoptHealthFrom lower new old) := by
  rw [adoptHealthFrom, List.forall₂_map_right_iff, List.forall₂_same]
  intro up hup
  have hiff := h up hup
  cases hprior : priorOf lower old (up.spec.identity lower) with
  | none =>
      refine ⟨rfl, .inr ⟨fun u hu hsame => ?_, rfl⟩⟩
      exact priorOf_eq_none hprior u hu ((hiff u hu).mpr hsame).symm
  | some oldUp =>
      obtain ⟨before, after, rfl, hidentity, hafter⟩ := priorOf_eq_some hprior
      refine ⟨rfl, .inl ⟨before, oldUp, after, rfl, (hiff oldUp (by simp)).mp hidentity.symm,
        fun u hu hsame => ?_, rfl⟩⟩
      exact hafter u hu ((hiff u (by simp [hu])).mpr hsame).symm

/--
For any two pools of accepted specs: identities tell their endpoints apart and health is
handed on between the same endpoints only, if and only if no two of their specs collide.
-/
theorem exactEndpoints_iff (lower : Lowercase) {new old : List PoolMember}
    (hnew : ∀ up ∈ new, Accepted up.spec) (hold : ∀ oldUp ∈ old, Accepted oldUp.spec) :
    ExactEndpoints lower new old ↔
      ∀ up ∈ new, ∀ oldUp ∈ old, ¬ Collides lower up.spec oldUp.spec := by
  constructor
  · intro h up hup oldUp hold' hcollides
    have hidentity := (identity_eq (hnew up hup).wellFormed (hold oldUp hold').wellFormed).mpr
      (.inr hcollides)
    exact not_sameEndpoint_of_collides hcollides ((h.identity up hup oldUp hold').mp hidentity)
  · intro h
    have hidentity : ∀ up ∈ new, ∀ oldUp ∈ old, up.spec.identity lower =
        oldUp.spec.identity lower ↔ SameEndpoint lower up.spec oldUp.spec := by
      intro up hup oldUp hold'
      rw [identity_eq (hnew up hup).wellFormed (hold oldUp hold').wellFormed]
      exact or_iff_left (h up hup oldUp hold')
    exact ⟨hidentity, adopted_of_identity hidentity⟩

theorem exactEndpoints_iff_respelled :
    ExactEndpoints asciiLowercase
        [⟨⟨.tls, .name "Dns.Google".toList, 853, "/dns-query".toList, false,
          "tls://Dns.Google".toList⟩, {}⟩]
        [⟨⟨.tls, .name "dns.google".toList, 853, "/dns-query".toList, false,
          "tls://dns.google:853".toList⟩, { totalQueries := 1 }⟩] ↔
      ∀ up ∈ [(⟨⟨.tls, .name "Dns.Google".toList, 853, "/dns-query".toList, false,
          "tls://Dns.Google".toList⟩, {}⟩ : PoolMember)],
        ∀ oldUp ∈ [(⟨⟨.tls, .name "dns.google".toList, 853, "/dns-query".toList, false,
          "tls://dns.google:853".toList⟩, { totalQueries := 1 }⟩ : PoolMember)],
          ¬ Collides asciiLowercase up.spec oldUp.spec :=
  exactEndpoints_iff asciiLowercase
    (by
      intro up hup
      rw [List.mem_singleton.mp hup]
      exact ⟨"tls://Dns.Google".toList, by decide +kernel⟩)
    (by
      intro oldUp hold
      rw [List.mem_singleton.mp hold]
      exact ⟨"tls://dns.google:853".toList, by decide +kernel⟩)

/-- A path that ends in `+h3` and the same path over forced HTTP/3. -/
theorem plusH3_not_exact : ∃ spec oldSpec,
    UpstreamSpec.parse "https://dns.google/x+h3".toList = .ok spec ∧
      UpstreamSpec.parse "h3://dns.google/x".toList = .ok oldSpec ∧
        ¬ ExactEndpoints asciiLowercase [⟨spec, {}⟩] [⟨oldSpec, { totalQueries := 1 }⟩] := by
  refine ⟨⟨.https, .name "dns.google".toList, 443, "/x+h3".toList, false,
      "https://dns.google/x+h3".toList⟩,
    ⟨.https, .name "dns.google".toList, 443, "/x".toList, true, "h3://dns.google/x".toList⟩,
    by decide +kernel, by decide +kernel, fun h => ?_⟩
  have hsame := (h.identity _ (List.mem_singleton_self _) _ (List.mem_singleton_self _)).mp rfl
  cases hsame.forceHttp3

end

end Bulwark.Upstream
