import Bulwark.Upstream.Spec

/-!
# Specs of the grammar

What `UpstreamSpec::parse` reads against the grammar: the part before the path first, then
the path and the scheme.
-/

namespace Bulwark.Upstream

open Bulwark.Foundation

/-! ## Ports -/

theorem parseDecimal_eq_some {t : Text} {n : Nat} (h : parseDecimal t = some n) :
    t ≠ [] ∧ ∀ c ∈ t, c.isDigit = true := by
  rw [parseDecimal] at h
  split at h
  · rename_i hdigits
    exact ⟨hdigits.1, List.all_eq_true.mp hdigits.2⟩
  · cases h

theorem PortText.not_mem {p : Text} {port : UInt16} (h : PortText p port) {c : Char}
    (hc : c.isDigit = false) : c ∉ p := by
  intro hmem
  rw [(parseDecimal_eq_some h).2 c hmem] at hc
  cases hc

theorem not_portText_plus (p : Text) (port : UInt16) : ¬ PortText ('+' :: p) port :=
  fun h => h.not_mem (by decide) List.mem_cons_self

theorem portText_iff {p : Text} {port : UInt16} :
    ((parseDecimal p).bind fun n => if n < 65536 then some (UInt16.ofNat n) else none) =
      some port ↔ PortText p port := by
  rw [Option.bind_eq_some_iff, PortText]
  constructor
  · rintro ⟨n, hn, hport⟩
    split at hport
    · rename_i hlt
      cases hport
      rw [hn, UInt16.toNat_ofNat_of_lt' hlt]
    · cases hport
  · intro h
    exact ⟨port.toNat, h, by rw [if_pos port.toNat_lt, UInt16.ofNat_toNat]⟩

theorem parsePort_eq_some {p : Text} {port : UInt16} :
    parsePort p = some port ↔ PortText p port ∨ ∃ q, p = '+' :: q ∧ PortText q port := by
  rw [parsePort, portText_iff]
  by_cases hplus : ∃ q, p = '+' :: q
  · obtain ⟨q, rfl⟩ := hplus
    have hstrip : (['+'].isPrefixOf? ('+' :: q)).getD ('+' :: q) = q := rfl
    rw [hstrip]
    simp [not_portText_plus]
  · have hstrip : ['+'].isPrefixOf? p = none := by
      cases hprefix : ['+'].isPrefixOf? p with
      | none => rfl
      | some q => exact absurd ⟨q, isPrefixOf?_eq_some hprefix⟩ hplus
    rw [hstrip, Option.getD_none]
    constructor
    · exact .inl
    · rintro (h | ⟨q, rfl, -⟩)
      · exact h
      · exact absurd ⟨q, rfl⟩ hplus

theorem colon_not_mem_of_parsePort {p : Text} (h : (parsePort p).isSome = true) : ':' ∉ p := by
  obtain ⟨port, hport⟩ := Option.isSome_iff_exists.mp h
  rcases parsePort_eq_some.mp hport with htext | ⟨q, rfl, htext⟩
  · exact htext.not_mem (by decide)
  · simpa using htext.not_mem (c := ':') (by decide)

/-! ## Literals -/

theorem head?_of_not_mem {t : Text} {c : Char} (h : c ∉ t) : t.head? ≠ some c :=
  fun hhead => h (List.mem_of_mem_head? hhead)

/-- A literal does not begin with a single colon. -/
theorem parseIpAddr_colon {p : Text} (h : ':' ∉ p) : parseIpAddr (':' :: p) = none := by
  have hdigit : digitValue 16 ':' = none := by simp [digitValue]
  have hnext : readGivenChar ':' p = none := by
    cases p with
    | nil => rfl
    | cons d p =>
        simp only [List.mem_cons, not_or] at h
        rw [readGivenChar, if_neg fun hd => h.1 hd.symm]
  have hsix : readIpv6Addr (':' :: p) = none := by
    have hfirst : readGivenChar ':' (':' :: p) = some p := rfl
    rw [readIpv6Addr, readGroups_none hdigit]
    simp [hfirst, hnext]
  simp [parseIpAddr, parseWith, readIpAddr, readIpv4Addr_none hdigit, hsix]

theorem strip_eq_none {c : Char} {s : Text} (h : s.head? ≠ some c) :
    [c].isPrefixOf? s = none := by
  cases hprefix : [c].isPrefixOf? s with
  | none => rfl
  | some rest => exact absurd (by rw [isPrefixOf?_eq_some hprefix]; rfl) h

/-! ## Host and port -/

section

variable {d : UInt16}

theorem splitHostPort_bracket {t : Text} {ip : IpAddr} (h : parseIpAddr t = some ip)
    (after : Text) : splitHostPort ('[' :: (t ++ ']' :: after)) d = portAfter after (.ip ip) d := by
  have hstrip : ['['].isPrefixOf? ('[' :: (t ++ ']' :: after)) = some (t ++ ']' :: after) := rfl
  have hsplit := splitOnce_append (literal_not_mem h (c := ']') (by decide)) after
  simp [splitHostPort, hstrip, hsplit, h]

theorem splitHostPort_literal {s : Text} {ip : IpAddr} (h : parseIpAddr s = some ip) :
    splitHostPort s d = .ok (.ip ip, d) := by
  rw [splitHostPort, strip_eq_none (head?_of_not_mem (literal_not_mem h (by decide))), h]

theorem splitHostPort_port {h p : Text} (hhead : (h ++ ':' :: p).head? ≠ some '[')
    (hip : parseIpAddr (h ++ ':' :: p) = none) (hp : ':' ∉ p) :
    splitHostPort (h ++ ':' :: p) d = portOr p (hostOf h) := by
  rw [splitHostPort, strip_eq_none hhead, hip, rsplitOnce_append h hp]

theorem splitHostPort_name {s : Text} (hhead : s.head? ≠ some '[')
    (hip : parseIpAddr s = none) (hcolon : ':' ∉ s) : splitHostPort s d = .ok (.name s, d) := by
  have hsplit : rsplitOnce ':' s = none := by
    cases hsplit : rsplitOnce ':' s with
    | none => rfl
    | some parts => exact absurd (by simp [(rsplitOnce_eq_some hsplit).1]) hcolon
  rw [splitHostPort, strip_eq_none hhead, hip, hsplit]

theorem portOr_of_portText {p : Text} {port : UInt16} (h : PortText p port) (host : Host) :
    portOr p host = .ok (host, port) := by
  rw [portOr, parsePort_eq_some.mpr (.inl h)]

theorem portOr_eq_ok {p : Text} {port : UInt16} {host host' : Host}
    (h : portOr p host = .ok (host', port)) : host' = host ∧ parsePort p = some port := by
  rw [portOr] at h
  split at h
  · rename_i hport
    cases h
    exact ⟨rfl, hport⟩
  · cases h

/-! ## Texts of the grammar are read -/

theorem HostText.ne_nil {t : Text} {h : Host} (ht : HostText t h) :
    t ≠ [] := by
  cases ht with
  | name hn => exact hn.ne_nil
  | literal hip =>
      rintro rfl
      cases hip
  | bracketed hip => simp

theorem AuthorityText.read {a : Text} {h : Host} {port : UInt16} (ha : AuthorityText d a h port) :
    ∃ host port, splitHostPort a d = .ok (host, port) := by
  cases ha with
  | noPort ht =>
      cases ht with
      | name hn => exact ⟨_, _, splitHostPort_name hn.bracket hn.not_ip hn.colon⟩
      | literal hip => exact ⟨_, _, splitHostPort_literal hip⟩
      | bracketed hip => exact ⟨_, _, splitHostPort_bracket hip []⟩
  | @withPort t p _ _ ht hp =>
      by_cases hbracket : (t ++ ':' :: p).head? = some '['
      · cases ht with
        | name hn =>
            rw [List.head?_append_of_ne_nil _ hn.ne_nil] at hbracket
            exact absurd hbracket hn.bracket
        | literal hip =>
            have hne : t ≠ [] := (HostText.literal hip).ne_nil
            rw [List.head?_append_of_ne_nil _ hne] at hbracket
            exact absurd hbracket (head?_of_not_mem (literal_not_mem hip (by decide)))
        | @bracketed u addr hip =>
            refine ⟨.ip (.v6 addr), port, ?_⟩
            have hform : '[' :: (u ++ [']']) ++ ':' :: p = '[' :: (u ++ ']' :: ':' :: p) := by simp
            rw [hform, splitHostPort_bracket hip]
            exact portOr_of_portText hp _
      · cases hip : parseIpAddr (t ++ ':' :: p) with
        | some ip => exact ⟨_, _, splitHostPort_literal hip⟩
        | none =>
            rw [splitHostPort_port hbracket hip (hp.not_mem (by decide))]
            exact ⟨_, _, portOr_of_portText hp _⟩

/-! ## What is read is of the grammar, or guessed -/

theorem splitHostPort_bracket_ok {rest : Text} {host : Host} {port : UInt16}
    (h : splitHostPort ('[' :: rest) d = .ok (host, port)) :
    ∃ t after ip, rest = t ++ ']' :: after ∧ parseIpAddr t = some ip ∧
      portAfter after (.ip ip) d = .ok (host, port) := by
  have hstrip : ['['].isPrefixOf? ('[' :: rest) = some rest := rfl
  rw [splitHostPort, hstrip] at h
  dsimp only at h
  split at h
  · cases h
  · rename_i t after hsplit
    split at h
    · cases h
    · rename_i ip hip
      exact ⟨t, after, ip, (splitOnce_eq_some hsplit).1, hip, h⟩

theorem authorityText_or_guessed_bracket {rest : Text} {host : Host} {port : UInt16}
    (h : splitHostPort ('[' :: rest) d = .ok (host, port)) :
    AuthorityText d ('[' :: rest) host port ∨ Guessed ('[' :: rest) := by
  obtain ⟨t, after, ip, rfl, hip, hafter⟩ := splitHostPort_bracket_ok h
  cases after with
  | nil =>
      cases hafter
      cases ip with
      | v4 addr => exact .inr (.bracketedV4 hip)
      | v6 addr => exact .inl (.noPort (.bracketed hip))
  | cons c after =>
      by_cases hc : c = ':'
      · subst hc
        have hport : portOr after (.ip ip) = .ok (host, port) := hafter
        obtain ⟨rfl, hparse⟩ := portOr_eq_ok hport
        cases ip with
        | v4 addr => exact .inr (.bracketedV4Port hip (by rw [hparse]; rfl))
        | v6 addr =>
            rcases parsePort_eq_some.mp hparse with htext | ⟨q, rfl, -⟩
            · have hread : AuthorityText d (_ ++ ':' :: after) _ port :=
                .withPort (.bracketed hip) htext
              exact .inl (by simpa using hread)
            · exact .inr (.bracketedSign hip (by rw [hparse]; rfl))
      · exact .inr (.afterBracket hip hc)

theorem hostText_hostOf {h : Text} (hne : h ≠ []) (hslash : '/' ∉ h) (hbracket : h.head? ≠ some '[')
    (hcolon : ':' ∉ h ∨ parseIpAddr h ≠ none) : HostText h (hostOf h) := by
  rw [hostOf]
  cases hip : parseIpAddr h with
  | some ip => exact .literal hip
  | none => exact .name ⟨hne, hcolon.resolve_right (not_not.mpr hip), hslash, hbracket, hip⟩

theorem authorityText_or_guessed {a : Text} (hslash : '/' ∉ a) {host : Host} {port : UInt16}
    (h : splitHostPort a d = .ok (host, port)) : AuthorityText d a host port ∨ Guessed a := by
  by_cases hbracket : a.head? = some '['
  · obtain ⟨rest, rfl⟩ := List.head?_eq_some_iff.mp hbracket
    exact authorityText_or_guessed_bracket h
  rw [splitHostPort, strip_eq_none hbracket] at h
  dsimp only at h
  split at h
  · rename_i ip hip
    cases h
    exact .inl (.noPort (.literal hip))
  rename_i hip
  split at h
  · rename_i front p hsplit
    obtain ⟨rfl, hp⟩ := rsplitOnce_eq_some hsplit
    obtain ⟨rfl, hparse⟩ := portOr_eq_ok h
    have hsome : (parsePort p).isSome = true := by
      rw [hparse]
      rfl
    by_cases hne : front = []
    · subst hne
      exact .inr (.noHostPort hsome)
    rw [List.head?_append_of_ne_nil _ hne] at hbracket
    rcases parsePort_eq_some.mp hparse with htext | ⟨q, rfl, -⟩
    · by_cases hcolon : ':' ∉ front ∨ parseIpAddr front ≠ none
      · exact .inl (.withPort (hostText_hostOf hne
          (fun hmem => hslash (List.mem_append_left _ hmem)) hbracket hcolon) htext)
      · simp only [not_or, not_not] at hcolon
        exact .inr (.colonName hbracket hcolon.1 hcolon.2 hip hsome)
    · exact .inr (.sign hbracket hsome)
  · rename_i hsplit
    cases h
    by_cases hne : a = []
    · subst hne
      exact .inr .noHost
    · exact .inl (.noPort (.name ⟨hne, rsplitOnce_eq_none hsplit, hslash, hbracket, hip⟩))

/-! ## What is guessed is not of the grammar -/

theorem HostText.of_bracket {s : Text} {h : Host} (hs : HostText s h) (hhead : s.head? = some '[') :
    ∃ t addr, s = '[' :: (t ++ [']']) ∧ parseIpAddr t = some (.v6 addr) := by
  cases hs with
  | name hn => exact absurd hhead hn.bracket
  | literal hip => exact absurd hhead (head?_of_not_mem (literal_not_mem hip (by decide)))
  | bracketed hip => exact ⟨_, _, rfl, hip⟩

theorem AuthorityText.cases_text {a : Text} {h : Host} {port : UInt16}
    (ha : AuthorityText d a h port) :
    (HostText a h ∧ port = d) ∨ ∃ t p, a = t ++ ':' :: p ∧ HostText t h ∧ PortText p port := by
  cases ha with
  | noPort ht => exact .inl ⟨ht, rfl⟩
  | withPort ht hp => exact .inr ⟨_, _, rfl, ht, hp⟩

/-- After a bracketed host there is nothing or a port. -/
theorem AuthorityText.of_bracket {t after : Text} {h : Host} {port : UInt16}
    (hbracket : ']' ∉ t) (ha : AuthorityText d ('[' :: (t ++ ']' :: after)) h port) :
    (∃ addr, parseIpAddr t = some (.v6 addr)) ∧
      (after = [] ∨ ∃ q, after = ':' :: q ∧ PortText q port) := by
  rcases ha.cases_text with ⟨hs, -⟩ | ⟨s, p, heq, hs, hp⟩
  · obtain ⟨u, addr, heq, hip⟩ := hs.of_bracket rfl
    obtain ⟨rfl, rfl⟩ := append_cons_inj hbracket (literal_not_mem hip (by decide))
      (List.cons.inj heq).2
    exact ⟨⟨addr, hip⟩, .inl rfl⟩
  · have hhead : s.head? = some '[' := by
      have hfirst := congrArg List.head? heq
      rw [List.head?_append_of_ne_nil _ hs.ne_nil] at hfirst
      exact hfirst.symm
    obtain ⟨u, addr, rfl, hip⟩ := hs.of_bracket hhead
    have hform : '[' :: (u ++ [']']) ++ ':' :: p = '[' :: (u ++ ']' :: ':' :: p) := by simp
    rw [hform] at heq
    obtain ⟨rfl, rfl⟩ := append_cons_inj hbracket (literal_not_mem hip (by decide))
      (List.cons.inj heq).2
    exact ⟨⟨addr, hip⟩, .inr ⟨p, rfl, hp⟩⟩

/-- A text that is no address has its port after the last colon. -/
theorem AuthorityText.of_colon {h p : Text} {host : Host} {port : UInt16} (hp : ':' ∉ p)
    (hhead : (h ++ ':' :: p).head? ≠ some '[') (hip : parseIpAddr (h ++ ':' :: p) = none)
    (ha : AuthorityText d (h ++ ':' :: p) host port) : HostText h host ∧ PortText p port := by
  rcases ha.cases_text with ⟨hs, -⟩ | ⟨s, q, heq, hs, hq⟩
  · generalize hform : h ++ ':' :: p = s at hs hhead hip
    cases hs with
    | name hn => exact absurd (by simp [← hform]) hn.colon
    | literal hsome =>
        rw [hip] at hsome
        cases hsome
    | bracketed _ => exact absurd rfl hhead
  · have hlast := rsplitOnce_append h hp
    rw [heq, rsplitOnce_append s (hq.not_mem (by decide)), Option.some.injEq,
      Prod.mk.injEq] at hlast
    obtain ⟨rfl, rfl⟩ := hlast
    exact ⟨hs, hq⟩

theorem portOr_ok {p : Text} (h : (parsePort p).isSome = true) (host : Host) :
    ∃ port, portOr p host = .ok (host, port) := by
  obtain ⟨port, hport⟩ := Option.isSome_iff_exists.mp h
  exact ⟨port, by rw [portOr, hport]⟩

/-- The text is read, though it is not of the grammar. -/
structure Overread (d : UInt16) (a : Text) : Prop where
  read : ∃ host port, splitHostPort a d = .ok (host, port)
  not_text : ∀ host port, ¬ AuthorityText d a host port

theorem overread_bracket {t after : Text} {ip : IpAddr} (hip : parseIpAddr t = some ip)
    (hread : ∃ host port, portAfter after (.ip ip) d = .ok (host, port))
    (hnot : ∀ addr port, ip = .v6 addr →
      after ≠ [] ∧ ∀ q, after = ':' :: q → ¬ PortText q port) :
    Overread d ('[' :: (t ++ ']' :: after)) := by
  refine ⟨by rwa [splitHostPort_bracket hip], fun host port ha => ?_⟩
  obtain ⟨⟨addr, hsix⟩, hafter⟩ := ha.of_bracket (literal_not_mem hip (by decide))
  rw [hip, Option.some.injEq] at hsix
  obtain ⟨hne, hport⟩ := hnot addr port hsix
  rcases hafter with hnil | ⟨q, hq, htext⟩
  · exact hne hnil
  · exact hport q hq htext

theorem overread_colon {h p : Text} (hhead : (h ++ ':' :: p).head? ≠ some '[')
    (hip : parseIpAddr (h ++ ':' :: p) = none) (hp : (parsePort p).isSome = true)
    (hnot : ∀ host port, HostText h host → ¬ PortText p port) : Overread d (h ++ ':' :: p) := by
  have hcolon := colon_not_mem_of_parsePort hp
  constructor
  · rw [splitHostPort_port hhead hip hcolon]
    exact ⟨_, portOr_ok hp _⟩
  · intro host port ha
    obtain ⟨hs, htext⟩ := ha.of_colon hcolon hhead hip
    exact hnot host port hs htext

theorem head?_append_colon {h : Text} (hhead : h.head? ≠ some '[') (p : Text) :
    (h ++ ':' :: p).head? ≠ some '[' := by
  cases h with
  | nil => simp
  | cons c h => simpa using hhead

theorem Guessed.overread {a : Text} (ha : Guessed a) : Overread d a := by
  cases ha with
  | @afterBracket t rest ip c hip hc =>
      refine overread_bracket hip ⟨.ip ip, d, ?_⟩ fun addr port _ => ⟨by simp, fun q hq _ => ?_⟩
      · rw [portAfter, strip_eq_none (by simpa using hc)]
      · exact hc (List.cons.inj hq).1
  | bracketedV4 hip => exact overread_bracket hip ⟨_, _, rfl⟩ (by simp)
  | bracketedV4Port hip hp => exact overread_bracket hip ⟨_, portOr_ok hp _⟩ (by simp)
  | bracketedSign hip hp =>
      refine overread_bracket hip ⟨_, portOr_ok hp _⟩ fun addr port _ => ⟨by simp, fun q hq => ?_⟩
      rw [← (List.cons.inj hq).2]
      exact not_portText_plus _ port
  | noHost =>
      refine ⟨⟨_, _, rfl⟩, fun host port ha => ?_⟩
      rcases ha.cases_text with ⟨hs, -⟩ | ⟨t, q, heq, -, -⟩
      · exact hs.ne_nil rfl
      · simp at heq
  | noHostPort hp =>
      exact overread_colon (h := []) (by simp) (parseIpAddr_colon (colon_not_mem_of_parsePort hp))
        hp fun host port hs => absurd rfl hs.ne_nil
  | @sign h p hhead hp =>
      have hip : parseIpAddr (h ++ ':' :: '+' :: p) = none := by
        cases hip : parseIpAddr (h ++ ':' :: '+' :: p) with
        | none => rfl
        | some ip => exact absurd (by simp) (literal_not_mem hip (c := '+') (by decide))
      exact overread_colon (head?_append_colon hhead _) hip hp
        fun host port _ => not_portText_plus p port
  | @colonName h p hhead hcolon hip hwhole hp =>
      refine overread_colon (head?_append_colon hhead _) hwhole hp fun host port hs _ => ?_
      cases hs with
      | name hn => exact hn.colon hcolon
      | literal hsome =>
          rw [hip] at hsome
          cases hsome
      | bracketed _ => exact hhead rfl

end

/-! ## The path -/

theorem splitOnce_of_not_mem {sep : Char} {t : Text} (h : sep ∉ t) : splitOnce sep t = none := by
  cases hsplit : splitOnce sep t with
  | none => rfl
  | some parts => exact absurd (by simp [(splitOnce_eq_some hsplit).1]) h

theorem AuthorityText.slash_not_mem {d : UInt16} {a : Text} {h : Host} {port : UInt16}
    (ha : AuthorityText d a h port) : '/' ∉ a := by
  have hhost : ∀ {t : Text} {h : Host}, HostText t h → '/' ∉ t := by
    intro t h ht
    cases ht with
    | name hn => exact hn.slash
    | literal hip => exact literal_not_mem hip (by decide)
    | bracketed hip => simpa using literal_not_mem hip (c := '/') (by decide)
  cases ha with
  | noPort ht => exact hhost ht
  | withPort ht hp => simpa using ⟨hhost ht, hp.not_mem (c := '/') (by decide)⟩

theorem slash_not_mem_splitPath (rest : Text) : '/' ∉ (splitPath rest).1 := by
  rw [splitPath]
  split
  · rename_i a p hsplit
    exact (splitOnce_eq_some hsplit).2
  · rename_i hsplit
    exact splitOnce_eq_none hsplit

theorem plainText_iff {d : UInt16} {rest path : Text} {h : Host} {port : UInt16} :
    PlainText d rest h port path ↔
      AuthorityText d (splitPath rest).1 h port ∧ path = (splitPath rest).2 := by
  constructor
  · intro hrest
    cases hrest with
    | noPath ha =>
        rw [splitPath, splitOnce_of_not_mem ha.slash_not_mem]
        exact ⟨ha, rfl⟩
    | withPath ha =>
        rw [splitPath, splitOnce_append ha.slash_not_mem]
        exact ⟨ha, rfl⟩
  · rintro ⟨ha, rfl⟩
    rw [splitPath] at ha ⊢
    split at ha
    · rename_i a p hsplit
      obtain ⟨rfl, -⟩ := splitOnce_eq_some hsplit
      exact .withPath ha
    · exact .noPath ha

/-! ## The scheme -/

/-- A scheme has no separator in it, and with a colon it is no host. -/
theorem scheme_facts {scheme : Text} {kind : TransportKind} {h3 : Bool}
    (h : schemeKind scheme = some (kind, h3)) :
    ':' ∉ scheme ∧ '/' ∉ scheme ++ [':'] ∧ (scheme ++ [':']).head? ≠ some '[' ∧
      parseIpAddr (scheme ++ [':']) = none := by
  unfold schemeKind at h
  split_ifs at h <;> subst scheme <;> decide

theorem splitOnceStr_scheme {scheme rest : Text} (h : ':' ∉ scheme) :
    splitOnceStr "://".toList (scheme ++ "://".toList ++ rest) = some (scheme, rest) :=
  splitOnceStr_append h rest

/-- A text with a scheme is not read as one without. -/
theorem not_plainText_scheme {scheme rest path : Text} {kind : TransportKind} {h3 : Bool}
    (h : schemeKind scheme = some (kind, h3)) {d : UInt16} {host : Host} {port : UInt16} :
    ¬ PlainText d (scheme ++ "://".toList ++ rest) host port path := by
  obtain ⟨hcolon, hslash, hhead, hip⟩ := scheme_facts h
  intro hplain
  have hform : scheme ++ "://".toList ++ rest = (scheme ++ [':']) ++ '/' :: '/' :: rest := by simp
  rw [plainText_iff, splitPath, hform, splitOnce_append hslash] at hplain
  obtain ⟨-, htext⟩ := hplain.1.of_colon (by simp) hhead hip
  cases htext

theorem splitScheme_ok {s rest : Text} {kind : TransportKind} {h3 : Bool}
    (h : splitScheme s = .ok (kind, h3, rest)) :
    (splitOnceStr "://".toList s = none ∧ kind = .udp ∧ h3 = false ∧ rest = s) ∨
      ∃ scheme, schemeKind scheme = some (kind, h3) ∧ s = scheme ++ "://".toList ++ rest := by
  rw [splitScheme] at h
  split at h
  · rename_i hsplit
    cases h
    exact .inl ⟨hsplit, rfl, rfl, rfl⟩
  · rename_i scheme rest' hsplit
    split at h
    · rename_i kind' h3' hkind
      cases h
      exact .inr ⟨scheme, hkind, splitOnceStr_eq_some hsplit⟩
    · cases h

/-- Where the scheme is read, so is the grammar's. -/
theorem specText_iff {s rest : Text} {kind : TransportKind} {h3 : Bool}
    (h : splitScheme s = .ok (kind, h3, rest)) {spec : UpstreamSpec} :
    SpecText s spec ↔ ∃ host port path, PlainText kind.defaultPort rest host port path ∧
      spec = ⟨kind, host, port, path, h3, s⟩ := by
  rcases splitScheme_ok h with ⟨hnone, rfl, rfl, rfl⟩ | ⟨scheme, hkind, rfl⟩
  · constructor
    · intro hspec
      cases hspec with
      | plain hplain => exact ⟨_, _, _, hplain, rfl⟩
      | schemed hkind _ =>
          rw [splitOnceStr_scheme (scheme_facts hkind).1] at hnone
          cases hnone
    · rintro ⟨host, port, path, hplain, rfl⟩
      exact .plain hplain
  · constructor
    · intro hspec
      generalize hs : scheme ++ "://".toList ++ rest = s at hspec
      cases hspec with
      | plain hplain =>
          rw [← hs] at hplain
          exact absurd hplain (not_plainText_scheme hkind)
      | @schemed scheme' rest' path kind' h3' host port hkind' hplain =>
          have hsplit := @splitOnceStr_scheme scheme rest (scheme_facts hkind).1
          rw [hs, splitOnceStr_scheme (scheme_facts hkind').1, Option.some.injEq,
            Prod.mk.injEq] at hsplit
          obtain ⟨rfl, rfl⟩ := hsplit
          rw [hkind, Option.some.injEq, Prod.mk.injEq] at hkind'
          obtain ⟨rfl, rfl⟩ := hkind'
          exact ⟨_, _, _, hplain, rfl⟩
    · rintro ⟨host, port, path, hplain, rfl⟩
      exact .schemed hkind hplain

/-- Where the scheme is unknown the grammar's text has none. -/
theorem specText_iff_plain {s : Text} {e : InvalidSpec} (h : splitScheme s = .error e) :
    (∃ spec, SpecText s spec) ↔ Unread s := by
  rw [splitScheme] at h
  split at h
  · cases h
  rename_i scheme rest hsplit
  split at h
  · cases h
  rename_i hkind
  constructor
  · rintro ⟨spec, hspec⟩
    refine ⟨⟨scheme, rest, hsplit, hkind⟩, ?_⟩
    cases hspec with
    | plain hplain => exact ⟨_, _, _, hplain⟩
    | schemed hkind' _ =>
        rw [splitOnceStr_scheme (scheme_facts hkind').1, Option.some.injEq, Prod.mk.injEq] at hsplit
        obtain ⟨rfl, rfl⟩ := hsplit
        rw [hkind] at hkind'
        cases hkind'
  · rintro ⟨-, host, port, path, hplain⟩
    exact ⟨_, .plain hplain⟩

theorem not_unread_of_splitScheme {s : Text} {kind : TransportKind} {h3 : Bool} {rest : Text}
    (h : splitScheme s = .ok (kind, h3, rest)) : ¬ Unread s := by
  rintro ⟨⟨scheme, rest', hsplit, hkind⟩, -⟩
  rw [splitScheme, hsplit] at h
  dsimp only at h
  rw [hkind] at h
  cases h

/-! ## Whole specs -/

theorem parse_nil {input : Text} (h : trim input = []) :
    UpstreamSpec.parse input = .error ⟨"empty".toList⟩ := by
  rw [UpstreamSpec.parse, h]
  rfl

theorem parse_error {input : Text} {e : InvalidSpec} (hne : trim input ≠ [])
    (hscheme : splitScheme (trim input) = .error e) : UpstreamSpec.parse input = .error e := by
  simp [UpstreamSpec.parse, hne, hscheme, bind, Except.bind]

theorem parse_eq_ok_iff {input : Text} {spec : UpstreamSpec} {kind : TransportKind} {h3 : Bool}
    {rest : Text} (hne : trim input ≠ [])
    (hscheme : splitScheme (trim input) = .ok (kind, h3, rest)) :
    UpstreamSpec.parse input = .ok spec ↔
      ∃ host port, splitHostPort (splitPath rest).1 kind.defaultPort = .ok (host, port) ∧
        spec = ⟨kind, host, port, (splitPath rest).2, h3, trim input⟩ := by
  have hparse : UpstreamSpec.parse input =
      (splitHostPort (splitPath rest).1 kind.defaultPort).map fun parts =>
        ⟨kind, parts.1, parts.2, (splitPath rest).2, h3, trim input⟩ := by
    cases hsplit : splitHostPort (splitPath rest).1 kind.defaultPort <;>
      simp [UpstreamSpec.parse, hne, hscheme, hsplit, bind, Except.bind, pure, Except.pure,
        Except.map]
  rw [hparse]
  cases splitHostPort (splitPath rest).1 kind.defaultPort with
  | error e => simp [Except.map]
  | ok parts =>
      obtain ⟨host, port⟩ := parts
      simp [Except.map, eq_comm]

theorem not_specText_nil (spec : UpstreamSpec) : ¬ SpecText [] spec := by
  intro hspec
  have hscheme : splitScheme [] = .ok (.udp, false, []) := rfl
  obtain ⟨host, port, path, hplain, -⟩ := (specText_iff hscheme).mp hspec
  exact Guessed.noHost.overread.not_text host port (plainText_iff.mp hplain).1

/-- Where the scheme is read, the grammar is followed unless host and port are guessed. -/
theorem readsGrammar_iff_of_scheme {input rest : Text} {kind : TransportKind} {h3 : Bool}
    (hne : trim input ≠ []) (hscheme : splitScheme (trim input) = .ok (kind, h3, rest)) :
    ReadsGrammar input ↔ ¬ Guessed (splitPath rest).1 := by
  constructor
  · intro hreads hguessed
    obtain ⟨⟨host, port, hsplit⟩, hnot⟩ := hguessed.overread (d := kind.defaultPort)
    have hspec := hreads.sound _ ((parse_eq_ok_iff hne hscheme).mpr ⟨host, port, hsplit, rfl⟩)
    obtain ⟨host', port', path, hplain, heq⟩ := (specText_iff hscheme).mp hspec
    cases heq
    exact hnot host port (plainText_iff.mp hplain).1
  · intro hguessed
    constructor
    · intro spec hparse
      obtain ⟨host, port, hsplit, rfl⟩ := (parse_eq_ok_iff hne hscheme).mp hparse
      have ha := (authorityText_or_guessed (slash_not_mem_splitPath rest) hsplit).resolve_right
        hguessed
      exact (specText_iff hscheme).mpr ⟨host, port, _, plainText_iff.mpr ⟨ha, rfl⟩, rfl⟩
    · rintro ⟨spec, hspec⟩
      obtain ⟨host, port, path, hplain, -⟩ := (specText_iff hscheme).mp hspec
      obtain ⟨host', port', hsplit⟩ := (plainText_iff.mp hplain).1.read
      exact ⟨_, (parse_eq_ok_iff hne hscheme).mpr ⟨host', port', hsplit, rfl⟩⟩

/--
A spec is read just as the grammar says, unless its host and port are guessed, or it has no
scheme but `://` in it.
-/
theorem readsGrammar_iff (input : Text) : ReadsGrammar input ↔ ¬ Misread (trim input) := by
  by_cases hne : trim input = []
  · have hmisread : ¬ Misread (trim input) := by
      rw [hne]
      rintro (⟨hnil, -⟩ | hunread)
      · exact hnil rfl
      · exact not_unread_of_splitScheme (s := []) rfl hunread
    refine iff_of_true ⟨fun spec hparse => ?_, ?_⟩ hmisread
    · rw [parse_nil hne] at hparse
      cases hparse
    · rintro ⟨spec, hspec⟩
      rw [hne] at hspec
      exact absurd hspec (not_specText_nil spec)
  cases hscheme : splitScheme (trim input) with
  | ok parts =>
      obtain ⟨kind, h3, rest⟩ := parts
      have hunread := not_unread_of_splitScheme hscheme
      rw [readsGrammar_iff_of_scheme hne hscheme, Misread, hscheme]
      simp [hne, hunread]
  | error e =>
      have hmisread : Misread (trim input) ↔ Unread (trim input) := by
        simp [Misread, hscheme]
      rw [hmisread, ← specText_iff_plain hscheme]
      have hparse := parse_error hne hscheme
      constructor
      · intro hreads hspec
        obtain ⟨spec, hok⟩ := hreads.complete hspec
        rw [hparse] at hok
        cases hok
      · intro hnone
        refine ⟨fun spec hok => ?_, fun hspec => absurd hspec hnone⟩
        rw [hparse] at hok
        cases hok

/-- What follows the bracket is passed over: the port is read as 853. -/
theorem afterBracket_misread : ¬ ReadsGrammar "tls://[::1]5353".toList := by
  have hscheme : splitScheme (trim "tls://[::1]5353".toList) =
      .ok (.tls, false, "[::1]5353".toList) := by decide
  have hip : parseIpAddr "::1".toList = some (.v6 1) := by decide +kernel
  have hguessed : Guessed ('[' :: ("::1".toList ++ ']' :: '5' :: "353".toList)) :=
    .afterBracket hip (by decide)
  rw [readsGrammar_iff_of_scheme (by decide) hscheme]
  exact not_not.mpr hguessed

end Bulwark.Upstream
