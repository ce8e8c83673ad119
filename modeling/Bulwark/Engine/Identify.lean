import Bulwark.Foundation.Selection
import Bulwark.Engine.Clients

/-!
# Whose address it is

One rule for all spellings of ids: an address of its own is a network of full length, and
the longest network that contains the address decides, the earliest client first.  The
matcher looks at bare addresses before it looks at networks, so that a client with the
bare address comes before an earlier one that has it as a network.
-/

namespace Bulwark.Engine

open Bulwark.Foundation

/-! ## The rule -/

/-- What an id stands for; a bare address is a network of full length. -/
def idNet (parseIpNet : Text → Option IpNet) (id : Text) : Option IpNet :=
  match parseIpAddr id with
  | some ip => some ip.hostNet
  | none => parseIpNet id

namespace ClientConfig

def nets (parseIpNet : Text → Option IpNet) (c : ClientConfig) : List IpNet :=
  c.ids.filterMap (idNet parseIpNet)

def resolved (c : ClientConfig) (ip : IpAddr) : ResolvedClient :=
  ⟨ip, some c.name, c.tags, c.filteringEnabled⟩

def hasBare (ip : IpAddr) (c : ClientConfig) : Bool := c.ids.any (parseIpAddr · = some ip)

/-- The address is among the ids, bare or as a network of full length. -/
def hasFull (parseIpNet : Text → Option IpNet) (ip : IpAddr) (c : ClientConfig) : Bool :=
  (c.nets parseIpNet).any fun net => net.contains ip && net.prefixLen = ip.width

end ClientConfig

def ResolvedClient.unnamed (ip : IpAddr) : ResolvedClient := ⟨ip, none, [], true⟩

/-- The client has a longest network around the address, and no client before it has one. -/
def OwnsLongest (parseIpNet : Text → Option IpNet) (clients : List ClientConfig) (ip : IpAddr)
    (c : ClientConfig) : Prop :=
  ∃ front back, clients = front ++ c :: back ∧
    ∃ net ∈ c.nets parseIpNet, net.contains ip = true ∧
      (∀ d ∈ clients, ∀ n ∈ d.nets parseIpNet, n.contains ip = true →
        n.prefixLen ≤ net.prefixLen) ∧
      ∀ d ∈ front, ∀ n ∈ d.nets parseIpNet, n.contains ip = true → n.prefixLen < net.prefixLen

/-- The result is that of the owner, or the unnamed client where no id contains the address. -/
def Identified (parseIpNet : Text → Option IpNet) (clients : List ClientConfig) (ip : IpAddr)
    (r : ResolvedClient) : Prop :=
  (∃ c, OwnsLongest parseIpNet clients ip c ∧ r = c.resolved ip) ∨
    ((∀ c ∈ clients, ∀ net ∈ c.nets parseIpNet, net.contains ip = false) ∧ r = .unnamed ip)

/-! ## Ranks -/

/-- One more than the longest prefix around the address, 0 without one. -/
def rank (nets : List IpNet) (ip : IpAddr) : Nat :=
  (((nets.filter (·.contains ip)).map IpNet.prefixLen).max?).elim 0 (· + 1)

theorem rank_pos_iff {nets : List IpNet} {ip : IpAddr} :
    0 < rank nets ip ↔ ∃ net ∈ nets, net.contains ip = true ∧ net.prefixLen + 1 = rank nets ip := by
  unfold rank
  cases hmax : ((nets.filter (·.contains ip)).map IpNet.prefixLen).max? with
  | none => simp
  | some len =>
      have hmem := (List.max?_eq_some_iff.mp hmax).1
      simp only [List.mem_map, List.mem_filter] at hmem
      obtain ⟨net, ⟨hnet, hcontains⟩, rfl⟩ := hmem
      simp only [Option.elim_some, Nat.zero_lt_succ, true_iff]
      exact ⟨net, hnet, hcontains, rfl⟩

theorem lt_rank {nets : List IpNet} {ip : IpAddr} {net : IpNet} (hnet : net ∈ nets)
    (hcontains : net.contains ip = true) : net.prefixLen < rank nets ip := by
  have hmem : net.prefixLen ∈ (nets.filter (·.contains ip)).map IpNet.prefixLen :=
    List.mem_map_of_mem (List.mem_filter.mpr ⟨hnet, hcontains⟩)
  unfold rank
  cases hmax : ((nets.filter (·.contains ip)).map IpNet.prefixLen).max? with
  | none =>
      rw [List.max?_eq_none_iff] at hmax
      simp [hmax] at hmem
  | some len => exact Nat.lt_succ_of_le ((List.max?_eq_some_iff.mp hmax).2 _ hmem)

theorem rank_le_iff {nets : List IpNet} {ip : IpAddr} {n : Nat} :
    rank nets ip ≤ n ↔ ∀ net ∈ nets, net.contains ip = true → net.prefixLen < n := by
  constructor
  · intro h net hnet hcontains
    exact lt_of_lt_of_le (lt_rank hnet hcontains) h
  · intro h
    rcases Nat.eq_zero_or_pos (rank nets ip) with hzero | hpos
    · simp [hzero]
    · obtain ⟨net, hnet, hcontains, heq⟩ := rank_pos_iff.mp hpos
      have hlt := h net hnet hcontains
      omega

section

variable {parseIpNet : Text → Option IpNet} {clients : List ClientConfig} {ip : IpAddr}

theorem ownsLongest_iff {c : ClientConfig} :
    OwnsLongest parseIpNet clients ip c ↔
      firstMax (fun d => rank (d.nets parseIpNet) ip) clients = some c ∧
        0 < rank (c.nets parseIpNet) ip := by
  rw [firstMax_eq_some_iff]
  constructor
  · rintro ⟨front, back, hsplit, net, hnet, hcontains, hall, hfront⟩
    have hrank : rank (c.nets parseIpNet) ip = net.prefixLen + 1 := by
      apply Nat.le_antisymm
      · refine rank_le_iff.mpr fun n hn hcn => Nat.lt_succ_of_le (hall c ?_ n hn hcn)
        simp [hsplit]
      · exact lt_rank hnet hcontains
    refine ⟨⟨front, back, hsplit, fun d hd => ?_, fun d hd => ?_⟩, by omega⟩
    · rw [hrank]
      exact Nat.lt_succ_of_le (rank_le_iff.mpr fun n hn hcn => hfront d hd n hn hcn)
    · rw [hrank]
      refine rank_le_iff.mpr fun n hn hcn => Nat.lt_succ_of_le (hall d ?_ n hn hcn)
      simp [hsplit, hd]
  · rintro ⟨⟨front, back, hsplit, hfront, hback⟩, hpos⟩
    obtain ⟨net, hnet, hcontains, heq⟩ := rank_pos_iff.mp hpos
    refine ⟨front, back, hsplit, net, hnet, hcontains, fun d hd n hn hcn => ?_,
      fun d hd n hn hcn => ?_⟩
    · have hlt := lt_rank hn hcn
      rw [hsplit, List.mem_append, List.mem_cons] at hd
      rcases hd with hd | rfl | hd
      · have hd' := hfront d hd
        omega
      · omega
      · have hd' := hback d hd
        omega
    · have hlt := lt_rank hn hcn
      have hd' := hfront d hd
      omega

theorem identified_iff {r : ResolvedClient} :
    Identified parseIpNet clients ip r ↔
      r = ((firstMax (fun d => rank (d.nets parseIpNet) ip) clients).filter fun c =>
        0 < rank (c.nets parseIpNet) ip).elim (.unnamed ip) (·.resolved ip) := by
  unfold Identified
  simp only [ownsLongest_iff]
  have hnone : (∀ c ∈ clients, ∀ net ∈ c.nets parseIpNet, net.contains ip = false) ↔
      ∀ c ∈ clients, rank (c.nets parseIpNet) ip = 0 := by
    refine forall₂_congr fun c _ => ?_
    rw [← Nat.le_zero, rank_le_iff]
    simp
  rw [hnone]
  cases hmax : firstMax (fun d => rank (d.nets parseIpNet) ip) clients with
  | none =>
      have hnil := firstMax_eq_none_iff.mp hmax
      simp [hnil]
  | some c =>
      obtain ⟨hmem, hle⟩ := firstMax_spec hmax
      by_cases hpos : 0 < rank (c.nets parseIpNet) ip
      · have hnot : ¬ ∀ c ∈ clients, rank (c.nets parseIpNet) ip = 0 := by
          intro hzero
          simp [hzero c hmem] at hpos
        simp [Option.filter, hpos, hnot]
      · have hzero : ∀ d ∈ clients, rank (d.nets parseIpNet) ip = 0 := by
          intro d hd
          have hd' := hle d hd
          omega
        simp [Option.filter, hpos, eq_true hzero]

/-! ## The matcher -/

/-- The networks of an entry: the ids that are no bare addresses. -/
def ClientConfig.entryNets (parseIpNet : Text → Option IpNet) (c : ClientConfig) : List IpNet :=
  c.ids.filterMap fun id => if parseIpAddr id = none then parseIpNet id else none

def ClientConfig.entry (parseIpNet : Text → Option IpNet) (c : ClientConfig) : ClientEntry :=
  ⟨c.name, c.entryNets parseIpNet, c.tags, c.filteringEnabled⟩

theorem find?_addHost (hosts : List (IpAddr × Nat)) (ip' : IpAddr) (idx : Nat) :
    (ClientMatcher.addHost hosts ip' idx).find? (·.1 = ip) =
      (hosts.find? (·.1 = ip)).or (if ip' = ip then some (ip', idx) else none) := by
  unfold ClientMatcher.addHost
  split
  · rename_i hany
    by_cases heq : ip' = ip
    · subst heq
      have hsome : (hosts.find? (·.1 = ip')).isSome = true := by
        simpa [List.find?_isSome] using hany
      obtain ⟨host, hhost⟩ := Option.isSome_iff_exists.mp hsome
      simp [hhost]
    · simp [heq]
  · by_cases heq : ip' = ip <;> simp [List.find?_append, heq]

theorem foldl_addId (idx : Nat) (ids : List Text) (acc : List (IpAddr × Nat) × List IpNet) :
    (ids.foldl (ClientMatcher.addId parseIpNet idx) acc).1.find? (·.1 = ip) =
        (acc.1.find? (·.1 = ip)).or
          (if ids.any (parseIpAddr · = some ip) then some (ip, idx) else none) ∧
      (ids.foldl (ClientMatcher.addId parseIpNet idx) acc).2 =
        acc.2 ++ ids.filterMap fun id => if parseIpAddr id = none then parseIpNet id else none := by
  induction ids generalizing acc with
  | nil => simp
  | cons id ids ih =>
      obtain ⟨hhosts, hnets⟩ := ih (ClientMatcher.addId parseIpNet idx acc id)
      rw [List.foldl_cons, hhosts, hnets]
      unfold ClientMatcher.addId
      cases hparse : parseIpAddr id with
      | some ip' =>
          by_cases heq : ip' = ip
          · simp [find?_addHost, hparse, heq]
          · simp [find?_addHost, hparse, heq]
      | none => cases hnet : parseIpNet id <;> simp [hparse, hnet]

theorem build_eq (clients : List ClientConfig) :
    (ClientMatcher.build parseIpNet clients).entries = clients.map (·.entry parseIpNet) ∧
      (ClientMatcher.build parseIpNet clients).hosts.find? (·.1 = ip) =
        (clients.findIdx? (·.hasBare ip)).map fun i => (ip, i) := by
  induction clients using List.reverseRecOn with
  | nil => simp [ClientMatcher.build, ClientMatcher.empty]
  | append_singleton clients c ih =>
      obtain ⟨hentries, hhosts⟩ := ih
      have hsnoc : ClientMatcher.build parseIpNet (clients ++ [c]) =
          ClientMatcher.addClient parseIpNet (ClientMatcher.build parseIpNet clients) c := by
        simp [ClientMatcher.build]
      rw [hsnoc]
      unfold ClientMatcher.addClient
      constructor
      · have hfold := @foldl_addId parseIpNet ip
        simp [hentries, hfold, ClientConfig.entry, ClientConfig.entryNets]
      · simp only [foldl_addId, hhosts, hentries, List.length_map, List.findIdx?_append]
        cases clients.findIdx? (·.hasBare ip) <;>
          simp [ClientConfig.hasBare, List.findIdx?_cons]

theorem bestMatch_of_bare {c : ClientConfig} (h : clients.find? (·.hasBare ip) = some c) :
    (ClientMatcher.build parseIpNet clients).bestMatch ip = some (c.entry parseIpNet) := by
  obtain ⟨hentries, hhosts⟩ := @build_eq parseIpNet ip clients
  obtain ⟨i, hi, hlt, hc⟩ := List.find?_eq_some_iff_getElem.mp h |>.2
  have hindex : clients.findIdx? (·.hasBare ip) = some i := by
    rw [List.findIdx?_eq_some_iff_getElem]
    refine ⟨hi, ?_, fun j hj => ?_⟩
    · rw [hlt]
      exact (List.find?_eq_some_iff_getElem.mp h).1
    · simpa using hc j hj
  rw [hindex, Option.map_some] at hhosts
  unfold ClientMatcher.bestMatch
  split
  · rename_i host hhost
    obtain rfl : (ip, i) = host := Option.some.inj (hhosts.symm.trans hhost)
    simp [hentries, hlt]
  · rename_i hhost
    rw [hhosts] at hhost
    cases hhost

theorem bestMatch_of_noBare (h : clients.find? (·.hasBare ip) = none) :
    (ClientMatcher.build parseIpNet clients).bestMatch ip =
      ((clients.map (·.entry parseIpNet)).foldl (ClientMatcher.better ip) none).map (·.2) := by
  obtain ⟨hentries, hhosts⟩ := @build_eq parseIpNet ip clients
  have hindex : clients.findIdx? (·.hasBare ip) = none := by
    simpa [List.find?_eq_none, List.findIdx?_eq_none_iff] using h
  rw [hindex, Option.map_none] at hhosts
  unfold ClientMatcher.bestMatch
  split
  · rename_i host hhost
    rw [hhosts] at hhost
    cases hhost
  · rw [hentries]

/-- The champion of the loop over the entries. -/
def championOf (ip : IpAddr) (best : Option ClientEntry) : Option (Nat × ClientEntry) :=
  (best.filter fun e => 0 < rank e.nets ip).map fun e => (rank e.nets ip - 1, e)

theorem better_championOf (ip : IpAddr) (best : Option ClientEntry) (e : ClientEntry) :
    ClientMatcher.better ip (championOf ip best) e =
      championOf ip (champion (fun e => rank e.nets ip) best (some e)) := by
  have hrank : rank e.nets ip = (ClientMatcher.longestPrefix e ip).elim 0 (· + 1) := rfl
  unfold ClientMatcher.better
  cases hlen : ClientMatcher.longestPrefix e ip with
  | none =>
      rw [hlen, Option.elim_none] at hrank
      cases best with
      | none => simp [championOf, champion, Option.filter, hrank]
      | some b => simp [championOf, champion, Option.filter, hrank]
  | some len =>
      rw [hlen, Option.elim_some] at hrank
      cases best with
      | none => simp [championOf, champion, Option.filter, hrank]
      | some b =>
          by_cases hpos : 0 < rank b.nets ip
          · by_cases hlt : rank b.nets ip < rank e.nets ip
            · have hless : rank b.nets ip - 1 < len := by omega
              have hlt' : rank b.nets ip < len + 1 := by omega
              simp [championOf, champion, Option.filter, hpos, hlt', hrank, hless]
            · have hless : ¬ rank b.nets ip - 1 < len := by omega
              simp [championOf, champion, Option.filter, hpos, hlt, hless]
          · have hlt : rank b.nets ip < len + 1 := by omega
            simp [championOf, champion, Option.filter, hpos, hlt, hrank]

theorem foldl_better (ip : IpAddr) (entries : List ClientEntry) :
    entries.foldl (ClientMatcher.better ip) none =
      championOf ip (firstMax (fun e => rank e.nets ip) entries) := by
  induction entries using List.reverseRecOn with
  | nil => rfl
  | append_singleton entries e ih =>
      rw [List.foldl_append, ih, List.foldl_cons, List.foldl_nil, better_championOf,
        firstMax_append]
      simp [firstMax]

theorem rank_entryNets {c : ClientConfig} (h : c.hasBare ip = false) :
    rank (c.entryNets parseIpNet) ip = rank (c.nets parseIpNet) ip := by
  have hfilter : (c.entryNets parseIpNet).filter (·.contains ip) =
      (c.nets parseIpNet).filter (·.contains ip) := by
    simp only [ClientConfig.hasBare, List.any_eq_false, decide_eq_true_eq] at h
    unfold ClientConfig.entryNets ClientConfig.nets
    generalize c.ids = ids at h
    induction ids with
    | nil => rfl
    | cons id ids ih =>
        have hrest := ih fun id' hid' => h id' (List.mem_cons_of_mem _ hid')
        have hid := h id List.mem_cons_self
        cases hparse : parseIpAddr id with
        | some base =>
            have hother : base.hostNet.contains ip = false := by
              rw [Bool.eq_false_iff]
              intro hcontains
              rw [(base.contains_hostNet ip).mp hcontains] at hparse
              exact hid hparse
            simp [idNet, hparse, hother, hrest]
        | none => cases hnet : parseIpNet id <;> simp [idNet, hparse, hnet, List.filter_cons, hrest]
  rw [rank, rank, hfilter]

theorem identify_of_bare {c : ClientConfig} (h : clients.find? (·.hasBare ip) = some c) :
    (ClientMatcher.build parseIpNet clients).identify ip = c.resolved ip := by
  simp [ClientMatcher.identify, bestMatch_of_bare h, ClientConfig.entry, ClientConfig.resolved]

theorem identified_of_noBare (h : clients.find? (·.hasBare ip) = none) :
    Identified parseIpNet clients ip ((ClientMatcher.build parseIpNet clients).identify ip) := by
  have hbare : ∀ c ∈ clients, rank (c.entryNets parseIpNet) ip = rank (c.nets parseIpNet) ip := by
    intro c hc
    have hno := List.find?_eq_none.mp h c hc
    exact rank_entryNets (by simpa using hno)
  have hkey : firstMax (fun e => rank e.nets ip) (clients.map (·.entry parseIpNet)) =
      (firstMax (fun c => rank (c.nets parseIpNet) ip) clients).map (·.entry parseIpNet) := by
    rw [firstMax_map]
    exact congrArg (Option.map _) (firstMax_congr hbare)
  rw [identified_iff, ClientMatcher.identify, bestMatch_of_noBare h, foldl_better, hkey]
  cases hmax : firstMax (fun c => rank (c.nets parseIpNet) ip) clients with
  | none => rfl
  | some c =>
      have hc := hbare c (firstMax_spec hmax).1
      have hentry : (c.entry parseIpNet).nets = c.entryNets parseIpNet := rfl
      by_cases hpos : 0 < rank (c.nets parseIpNet) ip
      · simp [championOf, Option.filter, hc, hpos, ClientConfig.resolved, ClientConfig.entry]
      · simp [championOf, Option.filter, hentry, hc, hpos, ResolvedClient.unnamed]

/-- Networks are no longer than addresses, so those of full length are the longest. -/
theorem identified_resolved_iff
    (hparse : ∀ id net, parseIpNet id = some net → net.prefixLen ≤ net.addr.width)
    {d : ClientConfig} (hd : clients.find? (·.hasFull parseIpNet ip) = some d)
    (r : ResolvedClient) : Identified parseIpNet clients ip r ↔ r = d.resolved ip := by
  have hle : ∀ c : ClientConfig, rank (c.nets parseIpNet) ip ≤ ip.width + 1 := by
    intro c
    refine rank_le_iff.mpr fun net hnet hcontains => ?_
    obtain ⟨id, -, hid⟩ := List.mem_filterMap.mp hnet
    rw [← IpNet.width_of_contains hcontains]
    unfold idNet at hid
    split at hid
    · cases hid
      exact Nat.lt_succ_self _
    · exact Nat.lt_succ_of_le (hparse id net hid)
  have hfull : ∀ c : ClientConfig, c.hasFull parseIpNet ip = true ↔
      rank (c.nets parseIpNet) ip = ip.width + 1 := by
    intro c
    simp only [ClientConfig.hasFull, List.any_eq_true, Bool.and_eq_true, decide_eq_true_eq]
    constructor
    · rintro ⟨net, hnet, hcontains, hlen⟩
      have hlt := lt_rank hnet hcontains
      have hbound := hle c
      omega
    · intro heq
      have hpos : 0 < rank (c.nets parseIpNet) ip := by omega
      obtain ⟨net, hnet, hcontains, hlen⟩ := rank_pos_iff.mp hpos
      exact ⟨net, hnet, hcontains, by omega⟩
  obtain ⟨hdfull, front, back, hsplit, hfront⟩ := List.find?_eq_some_iff_append.mp hd
  have hrank := (hfull d).mp hdfull
  have hmax : firstMax (fun c => rank (c.nets parseIpNet) ip) clients = some d := by
    rw [firstMax_eq_some_iff]
    refine ⟨front, back, hsplit, fun c hc => ?_, fun c _ => hrank ▸ hle c⟩
    have hnot : rank (c.nets parseIpNet) ip ≠ ip.width + 1 := by
      intro heq
      have hno := hfront c hc
      simp [(hfull c).mpr heq] at hno
    have hbound := hle c
    simp only [hrank]
    omega
  rw [identified_iff, hmax]
  simp [Option.filter, hrank]

/--
The client behind an address is that of the longest prefix, the earliest one among equals,
exactly where the first client with the bare address has the settings of the first client
with that address in either spelling.
-/
theorem identified_iff_sameSettings
    (hparse : ∀ id net, parseIpNet id = some net → net.prefixLen ≤ net.addr.width)
    (clients : List ClientConfig) (ip : IpAddr) :
    Identified parseIpNet clients ip ((ClientMatcher.build parseIpNet clients).identify ip) ↔
      ∀ c d, clients.find? (·.hasBare ip) = some c →
        clients.find? (·.hasFull parseIpNet ip) = some d → c.resolved ip = d.resolved ip := by
  cases hbare : clients.find? (·.hasBare ip) with
  | none => simp [identified_of_noBare hbare]
  | some c =>
      have hcbare : c.hasFull parseIpNet ip = true := by
        have hc : c.hasBare ip = true := by simpa using List.find?_some hbare
        simp only [ClientConfig.hasBare, List.any_eq_true, decide_eq_true_eq] at hc
        obtain ⟨id, hid, hip⟩ := hc
        have hnet : ip.hostNet ∈ c.nets parseIpNet :=
          List.mem_filterMap.mpr ⟨id, hid, by simp [idNet, hip]⟩
        refine List.any_eq_true.mpr ⟨ip.hostNet, hnet, ?_⟩
        rw [(ip.contains_hostNet ip).mpr rfl]
        simp [IpAddr.hostNet]
      have hsome : (clients.find? (·.hasFull parseIpNet ip)).isSome = true :=
        List.find?_isSome.mpr ⟨c, List.mem_of_find?_eq_some hbare, hcbare⟩
      obtain ⟨d, hd⟩ := Option.isSome_iff_exists.mp hsome
      rw [identify_of_bare hbare, identified_resolved_iff hparse hd, hd]
      simp

end

/-! ## A parser for networks -/

/-- An address, a slash and a prefix length in decimal digits. -/
def slashNet (id : Text) : Option IpNet := do
  let (addr, len) ← splitOnce '/' id
  let base ← parseIpAddr addr
  let n ← parseDecimal len
  if n ≤ base.width then some ⟨base, n⟩ else none

theorem slashNet_prefixLen_le (id : Text) (net : IpNet) (h : slashNet id = some net) :
    net.prefixLen ≤ net.addr.width := by
  simp only [slashNet, Option.bind_eq_bind, Option.bind_eq_some_iff, Prod.exists,
    Option.ite_none_right_eq_some, Option.some.injEq] at h
  obtain ⟨-, -, -, base, -, n, -, hle, rfl⟩ := h
  exact hle

def clientWith (name : String) (ids : List String) (filteringEnabled : Bool) : ClientConfig where
  id := name.toList
  name := name.toList
  ids := ids.map String.toList
  tags := []
  filteringEnabled := filteringEnabled

def lanAndServer : List ClientConfig :=
  [clientWith "lan" ["10.0.0.0/8"] false, clientWith "server" ["10.1.2.3"] true]

theorem identified_lanAndServer :
    (∀ id net, slashNet id = some net → net.prefixLen ≤ net.addr.width) ∧
      Identified slashNet lanAndServer (.v4 0x0a010203)
        ((ClientMatcher.build slashNet lanAndServer).identify (.v4 0x0a010203)) := by
  refine ⟨slashNet_prefixLen_le, ?_⟩
  have hsame : ∀ c d, lanAndServer.find? (·.hasBare (.v4 0x0a010203)) = some c →
      lanAndServer.find? (·.hasFull slashNet (.v4 0x0a010203)) = some d →
      c.resolved (.v4 0x0a010203) = d.resolved (.v4 0x0a010203) := by
    have hbare : lanAndServer.find? (·.hasBare (.v4 0x0a010203)) =
        lanAndServer.find? (·.hasFull slashNet (.v4 0x0a010203)) := by decide +kernel
    intro c d hc hd
    rw [hbare, hd] at hc
    rw [Option.some.inj hc]
  exact (identified_iff_sameSettings slashNet_prefixLen_le lanAndServer _).mpr hsame

/-- The same address twice: the earlier client has it as a network, and loses. -/
def twoSpellings : List ClientConfig :=
  [clientWith "first" ["10.1.2.3/32"] false, clientWith "second" ["10.1.2.3"] true]

theorem bareAddress_beats_earlier :
    ¬ Identified slashNet twoSpellings (.v4 0x0a010203)
      ((ClientMatcher.build slashNet twoSpellings).identify (.v4 0x0a010203)) := by
  rw [identified_iff]
  decide +kernel

end Bulwark.Engine
