import Bulwark.Foundation.Selection
import Bulwark.Filter.Index

/-!
# The compiled filtering engine

`FilterEngine::from_rules` and `FilterEngine::check`.  Building is a fold over
the rules; `check` collects candidate ids from the indexes and keeps the first
one of the highest priority.  `none` stands for a panic throughout.
-/

namespace Bulwark.Filter

open Bulwark.Foundation

structure MatchInfo where
  rule : Text
  listId : Nat
  ruleId : Nat
  deriving DecidableEq, Repr

inductive Verdict where
  | allow (rule : Option MatchInfo)
  | block (info : MatchInfo)
  | rewrite (info : MatchInfo) (data : RewriteData)
  deriving DecidableEq, Repr

def Verdict.isBlocked : Verdict → Bool
  | .block _ => true
  | .allow _ | .rewrite _ _ => false

def Verdict.isRewrite : Verdict → Bool
  | .rewrite _ _ => true
  | .allow _ | .block _ => false

/-! ## Building -/

/-- The local variables of the loop in `from_rules`. -/
structure Builder where
  rawArena : Text := []
  domainArena : Text := []
  records : List RuleRecord := []
  mods : List RuleMods := []
  regexes : List Text := []
  exactPairs : List (Nat × Nat) := []
  subPairs : List (Nat × Nat) := []
  overrideMeta : ScanMeta := []
  blockMeta : ScanMeta := []
  hasClientDependentRules : Bool := false
  content : List UInt8 := []

/-- What `raw`, `list_id` and `action` feed to the content hasher. -/
def contentBytes (r : Rule) : List UInt8 :=
  r.raw.flatMap String.utf8EncodeChar ++ [0xff] ++
    (List.range 4).map (fun i => (r.listId / 256 ^ i % 256).toUInt8) ++
    [r.action.tag.toUInt8]

def isClientDependent (m : RuleMods) : Bool := m.client.isSome || m.ctag.isSome

/-- An exception or `$important`: the priority can exceed a plain domain block. -/
def isOverrideCapable (r : Rule) : Bool :=
  r.action = .allow || r.mods.any (·.important)

def maxRawLen : Nat := 2 ^ 16 - 1

namespace Builder

def addMods (b : Builder) (mods : Option RuleMods) : Builder × Nat :=
  match mods with
  | some m =>
      ({ b with
          mods := b.mods ++ [m]
          hasClientDependentRules := b.hasClientDependentRules || isClientDependent m },
        asU32 b.mods.length)
  | none => (b, noMods)

def addScan (b : Builder) (id : Nat) (override : Bool) (source : Text)
    (tokens : List UInt32) : Builder :=
  let b := { b with regexes := b.regexes ++ [source] }
  if override then { b with overrideMeta := b.overrideMeta ++ [(id, tokens)] }
  else { b with blockMeta := b.blockMeta ++ [(id, tokens)] }

/-- The pattern's kind, its offset or regex index, and its length byte. -/
def addPattern (env : BuildEnv) (b : Builder) (id : Nat) (override : Bool)
    (br : BuildRule) : Builder × Kind × Nat × Nat :=
  match br.rule.pattern with
  | .exact d =>
      ({ b with
          exactPairs := b.exactPairs ++ [(env.dhash d, id)]
          domainArena := b.domainArena ++ d },
        .exact, asU32 (utf8Len b.domainArena), utf8Len d % 256)
  | .subdomain d =>
      ({ b with
          subPairs := b.subPairs ++ [(env.dhash d, id)]
          domainArena := b.domainArena ++ d },
        .subdomain, asU32 (utf8Len b.domainArena), utf8Len d % 256)
  | .wildcard re =>
      (b.addScan id override re.asStr br.indexTokens,
        .wildcard, asU32 b.regexes.length, 0)
  | .regex re =>
      (b.addScan id override re.asStr br.indexTokens,
        .regex, asU32 b.regexes.length, 0)

/-- One pass of the loop; the enumeration index is the number of records. -/
def addRule (env : BuildEnv) (b : Builder) (br : BuildRule) : Builder :=
  let id := asU32 b.records.length
  let rawStart := asU32 (utf8Len b.rawArena)
  let b := { b with
    content := b.content ++ contentBytes br.rule
    rawArena := b.rawArena ++ br.rule.raw }
  let (b, modsIdx) := b.addMods br.rule.mods
  let (b, kind, domOrRe, domLen) :=
    b.addPattern env id (isOverrideCapable br.rule) br
  { b with
    records := b.records ++ [
      { rawStart := rawStart
        domOrRe := domOrRe
        modsIdx := modsIdx
        rawLen := min (utf8Len br.rule.raw) maxRawLen
        listId := br.rule.listId % 2 ^ 16
        domLen := domLen
        action := br.rule.action
        kind := kind }] }

def ofRules (env : BuildEnv) (rules : List BuildRule) : Builder :=
  rules.foldl (addRule env) {}

end Builder

structure FilterEngine where
  rules : List RuleRecord
  rawArena : Text
  domainArena : Text
  mods : List RuleMods
  regexes : List Text
  dhash : Text → Nat
  exactIndex : DomainIndex
  subdomainIndex : DomainIndex
  overrideScan : ScanGroup
  blockScan : ScanGroup
  hasClientDependentRules : Bool
  contentHash : Nat

def fromRules (env : BuildEnv) (rx : RegexEngine) (rules : List BuildRule) :
    Option FilterEngine := do
  let b := Builder.ofRules env rules
  let overrideScan ← buildScanGroup rx b.overrideMeta b.records b.regexes false
  let blockScan ← buildScanGroup rx b.blockMeta b.records b.regexes true
  some {
    rules := b.records
    rawArena := b.rawArena
    domainArena := b.domainArena
    mods := b.mods
    regexes := b.regexes
    dhash := env.dhash
    exactIndex := DomainIndex.build env b.exactPairs
    subdomainIndex := DomainIndex.build env b.subPairs
    overrideScan := overrideScan
    blockScan := blockScan
    hasClientDependentRules := b.hasClientDependentRules
    contentHash := env.contentHasher b.content }

/-! ## Matching -/

/-- `domain` equals `base` or is a subdomain of it. -/
def isSubdomainOf (domain base : Text) : Bool :=
  domain == base ||
    (endsWith base domain && utf8Len base < utf8Len domain &&
      endsWith ('.' :: base) domain)

def modsApply (action : Action) (mods : Option RuleMods)
    (domain rtype : Text) (client : ClientInfo) : Bool :=
  match mods with
  | none => true
  | some m =>
      m.dnstype.all (·.matches rtype) && m.client.all (·.matches client) &&
        m.ctag.all (·.matches client.tags) &&
        !(action != .allow && m.denyallow.any (isSubdomainOf domain))

namespace FilterEngine

variable (e : FilterEngine)

def raw (r : RuleRecord) : Option Text :=
  sliceBytes e.rawArena r.rawStart r.rawLen

def domain (r : RuleRecord) : Option Text :=
  sliceBytes e.domainArena r.domOrRe r.domLen

/-- The outer `none` is an index out of bounds. -/
def modsOf (r : RuleRecord) : Option (Option RuleMods) :=
  if r.modsIdx = noMods then some none else (e.mods[r.modsIdx]?).map some

def domainMatches (r : RuleRecord) (domain : Text) : Option Bool :=
  match r.kind with
  | .exact => (e.domain r).map (· == domain)
  | .subdomain => (e.domain r).map (isSubdomainOf domain)
  | .wildcard | .regex => some true

def priority (r : RuleRecord) : Option Nat :=
  (e.modsOf r).map (priorityOf r.action)

def applicable (r : RuleRecord) (domain rtype : Text) (client : ClientInfo) :
    Option Bool :=
  (e.modsOf r).map fun mods => modsApply r.action mods domain rtype client

/-- Hits for the name and for each text after a dot. -/
def collectSuffixes : List Text → Option (List Nat)
  | [] => some []
  | hay :: rest => do
      let hits ← e.subdomainIndex.get (e.dhash hay)
      let more ← collectSuffixes rest
      some (hits ++ more)

def collectDomain (domain : Text) : Option (List Nat) := do
  let exactHits ← if e.exactIndex.isEmpty then some []
    else e.exactIndex.get (e.dhash domain)
  let subHits ← if e.subdomainIndex.isEmpty then some []
    else e.collectSuffixes (domain :: parents domain)
  some (exactHits ++ subHits)

def setHits (ids : List Nat) : List Nat → Option (List Nat)
  | [] => some []
  | idx :: rest => do
      let id ← ids[idx]?
      let more ← setHits ids rest
      some (id :: more)

def scanSets (rx : RegexEngine) (domain : Text) :
    List FallbackSet → Option (List Nat)
  | [] => some []
  | set :: sets => do
      let hits ← setHits set.ids (rx.setMatches set.patterns domain)
      let more ← scanSets rx domain sets
      some (hits ++ more)

def scanIds (rx : RegexEngine) (domain : Text) : List Nat → Option (List Nat)
  | [] => some []
  | id :: ids => do
      let r ← e.rules[id]?
      let hit ← if r.kind.isScan then
          (e.regexes[r.domOrRe]?).map (rx.isMatch · domain)
        else some false
      let more ← scanIds rx domain ids
      some (if hit then id :: more else more)

def scanTokens (rx : RegexEngine) (g : ScanGroup) (domain : Text) :
    List UInt32 → Option (List Nat)
  | [] => some []
  | tok :: toks => do
      let hits ← e.scanIds rx domain ((g.scanIndex.lookup tok).getD [])
      let more ← scanTokens rx g domain toks
      some (hits ++ more)

def scanGroup (rx : RegexEngine) (g : ScanGroup) (domain : Text)
    (tokens : List UInt32) : Option (List Nat) := do
  let sets ← scanSets rx domain g.fallbackSets
  let individual ← e.scanIds rx domain g.fallbackIndividual
  let indexed ← if g.scanIndex.entries.isEmpty then some []
    else e.scanTokens rx g domain tokens
  some (sets ++ individual ++ indexed)

abbrev Best := Option Nat × Nat

def considerOne (domain rtype : Text) (client : ClientInfo) (best : Best)
    (id : Nat) : Option Best := do
  let r ← e.rules[id]?
  if !(← e.domainMatches r domain) then some best
  else if !(← e.applicable r domain rtype client) then some best
  else
    let prio ← e.priority r
    if best.1.isNone || best.2 < prio then some (some id, prio) else some best

def consider (domain rtype : Text) (client : ClientInfo) :
    List Nat → Best → Option Best
  | [], best => some best
  | id :: ids, best => do
      let best ← e.considerOne domain rtype client best id
      consider domain rtype client ids best

/-- Lowercase without trailing dots, when the query is not so already. -/
def normalizeQuery (domain : Text) : Text :=
  if domain.any Char.isUpper || endsWith ['.'] domain then
    toAsciiLowercase (trimEndMatches '.' domain)
  else domain

def bestId (rx : RegexEngine) (domain rtype : Text) (client : ClientInfo) :
    Option (Option Nat) := do
  let candidates ← e.collectDomain domain
  let overrides ← e.scanGroup rx e.overrideScan domain []
  let best ← e.consider domain rtype client (candidates ++ overrides) (none, 0)
  if best.1.isNone && !e.blockScan.isEmpty then
    let tokens := if e.blockScan.scanIndex.entries.isEmpty then []
      else forEachQueryToken domain
    let candidates ← e.scanGroup rx e.blockScan domain tokens
    let best ← e.consider domain rtype client candidates best
    some best.1
  else some best.1

/-- The verdict of the record `id`; a rewrite must carry its data. -/
def verdictOf (id : Nat) : Option Verdict := do
  let r ← e.rules[id]?
  let text ← e.raw r
  let info : MatchInfo := ⟨text, r.listId, id⟩
  match r.action with
  | .allow => some (.allow (some info))
  | .block => some (.block info)
  | .rewrite => do
      let mods ← e.modsOf r
      let data ← mods.bind (·.rewrite)
      some (.rewrite info data)

def check (rx : RegexEngine) (domain rtype : Text) (client : ClientInfo) :
    Option Verdict := do
  match ← e.bestId rx (normalizeQuery domain) rtype client with
  | none => some (.allow none)
  | some id => e.verdictOf id

end FilterEngine

/-! ## A concrete build environment -/

/-- A stable sort and a colliding hash; enough to run examples. -/
def plainEnv (dhash : Text → Nat) : BuildEnv where
  dhash := dhash
  sortByHash pairs := pairs.insertionSort fun p q => p.1 ≤ q.1
  contentHasher bytes := bytes.foldl (fun h b => h * 257 + b.toNat) 0
  sort_perm _ := List.perm_insertionSort _ _
  sort_sorted := pairwise_insertionSort_key Prod.fst

def compile (env : BuildEnv) (ext : External) (lists : Lists) :
    Option FilterEngine :=
  fromRules env ext.rx (compiledRules ext lists)

end Bulwark.Filter
