import Bulwark.Filter.Rule
import Bulwark.Filter.Regex

/-!
# Hosts-file and AdGuard rule parsing

The functions of `parser.rs`, from one list line to the rules it stands for.
Address networks are parsed by a library outside the repository; its parser is
a parameter beside the regex engine.
-/

namespace Bulwark.Filter

open Bulwark.Foundation

structure External where
  rx : RegexEngine
  parseIpNet : Text → Option IpNet

/-- Regexes by the reference engine; no address networks. -/
def referenceExternal : External where
  rx := referenceEngine
  parseIpNet _ := none

inductive ParseError where
  | regex (message : Text)
  | invalid (message : Text)
  deriving DecidableEq, Repr

inductive Parsed where
  | rules (rules : List BuildRule)
  | ignored
  | unsupported (line : Text)
  deriving DecidableEq, Repr

def maxRegexLen : Nat := 1000

def regexSizeLimit : Nat := 256 * 1024

def hostsNoise : List Text :=
  ["localhost", "localhost.localdomain", "local", "broadcasthost",
    "ip6-localhost", "ip6-loopback", "ip6-localnet", "ip6-mcastprefix",
    "ip6-allnodes", "ip6-allrouters", "ip6-allhosts", "0.0.0.0"].map String.toList

def isBlockingIp (ip : IpAddr) : Bool := ip.isUnspecified || ip.isLoopback

/-- Lowercase, without surrounding blanks and trailing dots. -/
def normDomain (d : Text) : Text :=
  toAsciiLowercase (trimEndMatches '.' (trim d))

/-- Canonical text of a bare or bracketed address literal. -/
def ipLiteral (s : Text) : Option Text :=
  let bare := ((['['].isPrefixOf? s).bind fun r => [']'].isSuffixOf? r).getD s
  (parseIpAddr bare).map renderIpAddr

/-- AdGuard and ABP cosmetic or HTML-filtering markers. -/
def isCosmetic : Text → Bool
  | [] => false
  | c :: t =>
      (if c = '#' then
        (t.dropWhile fun d => contains d "@?$%".toList).head? == some '#'
      else if c = '$' then
        startsWith "$$".toList (c :: t) || startsWith "$@$".toList (c :: t)
      else false) || isCosmetic t

def isHostLabel (label : Text) : Bool :=
  label ≠ [] && utf8Len label ≤ 63 &&
    label.all fun c => c.isAlphanum || c == '-' || c == '_'

def isDnsHostname (d : Text) : Bool :=
  d ≠ [] && utf8Len d ≤ 253 && (d.splitOn '.').all isHostLabel

/-! ## Hosts lines -/

def hostsRule (first host domain : Text) (ip : IpAddr) : BuildRule :=
  let block := isBlockingIp ip
  let data := match ip with
    | .v4 addr => RewriteData.a addr
    | .v6 addr => RewriteData.aaaa addr
  { rule :=
      { raw := first ++ [' '] ++ host
        action := if block then .block else .rewrite
        pattern := .exact domain
        mods := if block then none else some { rewrite := some data }
        listId := 0 }
    badfilter := false
    signature := "hosts|".toList ++ domain ++ ['|'] ++
      (if block then "block".toList else "rewrite".toList)
    indexTokens := [] }

/-- `none` when the line is not a hosts line. -/
def tryParseHosts (line : Text) : Option (List BuildRule) :=
  match splitWhitespace line with
  | [] => none
  | first :: parts =>
      match parseIpAddr first with
      | none => none
      | some ip =>
          let hosts := parts.takeWhile fun tok => !startsWith ['#'] tok
          if hosts = [] then none
          else some (hosts.filterMap fun host =>
            let domain := normDomain host
            if domain = [] ∨ domain ∈ hostsNoise then none
            else some (hostsRule first host domain ip))

/-! ## Modifiers -/

def splitModifiers (s : Text) : Text × Option Text :=
  if startsWith ['/'] s then
    match splitOnceStr "/$".toList s with
    | some (before, after) => (before ++ ['/'], some after)
    | none => (s, none)
  else
    match splitOnce '$' s with
    | some (before, after) => (before, some after)
    | none => (s, none)

/-- The canonical signature for de-duplication and `$badfilter`. -/
def makeSignature (action : Action) (pattern : Text) (mods : Option Text) : Text :=
  let parts := match mods with
    | none => []
    | some m => ((m.splitOn ',').map trim).filter fun s =>
        s ≠ [] && s ≠ "badfilter".toList
  (if action = .allow then "@@".toList else []) ++ toAsciiLowercase pattern ++
    "|$".toList ++ joinWith [','] (parts.insertionSort fun a b => textLe a b = true)

def nonEmptyParts (value : Text) : List Text :=
  (value.splitOn '|').filter (· ≠ [])

def parseDnstype (value : Text) : Except ParseError DnsTypeFilter :=
  let f := (nonEmptyParts value).foldl (fun (f : DnsTypeFilter) t =>
    match ['~'].isPrefixOf? t with
    | some neg => { f with excl := f.excl ++ [toAsciiUppercase neg] }
    | none => { f with incl := f.incl ++ [toAsciiUppercase t] }) {}
  if f.incl = [] ∧ f.excl = [] then
    .error (.invalid "$dnstype requires at least one record type".toList)
  else .ok f

def doubleQuote : Char := Char.ofNat 34

def singleQuote : Char := Char.ofNat 39

def clientMatch (ext : External) (spec : Text) : ClientMatch :=
  match ext.parseIpNet spec with
  | some net => .net net
  | none =>
      match parseIpAddr spec with
      | some ip => .ip ip
      | none => .name spec

def parseClient (ext : External) (value : Text) : Except ParseError ClientFilter :=
  let f := (nonEmptyParts value).foldl (fun (f : ClientFilter) raw =>
    let (neg, spec) := match ['~'].isPrefixOf? raw with
      | some rest => (true, rest)
      | none => (false, raw)
    let m := clientMatch ext (trimMatches singleQuote (trimMatches doubleQuote spec))
    if neg then { f with excl := f.excl ++ [m] }
    else { f with incl := f.incl ++ [m] }) {}
  if f.incl = [] ∧ f.excl = [] then
    .error (.invalid "$client requires at least one client".toList)
  else .ok f

def parseCtag (value : Text) : Except ParseError CtagFilter :=
  let f := (nonEmptyParts value).foldl (fun (f : CtagFilter) t =>
    match ['~'].isPrefixOf? t with
    | some neg => { f with excl := f.excl ++ [neg] }
    | none => { f with incl := f.incl ++ [t] }) {}
  if f.incl = [] ∧ f.excl = [] then
    .error (.invalid "$ctag requires at least one tag".toList)
  else .ok f

/-- A 16-bit number: an optional plus sign and decimal digits. -/
def parseU16 (t : Text) : Option Nat :=
  (parseDecimal ((['+'].isPrefixOf? t).getD t)).filter (· < 65536)

def ipRewrite : IpAddr → RewriteData
  | .v4 addr => .a addr
  | .v6 addr => .aaaa addr

def rewriteRcode (keyword : Text) : Option RewriteRcode :=
  if keyword = "NOERROR".toList then some .noError
  else if keyword = "NXDOMAIN".toList then some .nxDomain
  else if keyword = "REFUSED".toList then some .refused
  else if keyword = "SERVFAIL".toList then some .servFail
  else none

def orInvalid {α : Type} (message : Text) : Option α → Except ParseError α
  | some value => .ok value
  | none => .error (.invalid message)

/-- The full form `RCODE;TYPE;VALUE`; `none` when the type is not supported. -/
def rewriteByType (rtype data : Text) : Option (Except ParseError RewriteData) :=
  if rtype = "A".toList then
    some (orInvalid ("bad A in dnsrewrite: ".toList ++ data)
      ((parseIpv4Addr data).map .a))
  else if rtype = "AAAA".toList then
    some (orInvalid ("bad AAAA in dnsrewrite: ".toList ++ data)
      ((parseIpv6Addr data).map .aaaa))
  else if rtype = "CNAME".toList then some (.ok (.cname (normDomain data)))
  else if rtype = "TXT".toList then some (.ok (.txt (trimMatches doubleQuote data)))
  else if rtype = "PTR".toList then some (.ok (.ptr (normDomain data)))
  else if rtype = "MX".toList then
    some (orInvalid ("bad MX in dnsrewrite: ".toList ++ data) (
      match splitWhitespace data with
      | preference :: exchange :: _ =>
          (parseU16 preference).map fun p => .mx p (normDomain exchange)
      | _ => none))
  else none

def parseDnsrewrite (value : Text) : Except ParseError RewriteData :=
  let v := trim value
  match rewriteRcode (toAsciiUppercase v) with
  | some code => .ok (.rcode code)
  | none =>
  match parseIpAddr v with
  | some ip => .ok (ipRewrite ip)
  | none =>
  let full := match splitn ';' 3 v with
    | [_, rtype, data] => rewriteByType (toAsciiUppercase rtype) data
    | _ => none
  match full with
  | some result => result
  | none =>
      if contains '.' v && !contains ';' v then .ok (.cname (normDomain v))
      else .error (.invalid ("unsupported dnsrewrite: ".toList ++ value))

/-- What the modifier loop of `parse_adblock` accumulates. -/
structure ModState where
  action : Action
  badfilter : Bool := false
  mods : RuleMods := {}
  deriving DecidableEq, Repr

/-- One modifier; `none` for a key without meaning for DNS. -/
def applyModifier (ext : External) (key value : Text) (st : ModState) :
    Except ParseError (Option ModState) :=
  if key = "important".toList then
    .ok (some { st with mods := { st.mods with important := true } })
  else if key = "badfilter".toList then .ok (some { st with badfilter := true })
  else if key = "dnstype".toList then do
    let f ← parseDnstype value
    pure (some { st with mods := { st.mods with dnstype := some f } })
  else if key = "client".toList then do
    let f ← parseClient ext value
    pure (some { st with mods := { st.mods with client := some f } })
  else if key = "ctag".toList then do
    let f ← parseCtag value
    pure (some { st with mods := { st.mods with ctag := some f } })
  else if key = "denyallow".toList then
    let domains := (nonEmptyParts value).map normDomain
    if domains = [] then
      .error (.invalid "$denyallow requires at least one domain".toList)
    else .ok (some { st with mods := { st.mods with denyallow := domains } })
  else if key = "dnsrewrite".toList then do
    let data ← parseDnsrewrite value
    pure (some { st with
      action := if st.action = .block then .rewrite else st.action
      mods := { st.mods with rewrite := some data } })
  else .ok none

/-- A modifier token as key and value; a missing value reads as empty. -/
def keyValue (tok : Text) : Text × Text := (splitOnce '=' tok).getD (tok, [])

def applyModifiers (ext : External) :
    List Text → ModState → Except ParseError (Option ModState)
  | [], st => .ok (some st)
  | tok :: toks, st =>
      if trim tok = [] then applyModifiers ext toks st
      else
        match applyModifier ext (keyValue (trim tok)).1 (keyValue (trim tok)).2 st with
        | .error e => .error e
        | .ok none => .ok none
        | .ok (some st) => applyModifiers ext toks st

/-! ## Patterns -/

def compileRegex (ext : External) (source : Text) : Except ParseError Regex :=
  match ext.rx.build source regexSizeLimit with
  | .ok _ => .ok ⟨source⟩
  | .error message => .error (.regex message)

def buildWildcardRegex (ext : External) (body : Text)
    (subdomainAnchor startAnchor endAnchor : Bool) : Except ParseError Regex :=
  compileRegex ext (wildcardSource body subdomainAnchor startAnchor endAnchor)

structure Anchored where
  body : Text
  subdomain : Bool
  start : Bool
  stop : Bool
  deriving DecidableEq, Repr

def stripAnchors (p : Text) : Anchored :=
  let (s, subdomain, start) := match "||".toList.isPrefixOf? p with
    | some rest => (rest, true, false)
    | none =>
        match ['|'].isPrefixOf? p with
        | some rest => (rest, false, true)
        | none => (p, false, false)
  let (s, stop) := match ['^'].isSuffixOf? s with
    | some rest => (rest, true)
    | none =>
        match ['|'].isSuffixOf? s with
        | some rest => (rest, true)
        | none => (s, false)
  ⟨trimEndMatches '^' s, subdomain, start, stop⟩

def isRegexPattern (p : Text) : Bool :=
  startsWith ['/'] p && endsWith ['/'] p && 2 ≤ utf8Len p

def regexInner (p : Text) : Text := (p.drop 1).dropLast

def parsePattern (ext : External) (p : Text) :
    Except ParseError (Pattern × List UInt32) :=
  if isRegexPattern p then
    let inner := regexInner p
    if maxRegexLen < utf8Len inner then
      .error (.regex ("regex too long (".toList ++ renderDecimal (utf8Len inner) ++
        " > 1000 chars)".toList))
    else do
      let re ← compileRegex ext ("(?i)".toList ++ inner)
      pure (.regex re, [])
  else
    let a := stripAnchors p
    if contains '*' a.body || contains '^' a.body then do
      let re ← buildWildcardRegex ext a.body a.subdomain a.start a.stop
      pure (.wildcard re, tokenizePatternSafe (toAsciiLowercase a.body))
    else
      match ipLiteral a.body with
      | some ip => .ok (.exact ip, [])
      | none =>
          let domain := normDomain a.body
          if domain = [] then .error (.invalid "empty domain".toList)
          else if !isDnsHostname domain then
            .error (.invalid ("not a DNS hostname: ".toList ++ domain))
          else if a.start then .ok (.exact domain, [])
          else .ok (.subdomain domain, [])

/-! ## Lines -/

def splitException (line : Text) : Action × Text :=
  match "@@".toList.isPrefixOf? line with
  | some rest => (.allow, rest)
  | none => (.block, line)

def modifierTokens (mods : Option Text) : List Text :=
  match mods with
  | none => []
  | some m => m.splitOn ','

def parseAdblock (ext : External) (line : Text) : Except ParseError Parsed :=
  let (action, body) := splitException line
  let (patternPart, modsStr) := splitModifiers body
  let patternStr := trim patternPart
  if patternStr = [] then .error (.invalid "empty pattern".toList)
  else do
    let signature := makeSignature action patternStr modsStr
    let (pattern, indexTokens) ← parsePattern ext patternStr
    match ← applyModifiers ext (modifierTokens modsStr) { action := action } with
    | none => pure (.unsupported line)
    | some st =>
        pure (.rules [
          { rule :=
              { raw := line
                action := st.action
                pattern := pattern
                mods := if st.mods.isEmpty then none else some st.mods
                listId := 0 }
            badfilter := st.badfilter
            signature := signature
            indexTokens := indexTokens }])

def parseLine (ext : External) (line : Text) : Except ParseError Parsed :=
  let line := trim line
  if line = [] then .ok .ignored
  else if startsWith ['!'] line || startsWith ['#'] line || startsWith ['['] line then
    .ok .ignored
  else
    match tryParseHosts line with
    | some rules => .ok (if rules = [] then .ignored else .rules rules)
    | none =>
        if isCosmetic line then .ok (.unsupported line)
        else parseAdblock ext line

end Bulwark.Filter
