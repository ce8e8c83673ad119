import Bulwark.Foundation.Net
import Bulwark.Filter.ClientBlind
import Bulwark.Engine.Clients
import Bulwark.Engine.Wire

/-!
# Filtering answers

`filter_answers` and `hint_block`: the names and addresses of an answer are checked like
the names of queries.  `none` stands for a panic of the filter.
-/

namespace Bulwark.Engine

open Bulwark.Foundation Bulwark.Dns Bulwark.Filter

/-- `find_map` with a function that may panic. -/
def findBlock {α : Type} (check : α → Option (Option MatchInfo)) :
    List α → Option (Option MatchInfo)
  | [] => some none
  | x :: xs => do
      match ← check x with
      | some info => some (some info)
      | none => findBlock check xs

def blockOf : Verdict → Option MatchInfo
  | .block info => some info
  | .allow _ | .rewrite _ _ => none

/-! ## Service bindings -/

/-- The parameters from `pos` on, as their keys and values. -/
def svcParamsFrom (data : Bytes) : Nat → Nat → List (UInt16 × Bytes)
  | 0, _ => []
  | fuel + 1, pos =>
      match u16At data pos, u16At data (pos + 2) with
      | some key, some len =>
          match slice data (pos + 4) len.toNat with
          | some value => (key, value) :: svcParamsFrom data fuel (pos + 4 + len.toNat)
          | none => []
      | _, _ => []

/-- The parameters of SVCB and HTTPS data, behind the priority and the target. -/
def svcParams (data : Bytes) : List (UInt16 × Bytes) :=
  match skipName data 2 with
  | some pos => svcParamsFrom data data.length pos
  | none => []

/-- Pieces of `k` bytes each. -/
def chunks (k : Nat) (bytes : Bytes) : List Bytes :=
  (List.range (bytes.length / k)).map fun i => (bytes.drop (i * k)).take k

def ofBe (bytes : Bytes) : Nat := ofLe bytes.reverse

def ipv4Text (bytes : Bytes) : Text := renderIpv4Addr (BitVec.ofNat 32 (ofBe bytes))

def ipv6Text (bytes : Bytes) : Text := renderIpv6Addr (BitVec.ofNat 128 (ofBe bytes))

def paramIpv4Hint : UInt16 := 4
def paramIpv6Hint : UInt16 := 6

section

variable {rx : RegexEngine} (filter : LiveFilter rx) (client : ClientInfo)

def checkText (rtype : Text) (name : Text) : Option (Option MatchInfo) :=
  (filter.check name rtype client).map blockOf

/-- Checks HTTPS/SVCB address hints against the filter. -/
def hintBlock (data : Bytes) : Option (Option MatchInfo) :=
  findBlock (fun param =>
    if param.1 = paramIpv4Hint then
      findBlock (checkText filter client "HTTPS".toList) ((chunks 4 param.2).map ipv4Text)
    else if param.1 = paramIpv6Hint then
      findBlock (checkText filter client "HTTPS".toList) ((chunks 16 param.2).map ipv6Text)
    else some none) (svcParams data)

def filterRecord (r : Record) : Option (Option MatchInfo) :=
  match r.data with
  | [.name target] =>
      if r.recordType = typeCname then
        checkText filter client "CNAME".toList (trimEndMatches '.' (nameToAscii target))
      else some none
  | [.raw bytes] =>
      if r.recordType = typeA then checkText filter client "A".toList (ipv4Text bytes)
      else if r.recordType = typeAaaa then checkText filter client "AAAA".toList (ipv6Text bytes)
      else if r.recordType = typeHttps ∨ r.recordType = typeSvcb then
        hintBlock filter client bytes
      else some none
  | _ => some none

def filterAnswers (answers : List Record) : Option (Option MatchInfo) :=
  findBlock (filterRecord filter client) answers

end

/-! ## What the result depends on -/

theorem findBlock_congr {α : Type} {check check' : α → Option (Option MatchInfo)}
    (h : ∀ x, check x = check' x) (xs : List α) : findBlock check xs = findBlock check' xs := by
  rw [show check = check' from funext h]

theorem findBlock_map {α β : Type} (check : β → Option (Option MatchInfo)) (f : α → β)
    (xs : List α) : findBlock check (xs.map f) = findBlock (check ∘ f) xs := by
  induction xs with
  | nil => rfl
  | cons x xs ih => rw [List.map_cons, findBlock, findBlock, ih, Function.comp_apply]

section

variable {rx : RegexEngine} {filter filter' : LiveFilter rx} {client client' : ClientInfo}

theorem filterAnswers_congr
    (h : ∀ domain rtype, filter.check domain rtype client = filter'.check domain rtype client')
    (answers : List Record) :
    filterAnswers filter client answers = filterAnswers filter' client' answers := by
  have htext : ∀ rtype name, checkText filter client rtype name =
      checkText filter' client' rtype name := by
    intro rtype name
    rw [checkText, checkText, h]
  have hhint : ∀ data, hintBlock filter client data = hintBlock filter' client' data := by
    intro data
    refine findBlock_congr (fun param => ?_) _
    rw [findBlock_congr (htext _), findBlock_congr (htext _)]
  refine findBlock_congr (fun r => ?_) answers
  simp only [filterRecord, htext, hhint]

theorem filterAnswers_client (hblind : filter.hasClientDependentRules = false)
    (answers : List Record) :
    filterAnswers filter client answers = filterAnswers filter client' answers :=
  filterAnswers_congr (fun domain rtype => filter.check_client hblind domain rtype client client')
    answers

theorem filterAnswers_ttl (ttl : UInt32) (answers : List Record) :
    filterAnswers filter client (answers.map fun r => { r with ttl := ttl }) =
      filterAnswers filter client answers := by
  rw [filterAnswers, findBlock_map]
  exact findBlock_congr (fun r => rfl) answers

end

end Bulwark.Engine
