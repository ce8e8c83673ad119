import Bulwark.Filter.Parser

/-!
# Filter-list compilation

`list.rs`: rules are accumulated list by list, `$badfilter` signatures cancel
rules, the first rule of each signature is kept, and plain blocks covered by an
unmodified ancestor block are pruned.  Sets are lists of their members.
-/

namespace Bulwark.Filter

open Bulwark.Foundation

structure ListStats where
  listId : Nat
  name : Text
  rules : Nat := 0
  unsupported : Nat := 0
  errors : Nat := 0
  deriving DecidableEq, Repr

structure Compiler where
  rules : List BuildRule := []
  badfilterSigs : List Text := []
  stats : List ListStats := []

namespace Compiler

def addRule (listId : Nat) (st : Compiler × ListStats) (br : BuildRule) :
    Compiler × ListStats :=
  let br := { br with rule := { br.rule with listId := listId } }
  if br.badfilter then
    ({ st.1 with badfilterSigs := br.signature :: st.1.badfilterSigs }, st.2)
  else
    ({ st.1 with rules := st.1.rules ++ [br] }, { st.2 with rules := st.2.rules + 1 })

def addLine (ext : External) (listId : Nat) (st : Compiler × ListStats)
    (line : Text) : Compiler × ListStats :=
  match parseLine ext line with
  | .ok (.rules rules) => rules.foldl (addRule listId) st
  | .ok .ignored => st
  | .ok (.unsupported _) => (st.1, { st.2 with unsupported := st.2.unsupported + 1 })
  | .error _ => (st.1, { st.2 with errors := st.2.errors + 1 })

def addList (ext : External) (c : Compiler) (listId : Nat) (name text : Text) :
    Compiler × ListStats :=
  let (c, stats) := (lines text).foldl (addLine ext listId) (c, ⟨listId, name, 0, 0, 0⟩)
  ({ c with stats := c.stats ++ [stats] }, stats)

end Compiler

/-- The first rule of each signature, given the signatures already seen. -/
def keepFirst : List Text → List BuildRule → List BuildRule
  | _, [] => []
  | seen, br :: rules =>
      if br.signature ∈ seen then keepFirst seen rules
      else br :: keepFirst (br.signature :: seen) rules

def Compiler.active (c : Compiler) : List BuildRule :=
  keepFirst [] (c.rules.filter fun br => br.signature ∉ c.badfilterSigs)

/-! ## Pruning -/

/-- The texts that follow each dot, the longest first. -/
def parents : Text → List Text
  | [] => []
  | c :: t => if c = '.' then t :: parents t else parents t

/-- Unmodified block; what pruning drops and what it drops it for. -/
def isPlainBlock (br : BuildRule) : Bool :=
  br.rule.action = .block && br.rule.mods.isNone

def subsumer (br : BuildRule) : Option Text :=
  if isPlainBlock br then
    match br.rule.pattern with
    | .subdomain d => some d
    | _ => none
  else none

def isRedundant (br : BuildRule) (subsumers : List Text) : Bool :=
  if !isPlainBlock br then false
  else
    match br.rule.pattern with
    | .subdomain d => (parents d).any (· ∈ subsumers)
    | .exact d => d ∈ subsumers || (parents d).any (· ∈ subsumers)
    | _ => false

def pruneRedundant (active : List BuildRule) : List BuildRule :=
  let subsumers := active.filterMap subsumer
  if subsumers = [] then active
  else active.filter fun br => !isRedundant br subsumers

/-- The lists of one compilation: id, name and text of each, in order. -/
abbrev Lists := List (Nat × Text × Text)

def compileLists (ext : External) (lists : Lists) : Compiler :=
  lists.foldl (fun c l => (c.addList ext l.1 l.2.1 l.2.2).1) {}

def compiledRules (ext : External) (lists : Lists) : List BuildRule :=
  pruneRedundant (compileLists ext lists).active

end Bulwark.Filter
