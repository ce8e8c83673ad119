import Mathlib.Data.List.AList
import Bulwark.Filter.Compiler

/-!
# Rule records and indexes

The compiled form of `engine.rs`: fixed-size records that point into shared
arenas, a hash index of domains with flat hit ranges, and the token index and
fallback sets of wildcard and regex rules.  Offsets and ids are 32-bit numbers
made by truncating casts (`asU32`).  An index or slice that is out of bounds
panics; such a computation returns `none`.
-/

namespace Bulwark.Filter

open Bulwark.Foundation

/-- `n as u32`. -/
def asU32 (n : Nat) : Nat := n % 2 ^ 32

def noMods : Nat := 2 ^ 32 - 1

inductive Kind where
  | exact
  | subdomain
  | wildcard
  | regex
  deriving DecidableEq, Repr

def Kind.isScan : Kind → Bool
  | .wildcard | .regex => true
  | .exact | .subdomain => false

structure RuleRecord where
  rawStart : Nat
  domOrRe : Nat
  modsIdx : Nat
  rawLen : Nat
  listId : Nat
  domLen : Nat
  action : Action
  kind : Kind
  deriving DecidableEq, Repr

/--
What an engine draws or computes outside the repository's code: the seeded
domain hash, the unstable sort by hash, and the content hasher.
-/
structure BuildEnv where
  dhash : Text → Nat
  sortByHash : List (Nat × Nat) → List (Nat × Nat)
  contentHasher : List UInt8 → Nat
  sort_perm : ∀ pairs, (sortByHash pairs).Perm pairs
  sort_sorted : ∀ pairs, (sortByHash pairs).Pairwise fun p q => p.1 ≤ q.1

/-! ## Domain index -/

/-- Hash to the range `(start, len)` of its hits. -/
structure DomainIndex where
  map : AList (fun _ : Nat => Nat × Nat) := ∅
  hits : List Nat := []

namespace DomainIndex

/-- The outer loop over sorted pairs: one range for each run of equal hashes. -/
def group : Nat → List (Nat × Nat) → DomainIndex → DomainIndex
  | 0, _, index => index
  | _ + 1, [], index => index
  | fuel + 1, (h, id) :: pairs, index =>
      let run := (h, id) :: pairs.takeWhile (·.1 == h)
      let start := asU32 index.hits.length
      let hits := index.hits ++ run.map Prod.snd
      group fuel (pairs.dropWhile (·.1 == h))
        { map := index.map.insert h
            (start, asU32 (asU32 hits.length + (2 ^ 32 - start)))
          hits := hits }

def build (env : BuildEnv) (pairs : List (Nat × Nat)) : DomainIndex :=
  group pairs.length (env.sortByHash pairs) {}

def get (index : DomainIndex) (hash : Nat) : Option (List Nat) :=
  match index.map.lookup hash with
  | none => some []
  | some (start, len) =>
      let stop := asU32 (start + len)
      if start ≤ stop ∧ stop ≤ index.hits.length then
        some ((index.hits.drop start).take (stop - start))
      else none

def isEmpty (index : DomainIndex) : Bool := index.hits.isEmpty

end DomainIndex

/-! ## Scan groups -/

structure FallbackSet where
  patterns : List Text
  ids : List Nat
  deriving DecidableEq, Repr

structure ScanGroup where
  scanIndex : AList (fun _ : UInt32 => List Nat) := ∅
  fallbackSets : List FallbackSet := []
  fallbackIndividual : List Nat := []

def ScanGroup.isEmpty (g : ScanGroup) : Bool :=
  g.scanIndex.entries.isEmpty && g.fallbackSets.isEmpty &&
    g.fallbackIndividual.isEmpty

def fallbackChunk : Nat := 256

def fallbackRegexSetSizeLimit : Nat := 16 * 1024 * 1024

/-- Pieces of `size` elements, the last one possibly shorter. -/
def chunksFrom {α : Type} (size : Nat) : List α → List α → List (List α)
  | [], [] => []
  | c :: chunk, [] => [c :: chunk]
  | chunk, x :: xs =>
      if chunk.length + 1 = size then (chunk ++ [x]) :: chunksFrom size [] xs
      else chunksFrom size (chunk ++ [x]) xs

def minByKey {α : Type} (key : α → Nat) : List α → Option α
  | [] => none
  | x :: xs =>
      some (xs.foldl (fun best y => if key y < key best then y else best) x)

abbrev ScanMeta := List (Nat × List UInt32)

def tokenFreq (entries : ScanMeta) (tok : UInt32) : Nat :=
  asU32 ((entries.flatMap Prod.snd).count tok)

/-- File each rule under its rarest token, or leave it to the fallback. -/
def fileByToken (freq : UInt32 → Nat) :
    ScanMeta → AList (fun _ : UInt32 => List Nat) × List Nat →
      AList (fun _ : UInt32 => List Nat) × List Nat
  | [], st => st
  | (id, toks) :: entries, (index, fallback) =>
      fileByToken freq entries
        (match minByKey freq toks with
          | some tok => (index.insert tok ((index.lookup tok).getD [] ++ [id]), fallback)
          | none => (index, fallback ++ [id]))

/-- The patterns and ids of one chunk's wildcard and regex rules. -/
def chunkMembers (records : List RuleRecord) (regexes : List Text) :
    List Nat → Option FallbackSet
  | [] => some ⟨[], []⟩
  | id :: ids => do
      let r ← records[id]?
      if r.kind.isScan then
        let source ← regexes[r.domOrRe]?
        let rest ← chunkMembers records regexes ids
        some ⟨source :: rest.patterns, id :: rest.ids⟩
      else chunkMembers records regexes ids

def addChunks (rx : RegexEngine) (records : List RuleRecord) (regexes : List Text) :
    List (List Nat) → ScanGroup → Option ScanGroup
  | [], g => some g
  | chunk :: chunks, g => do
      let members ← chunkMembers records regexes chunk
      addChunks rx records regexes chunks
        (if members.patterns.isEmpty then g
        else if rx.setBuild members.patterns fallbackRegexSetSizeLimit then
          { g with fallbackSets := g.fallbackSets ++ [members] }
        else { g with fallbackIndividual := g.fallbackIndividual ++ members.ids })

def buildScanGroup (rx : RegexEngine) (entries : ScanMeta)
    (records : List RuleRecord) (regexes : List Text) (tokenIndex : Bool) :
    Option ScanGroup :=
  let (index, fallback) :=
    if tokenIndex then fileByToken (tokenFreq entries) entries (∅, [])
    else (∅, entries.map Prod.fst)
  addChunks rx records regexes (chunksFrom fallbackChunk [] fallback)
    { scanIndex := index }

end Bulwark.Filter
