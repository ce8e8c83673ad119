import Bulwark.Upstream.Traits
import Bulwark.Engine.Questions

/-!
# Responses that fit their query

A synthesized response repeats the opcode, the recursion bit and the EDNS data of its
query.  A response of the cache or of a shared flight has those of whoever asked first:
it fits the others only where all who ask for a key agree.
-/

namespace Bulwark.Engine

open Bulwark.Foundation Bulwark.Dns Bulwark.Filter Bulwark.Upstream

/-! ## The traits of a query -/

def ParsedQuery.traits (p : ParsedQuery) : Traits :=
  ⟨p.opcode, p.recursionDesired, p.ednsPayload.isSome⟩

def Ingress.traits : Ingress → Traits
  | .fast _ parsed => parsed.traits
  | .full msg => traitsOf msg

theorem metadata_of_messageOf {layout : Layout} {msg : Message} (h : messageOf layout = some msg) :
    msg.metadata = metadataOf layout.header msg.edns := by
  simp only [messageOf] at h
  split at h
  · cases h
  split at h
  · cases h
    rfl
  · split at h
    · cases h
      rfl
    · cases h
  · cases h

private theorem recursionBit_eq (b : UInt8) : (b &&& 0x01 != 0) = bit b 0 := by
  revert b
  exact forall_byte (by decide +kernel)

private theorem opcodeBits_eq (b : UInt8) :
    (b >>> 3) &&& 0x0F = UInt8.ofNat (b.toNat / 8 % 16) := by
  revert b
  exact forall_byte (by decide +kernel)

theorem BothRead.traits {bytes : Bytes} {parsed : ParsedQuery} {msg : Message} {layout : Layout}
    (h : BothRead bytes parsed msg layout) : traitsOf msg = parsed.traits := by
  have hmetadata := metadata_of_messageOf h.message
  have hedns : msg.edns.isSome = parsed.ednsPayload.isSome := by
    rw [edns_of_messageOf h.message]
    rcases h.edns with ⟨hnone, hpayload, -⟩ | ⟨opt, hone, hpayload, -⟩
    · rw [hnone, hpayload]
      rfl
    · rw [hone, hpayload]
      rfl
  rw [traitsOf, ParsedQuery.traits, hmetadata, hedns, h.header.opcode, h.header.recursionDesired,
    recursionBit_eq, opcodeBits_eq]
  rfl

section

variable {env : EngineEnv}

theorem Call.traits_of_parts {call : Call env.rx} {fields : QueryFields} {lazy : Lazy}
    {query : Message} (hparts : call.ingress.intoParts = .ok (fields, lazy))
    (hquery : lazy.intoMessage = some query) : traitsOf query = call.ingress.traits := by
  rcases Ingress.intoParts_ok hparts with
    ⟨bytes, parsed, hingress, -, rfl⟩ | ⟨msg, hingress, -, rfl⟩
  · obtain ⟨layout, hboth⟩ := bothRead_of_accepted (Call.parsed_fast hingress).2 hquery
    rw [hingress]
    exact hboth.traits
  · cases hquery
    rw [hingress]
    rfl

/-! ## Responses -/

def EngineResponse.Fits (asked : Traits) : EngineResponse → Prop
  | .message msg => asked.Fits (traitsOf msg)
  | .wire bytes => ∃ msg, decode bytes = some msg ∧ asked.Fits (traitsOf msg)

section

variable (T : QueryKey → Traits)

/-- The query has the traits of its key.  One that cannot be decoded gets a bare header. -/
def Ingress.Agrees (ingress : Ingress) : Prop :=
  ∀ fields lazy, ingress.intoParts = .ok (fields, lazy) → ingress.traits = T fields.key ∧
    (lazy.intoMessage = none →
      ingress.traits.opCode = 0 ∧ ingress.traits.recursionDesired = false)

/-- The record has the offsets a scan finds, and its response fits its key. -/
def ParsedEntry.Agrees (parsed : ParsedEntry) : Prop :=
  match parsed.stored with
  | .wire bytes offsets _ _ => scanTtlOffsets bytes = some offsets ∧ PointersTargetNames bytes ∧
      ∀ msg, decode bytes = some msg → FitsKey T parsed.key msg
  | .message msg => FitsKey T parsed.key msg

/-- The conditions on a step: who asks for a key has its traits, and replies repeat them. -/
def World.Agreeing (w : World env) : EngineAction env.rx → Prop
  | .load _ raw _ => ∀ ingress, Ingress.parse raw = some ingress → ingress.Agrees T
  | .look t _ id => ∀ call msg target rtype action log, w.tasks t = some (.loaded call) →
      call.begin = some (.resolveCname msg target rtype action log) →
      HasTraits T (cnameQuery id target rtype)
  | .pool i a => (w.pools i).Echoed a
  | .importSnapshot _ data => ∀ parsed ∈ snapshotRecords data, parsed.Agrees T
  | _ => True

/-- Queries, flights and the cache agree on the traits of a key. -/
def fittingContract (env : EngineEnv) : Contract env where
  asked := HasTraits T
  callOk call := call.ingress.Agrees T
  poolOk p := p.Agrees T
  good := FitsKey T
  carried _ key response := response.Fits (T key)
  served call response := response.Fits call.ingress.traits

end

variable {T : QueryKey → Traits}

theorem fits_respond (cache : CacheEnv) {key : QueryKey} {msg : Message} (h : FitsKey T key msg)
    (cfg : CacheConfig) (id : UInt16) (ttl : UInt32) :
    (((cache.store cfg msg).respond id ttl).toResponse).Fits (T key) := by
  have hadjusted : FitsKey T key ((adjustTtls msg ttl).withId id) := h
  rw [CacheEnv.store]
  cases hencode : cache.codec.encode msg with
  | none => exact hadjusted
  | some bytes =>
      dsimp only
      cases hscan : scanTtlOffsets bytes with
      | none => exact hadjusted
      | some offsets => exact ⟨_, decode_patch cache.codec hencode hscan id ttl, hadjusted⟩

theorem fits_of_shells {asked : Traits} {query msg : Message} (hquery : traitsOf query = asked)
    (h : Shells query msg) : asked.Fits (traitsOf msg) := by
  have hsame : traitsOf msg = asked := by
    rw [← hquery, traitsOf, traitsOf, h.opCode, h.recursionDesired, h.edns]
  rw [hsame]
  exact .refl asked

theorem fittingContract_lawful (T : QueryKey → Traits) (env : EngineEnv) :
    (fittingContract T env).Lawful where
  asked_call hcall hparts hquery := by
    intro key hkey
    obtain ⟨-, hfields⟩ := Call.key_of_parts hparts hquery
    cases hkey.symm.trans hfields
    rw [Call.traits_of_parts hparts hquery]
    exact (hcall _ _ hparts).1
  pool_call {p _ c query} h hasked hstep := by
    have hecho : p.Echoed (.call c query) := trivial
    refine Pool.Agrees.step h hecho (fun c' query' heq => ?_) hstep
    cases heq
    exact hasked
  pool_returned h hcaller hkey := h.returns _ _ _ _ hcaller hkey
  stored hgood cfg id ttl := fits_respond env.cache hgood cfg id ttl
  passed hgood := ⟨hgood, fun bytes hencode =>
    ⟨_, env.cache.codec.decode_encode _ _ hencode, hgood⟩⟩
  serves {call} _ _ response hcall hparts h := by
    change response.Fits call.ingress.traits
    rw [(hcall _ _ hparts).1]
    exact h
  shell {call} _ _ _ _ _ hparts hquery hshells :=
    fits_of_shells (Call.traits_of_parts hparts hquery) hshells
  undecodable {call} _ _ hcall hparts hnone := by
    obtain ⟨hopcode, hrecursion⟩ := (hcall _ _ hparts).2 hnone
    exact ⟨hopcode.symm, hrecursion.symm, fun h => by cases h⟩
  refused {call msg} hparts := by
    have hfull : call.ingress.traits = traitsOf msg := by
      rw [(Ingress.intoParts_error hparts).1]
      rfl
    exact fits_of_shells hfull.symm (shells_errorResponse _ _)

theorem fits_of_snapshot {data : Bytes} {parsed : ParsedEntry}
    (hmem : parsed ∈ snapshotRecords data) (hagrees : parsed.Agrees T) (id : UInt16)
    (ttl : UInt32) : ((parsed.stored.respond id ttl).toResponse).Fits (T parsed.key) := by
  obtain ⟨bytes, offsets, rcode, answers, hstored, hmatch, hlen⟩ := wire_of_snapshotRecords hmem
  rw [ParsedEntry.Agrees, hstored] at hagrees
  obtain ⟨hscan, hpointers, hfits⟩ := hagrees
  rw [hstored]
  rw [wireMatchesKey] at hmatch
  split at hmatch
  · rename_i msg hdecode
    have hsmall : bytes.length < 2 ^ 32 := lt_of_le_of_lt hlen (by decide)
    have hadjusted : FitsKey T parsed.key ((adjustTtls msg ttl).withId id) := hfits msg hdecode
    exact ⟨_, decode_patch_of_decode hdecode hsmall hpointers hscan id ttl, hadjusted⟩
  · cases hmatch

/-- In every run whose queries, replies and records agree on each key: every reply fits its
query. -/
theorem replies_fit {state : EngineState env.rx} {cache : DnsCache}
    {upstreams : Nat → List UpstreamEntry} {as : List (EngineAction env.rx)} {w : World env}
    (hempty : ∀ k, cache.peek k = none)
    (hagree : EachStep World.step (World.Agreeing T) (World.new state cache upstreams) as)
    (hrun : runFrom World.step (World.new state cache upstreams) as = some w) :
    ∀ t call reply, w.tasks t = some (.replied call reply) →
      reply.response.Fits call.ingress.traits := by
  have hallow : ∀ (v : World env) (a : EngineAction env.rx), v.Agreeing T a →
      (fittingContract T env).Allows v a := by
    intro v a ha
    cases a with
    | load t raw clientIp =>
        rintro call rfl
        exact ha call.ingress call.parsed
    | look t u id => exact ha
    | pool i a =>
        intro p hnocall hstep hok
        refine Pool.Agrees.step hok ha (fun c query heq => ?_) hstep
        rw [heq] at hnocall
        cases hnocall
    | importSnapshot unix data =>
        intro parsed hparsed _ id ttl
        exact fits_of_snapshot hparsed (ha parsed hparsed) id ttl
    | _ => trivial
  have hkeeps := Contract.keeps_of_run (fittingContract_lawful T env) hempty Pool.agrees_new
    (hagree.mono hallow) hrun
  exact fun t call reply htask => hkeeps.tasks t _ htask

end

/-! ## Two clients with one key -/

def plainTraits : Traits := ⟨0, true, false⟩

/-- A sufficient check, for runs without snapshots and shared connections. -/
def agreesPlainly (w : World demoEnv) : EngineAction demoEnv.rx → Bool
  | .load _ raw _ => (Ingress.parse raw).all fun ingress => ingress.traits = plainTraits &&
      match ingress.intoParts with
      | .ok (_, lazy) => lazy.intoMessage.isSome
      | .error _ => true
  | .pool i (.run r (.receive msg _)) => ((w.pools i).runs r).all fun run =>
      traitsOf msg = traitsOf run.query
  | .pool _ (.deliver _ _) => false
  | .importSnapshot _ _ => false
  | _ => true

theorem agreeing_of_check (w : World demoEnv) (a : EngineAction demoEnv.rx)
    (h : agreesPlainly w a = true) : w.Agreeing (fun _ => plainTraits) a := by
  cases a with
  | load t raw clientIp =>
      intro ingress hparse fields lazy hparts
      rw [agreesPlainly, hparse, Option.all_some, hparts, Bool.and_eq_true, decide_eq_true_eq] at h
      have hsome : lazy.intoMessage.isSome = true := h.2
      refine ⟨h.1, fun hnone => ?_⟩
      rw [hnone] at hsome
      cases hsome
  | look t u id => exact fun _ _ _ _ _ _ _ _ _ _ => rfl
  | pool i a =>
      cases a with
      | run r event =>
          cases event with
          | receive msg rttMs =>
              intro run hrun
              rw [agreesPlainly, hrun, Option.all_some, decide_eq_true_eq] at h
              rw [h]
              exact .refl _
          | _ => trivial
      | deliver conn msg => cases h
      | _ => trivial
  | importSnapshot unix data => cases h
  | _ => trivial

/-- The first client's query fills the cache, the second one asks with the flags `hi`. -/
def sharedKeyRun (hi : UInt8) : List (EngineAction demoEnv.rx) :=
  resolveDemo 0 5 0 (demoQuery 7) demoAnswer ++
    [.load 1 (toBe16 9 ++ [hi, 0, 0, 1, 0, 0, 0, 0, 0, 0, 1, 97, 0, 0, 1, 0, 1]) (.v4 2),
      .look 1 6 0]

/-- Task 1 has got a response in wire form; whether it has the recursion bit of the query. -/
def repliedWithRecursionBit (w : World demoEnv) : Option Bool :=
  match w.tasks 1 with
  | some (.replied call reply) =>
      match reply.response with
      | .wire bytes => (decode bytes).map fun msg =>
          msg.metadata.recursionDesired == call.ingress.traits.recursionDesired
      | .message _ => none
  | _ => none

theorem replies_fit_sharedKey :
    ∃ w call reply, runFrom World.step (World.new (demoState emptyFilter) demoCache
        demoUpstreams) (sharedKeyRun 1) = some w ∧
      w.tasks 1 = some (.replied call reply) ∧ reply.response.Fits call.ingress.traits := by
  have hsome : ((runFrom World.step (World.new (demoState emptyFilter) demoCache
      demoUpstreams) (sharedKeyRun 1)).any fun w => (repliedWithRecursionBit w).isSome) = true := by
    decide +kernel
  have hcheck : checkEach World.step agreesPlainly (World.new (demoState emptyFilter) demoCache
      demoUpstreams) (sharedKeyRun 1) = true := by
    decide +kernel
  obtain ⟨w, hrun, hw⟩ := (Option.any_eq_true _ _).mp hsome
  rw [repliedWithRecursionBit] at hw
  split at hw
  · rename_i call reply htask
    exact ⟨w, call, reply, hrun, htask,
      replies_fit (fun _ => rfl) (eachStep_of_check agreeing_of_check hcheck) hrun 1 call reply
        htask⟩
  · cases hw

/-- The second client does not ask for recursion and gets the response to the one that did. -/
theorem reply_with_other_recursionBit :
    ∃ w call reply, runFrom World.step (World.new (demoState emptyFilter) demoCache
        demoUpstreams) (sharedKeyRun 0) = some w ∧
      w.tasks 1 = some (.replied call reply) ∧ ¬ reply.response.Fits call.ingress.traits := by
  have hsome : ((runFrom World.step (World.new (demoState emptyFilter) demoCache
      demoUpstreams) (sharedKeyRun 0)).any fun w =>
        repliedWithRecursionBit w == some false) = true := by
    decide +kernel
  obtain ⟨w, hrun, hw⟩ := (Option.any_eq_true _ _).mp hsome
  rw [beq_iff_eq, repliedWithRecursionBit] at hw
  split at hw
  · rename_i call reply htask
    refine ⟨w, call, reply, hrun, htask, fun hfits => ?_⟩
    split at hw
    · rename_i bytes hresponse
      rw [hresponse] at hfits
      obtain ⟨msg, hmsg, hfits⟩ := hfits
      rw [hmsg, Option.map_some, Option.some.injEq, beq_eq_false_iff_ne] at hw
      exact hw hfits.recursionDesired
    · cases hw
  · cases hw

end Bulwark.Engine
