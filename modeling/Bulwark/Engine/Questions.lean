import Bulwark.Upstream.Returned
import Bulwark.Engine.Contract

/-!
# Every client gets the answer to its own question

The id of a response is rewritten in the demultiplexer, the transport, the pool and the
cache, and one response is shared by many callers.  What comes out at the end has the id
and the question of the query it answers.  Records of a snapshot are the one way around:
their TTL offsets and the place their question name is read from are taken as they are.
-/

namespace Bulwark.Engine

open Bulwark.Foundation Bulwark.Dns Bulwark.Filter Bulwark.Upstream

/-! ## The id and the question of a response -/

def AsksFor (key : QueryKey) (q : Query) : Prop :=
  toAsciiLowercase (nameToAscii q.name) = key.name ∧ q.queryType = key.rtype ∧
    q.queryClass = key.dnsClass

/-- The response has the id; its first question, if it has one, can be read and asks for the key. -/
def EngineResponse.Carries (id : UInt16) (key : QueryKey) : EngineResponse → Prop
  | .message msg => msg.metadata.id = id ∧ ∀ q, msg.queries.head? = some q → AsksFor key q
  | .wire bytes => ∃ header, readHeader bytes = some header ∧ header.id = id ∧
      (header.questions ≠ 0 → ∃ q, readQuestion bytes 12 = some q ∧ AsksFor key q.query)

/-! ## Names and their texts -/

/-- Reads back one byte of a lowercase label. -/
def unescape : Text → Option (UInt8 × Text)
  | [] => none
  | c :: t =>
      if c = '.' then none
      else if c = '\\' then
        match t with
        | x :: y :: z :: t' =>
            if x.isDigit then
              some (.ofNat ((x.toNat - 48) * 64 + (y.toNat - 48) * 8 + (z.toNat - 48)), t')
            else some (.ofNat x.toNat, y :: z :: t')
        | x :: t' => if x.isDigit then none else some (.ofNat x.toNat, t')
        | [] => none
      else some (.ofNat c.toNat, t)

theorem unescape_append {t : Text} {b : UInt8} (h : unescape t = some (b, [])) (s : Text) :
    unescape (t ++ s) = some (b, s) := by
  cases t with
  | nil => cases h
  | cons c t =>
      rw [unescape.eq_def] at h
      rw [List.cons_append, unescape.eq_def]
      dsimp only at h ⊢
      split at h
      · cases h
      rename_i hdot
      rw [if_neg hdot]
      split at h
      · rename_i hescape
        rw [if_pos hescape]
        rcases t with _ | ⟨x, _ | ⟨y, _ | ⟨z, t⟩⟩⟩
        · cases h
        · dsimp only at h
          split at h
          · cases h
          · rename_i hdigit
            cases h
            rcases s with _ | ⟨y, _ | ⟨z, s⟩⟩ <;> simp [hdigit]
        · dsimp only at h
          split at h <;> cases h
        · dsimp only at h
          split at h
          · rename_i hdigit
            cases h
            simp [hdigit]
          · cases h
      · rename_i hescape
        rw [if_neg hescape]
        cases h
        rfl

theorem unescape_escapeByte (b : UInt8) (isFirst : Bool) (s : Text) :
    unescape (toAsciiLowercase (escapeByte b isFirst) ++ s) = some (lowerByte b, s) := by
  refine unescape_append ?_ s
  revert b
  cases isFirst
  · exact forall_byte (by decide +kernel)
  · exact forall_byte (by decide +kernel)

theorem escapeByte_inj {b b' : UInt8} {isFirst : Bool} {s s' : Text}
    (h : toAsciiLowercase (escapeByte b isFirst) ++ s =
      toAsciiLowercase (escapeByte b' isFirst) ++ s') : lowerByte b = lowerByte b' ∧ s = s' := by
  have hread := congrArg unescape h
  rw [unescape_escapeByte, unescape_escapeByte, Option.some.injEq, Prod.mk.injEq] at hread
  exact hread

theorem escapeByte_ne_dot {b : UInt8} {isFirst : Bool} {s s' : Text} :
    toAsciiLowercase (escapeByte b isFirst) ++ s ≠ '.' :: s' := by
  intro h
  have hread := congrArg unescape h
  rw [unescape_escapeByte] at hread
  cases hread

theorem escapeBytes_inj {bs bs' : Bytes} {s s' : Text}
    (h : toAsciiLowercase (bs.flatMap fun b => escapeByte b false) ++ '.' :: s =
      toAsciiLowercase (bs'.flatMap fun b => escapeByte b false) ++ '.' :: s') :
    bs.map lowerByte = bs'.map lowerByte ∧ s = s' := by
  induction bs generalizing bs' with
  | nil =>
      cases bs' with
      | nil => exact ⟨rfl, List.tail_eq_of_cons_eq h⟩
      | cons b' bs' =>
          rw [List.flatMap_cons, toAsciiLowercase_append, List.append_assoc] at h
          exact (escapeByte_ne_dot h.symm).elim
  | cons b bs ih =>
      rw [List.flatMap_cons, toAsciiLowercase_append, List.append_assoc] at h
      cases bs' with
      | nil => exact (escapeByte_ne_dot h).elim
      | cons b' bs' =>
          rw [List.flatMap_cons, toAsciiLowercase_append, List.append_assoc] at h
          obtain ⟨hb, hrest⟩ := escapeByte_inj h
          obtain ⟨hbs, hs⟩ := ih hrest
          exact ⟨by rw [List.map_cons, List.map_cons, hb, hbs], hs⟩

theorem labelToAscii_inj {label label' : Label} {s s' : Text}
    (h : toAsciiLowercase (labelToAscii label) ++ '.' :: s =
      toAsciiLowercase (labelToAscii label') ++ '.' :: s') :
    label.map lowerByte = label'.map lowerByte ∧ s = s' := by
  cases label with
  | nil =>
      cases label' with
      | nil => exact ⟨rfl, List.tail_eq_of_cons_eq h⟩
      | cons b' bs' =>
          rw [labelToAscii, labelToAscii, toAsciiLowercase_append, List.append_assoc] at h
          exact (escapeByte_ne_dot h.symm).elim
  | cons b bs =>
      rw [labelToAscii, toAsciiLowercase_append, List.append_assoc] at h
      cases label' with
      | nil => exact (escapeByte_ne_dot h).elim
      | cons b' bs' =>
          rw [labelToAscii, toAsciiLowercase_append, List.append_assoc] at h
          obtain ⟨hb, hrest⟩ := escapeByte_inj h
          obtain ⟨hbs, hs⟩ := escapeBytes_inj hrest
          exact ⟨by rw [List.map_cons, List.map_cons, hb, hbs], hs⟩

theorem foldCase_of_text {a b : Name} (ha : ∀ label ∈ a, label ≠ []) (hb : ∀ label ∈ b, label ≠ [])
    (h : toAsciiLowercase (nameToAscii a) = toAsciiLowercase (nameToAscii b)) :
    foldCase a = foldCase b := by
  have hlabels : ∀ a b : Name,
      toAsciiLowercase (a.flatMap fun label => labelToAscii label ++ ['.']) =
        toAsciiLowercase (b.flatMap fun label => labelToAscii label ++ ['.']) →
      foldCase a = foldCase b := by
    intro a
    induction a with
    | nil =>
        intro b h
        cases b with
        | nil => rfl
        | cons label b => simp [toAsciiLowercase] at h
    | cons label a ih =>
        intro b h
        cases b with
        | nil => simp [toAsciiLowercase] at h
        | cons label' b =>
            simp only [List.flatMap_cons, toAsciiLowercase_append, List.append_assoc] at h
            obtain ⟨hlabel, hrest⟩ := labelToAscii_inj h
            have hfold := ih b hrest
            rw [foldCase, foldCase] at hfold
            rw [foldCase, foldCase, List.map_cons, List.map_cons, hlabel, hfold]
  -- the text of the root is the one that begins with a dot
  have hroot : ∀ {label : Label} {name : Name}, label ≠ [] →
      toAsciiLowercase (nameToAscii (label :: name)) ≠ toAsciiLowercase (nameToAscii []) := by
    intro label name hlabel heq
    cases label with
    | nil => exact hlabel rfl
    | cons b bs =>
        rw [nameToAscii, if_neg (by simp), List.flatMap_cons, labelToAscii, List.append_assoc,
          List.append_assoc, toAsciiLowercase_append] at heq
        exact escapeByte_ne_dot heq
  cases a with
  | nil =>
      cases b with
      | nil => rfl
      | cons label b => exact (hroot (hb label List.mem_cons_self) h.symm).elim
  | cons label a =>
      cases b with
      | nil => exact (hroot (ha label List.mem_cons_self) h).elim
      | cons label' b =>
          rw [nameToAscii, nameToAscii, if_neg (by simp), if_neg (by simp)] at h
          exact hlabels _ _ h

section

variable {env : EngineEnv}

/-- The response has the id of the query and no question other than the query's first. -/
def Call.AnsweredBy (call : Call env.rx) (response : EngineResponse) : Prop :=
  match call.ingress.intoParts with
  | .ok (fields, _) => response.Carries fields.id fields.key
  | .error query => ∃ msg, response = .message msg ∧ msg.metadata.id = query.metadata.id ∧
      msg.queries = []

def EngineResponse.firstQuestion : EngineResponse → Option Query
  | .message msg => msg.queries.head?
  | .wire bytes => (readHeader bytes).bind fun header =>
      if header.questions = 0 then none else (readQuestion bytes 12).map QuestionSlot.query

def SameQuestion (q r : Query) : Prop :=
  q.queryType = r.queryType ∧ q.queryClass = r.queryClass ∧ foldCase q.name = foldCase r.name

theorem readQuestion_of_decode {bytes : Bytes} {msg : Message} {q : Query}
    (h : decode bytes = some msg) (hq : msg.queries.head? = some q) :
    ∃ header slot, readHeader bytes = some header ∧ readQuestion bytes 12 = some slot ∧
      slot.query = q := by
  obtain ⟨layout, hlayout, hmessage⟩ := Option.bind_eq_some_iff.mp h
  obtain ⟨-, -, hqueries⟩ := fields_of_messageOf hmessage
  simp only [readLayout, Option.bind_eq_bind, Option.bind_eq_some_iff, Option.some.injEq,
    Prod.exists] at hlayout
  obtain ⟨header, hheader, questions, records, hquestions, slots, -, rfl⟩ := hlayout
  rw [hqueries] at hq
  cases questions with
  | nil => cases hq
  | cons slot rest =>
      cases hq
      refine ⟨header, slot, hheader, ?_, rfl⟩
      obtain ⟨-, hstart, hreads, -⟩ := readQuestions_eq_some.mp hquestions
      rw [readQuestion_eq_some]
      exact ⟨hstart, hreads⟩

theorem carries_of_decode {bytes : Bytes} {msg : Message} {key : QueryKey}
    (h : decode bytes = some msg) (hkey : AnswersKey key msg) :
    (EngineResponse.wire bytes).Carries msg.metadata.id key := by
  obtain ⟨layout, hlayout, hmessage⟩ := Option.bind_eq_some_iff.mp h
  obtain ⟨hid, -, hqueries⟩ := fields_of_messageOf hmessage
  simp only [readLayout, Option.bind_eq_bind, Option.bind_eq_some_iff, Option.some.injEq,
    Prod.exists] at hlayout
  obtain ⟨header, hheader, questions, records, hquestions, slots, -, rfl⟩ := hlayout
  refine ⟨header, hheader, hid.symm, fun hsome => ?_⟩
  obtain ⟨n, hn⟩ : ∃ n, header.questions.toNat = n + 1 := by
    refine Nat.exists_eq_succ_of_ne_zero fun hzero => hsome ?_
    rw [← UInt16.toNat_inj, hzero]
    rfl
  rw [hn, readQuestions] at hquestions
  simp only [Option.bind_eq_bind, Option.bind_eq_some_iff, Option.some.injEq, Prod.exists,
    Prod.mk.injEq] at hquestions
  obtain ⟨q, hq, rest, stop, -, rfl, -⟩ := hquestions
  exact ⟨q, hq, hkey q.query (by rw [hqueries]; rfl)⟩

theorem answersKey_self {query : Message} {key : QueryKey}
    (h : QueryKey.fromMessage query = some key) : AnswersKey key query := by
  rw [QueryKey.fromMessage, Option.map_eq_some_iff] at h
  obtain ⟨q, hq, rfl⟩ := h
  intro q' hq'
  rw [hq] at hq'
  cases hq'
  exact ⟨rfl, rfl, rfl⟩

theorem carries_respond (cache : CacheEnv) {key : QueryKey} {msg : Message}
    (h : AnswersKey key msg) (cfg : CacheConfig) (id : UInt16) (ttl : UInt32) :
    (((cache.store cfg msg).respond id ttl).toResponse).Carries id key := by
  have hadjusted : AnswersKey key ((adjustTtls msg ttl).withId id) := h
  have hmessage : (EngineResponse.message ((adjustTtls msg ttl).withId id)).Carries id key :=
    ⟨rfl, h⟩
  rw [CacheEnv.store]
  cases hencode : cache.codec.encode msg with
  | none => exact hmessage
  | some bytes =>
      dsimp only
      cases hscan : scanTtlOffsets bytes with
      | none => exact hmessage
      | some offsets =>
          exact carries_of_decode (decode_patch cache.codec hencode hscan id ttl) hadjusted

/-- Flights, the cache and the replies are about the question of the query. -/
def questionContract (env : EngineEnv) : Contract env where
  asked _ := True
  callOk _ := True
  poolOk := Pool.Matching
  good := AnswersKey
  carried id key response := response.Carries id key
  served := Call.AnsweredBy

theorem questionContract_lawful (env : EngineEnv) : (questionContract env).Lawful where
  asked_call _ _ _ := trivial
  pool_call h _ hcall := Pool.Matching.step h hcall
  pool_returned h hcaller hkey := h.returns _ _ _ _ hcaller hkey
  stored hgood cfg id ttl := carries_respond env.cache hgood cfg id ttl
  passed hgood := ⟨⟨rfl, hgood⟩, fun bytes hencode =>
    carries_of_decode (env.cache.codec.decode_encode _ _ hencode) hgood⟩
  serves {call} _ _ _ _ hparts h := by
    change call.AnsweredBy _
    rw [Call.AnsweredBy, hparts]
    exact h
  shell {call} _ _ _ _ _ hparts hquery hshells := by
    change call.AnsweredBy _
    rw [Call.AnsweredBy, hparts]
    obtain ⟨hid, hkey⟩ := Call.key_of_parts hparts hquery
    refine ⟨hshells.id.trans hid, ?_⟩
    rw [hshells.queries]
    exact answersKey_self hkey
  undecodable {call} _ _ _ hparts _ := by
    change call.AnsweredBy _
    rw [Call.AnsweredBy, hparts]
    exact ⟨rfl, fun q hq => by cases hq⟩
  refused {call msg} hparts := by
    change call.AnsweredBy _
    rw [Call.AnsweredBy, hparts]
    exact ⟨_, rfl, rfl, (Ingress.intoParts_error hparts).2⟩

theorem asksFor_of_carries {id : UInt16} {key : QueryKey} {response : EngineResponse} {q : Query}
    (h : response.Carries id key) (hq : response.firstQuestion = some q) : AsksFor key q := by
  cases response with
  | message msg => exact h.2 q hq
  | wire bytes =>
      obtain ⟨header, hheader, -, hquestion⟩ := h
      rw [EngineResponse.firstQuestion, hheader, Option.bind_some] at hq
      split at hq
      · cases hq
      · rename_i hsome
        obtain ⟨slot, hslot, hasks⟩ := hquestion hsome
        rw [hslot] at hq
        cases hq
        exact hasks

theorem sameQuestion_of_answeredBy {call : Call env.rx} {fields : QueryFields} {lazy : Lazy}
    {query : Message} {q r : Query} {response : EngineResponse}
    (hparts : call.ingress.intoParts = .ok (fields, lazy)) (hquery : lazy.intoMessage = some query)
    (hq : query.queries.head? = some q) (h : call.AnsweredBy response)
    (hr : response.firstQuestion = some r) (hlabels : ∀ label ∈ r.name, label ≠ []) :
    SameQuestion q r := by
  obtain ⟨-, hkey⟩ := Call.key_of_parts hparts hquery
  rw [QueryKey.fromMessage, hq, Option.map_some, Option.some.injEq] at hkey
  rw [Call.AnsweredBy, hparts] at h
  dsimp only at h
  rw [← hkey] at h
  obtain ⟨hname, htype, hclass⟩ := asksFor_of_carries h hr
  obtain ⟨header, slot, -, hslot, rfl⟩ :=
    readQuestion_of_decode (Call.decode_of_parts hparts hquery) hq
  have hread := labels_of_readName (readQuestion_eq_some.mp hslot).2.name
  exact ⟨htype.symm, hclass.symm, foldCase_of_text hread hlabels hname.symm⟩

/-! ## Records of a snapshot -/

/-- TTLs stand behind the first question, and its name is not read from the id. -/
def QuestionKept (bytes : Bytes) (offsets : List UInt32) : Prop :=
  (∀ q, readQuestion bytes 12 = some q → ∀ o ∈ offsets, q.fixed + 4 ≤ o.toNat) ∧
    ∀ p ∈ nameReads bytes 12, 2 ≤ p

def ParsedEntry.QuestionKept (parsed : ParsedEntry) : Prop :=
  match parsed.stored with
  | .wire bytes offsets _ _ => Engine.QuestionKept bytes offsets
  | .message _ => True

theorem readQuestion_patch {bytes : Bytes} {offsets : List UInt32} {slot : QuestionSlot}
    (h : readQuestion bytes 12 = some slot) (hkept : QuestionKept bytes offsets) (id : UInt16)
    (ttl : UInt32) : readQuestion (patch bytes id ttl offsets) 12 = some slot := by
  obtain ⟨hstart, hreads⟩ := readQuestion_eq_some.mp h
  have hname := hreads.name
  rw [hstart] at hname
  have hfixed := (readName_stop hname).1
  have hsame : ∀ p, 2 ≤ p → p < slot.fixed + 4 → (patch bytes id ttl offsets)[p]? = bytes[p]? := by
    intro p hlo hhi
    refine patch_outside hlo fun o ho => .inl ?_
    have := hkept.1 slot h o ho
    omega
  refine readQuestion_eq_some.mpr ⟨hstart, ?_, ?_, ?_⟩
  · rw [hstart, ← hname]
    refine readName_congr length_patch fun p hp => ?_
    have hlt := nameReads_lt hname p hp
    exact hsame p (hkept.2 p hp) (by omega)
  · rw [← hreads.queryType]
    exact u16At_congr fun p hp hp' => hsame p (by omega) (by omega)
  · rw [← hreads.queryClass]
    exact u16At_congr fun p hp hp' => hsame p (by omega) (by omega)

theorem carries_of_snapshot {data : Bytes} {parsed : ParsedEntry}
    (hmem : parsed ∈ snapshotRecords data) (hkept : parsed.QuestionKept)
    (hlower : toAsciiLowercase parsed.key.name = parsed.key.name) (id : UInt16) (ttl : UInt32) :
    ((parsed.stored.respond id ttl).toResponse).Carries id parsed.key := by
  obtain ⟨bytes, offsets, rcode, answers, hstored, hmatch, -⟩ := wire_of_snapshotRecords hmem
  rw [ParsedEntry.QuestionKept, hstored] at hkept
  rw [hstored]
  rw [wireMatchesKey] at hmatch
  split at hmatch
  · rename_i msg hdecode
    obtain ⟨q, hq, hsame⟩ := (Option.any_eq_true _ _).mp hmatch
    simp only [Bool.and_eq_true, decide_eq_true_eq] at hsame
    obtain ⟨header, slot, hheader, hslot, rfl⟩ := readQuestion_of_decode hdecode hq
    obtain ⟨hstart, hreads⟩ := readQuestion_eq_some.mp hslot
    have hfixed := (readName_stop hreads.name).1
    have hbehind : ∀ o ∈ offsets, 12 ≤ o.toNat := by
      intro o ho
      have := hkept.1 slot hslot o ho
      omega
    refine ⟨_, readHeader_patch hbehind id ttl hheader, rfl, fun _ => ⟨slot,
      readQuestion_patch hslot hkept id ttl, ?_, hsame.1.1, hsame.1.2⟩⟩
    rw [hsame.2, hlower]
  · cases hmatch

/-! ## Runs -/

/-- In every run whose imported records keep their question, whatever upstreams send: every
reply has the id and the question of its query. -/
theorem ownQuestion_answered {state : EngineState env.rx} {cache : DnsCache}
    {upstreams : Nat → List UpstreamEntry} {as : List (EngineAction env.rx)} {w : World env}
    (hempty : ∀ k, cache.peek k = none)
    (himports : ∀ unix data, EngineAction.importSnapshot unix data ∈ as →
      ∀ parsed ∈ snapshotRecords data, parsed.QuestionKept)
    (hrun : runFrom World.step (World.new state cache upstreams) as = some w) :
    ∀ t call reply, w.tasks t = some (.replied call reply) → call.AnsweredBy reply.response ∧
      ∀ fields lazy query q r, call.ingress.intoParts = .ok (fields, lazy) →
        lazy.intoMessage = some query → query.queries.head? = some q →
        reply.response.firstQuestion = some r → (∀ label ∈ r.name, label ≠ []) →
        SameQuestion q r := by
  have hallow : EachStep World.step (questionContract env).Allows
      (World.new state cache upstreams) as := by
    refine eachStep_of_visited fun bs a cs v has _ => ?_
    cases a with
    | load t raw clientIp => exact fun _ _ => trivial
    | look t u id => exact fun _ _ _ _ _ _ _ _ => trivial
    | pool i a => exact fun p _ hstep hok => Pool.Matching.step hok hstep
    | importSnapshot unix data =>
        have hmem : EngineAction.importSnapshot unix data ∈ as := by
          rw [has]
          exact List.mem_append_right _ List.mem_cons_self
        intro parsed hparsed hlower id ttl
        exact carries_of_snapshot hparsed (himports unix data hmem parsed hparsed) hlower id ttl
    | _ => trivial
  have hkeeps := Contract.keeps_of_run (questionContract_lawful env) hempty Pool.matching_new
    hallow hrun
  intro t call reply htask
  have hanswered : call.AnsweredBy reply.response := hkeeps.tasks t _ htask
  refine ⟨hanswered, fun fields lazy query q r hparts hquery hq hr hlabels => ?_⟩
  exact sameQuestion_of_answeredBy hparts hquery hq hanswered hr hlabels

end

/-! ## Two snapshots -/

def emptyFilter : LiveFilter demoEnv.rx :=
  ⟨(compile (plainEnv List.length) referenceExternal (customList [])).get (by decide +kernel), _, _,
    (Option.some_get _).symm⟩

def demoKey : QueryKey := ⟨"a.".toList, typeA, 1, false, false⟩

/-- A snapshot with the answer of `demoBytes`, and where it says that the TTLs are. -/
def demoSnapshot (offsets : List UInt32) : Bytes :=
  snapshotMagic ++ toLe 8 0 ++ toLe 4 1 ++ writeRecord demoKey 0 60 0 [] demoBytes offsets

def importRun (offsets : List UInt32) : List (EngineAction demoEnv.rx) :=
  [.importSnapshot 0 (demoSnapshot offsets), .load 0 (demoQuery 9) (.v4 1), .look 0 1 0]

/-- Task 0 has got a response in wire form; whether it has the id of the query. -/
def repliedWithId (w : World demoEnv) : Option Bool :=
  match w.tasks 0 with
  | some (.replied call reply) =>
      match call.ingress.intoParts, reply.response with
      | .ok (fields, _), .wire bytes => (readHeader bytes).map fun h => h.id == fields.id
      | _, _ => none
  | _ => none

theorem ownQuestion_answered_import :
    ∃ w call reply, runFrom World.step (World.new (demoState emptyFilter) demoCache
        demoUpstreams) (importRun [25]) = some w ∧
      w.tasks 0 = some (.replied call reply) ∧ call.AnsweredBy reply.response := by
  have hsome : ((runFrom World.step (World.new (demoState emptyFilter) demoCache
      demoUpstreams) (importRun [25])).any fun w => (repliedWithId w).isSome) = true := by
    decide +kernel
  obtain ⟨w, hrun, hw⟩ := (Option.any_eq_true _ _).mp hsome
  have hrecords : snapshotRecords (demoSnapshot [25]) =
      [⟨demoKey, 0, 60, .wire demoBytes [25] 0 []⟩] := by decide +kernel
  have hquestion : (readQuestion demoBytes 12).map (fun q => q.fixed + 4) = some 19 := by
    decide +kernel
  have himports : ∀ unix data, EngineAction.importSnapshot unix data ∈ importRun [25] →
      ∀ parsed ∈ snapshotRecords data, parsed.QuestionKept := by
    intro unix data hmem parsed hparsed
    simp only [importRun, List.mem_cons, EngineAction.importSnapshot.injEq, reduceCtorEq,
      List.not_mem_nil, or_false] at hmem
    rw [hmem.2, hrecords, List.mem_singleton] at hparsed
    subst hparsed
    refine ⟨fun q hq o ho => ?_, by decide +kernel⟩
    rw [hq, Option.map_some, Option.some.injEq] at hquestion
    rw [List.mem_singleton.mp ho, hquestion]
    decide
  rw [repliedWithId] at hw
  split at hw
  · rename_i call reply htask
    exact ⟨w, call, reply, hrun, htask,
      (ownQuestion_answered (fun _ => rfl) himports hrun 0 call reply htask).1⟩
  · cases hw

/-- The offset of a TTL may be that of the id, and then the client gets the TTL for its id. -/
theorem snapshot_overwrites_id :
    ∃ w call reply, runFrom World.step (World.new (demoState emptyFilter) demoCache
        demoUpstreams) (importRun [0]) = some w ∧
      w.tasks 0 = some (.replied call reply) ∧ ¬ call.AnsweredBy reply.response := by
  have hsome : ((runFrom World.step (World.new (demoState emptyFilter) demoCache
      demoUpstreams) (importRun [0])).any fun w => repliedWithId w == some false) = true := by
    decide +kernel
  obtain ⟨w, hrun, hw⟩ := (Option.any_eq_true _ _).mp hsome
  rw [beq_iff_eq, repliedWithId] at hw
  split at hw
  · rename_i call reply htask
    refine ⟨w, call, reply, hrun, htask, fun hanswered => ?_⟩
    rw [Call.AnsweredBy] at hanswered
    split at hw
    · rename_i fields lazy bytes hparts hresponse
      rw [hparts, hresponse] at hanswered
      obtain ⟨header, hheader, hid, -⟩ := hanswered
      rw [hheader, Option.map_some, Option.some.injEq, beq_eq_false_iff_ne] at hw
      exact hw hid
    · cases hw
  · cases hw

end Bulwark.Engine
