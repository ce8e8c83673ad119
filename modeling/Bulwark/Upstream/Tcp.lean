import Bulwark.Foundation.Framing
import Bulwark.Foundation.Runs
import Bulwark.Dns.Decode
import Bulwark.Upstream.Transport

/-!
# One query over TCP

`TcpTransport::query_once` connects, writes the query and reads framed messages until one of
them matches.  How the stream is cut into pieces makes no difference to the reply.
-/

namespace Bulwark.Upstream

open Bulwark.Foundation Bulwark.Dns

abbrev QueryEnding := Option (Except UpstreamError Message)

inductive TcpPhase where
  | connecting
  | writing
  | reading
  | done (ending : QueryEnding)

def TcpPhase.answer : TcpPhase → Option Message
  | .done (some (.ok msg)) => some msg
  | _ => none

theorem TcpPhase.eq_done {phase : TcpPhase} {msg : Message} (h : phase.answer = some msg) :
    phase = .done (some (.ok msg)) := by
  unfold answer at h
  split at h
  · cases h
    rfl
  · cases h

structure TcpQuery where
  query : Message
  phase : TcpPhase := .connecting
  reader : FrameReader UInt8 := .start
  arrived : Bytes := []

inductive TcpAction where
  | connect (error : Option Text)
  | write (error : Option Text)
  | arrive (chunk : Bytes)
  | read
  /-- The stream ends or fails while something is read. -/
  | fail (error : Text)
  | drop

section

variable (toVec : Message → Except Text Bytes) (fromVec : Bytes → Except Text Message)

namespace TcpQuery

/-- `write_tcp_message`. -/
def writeError (query : Message) (error : Option Text) : Option UpstreamError :=
  match toVec query with
  | .error e => some (.proto e)
  | .ok bytes =>
      if 65535 < bytes.length then some (.proto "message too large for TCP".toList)
      else error.map .io

/-- `read_tcp_message`, and the check of what it returns. -/
def readMessage (q : TcpQuery) : Option TcpQuery :=
  (q.reader.next be16Framing).map fun (body, reader) =>
    match body with
    | none => { q with reader := reader }
    | some bytes =>
        match fromVec bytes with
        | .error e => { q with reader := reader, phase := .done (some (.error (.proto e))) }
        | .ok msg =>
            if matchesQuery q.query msg then
              { q with reader := reader, phase := .done (some (.ok msg)) }
            else { q with reader := reader }

def step (q : TcpQuery) : TcpAction → Option TcpQuery
  | .connect error =>
      match q.phase with
      | .connecting =>
          match error with
          | none => some { q with phase := .writing }
          | some e => some { q with phase := .done (some (.error (.io e))) }
      | _ => none
  | .write error =>
      match q.phase with
      | .writing =>
          match writeError toVec q.query error with
          | none => some { q with phase := .reading }
          | some e => some { q with phase := .done (some (.error e)) }
      | _ => none
  | .arrive chunk =>
      match q.phase with
      | .writing | .reading =>
          some { q with reader := q.reader.feed chunk, arrived := q.arrived ++ chunk }
      | _ => none
  | .read =>
      match q.phase with
      | .reading => q.readMessage fromVec
      | _ => none
  | .fail error =>
      match q.phase with
      | .reading => some { q with phase := .done (some (.error (.io error))) }
      | _ => none
  | .drop =>
      match q.phase with
      | .done _ => none
      | _ => some { q with phase := .done none }

/-! ## What has been read -/

def Skips (query : Message) (body : Bytes) : Prop :=
  ∃ msg, fromVec body = .ok msg ∧ matchesQuery query msg = false

/-- The messages that were read: none matches the query, but perhaps the last one. -/
def Reads (q : TcpQuery) (bodies : List Bytes) : Prop :=
  match q.phase with
  | .done (some (.ok msg)) => ∃ skipped body, bodies = skipped ++ [body] ∧
      (∀ b ∈ skipped, Skips fromVec q.query b) ∧ fromVec body = .ok msg ∧
      matchesQuery q.query msg = true
  | .done _ => True
  | _ => ∀ b ∈ bodies, Skips fromVec q.query b

structure Sound (q : TcpQuery) (bodies : List Bytes) : Prop where
  reader : q.reader.Sound be16Framing
  fits : be16Framing.Fits bodies
  arrived : q.arrived = be16Framing.stream bodies ++ q.reader.held be16Framing
  reads : q.Reads fromVec bodies

variable {toVec fromVec} {q q' : TcpQuery} {bodies : List Bytes}

theorem sound_new (query : Message) : Sound fromVec { query := query } [] where
  reader := by simp
  fits := by simp
  arrived := by simp
  reads := by simp [Reads]

theorem Sound.setPhase (h : q.Sound fromVec bodies) {phase : TcpPhase}
    (hreads : { q with phase := phase }.Reads fromVec bodies) :
    { q with phase := phase }.Sound fromVec bodies :=
  ⟨h.reader, h.fits, h.arrived, hreads⟩

theorem Sound.readMessage (h : q.Sound fromVec bodies) (hreading : q.phase = .reading)
    (hread : q.readMessage fromVec = some q') : ∃ bodies', q'.Sound fromVec bodies' := by
  simp only [TcpQuery.readMessage, Option.map_eq_some_iff, Prod.exists] at hread
  obtain ⟨body, reader, hnext, rfl⟩ := hread
  obtain ⟨hheld, hfits, hreader⟩ := FrameReader.held_of_next h.reader hnext
  have hskips : ∀ b ∈ bodies, Skips fromVec q.query b := by
    simpa [Reads, hreading] using h.reads
  have harrived : q.arrived =
      be16Framing.stream (bodies ++ body.toList) ++ reader.held be16Framing := by
    simp [h.arrived, hheld]
  have hfits' : be16Framing.Fits (bodies ++ body.toList) := by
    simp [h.fits, hfits]
  refine ⟨bodies ++ body.toList, ?_⟩
  cases body with
  | none => exact ⟨hreader, hfits', harrived, by simpa [Reads, hreading] using hskips⟩
  | some bytes =>
      dsimp only
      split
      · exact ⟨hreader, hfits', harrived, trivial⟩
      · rename_i msg hmsg
        split
        · rename_i hmatches
          exact ⟨hreader, hfits', harrived, bodies, bytes, rfl, hskips, hmsg, hmatches⟩
        · rename_i hother
          refine ⟨hreader, hfits', harrived, ?_⟩
          have hskip : Skips fromVec q.query bytes := ⟨msg, hmsg, by simpa using hother⟩
          simp only [Reads, hreading, Option.toList_some, List.mem_append, List.mem_singleton]
          rintro b (hb | rfl)
          · exact hskips b hb
          · exact hskip

theorem Sound.step {a : TcpAction} (h : q.Sound fromVec bodies)
    (hstep : q.step toVec fromVec a = some q') :
    ∃ bodies', q'.Sound fromVec bodies' := by
  cases a with
  | connect error =>
      simp only [TcpQuery.step] at hstep
      split at hstep
      · rename_i hphase
        have hskips : ∀ b ∈ bodies, Skips fromVec q.query b := by
          simpa [Reads, hphase] using h.reads
        split at hstep <;> cases hstep
        · exact ⟨bodies, h.setPhase hskips⟩
        · exact ⟨bodies, h.setPhase trivial⟩
      · cases hstep
  | write error =>
      simp only [TcpQuery.step] at hstep
      split at hstep
      · rename_i hphase
        have hskips : ∀ b ∈ bodies, Skips fromVec q.query b := by
          simpa [Reads, hphase] using h.reads
        split at hstep <;> cases hstep
        · exact ⟨bodies, h.setPhase hskips⟩
        · exact ⟨bodies, h.setPhase trivial⟩
      · cases hstep
  | arrive chunk =>
      have hfeed : ({ q with reader := q.reader.feed chunk, arrived := q.arrived ++ chunk } :
          TcpQuery).Sound fromVec bodies :=
        ⟨by simpa using h.reader, h.fits, by simp [h.arrived], h.reads⟩
      simp only [TcpQuery.step] at hstep
      split at hstep <;> cases hstep <;> exact ⟨bodies, hfeed⟩
  | read =>
      simp only [TcpQuery.step] at hstep
      split at hstep
      · exact h.readMessage (by assumption) hstep
      · cases hstep
  | fail error =>
      simp only [TcpQuery.step] at hstep
      split at hstep <;> cases hstep
      exact ⟨bodies, h.setPhase trivial⟩
  | drop =>
      simp only [TcpQuery.step] at hstep
      split at hstep <;> cases hstep
      exact ⟨bodies, h.setPhase trivial⟩

theorem query_of_step {a : TcpAction} (hstep : q.step toVec fromVec a = some q') :
    q'.query = q.query := by
  cases a with
  | read =>
      simp only [TcpQuery.step] at hstep
      split at hstep
      · simp only [TcpQuery.readMessage, Option.map_eq_some_iff, Prod.exists] at hstep
        obtain ⟨body, reader, -, rfl⟩ := hstep
        cases body with
        | none => rfl
        | some bytes =>
            dsimp only
            split
            · rfl
            · split <;> rfl
      · cases hstep
  | connect | write =>
      simp only [TcpQuery.step] at hstep
      split at hstep
      · split at hstep <;> cases hstep <;> rfl
      · cases hstep
  | arrive | fail | drop =>
      simp only [TcpQuery.step] at hstep
      split at hstep <;> cases hstep <;> rfl

theorem sound_of_run {query : Message} {as : List TcpAction}
    (hrun : runFrom (TcpQuery.step toVec fromVec) { query := query } as = some q) :
    q.query = query ∧ ∃ bodies, q.Sound fromVec bodies := by
  refine runFrom_invariant (I := fun q => q.query = query ∧ ∃ bodies, q.Sound fromVec bodies)
    (fun u a v _ hstep h => ?_) ⟨rfl, [], sound_new query⟩ (eachStep_trivial _ _) hrun
  obtain ⟨hquery, bodies, h⟩ := h
  exact ⟨(query_of_step hstep).trans hquery, h.step hstep⟩

/-! ## The reply -/

theorem not_matches_of_skips {query msg : Message} {body : Bytes} (h : Skips fromVec query body)
    (hmsg : fromVec body = .ok msg) : matchesQuery query msg ≠ true := by
  obtain ⟨other, hother, hmatches⟩ := h
  rw [hmsg] at hother
  cases hother
  simp [hmatches]

section

variable (fromVec)

/-- The first message of the stream that matches the query, behind such as do not. -/
def FirstMatch (query : Message) (arrived : Bytes) (msg : Message) : Prop :=
  ∃ skipped body rest, arrived = be16Framing.stream (skipped ++ [body]) ++ rest ∧
    be16Framing.Fits (skipped ++ [body]) ∧ (∀ b ∈ skipped, Skips fromVec query b) ∧
    fromVec body = .ok msg ∧ matchesQuery query msg = true

end

theorem Sound.firstMatch {msg : Message} (h : q.Sound fromVec bodies)
    (hdone : q.phase = .done (some (.ok msg))) : FirstMatch fromVec q.query q.arrived msg := by
  have hreads := h.reads
  simp only [Reads, hdone] at hreads
  obtain ⟨skipped, body, rfl, hskips, hmsg, hmatches⟩ := hreads
  exact ⟨skipped, body, _, h.arrived, h.fits, hskips, hmsg, hmatches⟩

/-- A match lies behind whatever was skipped. -/
theorem FirstMatch.behind {query msg : Message} {arrived more held : Bytes} {bodies : List Bytes}
    (h : FirstMatch fromVec query arrived msg) (hfits : be16Framing.Fits bodies)
    (hskips : ∀ b ∈ bodies, Skips fromVec query b)
    (heq : arrived ++ more = be16Framing.stream bodies ++ held) :
    ∃ body rest, body.length ≤ be16Framing.limit ∧ held = be16Framing.frame body ++ rest ∧
      ((∀ b ∈ body :: bodies, Skips fromVec query b) ∨ fromVec body = .ok msg) := by
  obtain ⟨skipped, body, rest, harrived, hread, hbefore, hmsg, hmatches⟩ := h
  have hall : be16Framing.stream (skipped ++ [body]) ++ (rest ++ more) =
      be16Framing.stream bodies ++ held := by
    rw [← heq, harrived, List.append_assoc]
  have hshort : bodies.length ≤ skipped.length := by
    by_contra hlong
    have hprefix := Framing.stream_prefix hall (by simp; omega) hread hfits
    have hmem : body ∈ bodies := hprefix.subset (by simp)
    exact not_matches_of_skips (hskips body hmem) hmsg hmatches
  obtain ⟨after, hafter⟩ :=
    Framing.stream_prefix hall.symm (by simp; omega) hfits hread
  have hheld : held = be16Framing.stream after ++ (rest ++ more) := by
    rw [← hafter, Framing.stream_append, List.append_assoc] at hall
    exact (List.append_cancel_left hall).symm
  cases after with
  | nil =>
      have hlength := congrArg List.length hafter
      simp at hlength
      omega
  | cons b after =>
      have hb : b ∈ skipped ++ [body] := hafter ▸ by simp
      refine ⟨b, be16Framing.stream after ++ (rest ++ more), hread b hb, ?_, ?_⟩
      · simp [hheld]
      · rcases List.mem_append.mp hb with hb | hb
        · refine .inl fun c hc => ?_
          rcases List.mem_cons.mp hc with rfl | hc
          · exact hbefore c hb
          · exact hskips c hc
        · rw [List.mem_singleton] at hb
          exact .inr (hb ▸ hmsg)

/-- One stream has one first match. -/
theorem FirstMatch.unique {query msg msg' : Message} {arrived arrived' : Bytes}
    (h : FirstMatch fromVec query arrived msg) (h' : FirstMatch fromVec query arrived' msg')
    (hpre : arrived <+: arrived') : msg = msg' := by
  obtain ⟨more, rfl⟩ := hpre
  obtain ⟨skipped, body, rest, harrived, hread, hbefore, hmsg, hmatches⟩ := h'
  have hfits : be16Framing.Fits skipped := fun b hb => hread b (by simp [hb])
  obtain ⟨found, tail, hlimit, hheld, hfound⟩ := h.behind hfits hbefore
    (by rw [harrived, Framing.stream_append, List.append_assoc])
  have hsame : body = found := by
    rw [Framing.stream_singleton] at hheld
    exact (Framing.frame_cancel hheld (hread body (by simp)) hlimit).1
  subst hsame
  rcases hfound with hskips | hfound
  · exact absurd hmatches (not_matches_of_skips (hskips body (by simp)) hmsg)
  · rw [hfound] at hmsg
    cases hmsg
    rfl

/--
In every run of a query over TCP the reply is the first message of the stream that matches it;
whatever way the stream is cut, the reply is the same; and a query that has to wait for more
has no match among what has arrived.
-/
theorem reply_of_run {query : Message} {as : List TcpAction}
    (hrun : runFrom (TcpQuery.step toVec fromVec) { query := query } as = some q) :
    (∀ msg, q.phase = .done (some (.ok msg)) → FirstMatch fromVec query q.arrived msg ∧
      ∀ (bs : List TcpAction) (q' : TcpQuery) (msg' : Message),
        runFrom (TcpQuery.step toVec fromVec) { query := query } bs = some q' →
        q'.phase = .done (some (.ok msg')) → q.arrived <+: q'.arrived → msg' = msg) ∧
    (q.phase = .reading → q.step toVec fromVec .read = none →
      ∀ msg, ¬ FirstMatch fromVec query q.arrived msg) := by
  have hfirst : ∀ {cs : List TcpAction} {u : TcpQuery} {msg : Message},
      runFrom (TcpQuery.step toVec fromVec) { query := query } cs = some u →
      u.phase = .done (some (.ok msg)) → FirstMatch fromVec query u.arrived msg := by
    intro cs u msg hrun hdone
    obtain ⟨rfl, bodies, h⟩ := sound_of_run hrun
    exact h.firstMatch hdone
  refine ⟨fun msg hdone => ⟨hfirst hrun hdone, fun bs q' msg' hrun' hdone' hprefix => ?_⟩,
    fun hreading hwaits msg hmatch => ?_⟩
  · exact ((hfirst hrun hdone).unique (hfirst hrun' hdone') hprefix).symm
  · obtain ⟨rfl, bodies, h⟩ := sound_of_run hrun
    have hskips : ∀ b ∈ bodies, Skips fromVec q.query b := by
      simpa [Reads, hreading] using h.reads
    have hnext : q.reader.next be16Framing = none := by
      simpa [TcpQuery.step, hreading, TcpQuery.readMessage] using hwaits
    have harrived : q.arrived ++ [] = be16Framing.stream bodies ++ q.reader.held be16Framing := by
      simpa using h.arrived
    obtain ⟨body, rest, hlimit, hheld, -⟩ := hmatch.behind h.fits hskips harrived
    exact FrameReader.incomplete_of_next h.reader hnext hlimit hheld

end TcpQuery

end

def tcpQuestion : Message where
  metadata := ⟨7, false, 0, false, false, true, false, false, false, 0⟩
  queries := [⟨[[97]], typeA, 1⟩]
  answers := []
  authorities := []
  additionals := []
  edns := none

def tcpWire (id : UInt8) : Bytes := [0, id, 1, 0, 0, 1, 0, 0, 0, 0, 0, 0, 1, 97, 0, 0, 1, 0, 1]

def tcpFromVec (bytes : Bytes) : Except Text Message :=
  match decode bytes with
  | some msg => .ok msg
  | none => .error []

/-- A message with another id comes first, and the reply in two pieces. -/
def tcpRun : List TcpAction :=
  let stream := be16Framing.stream [tcpWire 8, tcpWire 7]
  [.connect none, .write none, .arrive (stream.take 30), .read, .read, .read,
    .arrive (stream.drop 30), .read]

theorem reply_tcpRun :
    ∃ q msg, runFrom (TcpQuery.step (fun _ => .ok (tcpWire 7)) tcpFromVec) { query := tcpQuestion }
        tcpRun = some q ∧ TcpQuery.FirstMatch tcpFromVec tcpQuestion q.arrived msg := by
  have hrun : ((runFrom (TcpQuery.step (fun _ => .ok (tcpWire 7)) tcpFromVec)
      { query := tcpQuestion } tcpRun).any fun q => q.phase.answer.isSome) = true := by
    decide +kernel
  obtain ⟨q, hq, hdone⟩ := (Option.any_eq_true _ _).mp hrun
  obtain ⟨msg, hmsg⟩ := Option.isSome_iff_exists.mp hdone
  exact ⟨q, msg, hq, ((TcpQuery.reply_of_run hq).1 msg (TcpPhase.eq_done hmsg)).1⟩

end Bulwark.Upstream
