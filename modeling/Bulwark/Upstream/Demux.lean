import Bulwark.Upstream.Pool

/-!
# One shared connection

`UdpConn` and the DoT `Conn`, critical section by critical section.  An exchange takes an
id, registers its sender under it, sends, waits, and takes the entry of its id out of the
map when it ends; the reader takes senders out of the map and delivers to them.  Dropping a
sender closes the channel its exchange waits on.
-/

namespace Bulwark.Upstream.Demux

open Bulwark.Foundation Bulwark.Dns

/-! ## Exchanges and the reader -/

/-- How an exchange ends; `none` when it is dropped. -/
abbrev Ending := Option (Except UpstreamError Message)

inductive Phase where
  /-- It has an id, and no entry in the map. -/
  | claimed
  | sending
  | awaiting
  /-- It is over, except for its guard. -/
  | leaving (ending : Ending)
  | done (ending : Ending)

structure Exchange where
  query : Message
  id : UInt16
  slot : Slot := .empty
  phase : Phase := .claimed

/-- It has sent a query or is about to, and its channel is silent. -/
def Exchange.Waiting (x : Exchange) : Prop :=
  (x.phase = .sending ∨ x.phase = .awaiting) ∧ x.slot = .empty

def Exchange.Open (x : Exchange) : Prop :=
  x.phase = .claimed ∨ x.phase = .sending ∨ x.phase = .awaiting

def Exchange.Guarded (x : Exchange) : Prop :=
  x.phase = .sending ∨ x.phase = .awaiting ∨ ∃ ending, x.phase = .leaving ending

inductive Reader where
  | reading
  /-- Between `remove` and `send`. -/
  | holding (exchange : Nat) (msg : Message)
  /-- After the loop, before the last critical section. -/
  | closing
  | stopped

structure Connection where
  nextId : UInt16 := 0
  map : UInt16 → Option Nat := fun _ => none
  dead : Bool := false
  reader : Reader := .reading
  started : Nat := 0
  exchanges : Nat → Option Exchange := fun _ => none

inductive Input where
  | message (msg : Message)
  | malformed
  | error
  | idle

inductive Action where
  | start (query : Message) (encodeError : Option UpstreamError)
  | register (k : Nat)
  | send (k : Nat) (error : Option UpstreamError)
  | poll (k : Nat)
  | cancel (k : Nat)
  | release (k : Nat)
  | recv (input : Input)
  | deliver
  | close

/-! ## Steps -/

namespace Connection

def setExchange (c : Connection) (k : Nat) (x : Exchange) : Connection :=
  { c with exchanges := Function.update c.exchanges k (some x) }

def setPhase (c : Connection) (k : Nat) (x : Exchange) (phase : Phase) : Connection :=
  c.setExchange k { x with phase := phase }

/-- `map.is_empty()` -/
def mapIsEmpty (c : Connection) : Bool := decide (∀ n : Fin (2 ^ 16), c.map (.ofFin n) = none)

def closeSlot (c : Connection) (id : UInt16) (k : Nat) (x : Exchange) : Exchange :=
  if c.map id = some k then { x with slot := .closed } else x

/-- The map with another entry, or none, for an id; the sender that was there is dropped. -/
def replaceEntry (c : Connection) (id : UInt16) (entry : Option Nat) : Connection :=
  { c with
    map := Function.update c.map id entry
    exchanges := fun k => (c.exchanges k).map (c.closeSlot id k) }

def tearDown (c : Connection) : Connection :=
  { c with
    dead := true
    map := fun _ => none
    exchanges := fun k => (c.exchanges k).map fun x => c.closeSlot x.id k x
    reader := .stopped }

def receive (c : Connection) (kind : TransportKind) : Input → Connection
  | .message msg =>
      match c.map msg.metadata.id with
      | some k =>
          { c with
            map := Function.update c.map msg.metadata.id none
            reader := .holding k msg }
      | none => c
  | .malformed => if kind = .udp then c else { c with reader := .closing }
  | .error => { c with reader := .closing }
  | .idle =>
      if kind = .udp then
        if c.mapIsEmpty then { c with dead := true, reader := .closing } else c
      else { c with reader := .closing }

end Connection

def step (kind : TransportKind) (c : Connection) : Action → Option Connection
  | .start query encodeError =>
      let phase := match encodeError with
        | none => .claimed
        | some e => .done (some (.error e))
      some { c.setExchange c.started { query, id := c.nextId, phase } with
        nextId := c.nextId + 1
        started := c.started + 1 }
  | .register k =>
      (c.exchanges k).bind fun x =>
        match x.phase with
        | .claimed =>
            if c.dead then some (c.setPhase k x (.done (some (.error (socketClosed kind)))))
            else some ((c.replaceEntry x.id (some k)).setPhase k x .sending)
        | _ => none
  | .send k error =>
      (c.exchanges k).bind fun x =>
        match x.phase, error with
        | .sending, none => some (c.setPhase k x .awaiting)
        | .sending, some e => some (c.setPhase k x (.leaving (some (.error e))))
        | _, _ => none
  | .poll k =>
      (c.exchanges k).bind fun x =>
        match x.phase, x.slot with
        | .awaiting, .delivered msg =>
            some (c.setPhase k x (.leaving (some (acceptReply kind x.query msg))))
        | .awaiting, .closed =>
            some (c.setPhase k x (.leaving (some (.error (socketClosed kind)))))
        | _, _ => none
  | .cancel k =>
      (c.exchanges k).bind fun x =>
        match x.phase with
        | .sending | .awaiting => some (c.setPhase k x (.leaving none))
        | _ => none
  | .release k =>
      (c.exchanges k).bind fun x =>
        match x.phase with
        | .leaving ending => some ((c.replaceEntry x.id none).setPhase k x (.done ending))
        | _ => none
  | .recv input =>
      match c.reader with
      | .reading => some (c.receive kind input)
      | _ => none
  | .deliver =>
      match c.reader with
      | .holding k msg =>
          (c.exchanges k).map fun x =>
            { c.setExchange k { x with slot := .delivered msg } with reader := .reading }
      | _ => none
  | .close =>
      match c.reader with
      | .closing => some c.tearDown
      | _ => none

/-! ## What a step can do -/

/-- The steps, apart from how their texts and messages come about. -/
inductive Moves (c : Connection) : Action → Connection → Prop where
  | start {query : Message} {encodeError : Option UpstreamError} {x : Exchange}
      (hphase : x.phase = .claimed ∨ ∃ ending, x.phase = .done ending) (hslot : x.slot = .empty)
      (hid : x.id = c.nextId) :
      Moves c (.start query encodeError) { c.setExchange c.started x with
        nextId := c.nextId + 1
        started := c.started + 1 }
  | refuse {k : Nat} {x : Exchange} {ending : Ending} (hx : c.exchanges k = some x)
      (hclaimed : x.phase = .claimed) (hdead : c.dead = true) :
      Moves c (.register k) (c.setPhase k x (.done ending))
  | register {k : Nat} {x : Exchange} (hx : c.exchanges k = some x) (hclaimed : x.phase = .claimed)
      (hlive : c.dead = false) :
      Moves c (.register k) ((c.replaceEntry x.id (some k)).setPhase k x .sending)
  | advance {k : Nat} {x : Exchange} {phase : Phase} {a : Action} (hx : c.exchanges k = some x)
      (hbefore : x.phase = .sending ∨ x.phase = .awaiting)
      (hafter : phase = .awaiting ∨ ∃ ending, phase = .leaving ending) :
      Moves c a (c.setPhase k x phase)
  | release {k : Nat} {x : Exchange} {ending : Ending} (hx : c.exchanges k = some x)
      (hleaving : x.phase = .leaving ending) :
      Moves c (.release k) ((c.replaceEntry x.id none).setPhase k x (.done ending))
  | take {msg : Message} {k : Nat} (hreading : c.reader = .reading)
      (hk : c.map msg.metadata.id = some k) :
      Moves c (.recv (.message msg))
        { c with map := Function.update c.map msg.metadata.id none, reader := .holding k msg }
  | ignore {input : Input} : Moves c (.recv input) c
  | breakLoop {input : Input} (hreading : c.reader = .reading) :
      Moves c (.recv input) { c with reader := .closing }
  | idle (hreading : c.reader = .reading) (hempty : ∀ id, c.map id = none) :
      Moves c (.recv .idle) { c with dead := true, reader := .closing }
  | deliver {k : Nat} {msg : Message} {x : Exchange} (hholding : c.reader = .holding k msg)
      (hx : c.exchanges k = some x) :
      Moves c .deliver
        { c.setExchange k { x with slot := .delivered msg } with reader := .reading }
  | close (hclosing : c.reader = .closing) : Moves c .close c.tearDown

theorem mapIsEmpty_iff (c : Connection) : c.mapIsEmpty = true ↔ ∀ id, c.map id = none := by
  rw [Connection.mapIsEmpty, decide_eq_true_iff]
  exact ⟨fun h id => h id.toFin, fun h n => h _⟩

theorem moves_of_receive (kind : TransportKind) (c : Connection) (input : Input)
    (hreading : c.reader = .reading) : Moves c (.recv input) (c.receive kind input) := by
  cases input with
  | message msg =>
      rw [Connection.receive]
      cases hk : c.map msg.metadata.id with
      | some k => exact .take hreading hk
      | none => exact .ignore
  | malformed =>
      rw [Connection.receive]
      split
      · exact .ignore
      · exact .breakLoop hreading
  | error => exact .breakLoop hreading
  | idle =>
      rw [Connection.receive]
      split
      · split
        · rename_i hempty
          exact .idle hreading ((mapIsEmpty_iff c).mp hempty)
        · exact .ignore
      · exact .breakLoop hreading

theorem moves_of_step {kind : TransportKind} {c c' : Connection} {a : Action}
    (h : step kind c a = some c') : Moves c a c' := by
  cases a with
  | start query encodeError =>
      cases h
      exact .start (by cases encodeError <;> simp) rfl rfl
  | register k =>
      obtain ⟨x, hx, h⟩ := Option.bind_eq_some_iff.mp h
      split at h
      · split at h
        · cases h
          exact .refuse hx (by assumption) (by assumption)
        · cases h
          exact .register hx (by assumption) (by simpa using ‹¬ c.dead = true›)
      · cases h
  | send k error =>
      obtain ⟨x, hx, h⟩ := Option.bind_eq_some_iff.mp h
      split at h
      · cases h
        exact .advance hx (.inl (by assumption)) (.inl rfl)
      · cases h
        exact .advance hx (.inl (by assumption)) (.inr ⟨_, rfl⟩)
      · cases h
  | poll k =>
      obtain ⟨x, hx, h⟩ := Option.bind_eq_some_iff.mp h
      split at h
      · cases h
        exact .advance hx (.inr (by assumption)) (.inr ⟨_, rfl⟩)
      · cases h
        exact .advance hx (.inr (by assumption)) (.inr ⟨_, rfl⟩)
      · cases h
  | cancel k =>
      obtain ⟨x, hx, h⟩ := Option.bind_eq_some_iff.mp h
      split at h
      · cases h
        exact .advance hx (.inl (by assumption)) (.inr ⟨_, rfl⟩)
      · cases h
        exact .advance hx (.inr (by assumption)) (.inr ⟨_, rfl⟩)
      · cases h
  | release k =>
      obtain ⟨x, hx, h⟩ := Option.bind_eq_some_iff.mp h
      split at h
      · cases h
        exact .release hx (by assumption)
      · cases h
  | recv input =>
      rw [step] at h
      split at h
      · cases h
        exact moves_of_receive kind c input (by assumption)
      · cases h
  | deliver =>
      rw [step] at h
      split at h
      · obtain ⟨x, hx, h⟩ := Option.map_eq_some_iff.mp h
        cases h
        exact .deliver (by assumption) hx
      · cases h
  | close =>
      rw [step] at h
      split at h
      · cases h
        exact .close (by assumption)
      · cases h

/-! ## The map and the exchanges after a step -/

section

variable {c : Connection} {k j : Nat} {x y : Exchange}

theorem setExchange_cases (h : (c.setExchange k x).exchanges j = some y) :
    j = k ∧ y = x ∨ j ≠ k ∧ c.exchanges j = some y :=
  update_eq_some.mp h

/-- An exchange loses its sender with its entry, and nothing else. -/
theorem replaceEntry_cases {id : UInt16} {entry : Option Nat}
    (h : (c.replaceEntry id entry).exchanges j = some y) :
    ∃ x, c.exchanges j = some x ∧ y = c.closeSlot id j x := by
  obtain ⟨x, hx, rfl⟩ := Option.map_eq_some_iff.mp h
  exact ⟨x, hx, rfl⟩

theorem closeSlot_frame (c : Connection) (id : UInt16) (k : Nat) (x : Exchange) :
    (c.closeSlot id k x).id = x.id ∧ (c.closeSlot id k x).phase = x.phase := by
  rw [Connection.closeSlot]
  split <;> exact ⟨rfl, rfl⟩

theorem Exchange.Waiting.of_closeSlot {id : UInt16} (h : (c.closeSlot id k x).Waiting) :
    c.map id ≠ some k ∧ x.Waiting := by
  rw [Connection.closeSlot] at h
  split at h
  · cases h.2
  · exact ⟨by assumption, h⟩

end

/-! ## No waiter is stranded -/

/-- Whoever waits has a sender where a reply can reach it. -/
structure Sound (c : Connection) : Prop where
  empty_of_dead : c.dead = true → ∀ id, c.map id = none
  dead_of_stopped : c.reader = .stopped → c.dead = true
  sender : ∀ k x, c.exchanges k = some x → x.Waiting →
    c.map x.id = some k ∨ ∃ msg, c.reader = .holding k msg

theorem Sound.init : Sound {} where
  empty_of_dead := fun h => by cases h
  dead_of_stopped := fun h => by cases h
  sender := fun k x h => by cases h

theorem Sound.setPhase {c : Connection} (hc : Sound c) {k : Nat} {x : Exchange} {phase : Phase}
    (hx : c.exchanges k = some x)
    (hwaits : ({ x with phase := phase } : Exchange).Waiting → x.Waiting) :
    Sound (c.setPhase k x phase) where
  empty_of_dead := hc.empty_of_dead
  dead_of_stopped := hc.dead_of_stopped
  sender := by
    intro j y hy hwaiting
    rcases setExchange_cases hy with ⟨rfl, rfl⟩ | ⟨-, hy⟩
    · exact hc.sender _ x hx (hwaits hwaiting)
    · exact hc.sender j y hy hwaiting

/-- Whoever waits after an entry is replaced still has the one it had. -/
theorem Sound.sender_replaceEntry {c : Connection} (hc : Sound c) {id : UInt16}
    {entry : Option Nat} {j : Nat} {y : Exchange}
    (hy : (c.replaceEntry id entry).exchanges j = some y) (hwaiting : y.Waiting) :
    (c.replaceEntry id entry).map y.id = some j ∨ ∃ msg, c.reader = .holding j msg := by
  obtain ⟨w, hw, rfl⟩ := replaceEntry_cases hy
  obtain ⟨hkept, hwaits⟩ := hwaiting.of_closeSlot
  rw [(closeSlot_frame c id j w).1]
  refine (hc.sender j w hw hwaits).imp_left fun hentry => ?_
  have hne : w.id ≠ id := fun heq => hkept (heq ▸ hentry)
  exact (Function.update_of_ne hne _ _).trans hentry

theorem Sound.empty_update {c : Connection} (hc : Sound c) (hdead : c.dead = true)
    (id id' : UInt16) : Function.update c.map id none id' = none := by
  rw [Function.update_apply]
  split
  · rfl
  · exact hc.empty_of_dead hdead id'

theorem not_waiting_of_over {x : Exchange} {ending : Ending}
    (hphase : x.phase = .leaving ending ∨ x.phase = .done ending ∨ x.phase = .claimed) :
    ¬ x.Waiting := by
  rintro ⟨hsend | hawait, -⟩
  · simp [hsend] at hphase
  · simp [hawait] at hphase

theorem Sound.moves {c c' : Connection} {a : Action} (hc : Sound c) (h : Moves c a c') :
    Sound c' := by
  cases h with
  | start hphase _ _ =>
      refine ⟨hc.empty_of_dead, hc.dead_of_stopped, fun j y hy hwaiting => ?_⟩
      rcases setExchange_cases hy with ⟨rfl, rfl⟩ | ⟨-, hy⟩
      · rcases hphase with hclaimed | ⟨ending, hdone⟩
        · exact absurd hwaiting (@not_waiting_of_over _ none (.inr (.inr hclaimed)))
        · exact absurd hwaiting (not_waiting_of_over (.inr (.inl hdone)))
      · exact hc.sender j y hy hwaiting
  | refuse hx _ _ =>
      exact hc.setPhase hx fun h => absurd h (not_waiting_of_over (.inr (.inl rfl)))
  | @register k x hx hclaimed hlive =>
      refine ⟨fun hdead => ?_, hc.dead_of_stopped, fun j y hy hwaiting => ?_⟩
      · change c.dead = true at hdead
        simp [hlive] at hdead
      · rcases setExchange_cases hy with ⟨rfl, rfl⟩ | ⟨hj, hy⟩
        · exact .inl (Function.update_self ..)
        · exact hc.sender_replaceEntry hy hwaiting
  | advance hx hbefore hafter =>
      exact hc.setPhase hx fun h => ⟨hbefore, h.2⟩
  | @release k x ending hx hleaving =>
      refine ⟨fun hdead id => ?_, hc.dead_of_stopped, fun j y hy hwaiting => ?_⟩
      · exact hc.empty_update hdead x.id id
      · rcases setExchange_cases hy with ⟨rfl, rfl⟩ | ⟨hj, hy⟩
        · exact absurd hwaiting (not_waiting_of_over (.inr (.inl rfl)))
        · exact hc.sender_replaceEntry hy hwaiting
  | @take msg k hreading hk =>
      refine ⟨fun hdead id => ?_, fun h => ?_, fun j y hy hwaiting => ?_⟩
      · exact hc.empty_update hdead msg.metadata.id id
      · cases h
      · rcases hc.sender j y hy hwaiting with hentry | ⟨msg', hholding⟩
        · by_cases hid : y.id = msg.metadata.id
          · rw [hid, hk] at hentry
            cases hentry
            exact .inr ⟨msg, rfl⟩
          · exact .inl ((Function.update_of_ne hid _ _).trans hentry)
        · rw [hreading] at hholding
          cases hholding
  | ignore => exact hc
  | breakLoop hreading =>
      refine ⟨hc.empty_of_dead, fun h => ?_, fun j y hy hwaiting => ?_⟩
      · cases h
      · rcases hc.sender j y hy hwaiting with hentry | ⟨msg, hholding⟩
        · exact .inl hentry
        · rw [hreading] at hholding
          cases hholding
  | idle hreading hempty =>
      refine ⟨fun _ => hempty, fun _ => rfl, fun j y hy hwaiting => ?_⟩
      rcases hc.sender j y hy hwaiting with hentry | ⟨msg, hholding⟩
      · exact .inl hentry
      · rw [hreading] at hholding
        cases hholding
  | @deliver k msg x hholding hx =>
      refine ⟨hc.empty_of_dead, fun h => ?_, fun j y hy hwaiting => ?_⟩
      · cases h
      · rcases setExchange_cases hy with ⟨rfl, rfl⟩ | ⟨hj, hy⟩
        · cases hwaiting.2
        · rcases hc.sender j y hy hwaiting with hentry | ⟨msg', hholding'⟩
          · exact .inl hentry
          · rw [hholding] at hholding'
            cases hholding'
            exact absurd rfl hj
  | close hclosing =>
      refine ⟨fun _ _ => rfl, fun _ => rfl, fun j y hy hwaiting => ?_⟩
      obtain ⟨w, hw, rfl⟩ := Option.map_eq_some_iff.mp hy
      obtain ⟨hkept, hwaits⟩ := hwaiting.of_closeSlot
      rcases hc.sender j w hw hwaits with hentry | ⟨msg, hholding⟩
      · exact absurd hentry hkept
      · rw [hclosing] at hholding
        cases hholding

theorem sound_of_run {kind : TransportKind} {actions : List Action} {c : Connection}
    (hrun : runFrom (step kind) {} actions = some c) : Sound c :=
  runFrom_invariant (fun _ _ _ _ hstep hc => hc.moves (moves_of_step hstep)) .init
    (eachStep_trivial _ _) hrun

/-- Whoever waits can be reached, and nobody waits on a connection whose reader has
stopped, or starts to. -/
theorem no_waiter_stranded (kind : TransportKind) {actions : List Action} {c : Connection}
    (hrun : runFrom (step kind) {} actions = some c) :
    (c.dead = true → ∀ id, c.map id = none) ∧
    (∀ k x, c.exchanges k = some x → x.Waiting →
      c.dead = false ∧ c.map x.id = some k ∨ ∃ msg, c.reader = .holding k msg) ∧
    (c.reader = .stopped →
      (∀ k x, c.exchanges k = some x → ¬ x.Waiting) ∧
      ∀ k c', step kind c (.register k) = some c' →
        ∃ x, c'.exchanges k = some x ∧
          x.phase = .done (some (.error (socketClosed kind)))) := by
  have hc := sound_of_run hrun
  have hlive : ∀ {k id}, c.map id = some k → c.dead = false := by
    intro k id hentry
    rw [← Bool.not_eq_true]
    intro hdead
    rw [hc.empty_of_dead hdead] at hentry
    cases hentry
  refine ⟨hc.empty_of_dead, fun k x hx hwaiting => ?_,
    fun hstopped => ⟨fun k x hx hwaiting => ?_, ?_⟩⟩
  · exact (hc.sender k x hx hwaiting).imp_left fun hentry => ⟨hlive hentry, hentry⟩
  · rcases hc.sender k x hx hwaiting with hentry | ⟨msg, hholding⟩
    · rw [hc.empty_of_dead (hc.dead_of_stopped hstopped)] at hentry
      cases hentry
    · rw [hstopped] at hholding
      cases hholding
  · intro k c' hregister
    obtain ⟨x, hx, h⟩ := Option.bind_eq_some_iff.mp hregister
    rw [hc.dead_of_stopped hstopped] at h
    split at h
    · cases h
      exact ⟨_, Function.update_self .., rfl⟩
    · cases h

def query : Message where
  metadata := ⟨7, false, 0, false, false, true, false, false, false, 0⟩
  queries := [⟨[[97]], typeA, 1⟩]
  answers := []
  authorities := []
  additionals := []
  edns := none

/-- An exchange starts while the reader is on its way out. -/
def lateStart : List Action :=
  [.start query none, .register 0, .send 0 none, .recv .error, .start query none, .register 1,
    .close]

theorem no_waiter_stranded_lateStart :
    ∃ c, runFrom (step .udp) {} lateStart = some c ∧ c.dead = true ∧ c.map 0 = none ∧
      ∀ k x, c.exchanges k = some x → ¬ x.Waiting := by
  have hrun : ∃ c, runFrom (step .udp) {} lateStart = some c ∧ c.reader = .stopped ∧
      c.dead = true := ⟨_, rfl, rfl, rfl⟩
  obtain ⟨c, hrun, hstopped, hdead⟩ := hrun
  obtain ⟨hempty, -, hquiet⟩ := no_waiter_stranded .udp hrun
  exact ⟨c, hrun, hdead, hempty hdead 0, (hquiet hstopped).1⟩

end Bulwark.Upstream.Demux
