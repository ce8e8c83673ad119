import Bulwark.Upstream.DemuxIds

/-!
# What exchanges return

An exchange keeps its query and its id, and once it is over it stays as it is.  What it
returns is a message that the reader has received under its id, with the id of the query.
-/

namespace Bulwark.Upstream.Demux

open Bulwark.Foundation Bulwark.Dns

/-! ## Exchanges last -/

/-- It is the same exchange, and over if it was. -/
structure Exchange.Later (x x' : Exchange) : Prop where
  query : x'.query = x.query
  id : x'.id = x.id
  done : ∀ ending, x.phase = .done ending → x'.phase = .done ending

theorem Exchange.Later.refl (x : Exchange) : x.Later x := ⟨rfl, rfl, fun _ h => h⟩

theorem Exchange.later_closeSlot (c : Connection) (id : UInt16) (k : Nat) (x : Exchange) :
    x.Later (c.closeSlot id k x) := by
  obtain ⟨hid, hphase⟩ := closeSlot_frame c id k x
  refine ⟨?_, hid, fun ending h => hphase.trans h⟩
  unfold Connection.closeSlot
  split <;> rfl

theorem Exchange.later_setPhase {x : Exchange} {phase : Phase}
    (h : ∀ ending, x.phase ≠ .done ending) : x.Later { x with phase := phase } :=
  ⟨rfl, rfl, fun ending hdone => absurd hdone (h ending)⟩

theorem Exchange.Later.trans {x y z : Exchange} (hxy : x.Later y) (hyz : y.Later z) : x.Later z :=
  ⟨hyz.query.trans hxy.query, hyz.id.trans hxy.id,
    fun ending h => hyz.done ending (hxy.done ending h)⟩

structure Connection.Later (c c' : Connection) : Prop where
  dead : c.dead = true → c'.dead = true
  exchange : ∀ k x, c.exchanges k = some x → ∃ x', c'.exchanges k = some x' ∧ x.Later x'

theorem Connection.Later.refl (c : Connection) : c.Later c := ⟨id, fun _ x hx => ⟨x, hx, .refl x⟩⟩

theorem Connection.later_setExchange {c : Connection} {k : Nat} {x x' : Exchange}
    (hx : c.exchanges k = some x) (hlater : x.Later x') : c.Later (c.setExchange k x') where
  dead := id
  exchange j y hy := by
    by_cases hj : j = k
    · subst hj
      rw [hx] at hy
      cases hy
      exact ⟨x', Function.update_self .., hlater⟩
    · exact ⟨y, (Function.update_of_ne hj _ _).trans hy, .refl y⟩

theorem Connection.later_replaceEntry (c : Connection) (id : UInt16) (entry : Option Nat) :
    c.Later (c.replaceEntry id entry) where
  dead h := h
  exchange k x hx := ⟨_, by simp [replaceEntry, hx], x.later_closeSlot c id k⟩

theorem Connection.Later.trans {c d e : Connection} (hcd : c.Later d) (hde : d.Later e) :
    c.Later e where
  dead h := hde.dead (hcd.dead h)
  exchange k x hx := by
    obtain ⟨y, hy, hxy⟩ := hcd.exchange k x hx
    obtain ⟨z, hz, hyz⟩ := hde.exchange k y hy
    exact ⟨z, hz, hxy.trans hyz⟩

/-- An entry is replaced, and its exchange goes on. -/
theorem Connection.later_setPhase_replaceEntry {c : Connection} {k : Nat} {x : Exchange}
    {entry : Option Nat} {phase : Phase} (hx : c.exchanges k = some x)
    (hopen : ∀ ending, x.phase ≠ .done ending) :
    c.Later ((c.replaceEntry x.id entry).setPhase k x phase) where
  dead h := h
  exchange j y hy := by
    by_cases hj : j = k
    · subst hj
      rw [hx] at hy
      cases hy
      exact ⟨_, Function.update_self .., Exchange.later_setPhase hopen⟩
    · obtain ⟨z, hz, hyz⟩ := (c.later_replaceEntry x.id entry).exchange j y hy
      exact ⟨z, (Function.update_of_ne hj _ _).trans hz, hyz⟩

theorem Connection.later_of_moves {c c' : Connection} {a : Action} (hc : Numbered c)
    (h : Moves c a c') : c.Later c' := by
  cases h with
  | start _ _ _ =>
      refine ⟨id, fun k y hy => ⟨y, ?_, .refl y⟩⟩
      have hlt := (hc.number k y hy).1
      exact (Function.update_of_ne (by omega) _ _).trans hy
  | refuse hx hclaimed _ =>
      exact later_setExchange hx (Exchange.later_setPhase (by simp [hclaimed]))
  | register hx hclaimed _ => exact later_setPhase_replaceEntry hx (by simp [hclaimed])
  | advance hx hbefore _ =>
      refine later_setExchange hx (Exchange.later_setPhase fun ending hdone => ?_)
      simp [hdone] at hbefore
  | release hx hleaving => exact later_setPhase_replaceEntry hx (by simp [hleaving])
  | take _ _ => exact ⟨id, fun _ y hy => ⟨y, hy, .refl y⟩⟩
  | ignore => exact .refl c
  | breakLoop _ => exact ⟨id, fun _ y hy => ⟨y, hy, .refl y⟩⟩
  | idle _ _ => exact ⟨fun _ => rfl, fun _ y hy => ⟨y, hy, .refl y⟩⟩
  | @deliver k msg x _ hx =>
      have hset := @later_setExchange c k x { x with slot := .delivered msg } hx
        ⟨rfl, rfl, fun _ h => h⟩
      exact ⟨hset.dead, hset.exchange⟩
  | close _ =>
      refine ⟨fun _ => rfl, fun k y hy => ⟨_, ?_, y.later_closeSlot c y.id k⟩⟩
      simp [tearDown, hy]

/-! ## What they return -/

def Exchange.Ends (x : Exchange) (ending : Ending) : Prop :=
  x.phase = .leaving ending ∨ x.phase = .done ending

/-- A message that was received is on its way to the exchange with its id, and to no other. -/
structure Replied (kind : TransportKind) (received : Message → Prop) (c : Connection) : Prop where
  owner : ∀ id k, c.map id = some k → ∃ x, c.exchanges k = some x ∧ x.id = id
  holding : ∀ k msg, c.reader = .holding k msg →
    received msg ∧ ∃ x, c.exchanges k = some x ∧ x.id = msg.metadata.id
  delivered : ∀ k x msg, c.exchanges k = some x → x.slot = .delivered msg →
    received msg ∧ msg.metadata.id = x.id
  accepted : ∀ k x msg, c.exchanges k = some x → x.Ends (some (.ok msg)) →
    ∃ reply, received reply ∧ reply.metadata.id = x.id ∧ acceptReply kind x.query reply = .ok msg

variable {kind : TransportKind} {received : Message → Prop} {c c' : Connection}

theorem Replied.init : Replied kind received {} where
  owner := fun _ _ h => by cases h
  holding := fun _ _ h => by cases h
  delivered := fun _ _ _ h => by cases h
  accepted := fun _ _ _ h => by cases h

theorem Replied.mono {received' : Message → Prop} (h : Replied kind received c)
    (hmono : ∀ msg, received msg → received' msg) : Replied kind received' c where
  owner := h.owner
  holding k msg hholding := (h.holding k msg hholding).imp_left (hmono msg)
  delivered k x msg hx hslot := (h.delivered k x msg hx hslot).imp_left (hmono msg)
  accepted k x msg hx hends := by
    obtain ⟨reply, hreceived, hreply⟩ := h.accepted k x msg hx hends
    exact ⟨reply, hmono reply hreceived, hreply⟩

/-- What becomes of an exchange in one step. -/
structure Exchange.Becomes (kind : TransportKind) (c : Connection) (k : Nat) (x x' : Exchange) :
    Prop where
  query : x'.query = x.query
  id : x'.id = x.id
  slot : ∀ msg, x'.slot = .delivered msg →
    x.slot = .delivered msg ∨ c.reader = .holding k msg
  ends : ∀ msg, x'.Ends (some (.ok msg)) → x.Ends (some (.ok msg)) ∨
    ∃ reply, x.slot = .delivered reply ∧ acceptReply kind x.query reply = .ok msg

theorem Exchange.Becomes.refl (kind : TransportKind) (c : Connection) (k : Nat) (x : Exchange) :
    x.Becomes kind c k x :=
  ⟨rfl, rfl, fun _ => .inl, fun _ => .inl⟩

theorem Exchange.becomes_closeSlot (kind : TransportKind) (c : Connection) (id : UInt16) (k : Nat)
    (x : Exchange) : x.Becomes kind c k (c.closeSlot id k x) := by
  obtain ⟨hid, hphase⟩ := closeSlot_frame c id k x
  refine ⟨(x.later_closeSlot c id k).query, hid, fun msg hslot => ?_, fun msg hends => ?_⟩
  · unfold Connection.closeSlot at hslot
    split at hslot
    · cases hslot
    · exact .inl hslot
  · simp only [Ends, hphase] at hends
    exact .inl hends

theorem Exchange.becomes_setPhase {k : Nat} {x : Exchange} {phase : Phase}
    (hends : ∀ msg, ({ x with phase := phase } : Exchange).Ends (some (.ok msg)) →
      x.Ends (some (.ok msg)) ∨
        ∃ reply, x.slot = .delivered reply ∧ acceptReply kind x.query reply = .ok msg) :
    x.Becomes kind c k { x with phase := phase } :=
  ⟨rfl, rfl, fun _ => .inl, hends⟩

theorem Replied.update (h : Replied kind received c) (hlater : c.Later c')
    (hmap : ∀ id k, c'.map id = some k →
      c.map id = some k ∨ ∃ x, c.exchanges k = some x ∧ x.id = id)
    (hreader : ∀ k msg, c'.reader = .holding k msg →
      c.reader = .holding k msg ∨ received msg ∧ c.map msg.metadata.id = some k)
    (hfrom : ∀ k x', c'.exchanges k = some x' →
      (∃ x, c.exchanges k = some x ∧ x.Becomes kind c k x') ∨
        x'.slot = .empty ∧ ∀ msg, ¬ x'.Ends (some (.ok msg))) :
    Replied kind received c' where
  owner id k hentry := by
    have hown : ∃ x, c.exchanges k = some x ∧ x.id = id := by
      rcases hmap id k hentry with hentry | hown
      · exact h.owner id k hentry
      · exact hown
    obtain ⟨x, hx, rfl⟩ := hown
    obtain ⟨x', hx', hxx'⟩ := hlater.exchange k x hx
    exact ⟨x', hx', hxx'.id⟩
  holding k msg hholding := by
    have hown : received msg ∧ ∃ x, c.exchanges k = some x ∧ x.id = msg.metadata.id := by
      rcases hreader k msg hholding with hholding | ⟨hreceived, hentry⟩
      · exact h.holding k msg hholding
      · exact ⟨hreceived, h.owner _ k hentry⟩
    obtain ⟨hreceived, x, hx, hid⟩ := hown
    obtain ⟨x', hx', hxx'⟩ := hlater.exchange k x hx
    exact ⟨hreceived, x', hx', hxx'.id.trans hid⟩
  delivered k x' msg hx' hslot := by
    rcases hfrom k x' hx' with ⟨x, hx, hbecomes⟩ | ⟨hempty, -⟩
    · rw [hbecomes.id]
      rcases hbecomes.slot msg hslot with hslot | hholding
      · exact h.delivered k x msg hx hslot
      · obtain ⟨hreceived, y, hy, hid⟩ := h.holding k msg hholding
        rw [hx] at hy
        cases hy
        exact ⟨hreceived, hid.symm⟩
    · rw [hempty] at hslot
      cases hslot
  accepted k x' msg hx' hends := by
    rcases hfrom k x' hx' with ⟨x, hx, hbecomes⟩ | ⟨-, hnot⟩
    · rw [hbecomes.id, hbecomes.query]
      rcases hbecomes.ends msg hends with hends | ⟨reply, hslot, hreply⟩
      · exact h.accepted k x msg hx hends
      · obtain ⟨hreceived, hid⟩ := h.delivered k x reply hx hslot
        exact ⟨reply, hreceived, hid, hreply⟩
    · exact absurd hends (hnot msg)

theorem becomes_of_setExchange {k : Nat} {x x' : Exchange} (hx : c.exchanges k = some x)
    (hbecomes : x.Becomes kind c k x') {j : Nat} {y' : Exchange}
    (hy' : (c.setExchange k x').exchanges j = some y') :
    ∃ y, c.exchanges j = some y ∧ y.Becomes kind c j y' := by
  rcases setExchange_cases hy' with ⟨rfl, rfl⟩ | ⟨-, hy'⟩
  · exact ⟨x, hx, hbecomes⟩
  · exact ⟨y', hy', .refl kind c j y'⟩

/-- A step that changes the phase of one exchange, and perhaps its entry. -/
theorem Replied.advance (h : Replied kind received c) (hlater : c.Later c') {k : Nat}
    {x : Exchange} {phase : Phase} (hx : c.exchanges k = some x)
    (hends : ∀ msg, ({ x with phase := phase } : Exchange).Ends (some (.ok msg)) →
      x.Ends (some (.ok msg)) ∨
        ∃ reply, x.slot = .delivered reply ∧ acceptReply kind x.query reply = .ok msg)
    (hc' : c' = c.setPhase k x phase ∨
      ∃ entry, (entry = none ∨ entry = some k) ∧
        c' = (c.replaceEntry x.id entry).setPhase k x phase) :
    Replied kind received c' := by
  rcases hc' with rfl | ⟨entry, hentry, rfl⟩
  · exact h.update hlater (fun _ _ => .inl) (fun _ _ => .inl)
      fun j y' hy' => .inl (becomes_of_setExchange hx (Exchange.becomes_setPhase hends) hy')
  · refine h.update hlater (fun id j hj => ?_) (fun _ _ => .inl) fun j y' hy' => .inl ?_
    · change Function.update c.map x.id entry id = some j at hj
      rw [Function.update_apply] at hj
      split at hj
      · rename_i hid
        rcases hentry with rfl | rfl <;> cases hj
        exact .inr ⟨x, hx, hid.symm⟩
      · exact .inl hj
    · rcases setExchange_cases hy' with ⟨rfl, rfl⟩ | ⟨-, hy'⟩
      · exact ⟨x, hx, Exchange.becomes_setPhase hends⟩
      · obtain ⟨y, hy, rfl⟩ := replaceEntry_cases hy'
        exact ⟨y, hy, y.becomes_closeSlot kind c x.id j⟩

theorem not_ends {x : Exchange} {phase : Phase} {msg : Message}
    (hphase : ∀ ending, phase = .leaving ending ∨ phase = .done ending →
      ending ≠ some (.ok msg)) :
    ¬ ({ x with phase := phase } : Exchange).Ends (some (.ok msg)) :=
  fun hends => hphase _ hends rfl

theorem Replied.receive (h : Replied kind received c) (input : Input)
    (hlater : c.Later (c.receive kind input))
    (hinput : ∀ msg, input = .message msg → received msg) :
    Replied kind received (c.receive kind input) := by
  have hsame : ∀ k x', c.exchanges k = some x' →
      (∃ x, c.exchanges k = some x ∧ x.Becomes kind c k x') ∨
        x'.slot = .empty ∧ ∀ msg, ¬ x'.Ends (some (.ok msg)) :=
    fun k x' hx' => .inl ⟨x', hx', .refl kind c k x'⟩
  revert hlater
  cases input with
  | message msg =>
      simp only [Connection.receive]
      split
      · rename_i k hk
        intro hlater
        refine h.update hlater (fun id j hj => .inl ?_) (fun j m hholding => .inr ?_) hsame
        · dsimp only at hj
          rw [Function.update_apply] at hj
          split at hj
          · cases hj
          · exact hj
        · cases hholding
          exact ⟨hinput msg rfl, hk⟩
      · exact fun _ => h
  | malformed =>
      simp only [Connection.receive]
      split
      · exact fun _ => h
      · exact fun hlater => h.update hlater (fun _ _ => .inl) (fun _ _ hr => by cases hr) hsame
  | error =>
      exact fun hlater => h.update hlater (fun _ _ => .inl) (fun _ _ hr => by cases hr) hsame
  | idle =>
      simp only [Connection.receive]
      split
      · split
        · exact fun hlater => h.update hlater (fun _ _ => .inl) (fun _ _ hr => by cases hr) hsame
        · exact fun _ => h
      · exact fun hlater => h.update hlater (fun _ _ => .inl) (fun _ _ hr => by cases hr) hsame

theorem Replied.step {a : Action} (h : Replied kind received c) (hnumbered : Numbered c)
    (hreceived : ∀ msg, a = .recv (.message msg) → received msg)
    (hstep : step kind c a = some c') : Replied kind received c' := by
  have hlater := Connection.later_of_moves hnumbered (moves_of_step hstep)
  cases a with
  | start query encodeError =>
      cases hstep
      refine h.update hlater (fun _ _ => .inl) (fun _ _ => .inl) fun j y' hy' => ?_
      rcases setExchange_cases hy' with ⟨rfl, rfl⟩ | ⟨-, hy'⟩
      · refine .inr ⟨rfl, fun msg hends => ?_⟩
        cases encodeError <;> simp [Exchange.Ends] at hends
      · exact .inl ⟨y', hy', .refl kind c j y'⟩
  | register k =>
      obtain ⟨x, hx, hstep⟩ := Option.bind_eq_some_iff.mp hstep
      split at hstep
      · split at hstep <;> cases hstep
        · exact h.advance hlater hx (fun msg hends => absurd hends (not_ends (by simp)))
            (.inl rfl)
        · exact h.advance hlater hx (fun msg hends => absurd hends (not_ends (by simp)))
            (.inr ⟨some k, .inr rfl, rfl⟩)
      · cases hstep
  | send k error =>
      obtain ⟨x, hx, hstep⟩ := Option.bind_eq_some_iff.mp hstep
      split at hstep <;> cases hstep
      · exact h.advance hlater hx (fun msg hends => absurd hends (not_ends (by simp))) (.inl rfl)
      · exact h.advance hlater hx (fun msg hends => absurd hends (not_ends (by simp))) (.inl rfl)
  | poll k =>
      obtain ⟨x, hx, hstep⟩ := Option.bind_eq_some_iff.mp hstep
      split at hstep <;> cases hstep
      · rename_i reply _ hslot
        refine h.advance hlater hx (fun msg hends => .inr ⟨reply, hslot, ?_⟩) (.inl rfl)
        simpa [Exchange.Ends] using hends
      · exact h.advance hlater hx (fun msg hends => absurd hends (not_ends (by simp))) (.inl rfl)
  | cancel k =>
      obtain ⟨x, hx, hstep⟩ := Option.bind_eq_some_iff.mp hstep
      split at hstep <;> cases hstep
      · exact h.advance hlater hx (fun msg hends => absurd hends (not_ends (by simp))) (.inl rfl)
      · exact h.advance hlater hx (fun msg hends => absurd hends (not_ends (by simp))) (.inl rfl)
  | release k =>
      obtain ⟨x, hx, hstep⟩ := Option.bind_eq_some_iff.mp hstep
      split at hstep <;> cases hstep
      rename_i ending hleaving
      refine h.advance hlater hx (fun msg hends => .inl ?_) (.inr ⟨none, .inl rfl, rfl⟩)
      simp only [Exchange.Ends, Phase.done.injEq, reduceCtorEq, false_or] at hends
      exact .inl (hends ▸ hleaving)
  | recv input =>
      simp only [Demux.step] at hstep
      split at hstep <;> cases hstep
      exact h.receive input hlater fun msg hinput => hreceived msg (hinput ▸ rfl)
  | deliver =>
      simp only [Demux.step] at hstep
      split at hstep
      · rename_i k msg hholding
        obtain ⟨x, hx, rfl⟩ := Option.map_eq_some_iff.mp hstep
        refine h.update hlater (fun _ _ => .inl) (fun _ _ hr => by cases hr) fun j y' hy' => .inl ?_
        refine @becomes_of_setExchange kind c k x { x with slot := .delivered msg } hx ?_ j y' hy'
        refine ⟨rfl, rfl, fun m hslot => .inr ?_, fun m hends => .inl hends⟩
        cases hslot
        exact hholding
      · cases hstep
  | close =>
      simp only [Demux.step] at hstep
      split at hstep <;> cases hstep
      refine h.update hlater (fun _ _ hentry => by cases hentry) (fun _ _ hr => by cases hr)
        fun j y' hy' => .inl ?_
      obtain ⟨y, hy, rfl⟩ := Option.map_eq_some_iff.mp hy'
      exact ⟨y, hy, y.becomes_closeSlot kind c y.id j⟩

theorem exchange_of_start {query : Message} {encodeError : Option UpstreamError}
    (hstep : Demux.step kind c (.start query encodeError) = some c') :
    ∃ x, c'.exchanges c.started = some x ∧ x.query = query := by
  cases hstep
  exact ⟨_, Function.update_self .., rfl⟩

def receivedIn (as : List Action) (msg : Message) : Prop := .recv (.message msg) ∈ as

/-- What an exchange returns was received under its id and matches its query. -/
theorem replied_of_run {as : List Action} (hrun : runFrom (step kind) {} as = some c) :
    Replied kind (receivedIn as) c := by
  refine runFrom_induction (H := fun as c => Replied kind (receivedIn as) c) Replied.init
    (fun bs u a v hu _ hstep h => ?_) (eachStep_trivial _ _) hrun
  have hmore : Replied kind (receivedIn (bs ++ [a])) u :=
    h.mono fun msg hmsg => List.mem_append_left _ hmsg
  exact hmore.step (numbered_of_run hu) (fun msg ha => by simp [receivedIn, ha]) hstep

end Bulwark.Upstream.Demux
