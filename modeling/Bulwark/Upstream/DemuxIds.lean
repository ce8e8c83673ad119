import Bulwark.Upstream.Demux

/-!
# Exchanges on one connection

Ids come from a 16-bit counter that goes round.  As long as no exchange gets the id of one
whose guard is still there, exchanges do not disturb each other; when one does, it takes
the entry of the other one, or loses its own to it.
-/

namespace Bulwark.Upstream.Demux

open Bulwark.Foundation Bulwark.Dns

/-! ## Exchanges do not disturb each other -/

/-- No exchange registers under an id that the guard of another one holds. -/
def FreshId (c : Connection) : Action → Prop
  | .register k => ∀ x j y, c.exchanges k = some x → c.exchanges j = some y → j ≠ k →
      y.Guarded → y.id ≠ x.id
  | _ => True

/-- An entry is its own exchange's, and no sender is lost while the connection is alive. -/
structure Separate (c : Connection) : Prop where
  unstarted : ∀ k, c.started ≤ k → c.exchanges k = none
  owner : ∀ id k, c.map id = some k → ∃ x, c.exchanges k = some x ∧ x.id = id ∧ x.Guarded
  distinct : ∀ j k x y, c.exchanges j = some x → c.exchanges k = some y → j ≠ k →
    x.Guarded → y.Guarded → x.id ≠ y.id
  sender : c.dead = false → ∀ k x, c.exchanges k = some x → x.Open → x.slot ≠ .closed

theorem Separate.init : Separate {} where
  unstarted := fun _ _ => rfl
  owner := fun id k h => by cases h
  distinct := fun j k x y h => by cases h
  sender := fun _ k x h => by cases h

theorem Separate.owner_self {c : Connection} (hc : Separate c) {k : Nat} {x : Exchange}
    {id : UInt16} (hx : c.exchanges k = some x) (hentry : c.map id = some k) :
    x.id = id ∧ x.Guarded := by
  obtain ⟨w, hw, hid, hguarded⟩ := hc.owner id k hentry
  rw [hx] at hw
  cases hw
  exact ⟨hid, hguarded⟩

/-- A step of one exchange that leaves the other exchanges and their entries alone. -/
theorem Separate.update {c c' : Connection} {k : Nat} {x x' : Exchange} (hc : Separate c)
    (hx : c.exchanges k = some x) (hothers : ∀ j, j ≠ k → c'.exchanges j = c.exchanges j)
    (hx' : c'.exchanges k = some x') (hid : x'.id = x.id) (hstarted : c'.started = c.started)
    (hmap : ∀ id j, c'.map id = some j →
      j ≠ k ∧ c.map id = some j ∨ j = k ∧ id = x.id ∧ x'.Guarded)
    (hfree : x'.Guarded → ∀ j y, j ≠ k → c.exchanges j = some y → y.Guarded → y.id ≠ x.id)
    (hlive : c'.dead = false → c.dead = false ∧ (x'.Open → x'.slot ≠ .closed)) :
    Separate c' where
  unstarted := by
    intro j hj
    rw [hstarted] at hj
    have hne : j ≠ k := by
      rintro rfl
      rw [hc.unstarted j hj] at hx
      cases hx
    rw [hothers j hne]
    exact hc.unstarted j hj
  owner := by
    intro id j hentry
    rcases hmap id j hentry with ⟨hne, hentry⟩ | ⟨rfl, rfl, hguarded⟩
    · rw [hothers j hne]
      exact hc.owner id j hentry
    · exact ⟨x', hx', hid, hguarded⟩
  distinct := by
    intro i j y z hy hz hne hyg hzg
    by_cases hi : i = k
    · subst hi
      rw [hx'] at hy
      cases hy
      rw [hothers j (Ne.symm hne)] at hz
      rw [hid]
      exact (hfree hyg j z (Ne.symm hne) hz hzg).symm
    · rw [hothers i hi] at hy
      by_cases hj : j = k
      · subst hj
        rw [hx'] at hz
        cases hz
        rw [hid]
        exact hfree hzg i y hi hy hyg
      · rw [hothers j hj] at hz
        exact hc.distinct i j y z hy hz hne hyg hzg
  sender := by
    intro hdead j y hy hopen
    obtain ⟨hdead, hself⟩ := hlive hdead
    by_cases hj : j = k
    · subst hj
      rw [hx'] at hy
      cases hy
      exact hself hopen
    · rw [hothers j hj] at hy
      exact hc.sender hdead j y hy hopen

theorem Separate.shrink {c c' : Connection} (hc : Separate c)
    (hexchanges : c'.exchanges = c.exchanges) (hstarted : c'.started = c.started)
    (hmap : ∀ id k, c'.map id = some k → c.map id = some k)
    (hlive : c'.dead = false → c.dead = false) : Separate c' where
  unstarted := by
    rw [hexchanges, hstarted]
    exact hc.unstarted
  owner := by
    rw [hexchanges]
    exact fun id k hentry => hc.owner id k (hmap id k hentry)
  distinct := by
    rw [hexchanges]
    exact hc.distinct
  sender := by
    rw [hexchanges]
    exact fun hdead => hc.sender (hlive hdead)

/-- Where the entry of an id is nobody else's, replacing it disturbs nobody else. -/
theorem replaceEntry_others {c : Connection} {id : UInt16} {k : Nat}
    (hown : ∀ j, j ≠ k → c.map id ≠ some j) (entry : Option Nat) {j : Nat} (hj : j ≠ k) :
    (c.replaceEntry id entry).exchanges j = c.exchanges j := by
  change (c.exchanges j).map (c.closeSlot id j) = c.exchanges j
  cases c.exchanges j with
  | none => rfl
  | some x => rw [Option.map_some, Connection.closeSlot, if_neg (hown j hj)]

theorem Separate.entry_of_guarded {c : Connection} (hc : Separate c) {k : Nat} {x : Exchange}
    (hfree : ∀ j y, j ≠ k → c.exchanges j = some y → y.Guarded → y.id ≠ x.id) :
    ∀ j, j ≠ k → c.map x.id ≠ some j := by
  intro j hj hentry
  obtain ⟨y, hy, hid, hguarded⟩ := hc.owner x.id j hentry
  exact hfree j y hj hy hguarded hid

theorem not_guarded_of_over {x : Exchange} {ending : Ending}
    (hphase : x.phase = .claimed ∨ x.phase = .done ending) : ¬ x.Guarded := by
  rintro (hsend | hawait | ⟨ending', hleaving⟩)
  · simp [hsend] at hphase
  · simp [hawait] at hphase
  · simp [hleaving] at hphase

theorem Separate.setExchange {c : Connection} (hc : Separate c) {k : Nat} {x x' : Exchange}
    (hx : c.exchanges k = some x) (hid : x'.id = x.id) (hkept : x.Guarded ↔ x'.Guarded)
    (hlive : c.dead = false → x'.Open → x'.slot ≠ .closed) : Separate (c.setExchange k x') := by
  refine hc.update hx (fun j hj => Function.update_of_ne hj _ _) (Function.update_self ..) hid rfl
    (fun id j hentry => ?_) (fun hguarded j y hj hy hyg => ?_) fun hdead => ⟨hdead, hlive hdead⟩
  · by_cases hj : j = k
    · subst hj
      obtain ⟨hid, hguarded⟩ := hc.owner_self hx hentry
      exact .inr ⟨rfl, hid.symm, hkept.mp hguarded⟩
    · exact .inl ⟨hj, hentry⟩
  · exact hc.distinct j k y x hy hx hj hyg (hkept.mpr hguarded)

theorem Separate.start {c : Connection} (hc : Separate c) {x : Exchange} (hover : ¬ x.Guarded)
    (hslot : x.slot = .empty) :
    Separate { c.setExchange c.started x with
      nextId := c.nextId + 1
      started := c.started + 1 } := by
  have hnone := hc.unstarted c.started le_rfl
  refine ⟨fun j hj => ?_, fun id j hentry => ?_, fun i j y z hy hz hne hyg hzg => ?_,
    fun hdead j y hy hopen => ?_⟩
  · have hne : j ≠ c.started := by
      change c.started + 1 ≤ j at hj
      omega
    exact (Function.update_of_ne hne _ _).trans (hc.unstarted j (Nat.le_of_succ_le hj))
  · obtain ⟨y, hy, hid, hguarded⟩ := hc.owner id j hentry
    have hne : j ≠ c.started := by
      rintro rfl
      rw [hnone] at hy
      cases hy
    exact ⟨y, (Function.update_of_ne hne _ _).trans hy, hid, hguarded⟩
  · rcases setExchange_cases hy with ⟨-, rfl⟩ | ⟨-, hy⟩
    · exact absurd hyg hover
    · rcases setExchange_cases hz with ⟨-, rfl⟩ | ⟨-, hz⟩
      · exact absurd hzg hover
      · exact hc.distinct i j y z hy hz hne hyg hzg
  · rcases setExchange_cases hy with ⟨-, rfl⟩ | ⟨-, hy⟩
    · rw [hslot]
      exact fun h => by cases h
    · exact hc.sender hdead j y hy hopen

theorem Separate.register {c : Connection} (hc : Separate c) {k : Nat} {x : Exchange}
    (hx : c.exchanges k = some x) (hclaimed : x.phase = .claimed)
    (hfree : ∀ j y, j ≠ k → c.exchanges j = some y → y.Guarded → y.id ≠ x.id) :
    Separate ((c.replaceEntry x.id (some k)).setPhase k x .sending) := by
  have hself : ¬ x.Guarded := @not_guarded_of_over x none (.inl hclaimed)
  refine hc.update hx (fun j hj => ?_) (Function.update_self ..) rfl rfl (fun id j hentry => ?_)
    (fun _ => hfree) fun hdead => ⟨hdead, fun _ => ?_⟩
  · exact (Function.update_of_ne hj _ _).trans
      (replaceEntry_others (hc.entry_of_guarded hfree) _ hj)
  · rcases update_eq_some.mp hentry with ⟨hid, rfl⟩ | ⟨-, hkept⟩
    · exact .inr ⟨rfl, hid, .inl rfl⟩
    · refine .inl ⟨?_, hkept⟩
      rintro rfl
      exact hself (hc.owner_self hx hkept).2
  · exact hc.sender hdead k x hx (.inl hclaimed)

theorem Separate.release {c : Connection} (hc : Separate c) {k : Nat} {x : Exchange}
    {ending : Ending} (hx : c.exchanges k = some x) (hguarded : x.Guarded) :
    Separate ((c.replaceEntry x.id none).setPhase k x (.done ending)) := by
  have hfree : ∀ j y, j ≠ k → c.exchanges j = some y → y.Guarded → y.id ≠ x.id :=
    fun j y hj hy hyg => hc.distinct j k y x hy hx hj hyg hguarded
  refine hc.update hx (fun j hj => ?_) (Function.update_self ..) rfl rfl (fun id j hentry => ?_)
    (fun _ => hfree) fun hdead => ⟨hdead, fun h => ?_⟩
  · exact (Function.update_of_ne hj _ _).trans
      (replaceEntry_others (hc.entry_of_guarded hfree) _ hj)
  · change Function.update c.map x.id none id = some j at hentry
    rw [Function.update_apply] at hentry
    split at hentry
    · cases hentry
    · rename_i hne
      refine .inl ⟨?_, hentry⟩
      rintro rfl
      exact hne (hc.owner_self hx hentry).1.symm
  · rcases h with h | h | h <;> cases h

theorem Separate.tearDown {c : Connection} (hc : Separate c) : Separate c.tearDown := by
  refine ⟨fun j hj => ?_, fun id j hentry => ?_, fun i j y z hy hz hne hyg hzg => ?_,
    fun hdead => ?_⟩
  · change (c.exchanges j).map _ = none
    rw [hc.unstarted j hj]
    rfl
  · cases hentry
  · obtain ⟨v, hv, rfl⟩ := Option.map_eq_some_iff.mp hy
    obtain ⟨w, hw, rfl⟩ := Option.map_eq_some_iff.mp hz
    obtain ⟨hvid, hvphase⟩ := closeSlot_frame c v.id i v
    obtain ⟨hwid, hwphase⟩ := closeSlot_frame c w.id j w
    rw [hvid, hwid]
    rw [Exchange.Guarded, hvphase] at hyg
    rw [Exchange.Guarded, hwphase] at hzg
    exact hc.distinct i j v w hv hw hne hyg hzg
  · cases hdead

theorem Separate.moves {c c' : Connection} {a : Action} (hc : Separate c) (hfresh : FreshId c a)
    (h : Moves c a c') : Separate c' := by
  cases h with
  | @start query encodeError x hphase hslot _ =>
      refine hc.start ?_ hslot
      rcases hphase with hclaimed | ⟨ending, hdone⟩
      · exact @not_guarded_of_over x none (.inl hclaimed)
      · exact not_guarded_of_over (.inr hdone)
  | @refuse k x ending hx hclaimed hdead =>
      refine hc.setExchange hx rfl ?_ fun hlive => ?_
      · exact iff_of_false (@not_guarded_of_over x none (.inl hclaimed))
          (not_guarded_of_over (.inr rfl))
      · simp [hdead] at hlive
  | @register k x hx hclaimed hlive =>
      exact hc.register hx hclaimed fun j y hj hy hguarded => hfresh x j y hx hy hj hguarded
  | @advance k x phase a hx hbefore hafter =>
      refine hc.setExchange hx rfl (iff_of_true (hbefore.imp_right .inl) (.inr hafter))
        fun hdead _ => ?_
      exact hc.sender hdead k x hx (.inr hbefore)
  | @release k x ending hx hleaving => exact hc.release hx (.inr (.inr ⟨ending, hleaving⟩))
  | take hreading hk =>
      refine hc.shrink rfl rfl (fun id k hentry => ?_) fun h => h
      change Function.update c.map _ none id = some k at hentry
      rw [Function.update_apply] at hentry
      split at hentry
      · cases hentry
      · exact hentry
  | ignore => exact hc
  | breakLoop _ => exact hc.shrink rfl rfl (fun _ _ h => h) fun h => h
  | idle _ _ => exact hc.shrink rfl rfl (fun _ _ h => h) fun h => by cases h
  | @deliver k msg x hholding hx =>
      have hdelivered : Separate (c.setExchange k { x with slot := .delivered msg }) :=
        hc.setExchange hx rfl Iff.rfl fun _ _ h => by cases h
      exact hdelivered.shrink rfl rfl (fun _ _ h => h) fun h => h
  | close _ => exact hc.tearDown

theorem separate_of_run {kind : TransportKind} {actions : List Action} {c : Connection}
    (hfresh : EachStep (step kind) FreshId {} actions)
    (hrun : runFrom (step kind) {} actions = some c) : Separate c :=
  runFrom_invariant (fun _ _ _ hfresh hstep hc => hc.moves hfresh (moves_of_step hstep)) .init
    hfresh hrun

/-- An entry leaves the map for a reply or with its own exchange. -/
theorem Separate.entry_kept {c c' : Connection} {a : Action} (hc : Separate c)
    (hfresh : FreshId c a) (h : Moves c a c') (hlive : c'.dead = false) {k : Nat} {id : UInt16}
    (hentry : c.map id = some k) :
    c'.map id = some k ∨ (∃ msg, a = .recv (.message msg) ∧ msg.metadata.id = id) ∨
      a = .release k := by
  cases h with
  | start _ _ _ => exact .inl hentry
  | refuse _ _ _ => exact .inl hentry
  | @register j x hx hclaimed _ =>
      have hne : id ≠ x.id := by
        rintro rfl
        obtain ⟨y, hy, hid, hguarded⟩ := hc.owner x.id k hentry
        by_cases hk : k = j
        · subst hk
          exact @not_guarded_of_over x none (.inl hclaimed) (hc.owner_self hx hentry).2
        · exact hfresh x k y hx hy hk hguarded hid
      exact .inl ((Function.update_of_ne hne _ _).trans hentry)
  | advance _ _ _ => exact .inl hentry
  | @release j x ending hx hleaving =>
      by_cases hk : k = j
      · exact .inr (.inr (by rw [hk]))
      · refine .inl ((Function.update_of_ne ?_ _ _).trans hentry)
        rintro rfl
        obtain ⟨y, hy, hid, hguarded⟩ := hc.owner x.id k hentry
        exact hc.distinct k j y x hy hx hk hguarded (.inr (.inr ⟨ending, hleaving⟩)) hid
  | @take msg j _ _ =>
      by_cases hid : msg.metadata.id = id
      · exact .inr (.inl ⟨msg, rfl, hid⟩)
      · exact .inl ((Function.update_of_ne (Ne.symm hid) _ _).trans hentry)
  | ignore => exact .inl hentry
  | breakLoop _ => exact .inl hentry
  | idle _ _ => cases hlive
  | deliver _ _ => exact .inl hentry
  | close _ => cases hlive

/-- While no id is given out twice, exchanges end by their own replies and their own ends. -/
theorem exchanges_undisturbed (kind : TransportKind) {actions : List Action} {a : Action}
    {c c' : Connection} (hfresh : EachStep (step kind) FreshId {} (actions ++ [a]))
    (hrun : runFrom (step kind) {} actions = some c) (hstep : step kind c a = some c')
    (hlive : c'.dead = false) :
    (∀ k id, c.map id = some k → c'.map id = some k ∨
      (∃ msg, a = .recv (.message msg) ∧ msg.metadata.id = id) ∨ a = .release k) ∧
    ∀ k x, c'.exchanges k = some x → x.phase = .sending ∨ x.phase = .awaiting →
      x.slot ≠ .closed := by
  have hc := separate_of_run (eachStep_append hfresh) hrun
  have ha := eachStep_last hfresh hrun
  have hmoves := moves_of_step hstep
  refine ⟨fun k id hentry => hc.entry_kept ha hmoves hlive hentry, fun k x hx hphase => ?_⟩
  exact (hc.moves ha hmoves).sender hlive k x hx (.inr hphase)

/-! ## Ids are numbers -/

/-- The id of an exchange is its number, as far as 16 bits go. -/
structure Numbered (c : Connection) : Prop where
  nextId : c.nextId = .ofNat c.started
  number : ∀ k x, c.exchanges k = some x → k < c.started ∧ x.id = .ofNat k

theorem Numbered.init : Numbered {} := ⟨rfl, fun k x h => by cases h⟩

theorem Numbered.setExchange {c : Connection} (hc : Numbered c) {k : Nat} {x y : Exchange}
    (hx : c.exchanges k = some x) (hid : y.id = x.id) : Numbered (c.setExchange k y) := by
  refine ⟨hc.nextId, fun j z hz => ?_⟩
  rcases setExchange_cases hz with ⟨rfl, rfl⟩ | ⟨-, hz⟩
  · rw [hid]
    exact hc.number _ x hx
  · exact hc.number j z hz

theorem Numbered.closeSlots {c c' : Connection} (hc : Numbered c) (hnext : c'.nextId = c.nextId)
    (hstarted : c'.started = c.started) {id : Exchange → UInt16}
    (hexchanges : ∀ k, c'.exchanges k = (c.exchanges k).map fun x => c.closeSlot (id x) k x) :
    Numbered c' := by
  refine ⟨by rw [hnext, hstarted]; exact hc.nextId, fun k y hy => ?_⟩
  rw [hexchanges] at hy
  obtain ⟨x, hx, rfl⟩ := Option.map_eq_some_iff.mp hy
  rw [hstarted, (closeSlot_frame c (id x) k x).1]
  exact hc.number k x hx

theorem Numbered.moves {c c' : Connection} {a : Action} (hc : Numbered c) (h : Moves c a c') :
    Numbered c' := by
  cases h with
  | @start query encodeError x _ _ hid =>
      refine ⟨?_, fun j y hy => ?_⟩
      · change c.nextId + 1 = .ofNat (c.started + 1)
        rw [hc.nextId]
        exact (UInt16.ofNat_add c.started 1).symm
      · change j < c.started + 1 ∧ _
        rcases setExchange_cases hy with ⟨rfl, rfl⟩ | ⟨-, hy⟩
        · exact ⟨Nat.lt_succ_self _, hid.trans hc.nextId⟩
        · obtain ⟨hlt, hyid⟩ := hc.number j y hy
          exact ⟨Nat.lt_succ_of_lt hlt, hyid⟩
  | refuse hx _ _ => exact hc.setExchange hx rfl
  | @register k x hx _ _ =>
      have hclosed : Numbered (c.replaceEntry x.id (some k)) :=
        @Numbered.closeSlots c _ hc rfl rfl (fun _ => x.id) fun _ => rfl
      exact hclosed.setExchange (congrArg (Option.map (c.closeSlot x.id k)) hx)
        (closeSlot_frame c x.id k x).1.symm
  | advance hx _ _ => exact hc.setExchange hx rfl
  | @release k x ending hx _ =>
      have hclosed : Numbered (c.replaceEntry x.id none) :=
        @Numbered.closeSlots c _ hc rfl rfl (fun _ => x.id) fun _ => rfl
      exact hclosed.setExchange (congrArg (Option.map (c.closeSlot x.id k)) hx)
        (closeSlot_frame c x.id k x).1.symm
  | take _ _ => exact ⟨hc.nextId, hc.number⟩
  | ignore => exact hc
  | breakLoop _ => exact ⟨hc.nextId, hc.number⟩
  | idle _ _ => exact ⟨hc.nextId, hc.number⟩
  | @deliver k msg x _ hx =>
      have hset : Numbered (c.setExchange k { x with slot := .delivered msg }) :=
        hc.setExchange hx rfl
      exact ⟨hset.nextId, hset.number⟩
  | close _ => exact @Numbered.closeSlots c _ hc rfl rfl (fun x => x.id) fun _ => rfl

theorem numbered_of_run {kind : TransportKind} {actions : List Action} {c : Connection}
    (hrun : runFrom (step kind) {} actions = some c) : Numbered c :=
  runFrom_invariant (fun _ _ _ _ hstep hc => hc.moves (moves_of_step hstep)) .init
    (eachStep_trivial _ _) hrun

/-- Exchanges with fewer than 65536 starts between them have different ids. -/
theorem freshId_of_near {kind : TransportKind} {actions : List Action} {c : Connection} {k : Nat}
    (hrun : runFrom (step kind) {} actions = some c)
    (hnear : ∀ j y, k < c.started → c.exchanges j = some y → y.Guarded →
      j < k + 2 ^ 16 ∧ k < j + 2 ^ 16) :
    FreshId c (.register k) := by
  have hc := numbered_of_run hrun
  intro x j y hx hy hne hguarded heq
  obtain ⟨hk, hxid⟩ := hc.number k x hx
  obtain ⟨hlow, hhigh⟩ := hnear j y hk hy hguarded
  rw [hxid, (hc.number j y hy).2, ← UInt16.toNat_inj, UInt16.toNat_ofNat',
    UInt16.toNat_ofNat'] at heq
  omega

theorem started_le {kind : TransportKind} {actions : List Action} {c : Connection}
    (hrun : runFrom (step kind) {} actions = some c) : c.started ≤ actions.length := by
  refine runFrom_induction (H := fun actions c => c.started ≤ actions.length) le_rfl
    (fun actions c a c' _ _ hstep hle => ?_) (eachStep_trivial _ _) hrun
  rw [List.length_append, List.length_singleton]
  cases moves_of_step hstep with
  | start _ _ _ => exact Nat.succ_le_succ hle
  | _ => exact Nat.le_succ_of_le hle

theorem eachStep_freshId_of_short (kind : TransportKind) {actions : List Action}
    (hshort : actions.length ≤ 2 ^ 16) : EachStep (step kind) FreshId {} actions := by
  refine eachStep_of_visited fun front a back c heq hrun => ?_
  have hstarted := started_le hrun
  have hlength : front.length ≤ actions.length := by
    rw [heq, List.length_append]
    omega
  cases a with
  | register k =>
      refine freshId_of_near hrun fun j y hk hy _ => ?_
      have hj := ((numbered_of_run hrun).number j y hy).1
      omega
  | _ => trivial

def twoAtOnce : List Action :=
  [.start query none, .register 0, .start query none, .register 1, .send 1 none, .cancel 0]

theorem exchanges_undisturbed_twoAtOnce :
    ∃ c c', runFrom (step .udp) {} twoAtOnce = some c ∧ step .udp c (.release 0) = some c' ∧
      c'.map 1 = some 1 := by
  have hrun : ∃ c c', runFrom (step .udp) {} twoAtOnce = some c ∧
      step .udp c (.release 0) = some c' ∧ c'.dead = false ∧ c.map 1 = some 1 :=
    ⟨_, _, rfl, rfl, rfl, rfl⟩
  obtain ⟨c, c', hrun, hstep, hlive, hentry⟩ := hrun
  have hfresh : EachStep (step .udp) FreshId {} (twoAtOnce ++ [.release 0]) :=
    eachStep_freshId_of_short .udp (by decide)
  have hkept := (exchanges_undisturbed .udp hfresh hrun hstep hlive).1 1 1 hentry
  refine ⟨c, c', hrun, hstep, hkept.resolve_right ?_⟩
  rintro (⟨msg, h, -⟩ | h) <;> cases h

/-! ## Ids that come round again -/

def quick (k : Nat) : List Action :=
  [.start query none, .register k, .send k none,
    .recv (.message (query.withId (.ofNat k))), .deliver, .poll k, .release k]

def slow : Exchange := { query, id := 0, phase := .awaiting }

structure Busy (n : Nat) (c : Connection) : Prop where
  nextId : c.nextId = .ofNat n
  started : c.started = n
  dead : c.dead = false
  reader : c.reader = .reading
  exchange : c.exchanges 0 = some slow
  entry : c.map 0 = some 0
  others : ∀ id, id ≠ 0 → c.map id = none

theorem quick_busy (kind : TransportKind) {n : Nat} {c : Connection} (hc : Busy n c)
    (hn : UInt16.ofNat n ≠ 0) :
    ∃ c', runFrom (step kind) c (quick n) = some c' ∧ Busy (n + 1) c' := by
  obtain ⟨hid, hstarted, hdead, hreader, hslow, hentry, hothers⟩ := hc
  have hzero : 0 ≠ n := by
    rintro rfl
    exact hn rfl
  have hnone := hothers _ hn
  have hreply : (query.withId (.ofNat n)).metadata.id = .ofNat n := rfl
  simp only [quick, runFrom, step, Connection.setExchange, Connection.setPhase,
    Connection.receive, Connection.replaceEntry, hid, hstarted, hdead, hreader, hreply,
    Function.update_self, Option.bind_some, Option.map_some, if_false, Bool.false_eq_true]
  refine ⟨_, rfl, ?_⟩
  constructor
  · exact (UInt16.ofNat_add n 1).symm
  · rfl
  · rfl
  · rfl
  · simp [Connection.closeSlot, hzero, hslow, hnone]
  · simp [Ne.symm hn, hentry]
  · intro id hid
    simp only [Function.update_apply]
    split
    · rfl
    · exact hothers id hid

theorem ofNat_ne_zero {n : Nat} (hpos : 0 < n) (hn : n < 2 ^ 16) : UInt16.ofNat n ≠ 0 := by
  intro h
  have hnat := congrArg UInt16.toNat h
  rw [UInt16.toNat_ofNat', Nat.mod_eq_of_lt hn] at hnat
  exact absurd hnat (Nat.ne_of_gt hpos)

def quicks (m : Nat) : List Action := (List.range m).flatMap fun i => quick (i + 1)

theorem quicks_busy (kind : TransportKind) {c : Connection} (hc : Busy 1 c) {m : Nat}
    (hm : m < 2 ^ 16) :
    ∃ c', runFrom (step kind) c (quicks m) = some c' ∧ Busy (m + 1) c' := by
  induction m with
  | zero => exact ⟨c, rfl, hc⟩
  | succ m ih =>
      obtain ⟨c₁, hrun, hbusy⟩ := ih (Nat.lt_of_succ_lt hm)
      obtain ⟨c₂, hrun', hbusy'⟩ := quick_busy kind hbusy (ofNat_ne_zero (Nat.succ_pos m) hm)
      refine ⟨c₂, ?_, hbusy'⟩
      rw [quicks, List.range_succ, List.flatMap_append, runFrom_append, ← quicks, hrun]
      simpa using hrun'

/-- An exchange that gets the id of the one that waits takes its entry from it. -/
theorem register_of_busy (kind : TransportKind) {n : Nat} {c : Connection} (hc : Busy n c)
    (hzero : 0 ≠ n) (hid : UInt16.ofNat n = 0) :
    ∃ c₁ c₂ x, step kind c (.start query none) = some c₁ ∧
      step kind c₁ (.register n) = some c₂ ∧ c₂.dead = false ∧
      c₁.map 0 = some 0 ∧ c₂.map 0 = some n ∧
      c₂.exchanges 0 = some x ∧ x.phase = .awaiting ∧ x.slot = .closed := by
  obtain ⟨hnext, hstarted, hdead, hreader, hslow, hentry, hothers⟩ := hc
  let fresh : Exchange := { query, id := 0 }
  let c₁ : Connection := { c.setExchange n fresh with nextId := 1, started := n + 1 }
  have hstart : step kind c (.start query none) = some c₁ := by
    rw [step, hnext, hid, hstarted]
    rfl
  have hregister : step kind c₁ (.register n) =
      some ((c₁.replaceEntry 0 (some n)).setPhase n fresh .sending) := by
    have hfresh : c₁.exchanges n = some fresh := Function.update_self ..
    have hlive : c₁.dead = false := hdead
    rw [step, hfresh, Option.bind_some, hlive]
    rfl
  refine ⟨c₁, _, { slow with slot := .closed }, hstart, hregister, hdead, hentry, rfl, ?_, rfl, rfl⟩
  have hkept : c₁.exchanges 0 = some slow := (Function.update_of_ne hzero _ _).trans hslow
  have hlost : c₁.closeSlot 0 0 slow = { slow with slot := .closed } := if_pos hentry
  refine (Function.update_of_ne hzero _ _).trans ?_
  change (c₁.exchanges 0).map (c₁.closeSlot 0 0) = _
  rw [hkept, Option.map_some, hlost]

def wholeTurn : List Action :=
  [.start query none, .register 0, .send 0 none] ++ quicks (2 ^ 16 - 1) ++ [.start query none]

/-- The next exchange gets the id of the one that waits, and takes its entry from it. -/
theorem register_takes_entry :
    ∃ c c' x, runFrom (step .udp) {} wholeTurn = some c ∧
      step .udp c (.register (2 ^ 16)) = some c' ∧ c'.dead = false ∧
      c.map 0 = some 0 ∧ c'.map 0 = some (2 ^ 16) ∧
      c'.exchanges 0 = some x ∧ x.phase = .awaiting ∧ x.slot = .closed := by
  obtain ⟨c₀, hc₀, hbusy₀⟩ : ∃ c₀, runFrom (step .udp) {}
      [.start query none, .register 0, .send 0 none] = some c₀ ∧ Busy 1 c₀ := by
    refine ⟨_, rfl, ?_⟩
    constructor
    · rfl
    · rfl
    · rfl
    · rfl
    · rfl
    · rfl
    · intro id hid
      simp [Connection.setPhase, Connection.setExchange, Connection.replaceEntry, hid]
  obtain ⟨c₁, hc₁, hbusy₁⟩ := quicks_busy .udp hbusy₀ (show 2 ^ 16 - 1 < 2 ^ 16 by omega)
  obtain ⟨c, c', x, hstart, hregister, hrest⟩ :=
    register_of_busy .udp hbusy₁ (by omega) (by decide)
  refine ⟨c, c', x, ?_, hregister, hrest⟩
  rw [wholeTurn, runFrom_append, runFrom_append, hc₀, Option.bind_some, hc₁, Option.bind_some,
    runFrom, hstart]
  rfl

end Bulwark.Upstream.Demux
