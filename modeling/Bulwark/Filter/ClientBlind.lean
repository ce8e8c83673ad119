import Bulwark.Filter.Engine

/-!
# Rules that look at the client

The engine notes while it is built whether any rule has a `$client` or `$ctag` modifier.
Where none has one, a check has the same result for every client.
-/

namespace Bulwark.Filter

open Bulwark.Foundation

/-! ## The flag -/

private theorem addPattern_mods (env : BuildEnv) (b : Builder) (id : Nat) (override : Bool)
    (br : BuildRule) :
    (b.addPattern env id override br).1.mods = b.mods ∧
      (b.addPattern env id override br).1.hasClientDependentRules =
        b.hasClientDependentRules := by
  rw [Builder.addPattern]
  split
  · exact ⟨rfl, rfl⟩
  · exact ⟨rfl, rfl⟩
  all_goals
    dsimp only
    rw [Builder.addScan]
    dsimp only
    split <;> exact ⟨rfl, rfl⟩

/-- The flag tells whether any of the modifiers looks at the client. -/
def Builder.Flagged (b : Builder) : Prop :=
  b.hasClientDependentRules = b.mods.any isClientDependent

theorem Builder.Flagged.addRule {b : Builder} (h : b.Flagged) (env : BuildEnv) (br : BuildRule) :
    (b.addRule env br).Flagged := by
  have hmods : ∀ (b : Builder) (mods : Option RuleMods), b.Flagged →
      (b.addMods mods).1.Flagged := by
    intro b mods hb
    cases mods with
    | none => exact hb
    | some m =>
        change (b.hasClientDependentRules || isClientDependent m) =
          (b.mods ++ [m]).any isClientDependent
        rw [List.any_append, ← hb, List.any_cons, List.any_nil, Bool.or_false]
  have hpattern : ∀ (b : Builder) (id : Nat) (override : Bool), b.Flagged →
      (b.addPattern env id override br).1.Flagged := by
    intro b id override hb
    obtain ⟨hm, hf⟩ := addPattern_mods env b id override br
    rw [Builder.Flagged, hm, hf]
    exact hb
  exact hpattern _ _ _ (hmods _ _ h)

theorem Builder.flagged_ofRules (env : BuildEnv) (rules : List BuildRule) :
    (Builder.ofRules env rules).Flagged := by
  have hfold : ∀ b : Builder, b.Flagged → (rules.foldl (Builder.addRule env) b).Flagged := by
    induction rules with
    | nil => exact fun b hb => hb
    | cons br rules ih => exact fun b hb => ih _ (hb.addRule env br)
  exact hfold {} rfl

theorem hasClientDependentRules_fromRules {env : BuildEnv} {rx : RegexEngine}
    {rules : List BuildRule} {e : FilterEngine} (h : fromRules env rx rules = some e) :
    e.hasClientDependentRules = e.mods.any isClientDependent := by
  simp only [fromRules, Option.bind_eq_bind, Option.bind_eq_some_iff, Option.some.injEq] at h
  obtain ⟨_, -, _, -, rfl⟩ := h
  exact Builder.flagged_ofRules env rules

/-! ## Checks without the client -/

theorem modsApply_client {m : RuleMods} (h : isClientDependent m = false) (action : Action)
    (domain rtype : Text) (client client' : ClientInfo) :
    modsApply action (some m) domain rtype client =
      modsApply action (some m) domain rtype client' := by
  rw [isClientDependent, Bool.or_eq_false_iff, Option.isSome_eq_false_iff,
    Option.isSome_eq_false_iff, Option.isNone_iff_eq_none, Option.isNone_iff_eq_none] at h
  simp only [modsApply, h.1, h.2, Option.all_none]

namespace FilterEngine

variable {e : FilterEngine}

theorem applicable_client (h : e.mods.any isClientDependent = false) (r : RuleRecord)
    (domain rtype : Text) (client client' : ClientInfo) :
    e.applicable r domain rtype client = e.applicable r domain rtype client' := by
  rw [applicable, applicable, modsOf]
  split
  · rfl
  · cases hm : e.mods[r.modsIdx]? with
    | none => rfl
    | some m =>
        have hmem := List.mem_of_getElem? hm
        have hblind : isClientDependent m = false := by
          simpa using List.any_eq_false.mp h m hmem
        simp only [Option.map_some, modsApply_client hblind _ _ _ client client']

theorem consider_client (h : e.mods.any isClientDependent = false) (domain rtype : Text)
    (client client' : ClientInfo) (ids : List Nat) (best : Best) :
    e.consider domain rtype client ids best = e.consider domain rtype client' ids best := by
  induction ids generalizing best with
  | nil => rfl
  | cons id ids ih =>
      have hone : e.considerOne domain rtype client best id =
          e.considerOne domain rtype client' best id := by
        simp only [considerOne, applicable_client h _ domain rtype client client']
      rw [consider, consider, hone]
      cases e.considerOne domain rtype client' best id with
      | none => rfl
      | some best => exact ih best

theorem check_client (h : e.mods.any isClientDependent = false) (rx : RegexEngine)
    (domain rtype : Text) (client client' : ClientInfo) :
    e.check rx domain rtype client = e.check rx domain rtype client' := by
  have hbest : e.bestId rx (normalizeQuery domain) rtype client =
      e.bestId rx (normalizeQuery domain) rtype client' := by
    simp only [bestId, consider_client h _ rtype client client']
  rw [check, check, hbest]

end FilterEngine

structure LiveFilter (rx : RegexEngine) where
  engine : FilterEngine
  built : ∃ env rules, fromRules env rx rules = some engine

namespace LiveFilter

variable {rx : RegexEngine} (f : LiveFilter rx)

def check (domain rtype : Text) (client : ClientInfo) : Option Verdict :=
  f.engine.check rx domain rtype client

def hasClientDependentRules : Bool := f.engine.hasClientDependentRules

def contentHash : Nat := f.engine.contentHash

theorem check_client (h : f.hasClientDependentRules = false) (domain rtype : Text)
    (client client' : ClientInfo) : f.check domain rtype client = f.check domain rtype client' := by
  obtain ⟨env, rules, hbuilt⟩ := f.built
  apply FilterEngine.check_client
  rw [← hasClientDependentRules_fromRules hbuilt]
  exact h

end LiveFilter

end Bulwark.Filter
