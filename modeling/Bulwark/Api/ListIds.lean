import Bulwark.Foundation.Runs
import Bulwark.Api.Requests

/-!
# The ids of filter lists

Entries of the query log keep the id of the list whose rule matched.  An id is one more
than the largest id of the lists there are, so an id comes back when the list with the
largest id is deleted, and the one after the largest number is the id of the custom rules.
-/

namespace Bulwark.Api

open Bulwark.Foundation Bulwark.Filter

structure ListHistory where
  config : Config
  seen : List UInt32

/-- Requests that succeed, with the stored texts the rule counts are taken from. -/
inductive ListAction where
  | add (body : NewList) (stamp : Stamp) (text : UInt32 → Text)
  | delete (id : UInt32) (stamp : Stamp) (text : UInt32 → Text)

def ListAction.request : ListAction → Request
  | .add body _ _ => .addList body
  | .delete id _ _ => .deleteList id

def ListAction.stamp : ListAction → Stamp
  | .add _ stamp _ | .delete _ stamp _ => stamp

def ListAction.text : ListAction → UInt32 → Text
  | .add _ _ text | .delete _ _ text => text

def ListAction.idsAfter (cfg : Config) : ListAction → List UInt32
  | .add _ _ _ => cfg.listIds ++ [cfg.nextListId]
  | .delete id _ _ => cfg.listIds.filter (· ≠ id)

def listStep (ext : External) (s : ListHistory) (a : ListAction) : Option ListHistory :=
  match a.request.edit a.stamp s.config with
  | .ok (some cfg) =>
      let config := cfg.derived ext a.text
      some ⟨config, s.seen ++ config.listIds⟩
  | _ => none

def ListHistory.start (cfg : Config) : ListHistory := ⟨cfg, cfg.listIds⟩

/-- The list with the largest id stays, and it is not the last id there is. -/
def KeepsLargest (s : ListHistory) : ListAction → Prop
  | .add _ _ _ => ∀ id ∈ s.config.listIds, id.toNat + 1 < 2 ^ 32
  | .delete id _ _ => ∃ other ∈ s.config.listIds, id < other

/-- An id at least as large as any there has been is in use. -/
def LargestInUse (s : ListHistory) : Prop :=
  ∀ id ∈ s.seen, ∃ other ∈ s.config.listIds, id ≤ other

/-! ## One request -/

section

variable {ext : External} {s t : ListHistory}

theorem listIds_add (cfg : Config) (body : NewList) (stamp : Stamp) {cfg' : Config}
    (h : (Request.addList body).edit stamp cfg = .ok (some cfg')) :
    cfg'.listIds = cfg.listIds ++ [cfg.nextListId] := by
  cases h
  exact List.map_append

theorem listIds_delete (cfg : Config) (id : UInt32) (stamp : Stamp) {cfg' : Config}
    (h : (Request.deleteList id).edit stamp cfg = .ok (some cfg')) :
    cfg'.listIds = cfg.listIds.filter (· ≠ id) := by
  rw [Request.edit] at h
  split at h
  · cases h
  · cases h
    change (cfg.filtering.lists.filter (·.id ≠ id)).map (·.id) =
      (cfg.filtering.lists.map (·.id)).filter (· ≠ id)
    rw [List.filter_map]
    rfl

theorem listStep_ids {a : ListAction} (h : listStep ext s a = some t) :
    t.seen = s.seen ++ t.config.listIds ∧ t.config.listIds = a.idsAfter s.config := by
  rw [listStep] at h
  split at h
  · rename_i cfg hedit
    cases h
    refine ⟨rfl, ?_⟩
    rw [Config.listIds_derived]
    cases a with
    | add body stamp text => exact listIds_add s.config body stamp hedit
    | delete id stamp text => exact listIds_delete s.config id stamp hedit
  · cases h

theorem LargestInUse.start (cfg : Config) : LargestInUse (.start cfg) :=
  fun id hid => ⟨id, hid, UInt32.le_refl id⟩

theorem LargestInUse.step {a : ListAction} (hs : LargestInUse s) (ha : KeepsLargest s a)
    (h : listStep ext s a = some t) : LargestInUse t := by
  obtain ⟨hseen, hids⟩ := listStep_ids h
  intro id hid
  rw [hseen, List.mem_append] at hid
  rcases hid with hid | hid
  · obtain ⟨other, hother, hle⟩ := hs id hid
    cases a with
    | add body stamp text =>
        exact ⟨other, hids ▸ List.mem_append_left _ hother, hle⟩
    | delete gone stamp text =>
        rw [hids]
        by_cases hgone : other = gone
        · obtain ⟨larger, hlarger, hlt⟩ := ha
          subst hgone
          refine ⟨larger, List.mem_filter.mpr ⟨hlarger, ?_⟩,
            UInt32.le_of_lt (UInt32.lt_of_le_of_lt hle hlt)⟩
          simpa using (UInt32.ne_of_lt hlt).symm
        · exact ⟨other, List.mem_filter.mpr ⟨hother, by simpa using hgone⟩, hle⟩
  · exact ⟨id, hid, UInt32.le_refl id⟩

theorem nextListId_spec {cfg : Config} (hroom : ∀ id ∈ cfg.listIds, id.toNat + 1 < 2 ^ 32) :
    cfg.nextListId ≠ 0 ∧ ∀ id ∈ cfg.listIds, id < cfg.nextListId := by
  rw [Config.nextListId]
  cases hmax : (cfg.listIds.map UInt32.toNat).max? with
  | none =>
      have hnil : cfg.listIds = [] := by simpa using List.max?_eq_none_iff.mp hmax
      rw [hnil]
      exact ⟨by decide, fun id hid => by cases hid⟩
  | some m =>
      obtain ⟨hmem, hle⟩ := List.max?_eq_some_iff.mp hmax
      obtain ⟨largest, hlargest, rfl⟩ := List.mem_map.mp hmem
      have htoNat : (UInt32.ofNat (largest.toNat + 1)).toNat = largest.toNat + 1 := by
        rw [UInt32.toNat_ofNat', Nat.mod_eq_of_lt (hroom largest hlargest)]
      refine ⟨fun h => ?_, fun id hid => ?_⟩
      · simp only [h] at htoNat
        cases htoNat
      · rw [UInt32.lt_iff_toNat_lt, htoNat]
        exact Nat.lt_succ_of_le (hle _ (List.mem_map_of_mem hid))

end

theorem nextListId_le {cfg : Config} {top : UInt32} (hpos : top ≠ 0)
    (htop : ∀ id ∈ cfg.listIds, id < top) : cfg.nextListId.toNat ≤ top.toNat := by
  rw [Config.nextListId]
  cases hmax : (cfg.listIds.map UInt32.toNat).max? with
  | none =>
      have hne : top.toNat ≠ 0 := fun h => hpos (UInt32.toNat_inj.mp h)
      change 1 ≤ top.toNat
      omega
  | some m =>
      obtain ⟨hmem, -⟩ := List.max?_eq_some_iff.mp hmax
      obtain ⟨largest, hlargest, rfl⟩ := List.mem_map.mp hmem
      have hlt := UInt32.lt_iff_toNat_lt.mp (htop largest hlargest)
      have hfits := top.toNat_lt
      rw [UInt32.toNat_ofNat', Nat.mod_eq_of_lt (by omega)]
      exact hlt

/-! ## Runs -/

/-- While the list with the largest id stays, every new id is new. -/
theorem nextListId_fresh {ext : External} {cfg : Config} {actions : List ListAction}
    {s : ListHistory} (body : NewList) (stamp : Stamp) (text : UInt32 → Text)
    (hkeeps : EachStep (listStep ext) KeepsLargest (.start cfg) (actions ++ [.add body stamp text]))
    (hrun : runFrom (listStep ext) (.start cfg) actions = some s) :
    s.config.nextListId ≠ 0 ∧ s.config.nextListId ∉ s.seen := by
  have hlargest : LargestInUse s :=
    runFrom_invariant (fun _ _ _ ha hstep hs => LargestInUse.step hs ha hstep)
      (LargestInUse.start cfg) (eachStep_append hkeeps) hrun
  obtain ⟨hzero, hnext⟩ := nextListId_spec (eachStep_last hkeeps hrun)
  refine ⟨hzero, fun hseen => ?_⟩
  obtain ⟨other, hother, hle⟩ := hlargest _ hseen
  exact absurd (hnext other hother) (UInt32.not_lt.mpr hle)

/-- Where the list with the largest id is gone, enough new lists bring its id back. -/
theorem deleted_id_returns (ext : External) (body : NewList) (stamp : Stamp)
    (text : UInt32 → Text) {top : UInt32} (hpos : top ≠ 0) {s : ListHistory}
    (htop : ∀ id ∈ s.config.listIds, id < top) :
    ∃ n t, runFrom (listStep ext) s (List.replicate n (.add body stamp text)) = some t ∧
      t.config.nextListId = top := by
  -- the distance to the id shrinks with every list
  obtain ⟨d, hd⟩ : ∃ d, top.toNat - s.config.nextListId.toNat = d := ⟨_, rfl⟩
  induction d using Nat.strong_induction_on generalizing s with
  | _ d ih =>
      have hle := nextListId_le hpos htop
      have hfits := top.toNat_lt
      by_cases hnext : s.config.nextListId = top
      · exact ⟨0, s, rfl, hnext⟩
      · have hlt : s.config.nextListId.toNat < top.toNat := by
          have hne : s.config.nextListId.toNat ≠ top.toNat :=
            fun h => hnext (UInt32.toNat_inj.mp h)
          omega
        obtain ⟨t, ht⟩ : ∃ t, listStep ext s (.add body stamp text) = some t := ⟨_, rfl⟩
        obtain ⟨-, hids⟩ := listStep_ids ht
        have hroom : ∀ id ∈ s.config.listIds, id.toNat + 1 < 2 ^ 32 := by
          intro id hid
          have hid' := UInt32.lt_iff_toNat_lt.mp (htop id hid)
          omega
        have htop' : ∀ id ∈ t.config.listIds, id < top := by
          intro id hid
          rw [hids] at hid
          rcases List.mem_append.mp hid with hid | hid
          · exact htop id hid
          · rw [List.mem_singleton.mp hid]
            exact UInt32.lt_iff_toNat_lt.mpr hlt
        have hmem : s.config.nextListId ∈ t.config.listIds := by
          rw [hids]
          exact List.mem_append_right _ List.mem_cons_self
        have hgrows : s.config.nextListId < t.config.nextListId := by
          refine (nextListId_spec fun id hid => ?_).2 _ hmem
          have hid' := UInt32.lt_iff_toNat_lt.mp (htop' id hid)
          omega
        rw [UInt32.lt_iff_toNat_lt] at hgrows
        obtain ⟨n, u, hrun, hu⟩ := ih _ (by omega) htop' rfl
        refine ⟨n + 1, u, ?_, hu⟩
        rw [List.replicate_succ, runFrom, ht]
        exact hrun

/-! ## Concrete configurations -/

def oneList : NewList := ⟨['n'], none, true, none⟩

def noTexts (_ : UInt32) : Text := []

theorem nextListId_fresh_afterDelete :
    ∃ s, runFrom (listStep referenceExternal) (.start (configWith [1, 4]))
        [.delete 1 stamp noTexts] = some s ∧
      s.config.nextListId ≠ 0 ∧ s.config.nextListId ∉ s.seen := by
  obtain ⟨s, hrun⟩ : ∃ s, runFrom (listStep referenceExternal) (.start (configWith [1, 4]))
      [.delete 1 stamp noTexts] = some s := ⟨_, rfl⟩
  have hkeeps : EachStep (listStep referenceExternal) KeepsLargest (.start (configWith [1, 4]))
      ([.delete 1 stamp noTexts] ++ [.add oneList stamp noTexts]) := by
    refine ⟨⟨4, by decide, by decide⟩, fun t ht => ⟨?_, fun _ _ => trivial⟩⟩
    obtain ⟨-, hids⟩ := listStep_ids ht
    have hleft : t.config.listIds = [4] := hids.trans (by decide)
    intro id hid
    rw [hleft, List.mem_singleton] at hid
    rw [hid]
    decide
  exact ⟨s, hrun, nextListId_fresh oneList stamp noTexts hkeeps hrun⟩

/-- The id of a deleted list goes to the next one, and after the last id comes that of the
custom rules. -/
theorem nextListId_returns :
    (∃ s, runFrom (listStep referenceExternal) (.start (configWith [1]))
        [.delete 1 stamp noTexts] = some s ∧
      1 ∈ s.seen ∧ s.config.nextListId = 1) ∧
    (configWith [4294967295]).nextListId = 0 := by
  exact ⟨⟨_, rfl, by decide, by decide⟩, by decide⟩

end Bulwark.Api
