import Mathlib.Data.Prod.Lex
import Mathlib.Data.Rat.Floor
import Bulwark.Foundation.Selection
import Bulwark.Upstream.Health

/-!
# The order of the upstreams

`UpstreamPool::ordered`: a sort by the key of each upstream, after which the leader of the
last call may keep the lead.  An upstream is its index in the pool.
-/

namespace Bulwark.Upstream

/-! ## Keys -/

/-- `round() as u64` -/
def roundMillis (m : ℚ) : Nat := min ⌊m + 1 / 2⌋₊ (2 ^ 64 - 1)

namespace Health

/-- Clean sampled, probationary, unsampled, then down upstreams. -/
def sortKey (h : Health) : Bool ×ₗ Bool ×ₗ Bool ×ₗ Nat :=
  let est := h.routingLatencyMs
  toLex (!h.up, toLex (est.isNone, toLex (decide (0 < h.consecutiveFailures),
    roundMillis (est.elim 0 (·.val)))))

/-- The latency of a healthy, sampled upstream without recent failures. -/
def routingLatencyIfEligible (h : Health) : Option Millis :=
  if h.up && h.consecutiveFailures = 0 then h.routingLatencyMs else none

end Health

def switchMargin (incumbentMs : ℚ) : ℚ := max (incumbentMs * (15 / 100)) 5

/-! ## The order -/

/-- `sort_by_key` is stable. -/
def sorted (count : Nat) (healths : Nat → Health) : List Nat :=
  (List.range count).mergeSort fun a b => (healths a).sortKey ≤ (healths b).sortKey

/-- The leader of the last call keeps the lead over an upstream that is hardly faster. -/
def holdLead (v : List Nat) (leader : Option Nat) (healths : Nat → Health) : List Nat × Bool :=
  let latency (u : Nat) := (healths u).routingLatencyIfEligible
  match leader with
  | none => (v, false)
  | some cur =>
      match v.idxOf? cur with
      | none => (v, false)
      | some pos =>
          if pos = 0 then (v, false)
          else
            match v[pos]?.bind latency, v[0]?.bind latency with
            | some inc, some best =>
                if inc.val - best.val ≤ switchMargin inc.val then (cur :: v.eraseIdx pos, true)
                else (v, false)
            | _, _ => (v, false)

structure Ordered where
  list : List Nat
  leader : Option Nat
  healths : Nat → Health

def writeRanks (held : Bool) (ranked : List (Nat × Nat)) (healths : Nat → Health) : Nat → Health :=
  ranked.foldl (fun healths ui => Function.update healths ui.1 ((healths ui.1).rank ui.2 held))
    healths

def ordered (count : Nat) (leader : Option Nat) (healths : Nat → Health) : Ordered :=
  let v := sorted count healths
  let (v, held) := holdLead v leader healths
  ⟨v, v.head?, writeRanks held v.zipIdx healths⟩

/-! ## Classes -/

inductive Tier where
  | clean
  | probation
  | unsampled
  | down
  deriving DecidableEq, Repr

def Tier.position : Tier → Nat
  | .clean => 0
  | .probation => 1
  | .unsampled => 2
  | .down => 3

namespace Health

def tier (h : Health) : Tier :=
  if !h.up then .down
  else if h.routingLatencyMs.isNone then .unsampled
  else if 0 < h.consecutiveFailures then .probation
  else .clean

/-- A better class, or the same one and, with samples, no slower. -/
def Precedes (h h' : Health) : Prop :=
  h.tier.position < h'.tier.position ∨ h.tier = h'.tier ∧
    ∀ m m', h.tier ≠ .down → h.routingLatencyMs = some m → h'.routingLatencyMs = some m' →
      roundMillis m.val ≤ roundMillis m'.val

theorem precedes_of_sortKey_le {h h' : Health} (hle : h.sortKey ≤ h'.sortKey) : h.Precedes h' := by
  simp only [sortKey, Prod.Lex.toLex_le_toLex, Bool.lt_iff] at hle
  rw [Precedes, tier, tier]
  rcases hle with ⟨hup, hdown⟩ | ⟨hup, hle⟩
  · left
    rw [if_neg (by simp [hup]), if_pos hdown]
    split_ifs <;> decide
  · cases hh : h.up with
    | false =>
        have hh' : h'.up = false := by simpa [hh] using hup.symm
        simp [hh']
    | true =>
        have hh' : h'.up = true := by simpa [hh] using hup.symm
        simp only [hh', Bool.not_true, Bool.false_eq_true, if_false]
        rcases hle with ⟨hsampled, hunsampled⟩ | ⟨hest, hle⟩
        · left
          rw [if_neg (by simp [hsampled]), if_pos hunsampled]
          split_ifs <;> decide
        · cases hm : h.routingLatencyMs with
          | none =>
              have hm' : h'.routingLatencyMs = none := by simpa [hm] using hest.symm
              simp [hm']
          | some m =>
              obtain ⟨m', hm'⟩ : ∃ m', h'.routingLatencyMs = some m' := by
                rw [← Option.isSome_iff_exists, ← Option.isNone_eq_false_iff, ← hest, hm]
                rfl
              rw [hm, hm'] at hle
              simp only [hm', Option.isNone_some, Bool.false_eq_true, if_false]
              rcases hle with ⟨hclean, hrecent⟩ | ⟨hrecent, hle⟩
              · left
                rw [if_neg (by simpa using hclean), if_pos (by simpa using hrecent)]
                decide
              · right
                have hsame : 0 < h.consecutiveFailures ↔ 0 < h'.consecutiveFailures := by
                  simpa using hrecent
                refine ⟨by simp only [hsame], ?_⟩
                rintro _ _ - ⟨rfl⟩ ⟨rfl⟩
                exact hle

theorem eligible_iff_tier (h : Health) :
    (∃ m, h.routingLatencyIfEligible = some m) ↔ h.tier = .clean := by
  simp only [routingLatencyIfEligible, tier]
  have hzero : h.consecutiveFailures = 0 ↔ ¬ 0 < h.consecutiveFailures := by
    rw [UInt32.lt_iff_toNat_lt, ← UInt32.toNat_inj]
    change _ = 0 ↔ ¬ 0 < _
    omega
  cases hup : h.up <;> cases hest : h.routingLatencyMs <;>
    by_cases hf : 0 < h.consecutiveFailures <;> simp_all

theorem Precedes.clean {h h' : Health} (hle : h.Precedes h') (hclean : h'.tier = .clean) :
    h.tier = .clean := by
  rcases hle with hlt | ⟨heq, -⟩
  · rw [hclean] at hlt
    exact absurd hlt (Nat.not_lt_zero _)
  · rw [heq, hclean]

theorem routingLatency_of_eligible {h : Health} {m : Millis}
    (hm : h.routingLatencyIfEligible = some m) :
    h.tier = .clean ∧ h.routingLatencyMs = some m := by
  refine ⟨h.eligible_iff_tier.mp ⟨m, hm⟩, ?_⟩
  rw [routingLatencyIfEligible] at hm
  split at hm
  · exact hm
  · cases hm

end Health

/-! ## Rounding -/

theorem roundMillis_bounds (m : Millis) :
    (roundMillis m.val : ℚ) ≤ m.val + 1 / 2 ∧ m.val < roundMillis m.val + 1 / 2 := by
  have hpos : (0 : ℚ) ≤ m.val + 1 / 2 := by linarith [m.nonneg]
  have hle : (⌊m.val + 1 / 2⌋₊ : ℚ) ≤ m.val + 1 / 2 := Nat.floor_le hpos
  have hlt : m.val + 1 / 2 < ⌊m.val + 1 / 2⌋₊ + 1 := Nat.lt_floor_add_one _
  -- the cast to 64 bits does not saturate
  have hfit : ⌊m.val + 1 / 2⌋₊ ≤ 2 ^ 64 - 1 := by
    have hmax := m.le_max
    rw [maxMillis] at hmax
    have hbound : m.val + 1 / 2 < ((2 ^ 64 - 1 : Nat) : ℚ) + 1 := by
      push_cast
      linarith
    have := (Nat.floor_lt hpos).mpr (by exact_mod_cast hbound : m.val + 1 / 2 < (2 ^ 64 : Nat))
    omega
  rw [roundMillis, min_eq_left hfit]
  exact ⟨hle, by linarith⟩

theorem sub_lt_one_of_roundMillis_le {m m' : Millis}
    (hle : roundMillis m.val ≤ roundMillis m'.val) : m.val - m'.val < 1 := by
  have hcast : (roundMillis m.val : ℚ) ≤ roundMillis m'.val := by exact_mod_cast hle
  linarith [(roundMillis_bounds m).2, (roundMillis_bounds m').1]

/-! ## The sort -/

section

variable {count : Nat} {leader : Option Nat} {healths : Nat → Health}

theorem sorted_perm : (sorted count healths).Perm (List.range count) := List.mergeSort_perm _ _

theorem sorted_pairwise :
    (sorted count healths).Pairwise fun a b => (healths a).Precedes (healths b) := by
  have hsorted : (sorted count healths).Pairwise fun a b =>
      (healths a).sortKey ≤ (healths b).sortKey :=
    Foundation.pairwise_mergeSort_key (fun u => (healths u).sortKey) _
  exact hsorted.imp Health.precedes_of_sortKey_le

/-- A clean upstream means a clean one in front, less than a millisecond behind any. -/
theorem sorted_head {u : Nat} (hu : u < count) (hclean : (healths u).tier = .clean) :
    ∃ best rest, sorted count healths = best :: rest ∧ (healths best).tier = .clean ∧
      ∀ w m m', w < count → (healths best).routingLatencyMs = some m →
        (healths w).routingLatencyIfEligible = some m' → m.val - m'.val < 1 := by
  have hmem : ∀ {w}, w < count → w ∈ sorted count healths :=
    fun hw => sorted_perm.mem_iff.mpr (List.mem_range.mpr hw)
  cases hsorted : sorted count healths with
  | nil =>
      have := hmem hu
      rw [hsorted] at this
      cases this
  | cons best rest =>
      have hpair := @sorted_pairwise count healths
      rw [hsorted, List.pairwise_cons] at hpair
      have hfirst : ∀ {w}, w < count → w ≠ best → (healths best).Precedes (healths w) := by
        intro w hw hne
        have hin := hmem hw
        rw [hsorted] at hin
        exact hpair.1 w ((List.mem_cons.mp hin).resolve_left hne)
      have hbest : (healths best).tier = .clean := by
        by_cases hub : u = best
        · rw [← hub]
          exact hclean
        · exact (hfirst hu hub).clean hclean
      refine ⟨best, rest, rfl, hbest, fun w m m' hw hm hm' => ?_⟩
      obtain ⟨hwclean, hwm⟩ := Health.routingLatency_of_eligible hm'
      by_cases hwb : w = best
      · subst hwb
        rw [hwm] at hm
        cases hm
        linarith
      · rcases hfirst hw hwb with hlt | ⟨-, hle⟩
        · rw [hwclean] at hlt
          exact absurd hlt (Nat.not_lt_zero _)
        · exact sub_lt_one_of_roundMillis_le (hle m m' (by rw [hbest]; decide) hm hwm)

/-! ## The held lead -/

/-- Either nothing moves, or an eligible upstream within the margin of the first one does. -/
theorem holdLead_cases (v : List Nat) (leader : Option Nat) (healths : Nat → Health) :
    holdLead v leader healths = (v, false) ∨
    ∃ cur pos inc best first, leader = some cur ∧ v[pos]? = some cur ∧ v[0]? = some first ∧
      (healths cur).routingLatencyIfEligible = some inc ∧
      (healths first).routingLatencyIfEligible = some best ∧
      inc.val - best.val ≤ switchMargin inc.val ∧
      holdLead v leader healths = (cur :: v.eraseIdx pos, true) := by
  cases leader with
  | none => exact .inl rfl
  | some cur =>
      rw [holdLead]
      cases hpos : v.idxOf? cur with
      | none => exact .inl rfl
      | some pos =>
          have hcur : v[pos]? = some cur := by
            rw [List.idxOf?, List.findIdx?_eq_some_iff_getElem] at hpos
            obtain ⟨hlt, heq, -⟩ := hpos
            rw [List.getElem?_eq_getElem hlt]
            exact congrArg some (by simpa using heq)
          simp only [hcur, Option.bind_some]
          by_cases hzero : pos = 0
          · simp [hzero]
          · rw [if_neg hzero]
            cases hinc : (healths cur).routingLatencyIfEligible with
            | none => exact .inl rfl
            | some inc =>
                cases hfirst : v[0]? with
                | none => exact .inl rfl
                | some first =>
                    simp only [Option.bind_some]
                    cases hbest : (healths first).routingLatencyIfEligible with
                    | none => exact .inl rfl
                    | some best =>
                        simp only
                        by_cases hmargin : inc.val - best.val ≤ switchMargin inc.val
                        · exact .inr ⟨cur, pos, inc, best, first, rfl, hcur, rfl, hinc, hbest,
                            hmargin, by rw [if_pos hmargin]⟩
                        · exact .inl (by rw [if_neg hmargin])

theorem holdLead_perm (v : List Nat) (leader : Option Nat) (healths : Nat → Health) :
    (holdLead v leader healths).1.Perm v := by
  rcases holdLead_cases v leader healths with heq | ⟨cur, pos, -, -, -, -, hcur, -, -, -, -, heq⟩
  · rw [heq]
  · rw [heq]
    obtain ⟨hlt, rfl⟩ := List.getElem?_eq_some_iff.mp hcur
    exact List.getElem_cons_eraseIdx_perm hlt

/-! ## The ranks -/

theorem writeRanks_of_not_mem {v : List Nat} {u : Nat} (hu : u ∉ v) (held : Bool) (k : Nat)
    (healths : Nat → Health) : writeRanks held (v.zipIdx k) healths u = healths u := by
  induction v generalizing k healths with
  | nil => rfl
  | cons w rest ih =>
      rw [List.mem_cons, not_or] at hu
      rw [writeRanks, List.zipIdx_cons, List.foldl_cons, ← writeRanks, ih hu.2]
      exact Function.update_of_ne hu.1 _ _

theorem writeRanks_of_mem {v : List Nat} (hnodup : v.Nodup) {i u : Nat} (hu : v[i]? = some u)
    (held : Bool) (k : Nat) (healths : Nat → Health) :
    writeRanks held (v.zipIdx k) healths u = (healths u).rank (k + i) held := by
  induction v generalizing i k healths with
  | nil => cases hu
  | cons w rest ih =>
      rw [List.nodup_cons] at hnodup
      rw [writeRanks, List.zipIdx_cons, List.foldl_cons, ← writeRanks]
      cases i with
      | zero =>
          cases hu
          rw [writeRanks_of_not_mem hnodup.1, Function.update_self, Nat.add_zero]
      | succ i =>
          rw [List.getElem?_cons_succ] at hu
          have hne : u ≠ w := fun h => hnodup.1 (h ▸ List.mem_of_getElem? hu)
          rw [ih hnodup.2 hu, Function.update_of_ne hne, Nat.add_assoc, Nat.add_comm 1 i]

/-- A permutation of the pool in the order of the classes, except for a leader that is held;
a leader that loses less than the margin and a millisecond on the best; the ranks. -/
theorem ordered_spec (count : Nat) (leader : Option Nat) (healths : Nat → Health) :
    let o := ordered count leader healths
    o.list.Perm (List.range count) ∧
    (∃ held : Bool,
      (held = true → leader.isSome ∧ o.list.head? = leader) ∧
      (if held then o.list.tail else o.list).Pairwise
        (fun a b => (healths a).Precedes (healths b)) ∧
      ∀ i u, o.list[i]? = some u →
        (o.healths u).lastRank = some (UInt16.ofNat (min i (2 ^ 16 - 1))) ∧
        (o.healths u).leadHeld = (decide (i = 0) && held)) ∧
    ((∃ u < count, (healths u).tier = .clean) →
      ∃ lead latency, o.list.head? = some lead ∧
        (healths lead).routingLatencyIfEligible = some latency ∧
        ∀ u m, u < count → (healths u).routingLatencyIfEligible = some m →
          latency.val - m.val < 1 + max (15 / 100 * latency.val) 5) := by
  intro o
  have hperm : o.list.Perm (List.range count) := (holdLead_perm _ _ _).trans sorted_perm
  have hranks : ∀ i u, o.list[i]? = some u → o.healths u =
      (healths u).rank i (holdLead (sorted count healths) leader healths).2 := by
    intro i u hu
    have hnodup : o.list.Nodup := hperm.nodup_iff.mpr List.nodup_range
    have hrank := writeRanks_of_mem hnodup hu (holdLead (sorted count healths) leader healths).2 0
      healths
    rwa [Nat.zero_add] at hrank
  have hmargin : ∀ q : ℚ, switchMargin q = max (15 / 100 * q) 5 :=
    fun q => by rw [switchMargin, mul_comm]
  refine ⟨hperm, ⟨(holdLead (sorted count healths) leader healths).2, ?_, ?_, fun i u hu => ?_⟩, ?_⟩
  · intro hheld
    rcases holdLead_cases (sorted count healths) leader healths with
      heq | ⟨cur, pos, -, -, -, hleader, -, -, -, -, -, heq⟩
    · rw [heq] at hheld
      cases hheld
    · refine ⟨by rw [hleader]; rfl, ?_⟩
      change (holdLead (sorted count healths) leader healths).1.head? = leader
      rw [heq, hleader]
      rfl
  · change (if (holdLead (sorted count healths) leader healths).2 then
      (holdLead (sorted count healths) leader healths).1.tail
      else (holdLead (sorted count healths) leader healths).1).Pairwise _
    rcases holdLead_cases (sorted count healths) leader healths with
      heq | ⟨cur, pos, -, -, -, -, -, -, -, -, -, heq⟩
    · rw [heq]
      exact sorted_pairwise
    · rw [heq]
      exact sorted_pairwise.sublist (List.eraseIdx_sublist _ pos)
  · rw [hranks i u hu]
    exact ⟨rfl, rfl⟩
  · rintro ⟨u, hu, hclean⟩
    obtain ⟨best, rest, hsorted, hbest, hclose⟩ := sorted_head hu hclean
    obtain ⟨m, hm⟩ := (healths best).eligible_iff_tier.mpr hbest
    have hbestMs := (Health.routingLatency_of_eligible hm).2
    rcases holdLead_cases (sorted count healths) leader healths with
      heq | ⟨cur, pos, inc, m', first, -, -, hfirst, hinc, hm', hle, heq⟩
    · refine ⟨best, m, ?_, hm, fun w mw hw hmw => ?_⟩
      · change (holdLead (sorted count healths) leader healths).1.head? = some best
        rw [heq, hsorted]
        rfl
      · have hfloor := le_max_right (15 / 100 * m.val) 5
        linarith [hclose w m mw hw hbestMs hmw]
    · refine ⟨cur, inc, ?_, hinc, fun w mw hw hmw => ?_⟩
      · change (holdLead (sorted count healths) leader healths).1.head? = some cur
        rw [heq]
        rfl
      · rw [hsorted] at hfirst
        cases hfirst
        rw [hm] at hm'
        cases hm'
        rw [hmargin] at hle
        linarith [hclose w m mw hw hbestMs hmw]

end

end Bulwark.Upstream
