import Bulwark.Upstream.ProbeLog
import Bulwark.Server.LogWriter
import Bulwark.Server.QueryPage

/-!
# The table of probes

`probe_store.rs`: an event is written to a row of its own and comes back from it unchanged,
with the wrapping casts between SQLite's signed 64-bit integers and the counters.  The
table is exported oldest first and read newest first.
-/

namespace Bulwark.Server

open Bulwark.Foundation Bulwark.Upstream

/-! ## Rows -/

inductive ProbeColumn where
  | id
  | timeMs
  | upstream
  | name
  | kind
  | outcome
  | rttMs
  | firstRttMs
  | ewmaMs
  | up
  | consecutiveFailures
  | detail
  | errorKind
  | liveEwmaMs
  | liveQueries
  | liveFailures
  | rank
  | leadHeld
  deriving DecidableEq, Repr

abbrev ProbeRow := SqlRow ProbeColumn

/-- The columns but for the id, as they are inserted and read. -/
def probeColumns : List ProbeColumn :=
  [.timeMs, .upstream, .name, .kind, .outcome, .rttMs, .firstRttMs, .ewmaMs, .up,
    .consecutiveFailures, .detail, .errorKind, .liveEwmaMs, .liveQueries, .liveFailures, .rank,
    .leadHeld]

/-- `as i64` on a `u64`. -/
def u64AsI64 (n : UInt64) : Int := n.toBitVec.toInt

def realOrNull (x : Option ℚ) : SqlValue := (x.map .real).getD .null

/-- `insert_params` -/
def probeParams (e : ProbeEvent) : List SqlValue :=
  [.integer e.timeMs, .text e.upstream, .text e.name, .text e.kind.asStr, .text e.outcome.asStr,
    realOrNull e.rttMs, realOrNull e.firstRttMs, realOrNull e.ewmaMs, boolValue e.up,
    .integer e.consecutiveFailures.toNat, textOrNull e.detail,
    textOrNull (e.errorKind.map ProbeErrorKind.asStr), realOrNull e.liveEwmaMs,
    .integer (u64AsI64 e.liveQueries), .integer (u64AsI64 e.liveFailures),
    (e.rank.map fun r => .integer r.toNat).getD .null, boolValue e.leadHeld]

def optReal : Option SqlValue → Option ℚ
  | some (.real x) => some x
  -- accepted in databases that others have changed
  | some (.integer i) => some i
  | _ => none

def rowToEvent (row : List SqlValue) : Option ProbeEvent := do
  let timeMs ← getInteger row 0
  let upstream ← getText row 1
  let name ← getText row 2
  let kind ← getText row 3
  let outcome ← getText row 4
  let up ← getInteger row 8
  let consecutiveFailures ← getInteger row 9
  let liveQueries ← getInteger row 13
  let liveFailures ← getInteger row 14
  let leadHeld ← getInteger row 16
  some
    { timeMs := timeMs
      upstream := upstream
      name := name
      kind := TransportKind.fromLabel kind
      outcome := ProbeOutcome.fromLabel outcome
      rttMs := optReal row[5]?
      firstRttMs := optReal row[6]?
      ewmaMs := optReal row[7]?
      up := up != 0
      consecutiveFailures := .ofInt consecutiveFailures
      detail := getText row 10
      errorKind := (getText row 11).map ProbeErrorKind.fromLabel
      liveEwmaMs := optReal row[12]?
      liveQueries := .ofInt liveQueries
      liveFailures := .ofInt liveFailures
      rank := (getInteger row 15).map fun i => .ofInt i
      leadHeld := leadHeld != 0 }

def bindProbe (id : Int) (params : List SqlValue) : ProbeRow := fun c =>
  if c = .id then .integer id else ((probeColumns.zip params).lookup c).getD .null

def probeId (row : ProbeRow) : Int :=
  match row .id with
  | .integer i => i
  | _ => 0

def nextProbeId (rows : List ProbeRow) : Int := (rows.map probeId).foldl max 0 + 1

/-! ## Statements -/

def probeTable : LogTable (List ProbeRow) ProbeEvent where
  insert rows e := rows ++ [bindProbe (nextProbeId rows) (probeParams e)]
  deleteOlderThan rows cutoffMs := sqlDelete (some (.less .timeMs 1)) [.integer cutoffMs] rows
  clear rows := (sqlDelete none [] rows).1

/-- `serde_json` on an event; one that fails is left out. -/
abbrev EventJson := ProbeEvent → Option Text

/-- `ORDER BY id ASC`, one line for each event. -/
def exportJsonl (json : EventJson) (rows : List ProbeRow) : Option Text := do
  let events ← (rows.mergeSort fun a b => probeId a ≤ probeId b).mapM fun row =>
    rowToEvent (probeColumns.map row)
  some (events.flatMap fun e => ((json e).map (· ++ ['\n'])).getD [])

/-- `time_ms >= ?`, true of integers only. -/
def isSince (sinceMs : Int) (row : ProbeRow) : Bool :=
  match (row .timeMs).less (.integer sinceMs) with
  | some older => !older
  | none => false

/-- `ORDER BY id DESC LIMIT ?` -/
def recent (rows : List ProbeRow) (sinceMs : Option Int) (limit : Nat) :
    Option (List ProbeEvent) :=
  let chosen := rows.filter fun row => sinceMs.all fun ms => isSince ms row
  let sorted := chosen.mergeSort fun a b => probeId b ≤ probeId a
  (sqlPage (.integer (asI64 limit)) .null sorted).mapM fun row =>
    rowToEvent (probeColumns.map row)

/-! ## An event comes back -/

theorem ofInt_u64AsI64 (n : UInt64) : UInt64.ofInt (u64AsI64 n) = n := by
  have hlt := n.toNat_lt
  have hmod : u64AsI64 n % 2 ^ 64 = n.toNat := by
    simp only [u64AsI64, BitVec.toInt_eq_toNat_cond, UInt64.toNat_toBitVec]
    split <;> omega
  rw [UInt64.ofInt, hmod]
  simp

theorem optReal_realOrNull (x : Option ℚ) : optReal (some (realOrNull x)) = x := by
  cases x <;> rfl

theorem rowToEvent_probeParams (e : ProbeEvent) (id : Int) :
    rowToEvent (probeColumns.map (bindProbe id (probeParams e))) = some e := by
  have hrow : probeColumns.map (bindProbe id (probeParams e)) = probeParams e := rfl
  rw [hrow]
  have hfailures : UInt32.ofInt e.consecutiveFailures.toNat = e.consecutiveFailures := by
    have := e.consecutiveFailures.toNat_lt
    rw [UInt32.ofInt, Int.emod_eq_of_lt (by omega) (by omega)]
    simp
  have hrank : ∀ r : UInt16, UInt16.ofInt r.toNat = r := by
    intro r
    have := r.toNat_lt
    rw [UInt16.ofInt, Int.emod_eq_of_lt (by omega) (by omega)]
    simp
  obtain ⟨timeMs, upstream, name, kind, outcome, rtt, first, ewma, up, failures, detail, errorKind,
    live, queries, liveFailures, rank, leadHeld⟩ := e
  cases detail <;> cases errorKind <;> cases rank <;>
    simp_all [probeParams, rowToEvent, getInteger, getText, boolValue, textOrNull,
      optReal_realOrNull, ofInt_u64AsI64, boolValue_ne_zero]

/-! ## The table as a list of events -/

def probeRow (pair : Int × ProbeEvent) : ProbeRow := bindProbe pair.1 (probeParams pair.2)

/-- The rows are those of the events, under ids that grow. -/
def ProbeRows (rows : List ProbeRow) (log : List ProbeEvent) : Prop :=
  ∃ pairs : List (Int × ProbeEvent), rows = pairs.map probeRow ∧ log = pairs.map (·.2) ∧
    pairs.Pairwise fun p q => p.1 < q.1

@[simp] theorem probeId_probeRow (pair : Int × ProbeEvent) : probeId (probeRow pair) = pair.1 := rfl

@[simp] theorem timeMs_probeRow (pair : Int × ProbeEvent) :
    probeRow pair .timeMs = .integer pair.2.timeMs := rfl

def probeKind : LogKind (List ProbeRow) ProbeEvent := ⟨probeTable, id, ProbeEvent.timeMs⟩

theorem lt_nextProbeId {rows : List ProbeRow} {row : ProbeRow} (h : row ∈ rows) :
    probeId row < nextProbeId rows := by
  have hle := (le_foldl_max (rows.map probeId) 0).2 _ (List.mem_map_of_mem h)
  rw [nextProbeId]
  omega

theorem represents_probeRows : probeKind.Represents ProbeRows where
  insert := by
    rintro rows _ e ⟨pairs, hrows, rfl, hgrowing⟩
    refine ⟨pairs ++ [(nextProbeId rows, e)], ?_, by simp, ?_⟩
    · simp [probeKind, probeTable, hrows, probeRow]
    · rw [List.pairwise_append]
      refine ⟨hgrowing, List.pairwise_singleton _ _, fun p hp q hq => ?_⟩
      rw [List.mem_singleton.mp hq]
      have hrow : probeRow p ∈ rows := hrows ▸ List.mem_map_of_mem hp
      exact lt_nextProbeId hrow
  delete := by
    rintro _ _ cutoff ⟨pairs, rfl, rfl, hgrowing⟩
    refine ⟨pairs.filter fun p => !decide (p.2.timeMs < cutoff), ?_, ?_, hgrowing.filter _⟩
    · simp [probeKind, probeTable, sqlDelete, sqlHolds, SqlExpr.eval, SqlValue.less, sqlParam,
        List.filter_map, Function.comp_def]
    · rw [List.filter_map]
      rfl
  clear := by
    rintro rows log -
    refine ⟨[], ?_, rfl, .nil⟩
    simp [probeKind, probeTable, sqlDelete, sqlHolds]

theorem mapM_rowToEvent (pairs : List (Int × ProbeEvent)) :
    (pairs.map probeRow).mapM (fun row => rowToEvent (probeColumns.map row)) =
      some (pairs.map (·.2)) := by
  induction pairs with
  | nil => rfl
  | cons pair pairs ih =>
      rw [List.map_cons, List.mapM_cons, ih, probeRow, rowToEvent_probeParams]
      rfl

/-- The export is the events in the order in which they were stored. -/
theorem exportJsonl_probeRows (json : EventJson) {rows : List ProbeRow} {log : List ProbeEvent}
    (h : ProbeRows rows log) :
    exportJsonl json rows =
      some (log.flatMap fun e => ((json e).map (· ++ ['\n'])).getD []) := by
  obtain ⟨pairs, rfl, rfl, hgrowing⟩ := h
  have hsorted : ((pairs.map probeRow).mergeSort fun a b => probeId a ≤ probeId b) =
      pairs.map probeRow := by
    apply List.mergeSort_of_pairwise
    rw [List.pairwise_map]
    exact hgrowing.imp fun hlt => decide_eq_true (le_of_lt hlt)
  rw [exportJsonl, hsorted, mapM_rowToEvent]
  rfl

/-- The recent events are the latest ones, newest first. -/
theorem recent_probeRows {rows : List ProbeRow} {log : List ProbeEvent} (h : ProbeRows rows log)
    (sinceMs : Option Int) {limit : Nat} (hlimit : limit < 2 ^ 63) :
    recent rows sinceMs limit =
      some ((log.filter fun e => sinceMs.all fun ms => decide (ms ≤ e.timeMs)).reverse.take
        limit) := by
  obtain ⟨pairs, rfl, rfl, hgrowing⟩ := h
  have hsince : ∀ pair : Int × ProbeEvent, (sinceMs.all fun ms => isSince ms (probeRow pair)) =
      sinceMs.all fun ms => decide (ms ≤ pair.2.timeMs) := by
    intro pair
    cases sinceMs with
    | none => rfl
    | some ms =>
        rw [Bool.eq_iff_iff]
        simp [isSince, SqlValue.less]
  have hchosen : ((pairs.map probeRow).filter fun row => sinceMs.all fun ms => isSince ms row) =
      (pairs.filter fun pair => sinceMs.all fun ms => decide (ms ≤ pair.2.timeMs)).map
        probeRow := by
    simp [List.filter_map, Function.comp_def, hsince]
  have hlog : ((pairs.map (·.2)).filter fun e => sinceMs.all fun ms => decide (ms ≤ e.timeMs)) =
      (pairs.filter fun pair => sinceMs.all fun ms => decide (ms ≤ pair.2.timeMs)).map
        (·.2) := by
    simp [List.filter_map, Function.comp_def]
  have hkept := hgrowing.filter fun pair => sinceMs.all fun ms => decide (ms ≤ pair.2.timeMs)
  rw [recent, hchosen, hlog]
  generalize (pairs.filter fun pair => sinceMs.all fun ms => decide (ms ≤ pair.2.timeMs)) =
    chosen at hkept ⊢
  have hsorted : ((chosen.map probeRow).mergeSort fun a b => probeId b ≤ probeId a) =
      chosen.reverse.map probeRow := by
    rw [mergeSort_descending probeId, List.map_reverse]
    exact List.pairwise_map.mpr hkept
  have hpage : sqlPage (.integer (asI64 limit)) .null (chosen.reverse.map probeRow) =
      (chosen.reverse.take limit).map probeRow := by
    simp [asI64_eq hlimit, sqlPage, List.map_take]
  rw [hsorted, hpage, mapM_rowToEvent, List.map_take, List.map_reverse]

end Bulwark.Server
