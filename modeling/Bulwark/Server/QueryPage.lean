import Bulwark.Foundation.Selection
import Bulwark.Server.QueryStore

/-!
# A page of the log is a filter over what was inserted

Whatever was inserted, deleted and cleared before, a query gives the entries that are still
stored and wanted, newest first, and their number.  The entries come back as they were
inserted but for their id.
-/

namespace Bulwark.Server

open Bulwark.Foundation Bulwark.Engine

/-! ## The log without a database -/

inductive LogOp where
  | insertBatch (entries : List QueryLogEntry)
  | deleteOlderThan (cutoffMs : Int)
  | clear

def LogOp.call : LogOp → Call QueryLogEntry
  | .insertBatch entries => .insertBatch .none entries
  | .deleteOlderThan cutoffMs => .deleteOlderThan false cutoffMs
  | .clear => .clear false

def LogOp.apply (log : List QueryLogEntry) : LogOp → List QueryLogEntry
  | .insertBatch entries => log ++ entries
  | .deleteOlderThan cutoffMs => log.filter fun e => !decide (e.timeMs < cutoffMs)
  | .clear => []

def storeAfter (json : AnswersJson) (ops : List LogOp) : Connection (List Row) :=
  ops.foldl (fun conn op => (op.call.run (queryTable json) conn).1) (.idle [])

/-- The entries that are stored after the calls, in the order of their insertion. -/
def storedAfter (ops : List LogOp) : List QueryLogEntry := ops.foldl LogOp.apply []

/-- What a query asks for; an empty text is contained in every other. -/
def wanted (filter : LogFilter) (clients : ClientMatcher) (e : QueryLogEntry) : Bool :=
  (!filter.blockedOnly || e.isBlocked) &&
    (filter.search.all fun search => decide (ContainsIgnoreCase search e.question)) &&
      filter.client.all fun client =>
        decide (ContainsIgnoreCase client e.clientIp) ||
          (clients.nameForStr e.clientIp).any fun name => decide (ContainsIgnoreCase client name)

def withoutId (e : QueryLogEntry) : QueryLogEntry := { e with id := 0 }

/-- The answers come back from their JSON text, and list ids are 32-bit. -/
def Readable (json : AnswersJson) (e : QueryLogEntry) : Prop :=
  (∃ text, json.toString e.answers = some text ∧ json.fromStr text = some e.answers) ∧
    ∀ rule listId, e.action = .blocked rule listId ∨ e.action = .rewritten rule listId →
      listId < 2 ^ 32

/-! ## Rows of entries -/

/-- The row of an entry that got this id. -/
def rowOf (json : AnswersJson) (p : Int × QueryLogEntry) : Row :=
  fun c => if c = .id then .integer p.1 else bindColumns insertColumns (insertParams json p.2) c

section

variable {json : AnswersJson} (i : Int) (e : QueryLogEntry)

@[simp] theorem rowId_rowOf (p : Int × QueryLogEntry) : rowId (rowOf json p) = p.1 := rfl

theorem rowOf_columns :
    rowOf json (i, e) .timeMs = .integer e.timeMs ∧
      rowOf json (i, e) .clientIp = .text e.clientIp ∧
        rowOf json (i, e) .question = .text e.question ∧
          rowOf json (i, e) .blocked = boolValue e.isBlocked := by
  obtain ⟨_, _, _, _, _, action, _, _, _, _⟩ := e
  cases action <;> exact ⟨rfl, rfl, rfl, rfl⟩

theorem boolValue_ne_zero (b : Bool) : ((if b then 1 else 0 : Int) != 0) = b := by
  cases b <;> rfl

theorem pageColumns_rowOf :
    pageColumns.map (rowOf json (i, e)) =
      [.integer i, .integer e.timeMs, .text e.clientIp, .text e.question, .text e.qtype,
        .text (actionColumns e.action).action, textOrNull (actionColumns e.action).upstream,
        textOrNull (actionColumns e.action).rule,
        ((actionColumns e.action).listId.map fun id => .integer id).getD .null,
        boolValue e.allowlisted, .text e.rcode,
        .text ((json.toString e.answers).getD "[]".toList), .real e.elapsedMs] := rfl

theorem toAction_actionColumns {action : QueryAction}
    (h : ∀ rule listId, action = .blocked rule listId ∨ action = .rewritten rule listId →
      listId < 2 ^ 32) :
    ({ actionColumns action with
      listId := (actionColumns action).listId.map fun id => ((id : Int) % 2 ^ 32).toNat
      } : ActionColumns).toAction = action := by
  have hread : ∀ listId : Nat, listId < 2 ^ 32 → ((listId : Int) % 2 ^ 32).toNat = listId := by
    omega
  cases action with
  | forwarded upstream => rfl
  | cached => rfl
  | blocked rule listId =>
      exact congrArg (QueryAction.blocked rule) (hread listId (h _ _ (.inl rfl)))
  | rewritten rule listId =>
      exact congrArg (QueryAction.rewritten rule) (hread listId (h _ _ (.inr rfl)))
  | error => rfl

theorem getText_textOrNull (t : Option Text) : getText [textOrNull t] 0 = t := by
  cases t <;> rfl

theorem getInteger_listId (listId : Option Nat) :
    getInteger [(listId.map fun id => .integer id).getD .null] 0 =
      listId.map fun id : Nat => (id : Int) := by
  cases listId <;> rfl

theorem rowToEntry_columns (timeMs allowlisted : Int) (clientIp question qtype action rcode
    answers : Text) (upstream rule listId : SqlValue) (elapsedMs : ℚ) :
    rowToEntry json [.integer i, .integer timeMs, .text clientIp, .text question, .text qtype,
        .text action, upstream, rule, listId, .integer allowlisted, .text rcode, .text answers,
        .real elapsedMs] =
      some ⟨(i % 2 ^ 64).toNat, timeMs, clientIp, question, qtype,
        (ActionColumns.mk action (getText [upstream] 0) (getText [rule] 0)
          ((getInteger [listId] 0).map fun v => (v % 2 ^ 32).toNat)).toAction,
        allowlisted != 0, rcode, (json.fromStr answers).getD [], elapsedMs⟩ := rfl

theorem rowToEntry_rowOf (h : Readable json e) :
    rowToEntry json (pageColumns.map (rowOf json (i, e))) =
      some { e with id := (i % 2 ^ 64).toNat } := by
  obtain ⟨⟨text, hto, hfrom⟩, hid⟩ := h
  have haction := toAction_actionColumns hid
  rw [pageColumns_rowOf, boolValue, rowToEntry_columns, getText_textOrNull, getText_textOrNull,
    getInteger_listId, Option.map_map, boolValue_ne_zero, hto, Option.getD_some, hfrom,
    Option.getD_some]
  exact congrArg (fun action => some { e with id := (i % 2 ^ 64).toNat, action := action }) haction

end

/-! ## The table after the calls -/

/-- The rows are those of the stored entries, with growing ids. -/
structure Mirrors (json : AnswersJson) (rows : List Row) (log : List QueryLogEntry)
    (pairs : List (Int × QueryLogEntry)) : Prop where
  rows : rows = pairs.map (rowOf json)
  log : log = pairs.map (·.2)
  growing : pairs.Pairwise fun p q => p.1 < q.1

theorem le_foldl_max (is : List Int) (m : Int) :
    m ≤ is.foldl max m ∧ ∀ i ∈ is, i ≤ is.foldl max m := by
  induction is generalizing m with
  | nil => simp
  | cons i is ih =>
      obtain ⟨hm, his⟩ := ih (max m i)
      rw [List.foldl_cons]
      refine ⟨le_trans (le_max_left m i) hm, fun j hj => ?_⟩
      rcases List.mem_cons.mp hj with rfl | hj
      · exact le_trans (le_max_right m j) hm
      · exact his j hj

theorem lt_nextRowId {rows : List Row} {row : Row} (h : row ∈ rows) :
    rowId row < nextRowId rows := by
  have hle := (le_foldl_max (rows.map rowId) 0).2 _ (List.mem_map_of_mem h)
  rw [nextRowId]
  omega

section

variable {json : AnswersJson} {rows : List Row} {log : List QueryLogEntry}
  {pairs : List (Int × QueryLogEntry)}

theorem Mirrors.insert (h : Mirrors json rows log pairs) (e : QueryLogEntry) :
    Mirrors json (insertRow json rows e) (log ++ [e]) (pairs ++ [(nextRowId rows, e)]) := by
  constructor
  · rw [List.map_append, ← h.rows]
    rfl
  · rw [List.map_append, ← h.log]
    rfl
  · rw [List.pairwise_append]
    refine ⟨h.growing, List.pairwise_singleton _ _, fun p hp q hq => ?_⟩
    rw [List.mem_singleton.mp hq]
    have hrow : rowOf json p ∈ rows := by
      rw [h.rows]
      exact List.mem_map_of_mem hp
    exact lt_nextRowId hrow

theorem Mirrors.insertEach (h : Mirrors json rows log pairs) (entries : List QueryLogEntry) :
    ∃ pairs, Mirrors json ((queryTable json).insertEach rows entries) (log ++ entries) pairs := by
  induction entries generalizing rows log pairs with
  | nil => exact ⟨pairs, by simpa [LogTable.insertEach] using h⟩
  | cons e entries ih =>
      obtain ⟨pairs', hnext⟩ := ih (h.insert e)
      exact ⟨pairs', by simpa [LogTable.insertEach, queryTable] using hnext⟩

theorem Mirrors.filter (h : Mirrors json rows log pairs) {p : Row → Bool}
    {q : QueryLogEntry → Bool} (hpq : ∀ pair ∈ pairs, p (rowOf json pair) = q pair.2) :
    Mirrors json (rows.filter p) (log.filter q) (pairs.filter fun pair => q pair.2) := by
  constructor
  · rw [h.rows, List.filter_map]
    congr 1
    exact List.filter_congr hpq
  · rw [h.log, List.filter_map]
    rfl
  · exact h.growing.filter _

theorem holds_older (pair : Int × QueryLogEntry) (cutoffMs : Int) :
    sqlHolds (some (.less .timeMs 1)) [.integer cutoffMs] (rowOf json pair) =
      decide (pair.2.timeMs < cutoffMs) := by
  rw [sqlHolds, Option.all_some, SqlExpr.eval, (rowOf_columns pair.1 pair.2).1]
  simp [SqlValue.less, sqlParam]

theorem not_commitFails (op : LogOp) : ¬ op.call.CommitFails := by
  cases op with
  | insertBatch entries =>
      intro h
      cases h.2.2.2
  | _ => exact id

theorem Mirrors.call (h : Mirrors json rows log pairs) (op : LogOp) :
    ∃ pairs, Mirrors json (op.call.run (queryTable json) (.idle rows)).1.committed
      (op.apply log) pairs := by
  cases op with
  | insertBatch entries =>
      obtain ⟨-, -, hstored⟩ := (recovers_idle_iff (queryTable json) rows
        (LogOp.insertBatch entries).call).mpr (not_commitFails _)
      obtain ⟨-, hcommitted⟩ := hstored entries rfl
      rw [hcommitted]
      exact h.insertEach entries
  | deleteOlderThan cutoffMs =>
      refine ⟨_, h.filter (q := fun e => !decide (e.timeMs < cutoffMs)) fun pair _ => ?_⟩
      rw [holds_older]
  | clear =>
      have hempty : (LogOp.clear.call.run (queryTable json) (.idle rows)).1.committed = [] := by
        simp [LogOp.call, Call.run, Connection.write, Connection.idle, queryTable, sqlDelete,
          sqlHolds]
      rw [hempty]
      exact ⟨[], rfl, rfl, .nil⟩

theorem mirrors_storeAfter (json : AnswersJson) (ops : List LogOp) :
    ∃ rows pairs, storeAfter json ops = .idle rows ∧ Mirrors json rows (storedAfter ops) pairs := by
  induction ops using List.reverseRecOn with
  | nil => exact ⟨[], [], rfl, rfl, rfl, .nil⟩
  | append_singleton ops op ih =>
      obtain ⟨rows, pairs, hstore, hmirrors⟩ := ih
      obtain ⟨pairs', hnext⟩ := hmirrors.call op
      have hclosed := ((recovers_idle_iff (queryTable json) rows op.call).mpr
        (not_commitFails op)).closed
      refine ⟨(op.call.run (queryTable json) (.idle rows)).1.committed, pairs', ?_, ?_⟩
      · rw [storeAfter, List.foldl_append, ← storeAfter, hstore]
        exact Connection.eq_idle hclosed
      · rw [storedAfter, List.foldl_append]
        exact hnext

/-! ## Conditions -/

/-- The clauses select the rows of the entries that `P` holds of, among those of `pairs`,
whatever parameters follow theirs. -/
def Selects (json : AnswersJson) (pairs : List (Int × QueryLogEntry)) (acc : Clauses)
    (P : QueryLogEntry → Prop) : Prop :=
  ∀ pair ∈ pairs, ∀ more, (∀ c ∈ acc.1, c.eval (acc.2 ++ more) (rowOf json pair) = some true) ↔
    P pair.2

theorem eval_likeParam {column : Column} {row : Row} {t : Text} (hrow : row column = .text t)
    (params : List SqlValue) (needle : Text) (more : List SqlValue) :
    (SqlExpr.like column (params ++ [likeParam needle]).length).eval
        ((params ++ [likeParam needle]) ++ more) row = some true ↔ ContainsIgnoreCase needle t := by
  have hparam : sqlParam ((params ++ [likeParam needle]) ++ more)
      (params ++ [likeParam needle]).length = likeParam needle := by
    rw [List.append_assoc, List.length_append, List.length_singleton]
    exact sqlParam_append params _ 0
  rw [SqlExpr.eval, hrow, hparam, likeParam, SqlValue.like, Option.some.injEq,
    likeMatches_contains]

theorem selects_blocked (blockedOnly : Bool) :
    Selects json pairs (if blockedOnly then [.equals .blocked 1] else [], []) fun e =>
      blockedOnly = true → e.isBlocked = true := by
  intro pair _ more
  cases blockedOnly with
  | false => simp
  | true =>
      have hblocked := (@rowOf_columns json pair.1 pair.2).2.2.2
      cases h : pair.2.isBlocked <;>
        simp [SqlExpr.eval, hblocked, h, boolValue, SqlValue.equal]

theorem Selects.search {acc : Clauses} {P : QueryLogEntry → Prop}
    (h : Selects json pairs acc P) (search : Option Text) :
    Selects json pairs (searchClauses acc search) fun e =>
      P e ∧ ∀ text ∈ search, ContainsIgnoreCase text e.question := by
  intro pair hpair more
  cases search with
  | none => simpa [searchClauses] using h pair hpair more
  | some search =>
      have hrest := h pair hpair ([likeParam search] ++ more)
      rw [← List.append_assoc] at hrest
      simp only [searchClauses, List.forall_mem_append, List.forall_mem_singleton]
      rw [hrest, eval_likeParam (rowOf_columns pair.1 pair.2).2.2.1]
      simp

theorem mapM_getText {values : List SqlValue} (h : ∀ v ∈ values, ∃ t, v = .text t) :
    ∃ ts, values.mapM (fun v => getText [v] 0) = some ts ∧ ∀ t, t ∈ ts ↔ .text t ∈ values := by
  induction values with
  | nil => exact ⟨[], by simp, by simp⟩
  | cons v values ih =>
      obtain ⟨t, rfl⟩ := h v List.mem_cons_self
      obtain ⟨ts, hts, hmem⟩ := ih fun v hv => h v (List.mem_cons_of_mem _ hv)
      refine ⟨t :: ts, ?_, fun u => ?_⟩
      · rw [List.mapM_cons, hts]
        rfl
      · simp [hmem]

/-- The addresses of stored entries whose client is named so. -/
theorem distinctClientIpsMatching_rowOf (clients : ClientMatcher) (client : Text) :
    ∃ ips, distinctClientIpsMatching (pairs.map (rowOf json)) clients (toAsciiLowercase client) =
        some ips ∧
      ∀ pair ∈ pairs, pair.2.clientIp ∈ ips ↔
        (clients.nameForStr pair.2.clientIp).any
          (fun name => decide (ContainsIgnoreCase client name)) = true := by
  have hcolumn : ∀ pair : Int × QueryLogEntry,
      rowOf json pair .clientIp = .text pair.2.clientIp := fun pair =>
    (rowOf_columns pair.1 pair.2).2.1
  obtain ⟨ips, hips, hmem⟩ := @mapM_getText
    ((pairs.map (rowOf json)).map fun row => row .clientIp).eraseDups (by
      intro v hv
      simp only [List.mem_eraseDups, List.map_map, List.mem_map, Function.comp] at hv
      obtain ⟨pair, -, rfl⟩ := hv
      exact ⟨_, hcolumn pair⟩)
  refine ⟨ips.filter fun ip => (clients.nameForStr ip).any
    fun name => decide (ContainsIgnoreCase client name), ?_, fun pair hpair => ?_⟩
  · rw [distinctClientIpsMatching, hips]
    rfl
  · have hstored : pair.2.clientIp ∈ ips := by
      rw [hmem, List.mem_eraseDups, List.map_map, List.mem_map]
      exact ⟨pair, hpair, hcolumn pair⟩
    rw [List.mem_filter]
    exact and_iff_right hstored

theorem Selects.client {acc : Clauses} {P : QueryLogEntry → Prop}
    (h : Selects json pairs acc P) (clients : ClientMatcher) (client : Option Text) :
    ∃ acc', clientClauses (pairs.map (rowOf json)) clients acc client = some acc' ∧
      Selects json pairs acc' fun e => P e ∧ ∀ text ∈ client,
        ContainsIgnoreCase text e.clientIp ∨ (clients.nameForStr e.clientIp).any
          (fun name => decide (ContainsIgnoreCase text name)) = true := by
  cases client with
  | none => exact ⟨acc, rfl, by simpa using h⟩
  | some client =>
      obtain ⟨nameIps, hips, hmem⟩ :=
        @distinctClientIpsMatching_rowOf json pairs clients client
      by_cases hnone : nameIps = []
      · subst hnone
        refine ⟨(acc.1 ++ [.like .clientIp (acc.2 ++ [likeParam client]).length],
          acc.2 ++ [likeParam client]), by rw [clientClauses, hips]; rfl, ?_⟩
        intro pair hpair more
        have hrest := h pair hpair ([likeParam client] ++ more)
        rw [← List.append_assoc] at hrest
        simp only [List.forall_mem_append, List.forall_mem_singleton, Option.mem_some,
          forall_eq', ← hmem pair hpair]
        rw [hrest, eval_likeParam (rowOf_columns pair.1 pair.2).2.1]
        simp
      · refine ⟨(acc.1 ++ [.or (.like .clientIp (acc.2 ++ [likeParam client]).length)
            (.isIn .clientIp ((List.range nameIps.length).map fun i =>
              (acc.2 ++ [likeParam client]).length + i + 1))],
          acc.2 ++ [likeParam client] ++ nameIps.map .text), ?_, ?_⟩
        · rw [clientClauses, hips]
          exact if_neg hnone
        · intro pair hpair more
          have hip := (@rowOf_columns json pair.1 pair.2).2.1
          have hrest := h pair hpair ([likeParam client] ++ (nameIps.map .text ++ more))
          rw [← List.append_assoc] at hrest
          simp only [List.forall_mem_append, List.forall_mem_singleton, Option.mem_some,
            forall_eq', ← hmem pair hpair]
          rw [List.append_assoc _ _ more, hrest, SqlExpr.eval, sqlOr_eq_true,
            eval_likeParam hip, eval_isIn_texts hip]

theorem wanted_iff (filter : LogFilter) (clients : ClientMatcher) (e : QueryLogEntry) :
    wanted filter clients e = true ↔
      ((filter.blockedOnly = true → e.isBlocked = true) ∧
        (∀ text ∈ filter.search, ContainsIgnoreCase text e.question)) ∧
          ∀ text ∈ filter.client, ContainsIgnoreCase text e.clientIp ∨
            (clients.nameForStr e.clientIp).any
              (fun name => decide (ContainsIgnoreCase text name)) = true := by
  unfold wanted
  cases filter.blockedOnly <;> simp [Option.all_eq_true]

theorem containsIgnoreCase_nil (t : Text) : ContainsIgnoreCase [] t := List.nil_infix

/-- Dropping an empty text does not matter where the empty text is found everywhere. -/
theorem forall_mem_nonempty {P : Text → Prop} (o : Option Text) (hnil : P []) :
    (∀ t ∈ o.filter (· ≠ []), P t) ↔ ∀ t ∈ o, P t := by
  cases o with
  | none => simp
  | some t =>
      by_cases ht : t = []
      · simp [ht, hnil]
      · simp [ht]

theorem buildWhere_rowOf (filter : LogFilter) (clients : ClientMatcher) :
    ∃ acc : Clauses, buildWhere (pairs.map (rowOf json)) filter clients =
        some (sqlWhere acc.1, acc.2) ∧
      Selects json pairs acc fun e => wanted filter clients e = true := by
  have hblocked := @selects_blocked json pairs filter.blockedOnly
  obtain ⟨acc, hacc, hselects⟩ :=
    (hblocked.search (filter.search.filter (· ≠ []))).client clients
      (filter.client.filter (· ≠ []))
  refine ⟨acc, ?_, fun pair hpair more => (hselects pair hpair more).trans ?_⟩
  · dsimp only [buildWhere]
    rw [hacc]
    rfl
  · dsimp only
    rw [wanted_iff]
    refine and_congr (and_congr .rfl ?_) ?_
    · exact forall_mem_nonempty (P := fun text => ContainsIgnoreCase text _) filter.search
        (containsIgnoreCase_nil _)
    · exact forall_mem_nonempty (P := fun text => ContainsIgnoreCase text _ ∨ Option.any _ _ = _)
        filter.client (.inl (containsIgnoreCase_nil _))

theorem Selects.select {acc : Clauses} {q : QueryLogEntry → Bool}
    (h : Selects json pairs acc fun e => q e = true) (more : List SqlValue) :
    sqlSelect (sqlWhere acc.1) (acc.2 ++ more) (pairs.map (rowOf json)) =
      (pairs.filter fun pair => q pair.2).map (rowOf json) := by
  rw [sqlSelect, List.filter_map]
  congr 1
  apply List.filter_congr
  intro pair hpair
  rw [Bool.eq_iff_iff]
  exact sqlHolds_where.trans (h pair hpair more)

/-! ## Pages -/

theorem asI64_eq {n : Nat} (h : n < 2 ^ 63) : asI64 n = n := by
  unfold asI64
  omega

theorem sqlPage_integer {α : Type} (limit offset : Nat) (l : List α) :
    sqlPage (.integer limit) (.integer offset) l = (l.drop offset).take limit := by
  simp [sqlPage]

/-- The entry as it is read from its row. -/
def readBack (pair : Int × QueryLogEntry) : QueryLogEntry :=
  { pair.2 with id := (pair.1 % 2 ^ 64).toNat }

theorem mapM_rowToEntry (h : ∀ pair ∈ pairs, Readable json pair.2) :
    (pairs.map (rowOf json)).mapM (fun row => rowToEntry json (pageColumns.map row)) =
      some (pairs.map readBack) := by
  induction pairs with
  | nil => simp
  | cons pair pairs ih =>
      have hread := rowToEntry_rowOf pair.1 pair.2 (h pair List.mem_cons_self)
      rw [List.map_cons, List.mapM_cons, hread, ih fun p hp => h p (List.mem_cons_of_mem _ hp)]
      rfl

theorem mergeSort_rowOf (h : pairs.Pairwise fun p q => p.1 < q.1) :
    ((pairs.map (rowOf json)).mergeSort fun a b => rowId b ≤ rowId a) =
      pairs.reverse.map (rowOf json) := by
  rw [mergeSort_descending rowId, List.map_reverse]
  exact List.pairwise_map.mpr h

theorem query_rowOf (hgrowing : pairs.Pairwise fun p q => p.1 < q.1)
    (hread : ∀ pair ∈ pairs, Readable json pair.2) (filter : LogFilter) (clients : ClientMatcher)
    {offset limit : Nat} (hoffset : offset < 2 ^ 63) (hlimit : limit < 2 ^ 63) :
    query json (pairs.map (rowOf json)) filter offset limit clients =
      some ⟨(((pairs.filter fun pair => wanted filter clients pair.2).reverse.drop offset).take
          limit).map readBack,
        (pairs.filter fun pair => wanted filter clients pair.2).length⟩ := by
  obtain ⟨acc, hwhere, hselects⟩ := @buildWhere_rowOf json pairs filter clients
  have hcount := hselects.select []
  have hpage := hselects.select [.integer limit, .integer offset]
  rw [List.append_nil] at hcount
  generalize hchosen : (pairs.filter fun pair => wanted filter clients pair.2) = chosen at *
  have hsub : chosen.Sublist pairs := hchosen ▸ List.filter_sublist
  have hentries : ∀ pair ∈ (chosen.reverse.drop offset).take limit, Readable json pair.2 := by
    intro pair hpair
    have hmem := List.mem_of_mem_drop (List.mem_of_mem_take hpair)
    exact hread pair (hsub.subset (List.mem_reverse.mp hmem))
  unfold query
  rw [hwhere]
  dsimp only [Option.bind_eq_bind, Option.bind_some]
  rw [asI64_eq hoffset, asI64_eq hlimit, hcount, hpage, sqlParam_append acc.2 _ 0,
    sqlParam_append acc.2 _ 1, mergeSort_rowOf (hgrowing.sublist hsub)]
  dsimp only [List.getElem?_cons_zero, List.getElem?_cons_succ, Option.getD_some]
  rw [sqlPage_integer, ← List.map_drop, ← List.map_take, mapM_rowToEntry hentries,
    List.length_map]
  rfl

/-! ## Pages of a log -/

/-- Every entry that was inserted can be read back. -/
def AllReadable (json : AnswersJson) (ops : List LogOp) : Prop :=
  ∀ entries, .insertBatch entries ∈ ops → ∀ e ∈ entries, Readable json e

theorem readable_of_mem_storedAfter {ops : List LogOp} (h : AllReadable json ops) :
    ∀ e ∈ storedAfter ops, Readable json e := by
  induction ops using List.reverseRecOn with
  | nil => simp [storedAfter]
  | append_singleton ops op ih =>
      have hops := ih fun entries hmem => h entries (List.mem_append_left _ hmem)
      intro e he
      rw [storedAfter, List.foldl_append] at he
      cases op with
      | insertBatch entries =>
          rcases List.mem_append.mp he with he | he
          · exact hops e he
          · exact h entries (by simp) e he
      | deleteOlderThan cutoffMs => exact hops e (List.mem_of_mem_filter he)
      | clear => cases he

/--
After any inserts and deletions a query counts the stored entries that are wanted, and shows
them newest first, from `offset` and `limit` at most, as they were inserted but for their ids.
-/
theorem query_storeAfter (json : AnswersJson) {ops : List LogOp} (hops : AllReadable json ops)
    (filter : LogFilter) (clients : ClientMatcher) {offset limit : Nat} (hoffset : offset < 2 ^ 63)
    (hlimit : limit < 2 ^ 63) :
    ∃ page, query json (storeAfter json ops).committed filter offset limit clients = some page ∧
      page.total = ((storedAfter ops).filter (wanted filter clients)).length ∧
      page.entries.map withoutId =
        ((((storedAfter ops).filter (wanted filter clients)).reverse.drop offset).take limit).map
          withoutId := by
  obtain ⟨rows, pairs, hstore, hmirrors⟩ := mirrors_storeAfter json ops
  have hread : ∀ pair ∈ pairs, Readable json pair.2 := by
    intro pair hpair
    apply readable_of_mem_storedAfter hops
    rw [hmirrors.log]
    exact List.mem_map_of_mem hpair
  have hlog : (storedAfter ops).filter (wanted filter clients) =
      (pairs.filter fun pair => wanted filter clients pair.2).map (·.2) := by
    rw [hmirrors.log, List.filter_map]
    rfl
  have hquery := query_rowOf hmirrors.growing hread filter clients hoffset hlimit
  rw [hstore, Connection.committed_idle, hmirrors.rows]
  refine ⟨_, hquery, ?_, ?_⟩
  · rw [hlog, List.length_map]
  · rw [hlog, ← List.map_reverse, ← List.map_drop, ← List.map_take, List.map_map, List.map_map]
    rfl

theorem query_storeAfter_shown :
    ∃ page, query shownJson
        (storeAfter shownJson [.insertBatch [shownEntry, shownEntry]]).committed
        ⟨some "ADS".toList, none, false⟩ 1 10 .empty = some page ∧
      page.total = ((storedAfter [.insertBatch [shownEntry, shownEntry]]).filter
        (wanted ⟨some "ADS".toList, none, false⟩ .empty)).length ∧
      page.entries.map withoutId =
        ((((storedAfter [.insertBatch [shownEntry, shownEntry]]).filter
          (wanted ⟨some "ADS".toList, none, false⟩ .empty)).reverse.drop 1).take 10).map
            withoutId :=
  query_storeAfter shownJson (by
    intro entries hentries e he
    cases List.mem_singleton.mp hentries
    have hshown : e = shownEntry := by simpa using he
    subst hshown
    exact ⟨⟨_, rfl, rfl⟩, by simp [shownEntry]⟩) _ _ (by decide) (by decide)

end

end Bulwark.Server
