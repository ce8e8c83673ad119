import Bulwark.Foundation.Sql
import Bulwark.Engine.Clients
import Bulwark.Engine.QueryLog
import Bulwark.Server.LogStore

/-!
# The query log's table

`store.rs`: how an entry is written to a row and read back, and the statements that select a
page of the log.  The two statements of a query share their condition and its parameters.
-/

namespace Bulwark.Server

open Bulwark.Foundation Bulwark.Engine

/-! ## Rows -/

inductive Column where
  | id
  | timeMs
  | clientIp
  | question
  | qtype
  | action
  | blocked
  | upstream
  | rule
  | listId
  | allowlisted
  | rcode
  | answers
  | elapsedMs
  deriving DecidableEq, Repr

abbrev Row := SqlRow Column

def insertColumns : List Column :=
  [.timeMs, .clientIp, .question, .qtype, .action, .blocked, .upstream, .rule, .listId,
    .allowlisted, .rcode, .answers, .elapsedMs]

/-- The columns of the page query, in the order in which a row is read. -/
def pageColumns : List Column :=
  [.id, .timeMs, .clientIp, .question, .qtype, .action, .upstream, .rule, .listId,
    .allowlisted, .rcode, .answers, .elapsedMs]

structure AnswersJson where
  toString : List Text → Option Text
  fromStr : Text → Option (List Text)

def boolValue (b : Bool) : SqlValue := .integer (if b then 1 else 0)

structure ActionColumns where
  action : Text
  upstream : Option Text
  rule : Option Text
  listId : Option Nat
  deriving DecidableEq, Repr

def actionColumns : QueryAction → ActionColumns
  | .forwarded upstream => ⟨"forwarded".toList, some upstream, none, none⟩
  | .cached => ⟨"cached".toList, none, none, none⟩
  | .blocked rule listId => ⟨"blocked".toList, none, some rule, some listId⟩
  | .rewritten rule listId => ⟨"rewritten".toList, none, some rule, some listId⟩
  | .error => ⟨"error".toList, none, none, none⟩

def textOrNull (t : Option Text) : SqlValue := (t.map .text).getD .null

def insertParams (json : AnswersJson) (e : QueryLogEntry) : List SqlValue :=
  let columns := actionColumns e.action
  [.integer e.timeMs, .text e.clientIp, .text e.question, .text e.qtype, .text columns.action,
    boolValue e.isBlocked, textOrNull columns.upstream, textOrNull columns.rule,
    (columns.listId.map fun id => .integer id).getD .null, boolValue e.allowlisted,
    .text e.rcode, .text ((json.toString e.answers).getD "[]".toList), .real e.elapsedMs]

/-- The row that an `INSERT` with these columns and parameters makes. -/
def bindColumns (columns : List Column) (params : List SqlValue) : Row :=
  fun c => ((columns.zip params).lookup c).getD .null

def getText (row : List SqlValue) (i : Nat) : Option Text :=
  match row[i]? with
  | some (.text t) => some t
  | _ => none

def getInteger (row : List SqlValue) (i : Nat) : Option Int :=
  match row[i]? with
  | some (.integer n) => some n
  | _ => none

def getReal (row : List SqlValue) (i : Nat) : Option ℚ :=
  match row[i]? with
  | some (.real x) => some x
  | _ => none

/-- The action of a row; missing parts are empty, an unknown label is a cached answer. -/
def ActionColumns.toAction (columns : ActionColumns) : QueryAction :=
  if columns.action = "forwarded".toList then .forwarded (columns.upstream.getD [])
  else if columns.action = "blocked".toList then
    .blocked (columns.rule.getD []) (columns.listId.getD 0)
  else if columns.action = "rewritten".toList then
    .rewritten (columns.rule.getD []) (columns.listId.getD 0)
  else if columns.action = "error".toList then .error
  else .cached

def rowToEntry (json : AnswersJson) (row : List SqlValue) : Option QueryLogEntry := do
  let actionStr ← getText row 5
  let upstream := getText row 6
  let rule := getText row 7
  -- `as u32`
  let listId := (getInteger row 8).map fun v => (v % 2 ^ 32).toNat
  let answers := ((getText row 11).bind json.fromStr).getD []
  let id ← getInteger row 0
  let timeMs ← getInteger row 1
  let clientIp ← getText row 2
  let question ← getText row 3
  let qtype ← getText row 4
  let allowlisted ← getInteger row 9
  let rcode ← getText row 10
  let elapsedMs ← getReal row 12
  some
    { -- `as u64`
      id := (id % 2 ^ 64).toNat
      timeMs := timeMs
      clientIp := clientIp
      question := question
      qtype := qtype
      action := (ActionColumns.mk actionStr upstream rule listId).toAction
      allowlisted := allowlisted != 0
      rcode := rcode
      answers := answers
      elapsedMs := elapsedMs }

def rowId (row : Row) : Int :=
  match row .id with
  | .integer i => i
  | _ => 0

/-- SQLite's choice: one more than the largest id. -/
def nextRowId (rows : List Row) : Int := (rows.map rowId).foldl max 0 + 1

def insertRow (json : AnswersJson) (rows : List Row) (e : QueryLogEntry) : List Row :=
  let row := bindColumns insertColumns (insertParams json e)
  rows ++ [fun c => if c = .id then .integer (nextRowId rows) else row c]

def queryTable (json : AnswersJson) : LogTable (List Row) QueryLogEntry where
  insert := insertRow json
  deleteOlderThan rows cutoffMs := sqlDelete (some (.less .timeMs 1)) [.integer cutoffMs] rows
  clear rows := (sqlDelete none [] rows).1

def shownJson : AnswersJson :=
  ⟨fun _ => some "[\"192.0.2.7\"]".toList, fun _ => some ["192.0.2.7".toList]⟩

def shownEntry : QueryLogEntry :=
  ⟨0, 1700000000000, "10.0.0.5".toList, "ads.example".toList, "A".toList,
    .forwarded "udp://9.9.9.9:53".toList, false, "NOERROR".toList, ["192.0.2.7".toList], 12⟩

/-- A batch whose commit fails leaves its transaction open for the next one. -/
theorem failedCommit_not_recovered :
    ¬ EachStep (logStep (queryTable shownJson)) (Recovers (queryTable shownJson)) (.idle [])
      [.insertBatch { Faults.none with commit := true } [shownEntry],
        .insertBatch .none [shownEntry]] := by
  intro h
  rw [EachStep, recovers_idle_iff] at h
  exact h.1 ⟨by simp, rfl, not_insertsFail_none 1, rfl⟩

/-! ## Queries -/

structure LogFilter where
  /-- Searched in the question name. -/
  search : Option Text
  client : Option Text
  blockedOnly : Bool
  deriving DecidableEq, Repr

structure LogPage where
  entries : List QueryLogEntry
  /-- Matching entries on all pages. -/
  total : Nat
  deriving DecidableEq, Repr

/-- `as i64` on a 64-bit `usize` -/
def asI64 (n : Nat) : Int := if n % 2 ^ 64 < 2 ^ 63 then n % 2 ^ 64 else (n % 2 ^ 64 : Int) - 2 ^ 64

/-- Stored addresses whose current client name contains the needle. -/
def distinctClientIpsMatching (rows : List Row) (clients : ClientMatcher) (needle : Text) :
    Option (List Text) := do
  let ips ← (rows.map fun row => row .clientIp).eraseDups.mapM fun value => getText [value] 0
  some (ips.filter fun ip => (clients.nameForStr ip).any fun name =>
    decide (needle <:+: toAsciiLowercase name))

/-- The clauses of a condition, and the parameters they number. -/
abbrev Clauses := List (SqlExpr Column) × List SqlValue

def likeParam (t : Text) : SqlValue := .text ('%' :: (likeEscape t ++ ['%']))

def searchClauses (acc : Clauses) : Option Text → Clauses
  | none => acc
  | some search =>
      let params := acc.2 ++ [likeParam search]
      (acc.1 ++ [.like .question params.length], params)

def clientClauses (rows : List Row) (clients : ClientMatcher) (acc : Clauses) :
    Option Text → Option Clauses
  | none => some acc
  | some client => do
      let params := acc.2 ++ [likeParam client]
      let ipLike := SqlExpr.like .clientIp params.length
      let nameIps ← distinctClientIpsMatching rows clients (toAsciiLowercase client)
      if nameIps = [] then some (acc.1 ++ [ipLike], params)
      else
        let start := params.length
        let placeholders := (List.range nameIps.length).map fun i => start + i + 1
        some (acc.1 ++ [.or ipLike (.isIn .clientIp placeholders)], params ++ nameIps.map .text)

/-- The condition and the parameters that both statements of a query share. -/
def buildWhere (rows : List Row) (filter : LogFilter) (clients : ClientMatcher) :
    Option (Option (SqlExpr Column) × List SqlValue) := do
  let acc : Clauses := (if filter.blockedOnly then [.equals .blocked 1] else [], [])
  let acc := searchClauses acc (filter.search.filter (· ≠ []))
  let acc ← clientClauses rows clients acc (filter.client.filter (· ≠ []))
  some (sqlWhere acc.1, acc.2)

/-- Newest first, with filtering, pagination and a total count. -/
def query (json : AnswersJson) (rows : List Row) (filter : LogFilter) (offset limit : Nat)
    (clients : ClientMatcher) : Option LogPage := do
  let (condition, params) ← buildWhere rows filter clients
  let total := (sqlSelect condition params rows).length
  -- the placeholders of the page come after those of the condition
  let limitN := params.length + 1
  let offsetN := params.length + 2
  let params := params ++ [.integer (asI64 limit), .integer (asI64 offset)]
  let selected := (sqlSelect condition params rows).mergeSort fun a b => rowId b ≤ rowId a
  let page := sqlPage (sqlParam params limitN) (sqlParam params offsetN) selected
  let entries ← page.mapM fun row => rowToEntry json (pageColumns.map row)
  some ⟨entries, total⟩

end Bulwark.Server
