import Mathlib.Data.Rat.Defs
import Bulwark.Foundation.Text

/-!
# Query log entries

What is logged about a query.  Times that the program keeps as floating-point
milliseconds are exact rationals here.
-/

namespace Bulwark.Engine

open Bulwark.Foundation

inductive QueryAction where
  | forwarded (upstream : Text)
  | cached
  | blocked (rule : Text) (listId : Nat)
  | rewritten (rule : Text) (listId : Nat)
  | error
  deriving DecidableEq, Repr

structure QueryLogEntry where
  id : Nat
  /-- Unix epoch milliseconds. -/
  timeMs : Int
  clientIp : Text
  question : Text
  qtype : Text
  action : QueryAction
  /-- Whether an `@@` exception matched. -/
  allowlisted : Bool
  rcode : Text
  answers : List Text
  elapsedMs : ℚ
  deriving DecidableEq, Repr

def QueryLogEntry.isBlocked (entry : QueryLogEntry) : Bool :=
  match entry.action with
  | .blocked _ _ => !entry.allowlisted
  | _ => false

def QueryLogEntry.upstream (entry : QueryLogEntry) : Option Text :=
  match entry.action with
  | .forwarded upstream => some upstream
  | _ => none

def QueryLogEntry.cached (entry : QueryLogEntry) : Bool :=
  match entry.action with
  | .cached => true
  | _ => false

def QueryLogEntry.isError (entry : QueryLogEntry) : Bool :=
  match entry.action with
  | .error => true
  | _ => false

end Bulwark.Engine
