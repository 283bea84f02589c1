import LuaServer.Common.ThreadPool
import LuaServer.Db.SqlPrepare
import LuaServer.Db.SqlResultSet

/-!
# SqlTask — a statement as a task of the thread pool

`process` prepares the statement and executes it, and `complete` tells the user how it went.  The number
of affected rows, as an `int`, is at once the sign for success and failure.
-/

open Reasoning

namespace LuaServer

/-- What libmysqlclient answers for one statement: whether each call succeeds, the counts and the result,
and the error of the connection. -/
structure MysqlStmt where
  init : Bool
  prepared : Bool
  paramCount : Nat
  bound : Bool
  executed : Bool
  stored : Bool
  result : MysqlReply
  numRows : Nat
  affectedRows : Nat
  errno : Int
  error : List UInt8

namespace SqlPrepare

variable (self : SqlPrepare) (stmt : MysqlStmt)

/-- None is the assertion for a wrong number of parameters, which a release does not have. -/
def prepare (ndebug : Bool) : Option Int :=
  if !stmt.init then some (-1)
  else if !stmt.prepared then some (-1)
  else if stmt.paramCount ≠ toSizeT self.m_count ∧ !ndebug then none
  else some 0

/-- True is a failure. -/
def _query : Bool :=
  if self.m_paramBind ≠ [] ∧ !stmt.bound then true
  else if !stmt.executed then true
  else false

/-- None is a `setResult` that does not come to its end. -/
def execute (sizeofTime : Nat) (resultSet : SqlResultSet) : Option (Int × SqlResultSet) :=
  if self._query stmt then some (-1, resultSet)
  else if !stmt.stored then some (-1, resultSet)
  else (resultSet.setResult sizeofTime stmt.result stmt.numRows).toOption.map fun resultSet =>
    (toInt32 stmt.affectedRows, resultSet)

end SqlPrepare

structure DBSqlTask where
  task : DBTask
  _pre : SqlPrepare
  _result : SqlResultSet
deriving DecidableEq

namespace DBSqlTask

def process (self : DBSqlTask) (sizeofTime : Nat) (ndebug : Bool) (stmt : MysqlStmt) :
    Option DBSqlTask :=
  (self._pre.prepare stmt ndebug).bind fun ret =>
    let executed := if ret ≥ 0 then self._pre.execute stmt sizeofTime self._result
      else some (ret, self._result)
    executed.map fun r =>
      { self with
        task := self.task.process ⟨ret, r.1, stmt.errno, stmt.error⟩
        _result := r.2 }

end DBSqlTask

namespace DBSqlTask

variable {pre : SqlPrepare} {stmt : MysqlStmt} {ndebug : Bool} {sizeofTime : Nat}
  {self self' : DBSqlTask}

/-- An update of this many rows, with every step a success. -/
def update (affectedRows : Nat) : MysqlStmt where
  init := true
  prepared := true
  paramCount := 0
  bound := true
  executed := true
  stored := true
  result := { fields := [], fields_lt := Nat.two_pow_pos 32, bound := true, fetches := [] }
  numRows := 0
  affectedRows := affectedRows
  errno := 0
  error := []

end DBSqlTask
end LuaServer
