import LuaServer.Reasoning.Bytes

/-!
# Mysql — what libmysqlclient and the code share

A block of memory is the list of its bytes, so that its length is what has been allocated.  What the
library answers is a parameter of the model; `receive` says what a fetch leaves in a bind.
-/

open Reasoning

namespace LuaServer

/-- `enum_field_types`. -/
inductive FieldType
  | decimal | tiny | short | long | float | double | null | timestamp | longlong | int24 | date
  | time | datetime | year | newdate | varchar | bit | json | newdecimal | enum | set | tinyBlob
  | mediumBlob | longBlob | blob | varString | string | geometry
deriving DecidableEq

/-- `MYSQL_BIND`; `length` and `isNull` are what the pointers of these names lead to, and no buffer
is `NULL`. -/
structure MysqlBind where
  bufferType : FieldType
  buffer : Option (List UInt8)
  bufferLength : Nat
  length : Nat
  isNull : Bool
  isUnsigned : Bool
  isNullValue : Bool
deriving DecidableEq

/-- `MYSQL_FIELD`. -/
structure MysqlField where
  type : FieldType
  flags : Nat
  length : Nat
  maxLength : Nat

/-- A row: for each column its value, or none for NULL. -/
abbrev MysqlRow : Type := Nat → Option (List UInt8)

/-- The result of `mysql_stmt_fetch`, with the row it has brought. -/
inductive StmtFetch
  | row (row : MysqlRow)
  | truncated (row : MysqlRow)
  | noData
  | error

/-- What `setResult` gets from the library: the columns that `mysql_fetch_field` goes through, whether
`mysql_stmt_bind_result` succeeds, and the fetches. -/
structure MysqlReply where
  fields : List MysqlField
  fields_lt : fields.length < 2 ^ 32
  bound : Bool
  fetches : List StmtFetch

namespace MysqlBind

/-- `memset` to zero, and a length that the place of the lengths holds. -/
def zero (length : Nat) : MysqlBind :=
  { bufferType := .decimal, buffer := none, bufferLength := 0, length, isNull := false,
    isUnsigned := false, isNullValue := false }

/-- A fetch fills at most `buffer_length` bytes; the length is that of the whole value. -/
def receive (pBind : MysqlBind) : Option (List UInt8) → MysqlBind
  | none => { pBind with isNull := true }
  | some value =>
    { pBind with
      isNull := false
      length := value.length
      buffer := pBind.buffer.map fun block => overwrite block 0 (value.take pBind.bufferLength) }

end MysqlBind

end LuaServer
