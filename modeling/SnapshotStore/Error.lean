/-!
# Errors

Every way an operation of the store can fail, one constructor for each cause, with the name that
programs tell the causes apart by and the text that a person reads. The constructors carry what
went wrong and the wording lives in `Error.message` alone, so a statement about *when* something
fails never mentions a string.
-/

namespace SnapshotStore

/-- Why an operation of the store failed. -/
inductive Error where
  | databaseNotFound (name : String)
  | databaseAlreadyExists (name : String)
  | tableNotFound (name : String)
  | tableAlreadyExists (name : String)
  /-- The engine is closed, or no longer admits new transactions. -/
  | engineClosed
  | invalidSchema (reason : String)
  | recordLengthMismatch (expected got : Nat)
  | fieldIndexOutOfBounds (index : Nat)
  | fieldTooLong (field : String) (max got : Nat)
  | indexNotFound (name : String)
  | indexAlreadyExists (name : String)
  | keyTooLong (max got : Nat)
  | transactionNotStarted
  | transactionAlreadyStarted
  /-- The transaction lost a write-write conflict and can only be rolled back. -/
  | transactionAborted
  /-- The commit of a transaction that lost a write-write conflict was refused. -/
  | writeConflict (transaction : Int)
  | invalidArgument (reason : String)
  | internal (reason : String)
deriving DecidableEq, Inhabited

namespace Error

/-- The name of the cause, for programs. -/
def kind : Error → String
  | databaseNotFound _ => "DatabaseNotFound"
  | databaseAlreadyExists _ => "DatabaseAlreadyExists"
  | tableNotFound _ => "TableNotFound"
  | tableAlreadyExists _ => "TableAlreadyExists"
  | engineClosed => "EngineClosed"
  | invalidSchema _ => "InvalidSchema"
  | recordLengthMismatch _ _ => "RecordLengthMismatch"
  | fieldIndexOutOfBounds _ => "FieldIndexOutOfBounds"
  | fieldTooLong _ _ _ => "FieldTooLong"
  | indexNotFound _ => "IndexNotFound"
  | indexAlreadyExists _ => "IndexAlreadyExists"
  | keyTooLong _ _ => "KeyTooLong"
  | transactionNotStarted => "TransactionNotStarted"
  | transactionAlreadyStarted => "TransactionAlreadyStarted"
  | transactionAborted => "TransactionAborted"
  | writeConflict _ => "WriteConflict"
  | invalidArgument _ => "InvalidArgument"
  | internal _ => "Internal"

/-- The text a person reads. -/
def message : Error → String
  | databaseNotFound name => s!"database '{name}' not found"
  | databaseAlreadyExists name => s!"database '{name}' already exists"
  | tableNotFound name => s!"table '{name}' not found"
  | tableAlreadyExists name => s!"table '{name}' already exists"
  | engineClosed => "engine is closed"
  | invalidSchema reason => s!"invalid schema: {reason}"
  | recordLengthMismatch expected got =>
    s!"record length mismatch, expected {expected} bytes, got {got}"
  | fieldIndexOutOfBounds index => s!"field index {index} out of bounds"
  | fieldTooLong field max got => s!"field '{field}' is too long, max {max}, got {got}"
  | indexNotFound name => s!"index '{name}' not found"
  | indexAlreadyExists name => s!"index '{name}' already exists"
  | keyTooLong max got => s!"key length {got} exceeds maximum {max}"
  | transactionNotStarted => "transaction not started"
  | transactionAlreadyStarted => "transaction already started"
  | transactionAborted => "transaction aborted"
  | writeConflict transaction =>
    s!"transaction {transaction} aborted by write-write conflict"
  | invalidArgument reason => s!"invalid argument: {reason}"
  | internal reason => reason

/-- A database, a table or an index of that name does not exist. -/
def isNotFound : Error → Bool
  | databaseNotFound _ | tableNotFound _ | indexNotFound _ => true
  | _ => false

/-- The error speaks about the state of the caller's transaction. -/
def isTransactional : Error → Bool
  | transactionNotStarted | transactionAlreadyStarted | transactionAborted | writeConflict _ => true
  | _ => false

end Error

end SnapshotStore
