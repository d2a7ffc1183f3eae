import Mathlib.Algebra.Group.Nat.Defs

/-!
# Errors

The public error type of the client (`error.rs`) and the gRPC status it carries. A cause that the source boxes as a
`dyn Error` is kept as the text it renders to.
-/

namespace RociaSdk

/-- The gRPC status codes (`tonic::Code`). -/
inductive Code where
  | ok | cancelled | unknown | invalidArgument | deadlineExceeded | notFound | alreadyExists | permissionDenied
  | resourceExhausted | failedPrecondition | aborted | outOfRange | unimplemented | internal | unavailable | dataLoss
  | unauthenticated
deriving DecidableEq, Repr

/-- A `tonic::Status`. `timeoutExpired` says that its source chain holds tonic's own `TimeoutExpired` marker; a status the
server sent carries no source, so it is false there. -/
structure Status where
  code : Code
  message : String
  timeoutExpired : Bool
deriving DecidableEq, Repr

/-- A `std::io::Error`, by what it reports. -/
structure IoError where
  message : String
deriving DecidableEq, Repr

/-- The payload of `RociaDbError::Auth`. -/
structure AuthError where
  message : String
  source : Option String
deriving DecidableEq, Repr

/-- `source_suffix`: a cause reads on from the message after a colon. -/
def sourceSuffix : Option String → String
  | some source => ": " ++ source
  | none => ""

/-- What `Display` prints for `RociaDbError::Auth`. -/
def AuthError.display (e : AuthError) : String := e.message ++ sourceSuffix e.source

/-- `RociaDbError`. -/
inductive RociaDbError where
  | status (operation : String) (status : Status)
  | config (message : String) (source : Option String)
  | connection (message : String) (source : Option String)
  | auth (error : AuthError)
  | encode (context : String) (source : String)
  | decode (context : String) (source : String)
  | io (context : String) (source : IoError)
  | validation (message : String)
  | checksumMismatch (expected actual : List UInt8)
  | sizeMismatch (expected actual : UInt64)
deriving DecidableEq, Repr

/-- The result of every fallible call of the client. -/
abbrev Result (α : Type) := Except RociaDbError α

/-- `RociaDbError::code`: the gRPC code, present only for a status. -/
def RociaDbError.code : RociaDbError → Option Code
  | .status _ s => some s.code
  | _ => none

/-- `RociaDbError::is_unauthenticated`. -/
def RociaDbError.isUnauthenticated (e : RociaDbError) : Bool := e.code = some .unauthenticated

/-- `RociaDbError::is_aborted`. -/
def RociaDbError.isAborted (e : RociaDbError) : Bool := e.code = some .aborted

/-- `StatusResultExt::status_context`: a failed gRPC call under the operation it was made for. -/
def statusContext {α : Type} (operation : String) : Except Status α → Result α
  | .ok a => .ok a
  | .error status => .error (.status operation status)

/-- `ConfigResultExt::config_context`: a failed step of the configuration under a message. -/
def configContext {α : Type} (message : String) : Except String α → Result α
  | .ok a => .ok a
  | .error source => .error (.config message (some source))

end RociaSdk
