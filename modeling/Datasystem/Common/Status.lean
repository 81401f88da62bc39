import Datasystem.Lib.Checked

/-! Status codes and messages of the code base, and the check macros that return
them. A fallible function yields `Except Status`, whose error carries the code
and the text that the source attaches to it. -/

namespace Datasystem.Common

open Lib.Checked

inductive StatusCode
  | kOk
  | kDuplicated
  | kInvalid
  | kNotFound
  | kKvstoreError
  | kRuntimeError
  | kNotReady
  | kTryAgain
  | kDataInconsistency
  | kShuttingDown
  | kRpcCancelled
  | kRpcDeadlineExceeded
  | kRpcUnavailable
  | kRpcNetworkBlip
  | kUrmaWaitTimeout
  | kOcKeyAlreadyExist
  | kWorkerTimeout
  | kUnknownError
deriving DecidableEq

structure Status where
  code : StatusCode
  msg : String
deriving DecidableEq

abbrev Result (α : Type) := Except Status α

/-- RPC failures after which the same request may be sent again. -/
def isRetryableRpcError (status : Status) : Bool :=
  match status.code with
  | .kRpcCancelled | .kRpcDeadlineExceeded | .kRpcUnavailable | .kRpcNetworkBlip
  | .kUrmaWaitTimeout => true
  | _ => false

def isCoordinatorCasConflict (status : Status) : Bool :=
  status.code = .kDataInconsistency || status.code = .kDuplicated || status.code = .kNotFound

/-- `CHECK_FAIL_RETURN_STATUS(cond, code, msg)`: return the status unless `cond` holds. -/
def checkFailReturnStatus (cond : Prop) [Decidable cond] (code : StatusCode) (msg : String) :
    Result Unit :=
  require cond ⟨code, msg⟩

variable {cond : Prop} {code : StatusCode} {msg : String}

@[simp] theorem check_eq_ok [Decidable cond]
    {u} : checkFailReturnStatus cond code msg = .ok u ↔ cond :=
  require_eq_ok

theorem check_bind_eq_ok [Decidable cond] {α : Type} {f : Unit → Result α} {a : α} :
    (checkFailReturnStatus cond code msg >>= f) = .ok a ↔ cond ∧ f () = .ok a := by
  simp [Unique.exists_iff]

theorem check_of [Decidable cond] (h : cond) : checkFailReturnStatus cond code msg = .ok () :=
  require_of _ h

theorem check_of_not [Decidable cond]
    (h : ¬cond) : checkFailReturnStatus cond code msg = .error ⟨code, msg⟩ :=
  require_of_not _ h

end Datasystem.Common
