/-
  `StatusCode` and `Status` (`urpc/core/status.h`), and the method forms of
  `urpc/core/router.h`.

  `enum class StatusCode : int` can hold any `int`: the client casts what it parses without
  a check (`GrpcStatusFromInt`). `StatusCode.raw` is a value outside the closed set.
-/
import Urpc.Lib.Cxx

namespace Urpc

open Cxx

/-- The closed set of codes (spec FR-003), and the values an unchecked cast can leave. -/
inductive StatusCode where
  | ok
  | deadlineExceeded
  | resourceExhausted
  | unimplemented
  | internal
  | unavailable
  | dataLoss
  | raw (n : Int)
  deriving DecidableEq, Repr

/-- `static_cast<int>(code)`. -/
def StatusCode.toInt : StatusCode → Int
  | .ok => 0
  | .deadlineExceeded => 4
  | .resourceExhausted => 8
  | .unimplemented => 12
  | .internal => 13
  | .unavailable => 14
  | .dataLoss => 15
  | .raw n => n

/-- `static_cast<StatusCode>(n)`. -/
def StatusCode.ofInt : Int → StatusCode
  | 0 => .ok
  | 4 => .deadlineExceeded
  | 8 => .resourceExhausted
  | 12 => .unimplemented
  | 13 => .internal
  | 14 => .unavailable
  | 15 => .dataLoss
  | n => .raw n

structure Status where
  code : StatusCode := .ok
  message : Bytes := []
  deriving DecidableEq, Repr

namespace Status

/-- `Status::Ok()`. -/
def okay : Status := {}

/-- `Status::ok()`. -/
def ok (st : Status) : Bool := st.code == .ok

@[simp] theorem ok_okay : okay.ok = true := rfl

end Status

inductive MethodForm where
  | unary
  | serverStreaming
  | clientStreaming
  | bidi
  deriving DecidableEq, Repr

/-- Header fields of one block (`H2Session::HeaderMap`). -/
abbrev HeaderMap := List (String × Bytes)

/-- `headers.find(name)`: a later field overwrites an earlier one (`OnHeaderCb`). -/
def find (headers : HeaderMap) (name : String) : Option Bytes := headers.reverse.lookup name

/-- The gRPC content type (`kContentType`). -/
def kContentType : Bytes := str "application/grpc"

/-- `grpc-status` as the server writes it and the client reads it back. -/
def grpcStatusFields (st : Status) : HeaderMap :=
  [("grpc-status", stringOfInt st.code.toInt), ("grpc-message", st.message)]

/-! ## Statuses that several headers of the typed API give -/

namespace Api

def arenaAllocFailed : Status := ⟨.internal, str "arena alloc failed"⟩
def requestDecodeFailed : Status := ⟨.dataLoss, str "request decode failed"⟩
def responseEncodeFailed : Status := ⟨.internal, str "response encode failed"⟩

end Api

end Urpc
