import Cerberus.Contract.Capability

/-!
# The errors of the contract, and the interface of the kernel

The errors that the parts of the daemon return (`errors.go` of `contract/go`), and what they need of
a capability kernel (`CapKernel` of `interfaces.go`).

A kernel is state passing: what it answers may depend on what happened before, and on calls that
other parts of the daemon make in between.
-/

namespace Cerberus.Contract

open Foundation

abbrev ErrorCode := GoString

def ErrorCode.denied : ErrorCode := .lit "DENIED"

def ErrorCode.revoked : ErrorCode := .lit "REVOKED"

def ErrorCode.quotaExceeded : ErrorCode := .lit "QUOTA_EXCEEDED"

def ErrorCode.partitioned : ErrorCode := .lit "PARTITIONED"

structure CapError where
  code : ErrorCode
  msg : GoString
  deriving DecidableEq

def CapError.error (e : CapError) : GoString :=
  if e.msg = .lit "" then e.code else e.code ++ .lit ": " ++ e.msg

/-- A value of type `error` that is not nil. -/
inductive GoErr
  | cap (e : CapError)
  | other (text : GoString)
  deriving DecidableEq

def errf (code : ErrorCode) (msg : GoString) : GoErr := .cap ⟨code, msg⟩

def GoErr.error : GoErr → GoString
  | .cap e => e.error
  | .other text => text

/-- `CapKernel`, with a state `κ`: the error of `Verify`, if there is one. -/
structure CapKernel (κ : Type) where
  verify : CapHandle → Request → Int64 → κ → Option GoErr × κ

structure Check where
  cap : CapHandle
  request : Request
  now : Int64

/-- The kernel with a record of the requests that it grants. -/
def CapKernel.logged {κ : Type} (K : CapKernel κ) : CapKernel (κ × List Check) where
  verify cap req now w :=
    match K.verify cap req now w.1 with
    | (some e, k) => (some e, k, w.2)
    | (none, k) => (none, k, w.2 ++ [⟨cap, req, now⟩])

end Cerberus.Contract
