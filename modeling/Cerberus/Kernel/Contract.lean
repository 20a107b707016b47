import Cerberus.Foundation.GoString

/-!
# The capability contract

The capability types of `contract/rust` (`lib.rs`), shared by every Rust component that touches a
capability. A fixed-size byte array is a vector, a `String` is a byte string that is valid UTF-8.
-/

namespace Cerberus.Kernel

open Foundation

abbrev PeerId := Vector UInt8 32

abbrev CapId := Vector UInt8 16

abbrev CapHandle := UInt64

abbrev Sig := Vector UInt8 64

/-- `String`: a byte string that is valid UTF-8. -/
abbrev Text := { s : GoString // s.valid = true }

inductive ResourceKind
  | vram
  | gpu
  | cpu
  | fs
  | audio
  | topic
  | wallet
  | killswitch
  deriving DecidableEq, Repr

inductive Right
  | read
  | write
  | alloc
  | exec
  | mount
  | spend
  | revoke
  deriving DecidableEq, Repr

structure Quota where
  bytes : UInt64
  flops : UInt64
  secs : UInt64
  deriving DecidableEq

structure ResourceRef where
  kind : ResourceKind
  node : PeerId
  path : Text
  quota : Option Quota
  deriving DecidableEq

/-- `serde_json::Value`. A number is a `u64`, a negative `i64` or a float, given by its bits. -/
inductive Value
  | null
  | bool (b : Bool)
  | posInt (n : UInt64)
  | negInt (n : Int64)
  | float (bits : UInt64)
  | string (s : Text)
  | array (vs : List Value)
  | object (fields : List (Text × Value))

def Value.asU64 : Value → Option UInt64
  | posInt n => some n
  | _ => none

structure Caveat where
  op : Text
  val : Value

structure Capability where
  v : UInt8
  id : CapId
  resource : ResourceRef
  rights : List Right
  caveats : List Caveat
  parent : Option CapId
  issuer : PeerId
  nbf : UInt64
  exp : Option UInt64
  nonce : Vector UInt8 12
  sig : Sig

/-- `CapErrorCode`, as far as the kernel uses it. -/
inductive CapErrorCode
  | denied
  | revoked
  | quotaExceeded
  deriving DecidableEq, Repr

structure CapError where
  code : CapErrorCode
  msg : String
  deriving DecidableEq, Repr

end Cerberus.Kernel
