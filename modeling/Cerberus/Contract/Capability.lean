import Cerberus.Foundation.GoString

/-!
# The capability contract of the daemon

The capability types of `contract/go` (`capability.go`), which the Go side of the system shares.
Kinds and rights are strings, so a value need not be one of the named constants. A pointer that may
be `nil` is an option.
-/

namespace Cerberus.Contract

open Foundation

abbrev PeerID := Vector UInt8 32

abbrev CapID := Vector UInt8 16

abbrev CapHandle := UInt64

abbrev ResourceKind := GoString

abbrev Right := GoString

structure Quota where
  bytes : UInt64
  flops : UInt64
  secs : UInt64
  deriving DecidableEq

structure ResourceRef where
  kind : ResourceKind
  node : PeerID
  path : GoString
  quota : Option Quota
  deriving DecidableEq

/-- A value of type `any`. A float is given by its bits; a value of a type that the code does not
look into is given by its type, its text under `%v` and what else makes it the value it is. -/
inductive AnyVal
  | nil
  | string (s : GoString)
  | bool (b : Bool)
  | uint64 (n : UInt64)
  | int64 (n : Int64)
  | int (n : Int64)
  | float64 (bits : UInt64)
  | other (type text : GoString) (ident : ℕ)
  deriving DecidableEq

structure Caveat where
  op : GoString
  val : AnyVal
  deriving DecidableEq

structure Request where
  op : GoString
  resource : ResourceRef

end Cerberus.Contract
