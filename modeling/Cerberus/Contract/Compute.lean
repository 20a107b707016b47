import Cerberus.Contract.Capability
import Cerberus.Foundation.Clock

/-!
# The compute contract of the daemon

The types of `contract/go` for tasks, placements and telemetry (`compute.go`, `interfaces.go`,
`telemetry.go`). The enumerations of the source are bytes, so a value need not be one of the named
constants; a `float64` is a `Float`.
-/

namespace Cerberus.Contract

open Foundation

structure Shard where
  kind : UInt8
  layerLo : UInt32
  layerHi : UInt32
  tpRank : UInt32
  tpWorld : UInt32
  deriving DecidableEq, Inhabited

structure Promise where
  promiseID : List UInt8
  producer : PeerID

structure ComputeTask where
  taskID : List UInt8
  component : List UInt8
  shard : Shard
  caps : List (List UInt8)
  deps : List Promise
  resultCap : List UInt8

structure ComputeResult where
  taskID : List UInt8
  ok : Bool
  output : List UInt8
  error : GoString

structure Placement where
  shard : Shard
  node : PeerID
  caps : List (List UInt8)
  deriving DecidableEq

structure Plan where
  taskID : List UInt8
  placements : List Placement
  standbys : List Placement
  deriving DecidableEq

/-! ### Telemetry -/

structure Compute where
  pCores : UInt32
  eCores : UInt32
  npuTops : UInt32
  flops : Float
  ipc : Float

structure Memory where
  ramTotal : UInt64
  ramFree : UInt64
  vramTotal : UInt64
  vramFree : UInt64
  swapFree : UInt64

structure Link where
  peer : PeerID
  medium : UInt8
  mbps : Float
  rttms : Float
  mtu : UInt32

structure Thermal where
  cpuc : Float
  gpuc : Float
  headroomC : Float
  throttling : Bool

structure Power where
  src : UInt8
  batteryPct : Float
  lid : UInt8
  hint : UInt8

def powerAC : UInt8 := 0

def sleepImminent : UInt8 := 2

structure NodeTelemetry where
  peerID : PeerID
  epochMs : UInt64
  compute : Compute
  memory : Memory
  links : List Link
  thermal : Thermal
  power : Power
  clock : Clock GoString

end Cerberus.Contract
