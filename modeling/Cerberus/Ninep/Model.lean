import Cerberus.Contract.Kernel
import Cerberus.Foundation.OrderedMap
import Cerberus.Foundation.Path

/-!
# The namespace of devices and files

The 9P namespace of `daemon/ninep` (`ninep.go`, `fs.go`, `wire.go`): a table of device directories,
the subtree `/cer/fs`, and the files of a connection that walk and open them. Opening a control file
returns an endpoint of the data plane, never the bytes of the device.

The kernel, the granter of endpoints and the store behind `/cer/fs` share a state `σ`: that of the
rest of the daemon. What they answer may depend on anything that happened before. The encoding of
descriptors as JSON is a parameter.
-/

namespace Cerberus.Ninep

open Foundation Contract

def endpointQUIC : GoString := .lit "quic"

structure DataEndpoint where
  kind : GoString
  endpoint : GoString
  streamID : UInt64
  quota : Quota
  serverPeerID : PeerID

structure RecvEndpoint where
  kind : GoString
  endpoint : GoString
  streamID : UInt64
  cap : CapHandle
  quota : Quota
  serverPeerID : PeerID

abbrev Granter (σ : Type) :=
  CapHandle → ResourceRef → UInt64 → Quota → σ → Except GoErr DataEndpoint × σ

structure FSStore (σ : Type) where
  beginWrite : GoString → CapHandle → UInt64 → σ → Except GoErr DataEndpoint × σ
  beginRead : GoString → CapHandle → RecvEndpoint → σ → Option GoErr × σ

structure Server (σ : Type) where
  kernel : CapKernel σ
  devices : OrdMap GoString ResourceRef
  now : Int64
  nextStream : UInt64
  granter : Option (Granter σ)
  fs : Option (FSStore σ)

structure Json where
  endpoint : DataEndpoint → Option (List UInt8)
  info : ResourceKind → GoString → Option Quota → Except GoErr (List UInt8)

def zeroRef : ResourceRef := ⟨.lit "", Vector.replicate 32 0, .lit "", none⟩

def zeroQuota : Quota := ⟨0, 0, 0⟩

def fsRoot : GoString := .lit "/cer/fs"

def rootPath : GoString := .lit "/cer"

def fsResource (path : GoString) : ResourceRef := ⟨.lit "fs", Vector.replicate 32 0, path, none⟩

def isFSPath (path : GoString) : Bool :=
  let path := path.trimRightSlashes
  path = fsRoot || path.under fsRoot

def fsSubPath (path : GoString) : Option GoString :=
  let path := path.trimRightSlashes
  if path.under fsRoot then
    let sub := path.trimPrefix (fsRoot ++ .lit "/")
    if sub = .lit "" then none else some sub
  else none

def noSuchPath (path : GoString) : GoErr := errf ErrorCode.denied (.lit "no such path: " ++ path)

/-- The loop of `deviceFor`: a longer directory replaces the best one so far. -/
def longer (path : GoString) (best d : GoString × ResourceRef) : GoString × ResourceRef :=
  if GoString.Covers d.1 path ∧ best.1.bytes.length < d.1.bytes.length then d else best

namespace Server

variable {σ : Type}

def new (kernel : CapKernel σ) : Server σ := ⟨kernel, .empty, 0, 0, none, none⟩

def register (dir : GoString) (ref : ResourceRef) (s : Server σ) : Server σ :=
  { s with devices := s.devices.put dir.trimRightSlashes ref }

def isAncestorDir (path : GoString) (s : Server σ) : Bool :=
  let path := path.trimRightSlashes
  if path = .lit "" then false else s.devices.entries.any fun d => d.1.under path

def deviceFor (path : GoString) (s : Server σ) : Option (GoString × ResourceRef) :=
  let best := s.devices.entries.foldl (longer path) (.lit "", zeroRef)
  if best.1 = .lit "" then none else some best

def check (cap : CapHandle) (op : GoString) (ref : ResourceRef) (s : Server σ) (w : σ) :
    Option GoErr × σ :=
  s.kernel.verify cap ⟨op, ref⟩ s.now w

def walk (path : GoString) (cap : CapHandle) (s : Server σ) (w : σ) : Option GoErr × σ :=
  match s.deviceFor path with
  | none => (some (noSuchPath path), w)
  | some (_, ref) => s.check cap (.lit "read") ref w

def fill (ep : DataEndpoint) (stream : UInt64) (quota : Quota) : DataEndpoint :=
  { ep with
    kind := if ep.kind = .lit "" then endpointQUIC else ep.kind
    streamID := if ep.streamID = 0 then stream else ep.streamID
    quota := if ep.quota = zeroQuota then quota else ep.quota }

def openCtl (path : GoString) (cap : CapHandle) (s : Server σ) (w : σ) :
    Except GoErr DataEndpoint × Server σ × σ :=
  match s.deviceFor path with
  | none => (.error (noSuchPath path), s, w)
  | some (dir, ref) =>
    if path ≠ dir ++ .lit "/ctl" then
      (.error (errf ErrorCode.denied (.lit "only .../ctl is openable to an endpoint")), s, w)
    else
      match s.check cap (.lit "alloc") ref w with
      | (some e, w) => (.error e, s, w)
      | (none, w) =>
        let s := { s with nextStream := s.nextStream + 1 }
        let quota := ref.quota.getD zeroQuota
        match s.granter with
        | some granter =>
          match granter cap ref s.nextStream quota w with
          | (.error e, w) => (.error e, s, w)
          | (.ok ep, w) => (.ok (fill ep s.nextStream quota), s, w)
        | none =>
          (.ok ⟨endpointQUIC, .lit "quic://" ++ dir.trimPrefix (.lit "/cer/dev/"), s.nextStream,
            quota, Vector.replicate 32 0⟩, s, w)

def readInfo (J : Json) (path : GoString) (cap : CapHandle) (s : Server σ) (w : σ) :
    Except GoErr (List UInt8) × σ :=
  match s.deviceFor path with
  | none => (.error (noSuchPath path), w)
  | some (dir, ref) =>
    if path ≠ dir ++ .lit "/info" then
      (.error (errf ErrorCode.denied (.lit "only .../info is byte-readable")), w)
    else
      match s.check cap (.lit "read") ref w with
      | (some e, w) => (.error e, w)
      | (none, w) => (J.info ref.kind ref.path ref.quota, w)

def walkFS (path : GoString) (cap : CapHandle) (s : Server σ) (w : σ) : Option GoErr × σ :=
  if path.trimRightSlashes = fsRoot then (none, w)
  else
    match fsSubPath path with
    | none => (some (errf ErrorCode.denied (.lit "not an fs path: " ++ path)), w)
    | some sub => s.check cap (.lit "read") (fsResource (fsRoot ++ .lit "/" ++ sub)) w

def noStore : GoErr :=
  errf ErrorCode.partitioned (.lit "/cer/fs has no filesystem backend wired (SetFSStore); " ++
    .lit "the dfs+data-plane bridge is installed by daemon/system.Compose")

def noFile (path : GoString) : GoErr :=
  errf ErrorCode.denied (.lit "not an fs file path: " ++ path)

def openFSWrite (path : GoString) (cap : CapHandle) (s : Server σ) (w : σ) :
    Except GoErr DataEndpoint × Server σ × σ :=
  match fsSubPath path with
  | none => (.error (noFile path), s, w)
  | some sub =>
    let full := fsRoot ++ .lit "/" ++ sub
    match s.check cap (.lit "write") (fsResource full) w with
    | (some e, w) => (.error e, s, w)
    | (none, w) =>
      let s := { s with nextStream := s.nextStream + 1 }
      match s.fs with
      | none => (.error noStore, s, w)
      | some store =>
        let res := store.beginWrite full cap s.nextStream w
        (res.1, s, res.2)

def openFSRead (path : GoString) (cap : CapHandle) (recv : RecvEndpoint) (s : Server σ) (w : σ) :
    Option GoErr × σ :=
  match fsSubPath path with
  | none => (some (noFile path), w)
  | some sub =>
    let full := fsRoot ++ .lit "/" ++ sub
    match s.check cap (.lit "read") (fsResource full) w with
    | (some e, w) => (some e, w)
    | (none, w) =>
      match s.fs with
      | none => (some noStore, w)
      | some store => store.beginRead full cap recv w

def listDevice (dir : GoString) (cap : CapHandle) (s : Server σ) (d : GoString × ResourceRef)
    (w : σ) : List GoString × σ :=
  if d.1 = dir then
    match s.check cap (.lit "read") d.2 w with
    | (none, w) => ([.lit "ctl", .lit "info"], w)
    | (some _, w) => ([], w)
  else if d.1.under dir then ([(d.1.trimPrefix (dir ++ .lit "/")).firstSegment], w)
  else ([], w)

/-- The loop of `ListChildren` over the devices, in the order of the range. -/
def listDevices (dir : GoString) (cap : CapHandle) (s : Server σ) :
    List (GoString × ResourceRef) → σ → List GoString × σ
  | [], w => ([], w)
  | d :: devs, w =>
    let first := s.listDevice dir cap d w
    let rest := s.listDevices dir cap devs first.2
    (first.1 ++ rest.1, rest.2)

/-- `ListChildren`; `devs` are the devices in the order of the range. -/
def listChildren (devs : List (GoString × ResourceRef)) (dir : GoString) (cap : CapHandle)
    (s : Server σ) (w : σ) : List GoString × σ :=
  let dir := dir.trimRightSlashes
  let res := s.listDevices dir cap devs w
  let fs : List GoString :=
    if (dir = .lit "/cer" ∨ dir = rootPath) ∧ s.fs.isSome then [.lit "fs"] else []
  (((res.1 ++ fs).filter fun name => name ≠ .lit "").eraseDups, res.2)

end Server

/-! ### The files of a connection -/

inductive Errno
  | einval
  | enoent
  | eacces
  | eisdir
  | enosys
  | eio
  deriving DecidableEq

def toErrno : GoErr → Errno
  | .cap e =>
    if e.code = ErrorCode.denied then
      if (GoString.lit "no such path").bytes <:+: e.msg.bytes then .enoent else .eacces
    else .eacces
  | .other _ => .eacces

structure QID where
  dir : Bool
  path : UInt64
  deriving DecidableEq

def fnv64 (s : GoString) : UInt64 :=
  s.bytes.foldl (fun h b => (h ^^^ b.toUInt64) * 1099511628211) 1469598103934665603

structure Node where
  cap : CapHandle
  path : GoString
  dir : Bool
  fsFile : Bool
  data : List UInt8

def Node.qid (n : Node) : QID := ⟨n.dir, fnv64 n.path⟩

def attach (cap : CapHandle) : Node := ⟨cap, rootPath, true, false, []⟩

def isLeaf (name : GoString) : Bool :=
  name = .lit "ctl" || name = .lit "info" || name = .lit "alloc"

def joinPath (dir name : GoString) : GoString :=
  if dir.bytes.getLast? = some 0x2F then dir ++ name else dir ++ .lit "/" ++ name

/-- The names that `Walk` refuses. -/
def badName (name : GoString) : Bool :=
  name = .lit "" || name = .lit "." || name.bytes.contains 0x2F

namespace Node

variable {σ : Type}

def child (n : Node) (name : GoString) : Node :=
  let path := joinPath n.path name
  if isFSPath path then
    ⟨n.cap, path, path.trimRightSlashes = fsRoot, path.trimRightSlashes ≠ fsRoot, []⟩
  else ⟨n.cap, path, !isLeaf name, false, []⟩

def enter (s : Server σ) (n : Node) (name : GoString) (w : σ) : Option GoErr × σ :=
  let path := joinPath n.path name
  if isFSPath path then s.walkFS path n.cap w
  else if isLeaf name then s.walk n.path n.cap w
  else if s.isAncestorDir path then (none, w)
  else s.walk path n.cap w

def walkFrom (s : Server σ) : Node → List GoString → σ → Except Errno (List QID × Node) × σ
  | cur, [], w => (.ok ([], cur), w)
  | cur, name :: names, w =>
    if badName name then (.error .einval, w)
    else
      match enter s cur name w with
      | (some e, w) => (.error (toErrno e), w)
      | (none, w) =>
        let next := cur.child name
        let rest := walkFrom s next names w
        (rest.1.map fun r => (next.qid :: r.1, r.2), rest.2)

def walk (s : Server σ) (n : Node) (names : List GoString) (w : σ) :
    Except Errno (List QID × Node) × σ :=
  if names = [] then (.ok ([], { n with data := [] }), w) else n.walkFrom s names w

def openMode (flags : UInt32) : UInt32 := flags &&& 3

def openFile (J : Json) (s : Server σ) (n : Node) (flags : UInt32) (w : σ) :
    Except Errno QID × Node × Server σ × σ :=
  if n.dir then (.error .eisdir, n, s, w)
  else if n.fsFile then
    if openMode flags = 1 ∨ openMode flags = 2 then
      match s.openFSWrite n.path n.cap w with
      | (.error e, s, w) => (.error (toErrno e), n, s, w)
      | (.ok ep, s, w) =>
        match J.endpoint ep with
        | none => (.error .eio, n, s, w)
        | some b => (.ok n.qid, { n with data := b }, s, w)
    else (.error .enosys, n, s, w)
  else if n.path.lastSegment = .lit "ctl" then
    match s.openCtl n.path n.cap w with
    | (.error e, s, w) => (.error (toErrno e), n, s, w)
    | (.ok ep, s, w) =>
      match J.endpoint ep with
      | none => (.error .eio, n, s, w)
      | some b => (.ok n.qid, { n with data := b }, s, w)
  else if n.path.lastSegment = .lit "info" then
    match s.readInfo J n.path n.cap w with
    | (.error e, w) => (.error (toErrno e), n, s, w)
    | (.ok b, w) => (.ok n.qid, { n with data := b }, s, w)
  else (.error .eacces, n, s, w)

end Node

end Cerberus.Ninep
