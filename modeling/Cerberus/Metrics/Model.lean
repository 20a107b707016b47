import Cerberus.Foundation.GoString

/-!
# Metrics as text

The registry of `daemon/metrics` (`registry.go`), which is rendered in the Prometheus text format,
and the reader of this format in `cmd/cerberus-mcp` (`metrics_parse.go`).

A gauge is the bit pattern of a `float64`. What `strconv` makes of floating point numbers is a
parameter (`Numbers`), with what is assumed of it: it writes them without spaces, and reads what is
written.
-/

namespace Cerberus.Metrics

open Foundation

/-- Visible ASCII characters, at least one. -/
def IsToken (s : GoString) : Prop := s.bytes ≠ [] ∧ ∀ b ∈ s.bytes, 0x21 ≤ b ∧ b ≤ 0x7E

def formatInt (n : Int64) : GoString :=
  if n < 0 then .lit "-" ++ .formatUint n.toInt.natAbs.toUInt64
  else .formatUint n.toInt.natAbs.toUInt64

/-- `formatFloat`. `whole` is the number if it is whole and less than `1e15` in absolute value, and
`formatG` is `strconv.FormatFloat(f, 'g', -1, 64)`. -/
def formatFloat (whole : UInt64 → Option Int64) (formatG : UInt64 → GoString) (f : UInt64) :
    GoString :=
  if f = 0x7FF0000000000000 then .lit "+Inf"
  else if f = 0xFFF0000000000000 then .lit "-Inf"
  else if 0x7FF0000000000000 < f &&& 0x7FFFFFFFFFFFFFFF then .lit "NaN"
  else
    match whole f with
    | some n => formatInt n
    | none => formatG f

/-- Floating point numbers as `strconv` writes and reads them. -/
structure Numbers where
  whole : UInt64 → Option Int64
  formatG : UInt64 → GoString
  parseFloat : GoString → Option UInt64
  token_formatG : ∀ f, IsToken (formatG f)
  parse_uint : ∀ n : UInt64, (parseFloat (.formatUint n)).isSome = true
  parse_float : ∀ f, (parseFloat (formatFloat whole formatG f)).isSome = true

variable (N : Numbers)

/-! ### The registry -/

inductive Value
  | counter (v : UInt64)
  | gauge (bits : UInt64)

def Value.kind : Value → GoString
  | counter _ => .lit "counter"
  | gauge _ => .lit "gauge"

def Value.token : Value → GoString
  | counter v => .formatUint v
  | gauge bits => formatFloat N.whole N.formatG bits

structure Metric where
  name : GoString
  help : GoString
  value : Value

structure Registry where
  order : List GoString
  metrics : Finmap fun _ : GoString => Metric

def newRegistry : Registry := ⟨[], ∅⟩

/-- A letter, an underscore or a colon. -/
def isNameStart (b : UInt8) : Bool :=
  b = 0x5F || b = 0x3A || (0x61 ≤ b && b ≤ 0x7A) || (0x41 ≤ b && b ≤ 0x5A)

/-- What `mustValidName` accepts; no rune of several bytes is among it. -/
def validName (name : GoString) : Bool :=
  match name.bytes with
  | [] => false
  | b :: bs => isNameStart b && bs.all fun b => isNameStart b || (0x30 ≤ b && b ≤ 0x39)

namespace Registry

def register (zero : Value) (name help : GoString) (r : Registry) : Option Registry :=
  match r.metrics.lookup name with
  | some m => if m.value.kind = zero.kind then some r else none
  | none =>
    if validName name then
      some ⟨r.order ++ [name], r.metrics.insert name ⟨name, help, zero⟩⟩
    else none

def counter : GoString → GoString → Registry → Option Registry := register (.counter 0)

def gauge : GoString → GoString → Registry → Option Registry := register (.gauge 0)

def update (name : GoString) (f : Value → Value) (r : Registry) : Registry :=
  match r.metrics.lookup name with
  | some m => { r with metrics := r.metrics.insert name { m with value := f m.value } }
  | none => r

def add (name : GoString) (delta : UInt64) : Registry → Registry :=
  update name fun
    | .counter v => .counter (v + delta)
    | v => v

/-- `Gauge.Set`, and `Gauge.Add` with the sum that it stores. -/
def set (name : GoString) (bits : UInt64) : Registry → Registry :=
  update name fun
    | .gauge _ => .gauge bits
    | v => v

end Registry

inductive Op
  | counter (name help : GoString)
  | gauge (name help : GoString)
  | add (name : GoString) (delta : UInt64)
  | set (name : GoString) (bits : UInt64)

/-- The name that is registered, if it is not yet. -/
def Op.registered : Op → Option GoString
  | .counter name _ | .gauge name _ => some name
  | .add _ _ | .set _ _ => none

def Registry.step (r : Registry) : Op → Option Registry
  | .counter name help => r.counter name help
  | .gauge name help => r.gauge name help
  | .add name delta => some (r.add name delta)
  | .set name bits => some (r.set name bits)

/-! ### Rendering -/

def escapeHelp (s : GoString) : GoString :=
  let escaped := s.bytes.flatMap fun b => if b = 0x5C then [0x5C, 0x5C] else [b]
  ⟨escaped.flatMap fun b => if b = 0x0A then [0x5C, 0x6E] else [b]⟩

def line (s : GoString) : List UInt8 := s.bytes ++ [0x0A]

def Metric.write (m : Metric) : List UInt8 :=
  (if m.help = .lit "" then []
    else line (.lit "# HELP " ++ m.name ++ .lit " " ++ escapeHelp m.help)) ++
  line (.lit "# TYPE " ++ m.name ++ .lit " " ++ m.value.kind) ++
  line (m.name ++ .lit " " ++ m.value.token N)

def Registry.render (r : Registry) : List UInt8 :=
  r.order.flatMap fun name => (r.metrics.lookup name).elim [] (Metric.write N)

/-! ### Parsing -/

/-- `MetricSample`; without braces there is no map of labels. -/
structure MetricSample where
  name : GoString
  labels : Option (Finmap fun _ : GoString => GoString)
  value : UInt64

structure LabelScan where
  labels : Finmap fun _ : GoString => GoString
  key : List UInt8
  val : List UInt8
  inValue : Bool
  inQuote : Bool

def LabelScan.flush (s : LabelScan) : LabelScan :=
  let k := GoString.trimSpace ⟨s.key⟩
  { s with
    labels := if k = .lit "" then s.labels else s.labels.insert k ⟨s.val⟩
    key := []
    val := []
    inValue := false }

def LabelScan.step (s : LabelScan) (c : UInt8) : LabelScan :=
  if !s.inValue && c == 0x3D then { s with inValue := true }
  else if s.inValue && c == 0x22 && !s.inQuote then { s with inQuote := true }
  else if s.inValue && c == 0x22 && s.inQuote then { s with inQuote := false }
  else if !s.inQuote && c == 0x2C then s.flush
  else if s.inValue then if s.inQuote then { s with val := s.val ++ [c] } else s
  else { s with key := s.key ++ [c] }

def parseLabels (body : GoString) : Finmap fun _ : GoString => GoString :=
  if body.trimSpace = .lit "" then ∅
  else (body.bytes.foldl LabelScan.step ⟨∅, [], [], false, false⟩).flush.labels

def cutLast (c : UInt8) (l : List UInt8) : Option (List UInt8 × List UInt8) :=
  match l.reverse.dropWhile (· ≠ c) with
  | [] => none
  | _ :: head => some (head.reverse, (l.reverse.takeWhile (· ≠ c)).reverse)

/-- `splitSampleLine`: the name, the labels and the value. -/
def splitSampleLine (line : GoString) :
    Option (GoString × Option (Finmap fun _ : GoString => GoString) × GoString) :=
  match cutLast 0x20 line.bytes with
  | none => none
  | some (l, l') =>
    let head := GoString.trimSpace ⟨l⟩
    let value := GoString.trimSpace ⟨l'⟩
    if head = .lit "" ∨ value = .lit "" then none
    else if 0x7B ∉ head.bytes then some (head, none, value)
    else if head.bytes.getLast? ≠ some 0x7D then none
    else
      some (⟨head.bytes.takeWhile (· ≠ 0x7B)⟩,
        some (parseLabels ⟨(head.bytes.dropWhile (· ≠ 0x7B)).tail.dropLast⟩), value)

def parseLine (l : List UInt8) : Option MetricSample :=
  let line := GoString.trimSpace ⟨l⟩
  if line = .lit "" ∨ line.hasPrefix (.lit "#") = true then none
  else
    match splitSampleLine line with
    | none => none
    | some (name, labels, value) => (N.parseFloat value).map (MetricSample.mk name labels)

def parseMetricsText (text : List UInt8) : List MetricSample :=
  (text.splitOn 0x0A).filterMap (parseLine N)

end Cerberus.Metrics
