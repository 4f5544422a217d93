import Mathlib

namespace Cockpit

/-!
# `src/bridge/cockpitmetrics.c`: the sender of a metrics channel

A buffer with one row a metric is a list of rows; what lies behind the end of a row is the row
behind it, as in the one block of memory that the source allocates.  A JSON object is a number,
and `metas` says what is in the object of that number.  A sample that is not a number is `none`.
-/

/-- A sample as it is sent, or as the receiver reads it. -/
inductive MetricCell (V : Type) where
  | undefined
  | null
  | false_
  | number (value : V)
  deriving DecidableEq

/-- What is sent for a metric. -/
inductive MetricItem (V : Type) where
  | cell (cell : MetricCell V)
  | array (cells : List (MetricCell V))
  deriving DecidableEq

/-- What is sent for a point in time. -/
abbrev MetricFrame (V : Type) := List (MetricItem V)

/-- A message on the channel: a meta message, or the frames of a data message. -/
inductive MetricsMessage (V : Type) where
  | metaObject (object : Nat)
  | data (frames : List (MetricFrame V))

/-- The arithmetic on samples. -/
structure SampleOps (V : Type) where
  /-- `last_val * (1.0 - r) + val * r`, with `r` the quotient of the two numbers. -/
  interpolate : Int × Int → V → Option V → Option V
  /-- `val - last_val` -/
  delta : Option V → Option V → Option V
  /-- `(val - last_val) / ms * 1000` -/
  rate : Option V → Option V → Int → Option V

/-- The member "derive" of a metric in a meta message. -/
inductive DeriveMember where
  | absent
  | string (text : String)
  | other

/-- The member "instances" of a metric in a meta message; an element that is not a string is
    `none`. -/
inductive InstancesMember where
  | absent
  | array (names : List (Option String))
  | other

/-- An element of "metrics" in a meta message. -/
structure MetricDesc where
  derive : DeriveMember
  instances : InstancesMember

/-- A meta message. -/
structure MetaDesc where
  metrics : List MetricDesc
  interval : Option Int

/-- `DERIVE_NONE`, `DERIVE_DELTA`, `DERIVE_RATE` -/
inductive Derive where
  | none_
  | delta
  | rate
  deriving DecidableEq

/-- `MetricInfo` -/
structure MetricInfo where
  derive : Derive
  hasInstances : Bool
  nNextInstances : Nat

/-- `CockpitMetricsPrivate` -/
structure CockpitMetrics (V : Type) where
  interpolate : Bool
  compress : Bool
  metaInterval : Int
  metaReset : Bool
  lastMeta : Option Nat
  nextMeta : Option Nat
  metricInfo : Option (List MetricInfo)
  lastTimestamp : Int
  lastData : List (List (Option V))
  derivedValid : Bool
  derived : List (List (Option V))
  message : Option (List (MetricFrame V))
  /-- The message of the failure that closed the channel. -/
  failed : Option String
  /-- Whether memory outside of a buffer was read. -/
  overrun : Bool
  /-- History: the values that were computed for each frame. -/
  computed : List (MetricFrame V)

variable {V : Type}

/-- The instances of a metric, where it has some. -/
def MetaDesc.instancesOf (desc : MetaDesc) (metric : Nat) : Option (List (Option String)) :=
  match desc.metrics[metric]? with
  | some ⟨_, .array names⟩ => some names
  | _ => none

/-- How a value is sent. -/
def sampleCell : Option V → MetricCell V
  | some value => .number value
  | none => .false_

namespace CockpitMetrics

/-- `cockpit_metrics_init` -/
def new : CockpitMetrics V where
  interpolate := true
  compress := true
  metaInterval := 0
  metaReset := false
  lastMeta := none
  nextMeta := none
  metricInfo := none
  lastTimestamp := 0
  lastData := []
  derivedValid := false
  derived := []
  message := none
  failed := none
  overrun := false
  computed := []

/-! ### `cockpit_metrics_send_meta` -/

/-- How `update_for_meta` reads "derive". -/
def deriveOf : DeriveMember → Except String Derive
  | .absent => .ok .none_
  | .string text =>
    if text = "delta" then .ok .delta
    else if text = "rate" then .ok .rate
    else .error ("unsupported derive function: " ++ text)
  | .other => .error "unsupported derive value: not a string"

/-- A turn of the loop of `update_for_meta`. -/
def infoOf (desc : MetricDesc) : Except String MetricInfo := do
  let derive ← deriveOf desc.derive
  match desc.instances with
  | .absent => .ok ⟨derive, false, 1⟩
  | .array names => .ok ⟨derive, true, names.length⟩
  | .other => .error "unsupported instances value: not a string"

variable (s : CockpitMetrics V)

/-- `cockpit_channel_fail` closes the channel. -/
def fail (text : String) : CockpitMetrics V := { s with failed := some text }

/-- The loop and the end of `update_for_meta`; the buffers are allocated anew. -/
def applyMeta (desc : MetaDesc) (reset : Bool) : CockpitMetrics V :=
  match desc.metrics.mapM infoOf with
  | .error text => s.fail text
  | .ok infos =>
    { s with
      metricInfo := some infos
      derived := []
      derivedValid := false
      metaInterval := desc.interval.getD 1000
      metaReset := reset }

/-- `update_for_meta`; without metrics there is no first row to free. -/
def updateForMeta (desc : MetaDesc) (reset : Bool) : CockpitMetrics V :=
  match s.metricInfo with
  | none => if desc.metrics = [] then { s with overrun := true } else s.applyMeta desc true
  | some infos =>
    if infos.length ≠ desc.metrics.length then s.fail "number of metrics must not change"
    else s.applyMeta desc reset

/-- `cockpit_metrics_flush_data` -/
def flushData : CockpitMetrics V × List (MetricsMessage V) :=
  match s.message with
  | some frames => ({ s with message := none }, [.data frames])
  | none => (s, [])

variable (metas : Nat → MetaDesc)

/-- `cockpit_metrics_send_meta` -/
def sendMeta (s : CockpitMetrics V) (object : Nat) (reset : Bool) :
    CockpitMetrics V × List (MetricsMessage V) :=
  let (s, sent) := s.flushData
  let s := { s with nextMeta := some object }
  let s := s.updateForMeta (metas object) reset
  (s, if s.failed.isNone && !s.overrun then sent ++ [.metaObject object] else sent)

/-! ### `cockpit_metrics_send_data` -/

/-- `push_array_at`, with a node. -/
def pushArrayAt {α : Type} (null : α) (array : Option (List α)) (index : Nat) (node : α) :
    Option (List α) :=
  let a := array.getD []
  some (a ++ List.replicate (index - a.length) null ++ [node])

/-- `find_last_instance` -/
def findLastInstance (s : CockpitMetrics V) (metric instance_ : Nat) :
    Option Nat :=
  if s.metaReset then none
  else if s.lastMeta = s.nextMeta then some instance_
  else
    match s.lastMeta, s.nextMeta with
    | some last, some next =>
      match (metas last).instancesOf metric, (metas next).instancesOf metric with
      | some lastNames, some nextNames =>
        match nextNames[instance_]? with
        | some name => lastNames.findIdx? (· == name)
        | none => none
      | _, _ => none
    | _, _ => none

/-- `last_data[metric][instance]` -/
def readLast (metric instance_ : Nat) : Option (Option V) :=
  (s.lastData.drop metric).flatten[instance_]?

/-- What `send_data` finds out before the loop. -/
structure Timing where
  ratio : Int × Int
  timestamp : Int

/-- What `compute_and_maybe_push_value` leaves: the sample in the buffer, the value, whether it is
    pushed, and what is in `derived` then. -/
structure Computed (V : Type) where
  sample : Option V
  value : Option V
  pushed : Bool
  derived : Option V

/-- `val != derived`, where a NaN differs from everything. -/
def differs [DecidableEq V] : Option V → Option V → Bool
  | some a, some b => a != b
  | _, _ => true

variable (ops : SampleOps V)

/-- The sample and the value that `compute_and_maybe_push_value` computes; there are none when it
    reads outside of the buffer. -/
def deriveValue (s : CockpitMetrics V) (timing : Timing) (derive : Derive)
    (metric : Nat) (last : Option Nat) (sample : Option V) : Option (Option V × Option V) :=
  match last with
  | some instance_ =>
    match s.readLast metric instance_ with
    | none => none
    | some lastVal =>
      let sample :=
        match s.interpolate, lastVal with
        | true, some v => ops.interpolate timing.ratio v sample
        | _, _ => sample
      match derive with
      | .delta => some (sample, ops.delta sample lastVal)
      | .rate => some (sample, ops.rate sample lastVal (timing.timestamp - s.lastTimestamp))
      | .none_ => some (sample, sample)
  | none => some (sample, if derive = .none_ then sample else none)

/-- `compute_and_maybe_push_value`, but for the push. -/
def computeValue [DecidableEq V] (s : CockpitMetrics V) (timing : Timing)
    (derive : Derive) (metric next : Nat) (last : Option Nat) (sample : Option V) :
    Option (Computed V) := do
  let (sample, value) ← s.deriveValue ops timing derive metric last sample
  let old := (s.derived[metric]?.bind (·[next]?)).getD none
  let pushed := !s.compress || last != some next || !s.derivedValid || differs value old
  some ⟨sample, value, pushed, if pushed then value else old⟩

/-- What the inner loop leaves: rows of the buffers, the values, and what is sent. -/
structure RowResult (V : Type) where
  samples : List (Option V)
  values : List (Option V)
  derived : List (Option V)
  array : Option (List (MetricCell V))

/-- The inner loop of `build_json_data`. -/
def rowLoop [DecidableEq V] (metas : Nat → MetaDesc) (ops : SampleOps V) (s : CockpitMetrics V)
    (timing : Timing) (derive : Derive) (metric : Nat) :
    Nat → List (Option V) → Option (List (MetricCell V)) → Option (RowResult V)
  | _, [], array => some ⟨[], [], [], array⟩
  | next, sample :: samples, array => do
    let c ← s.computeValue ops timing derive metric next (s.findLastInstance metas metric next) sample
    let array := if c.pushed then pushArrayAt .null array next (sampleCell c.value) else array
    let rest ← rowLoop metas ops s timing derive metric (next + 1) samples array
    some ⟨c.sample :: rest.samples, c.value :: rest.values, c.derived :: rest.derived, rest.array⟩

/-- What the outer loop leaves: the buffers, the frame with all of its values, and the one with
    those that are sent. -/
structure FrameResult (V : Type) where
  samples : List (List (Option V))
  derived : List (List (Option V))
  frame : MetricFrame V
  array : Option (MetricFrame V)

/-- The outer loop of `build_json_data`; `buffer` is what the caller has written. -/
def metricLoop [DecidableEq V] (metas : Nat → MetaDesc) (ops : SampleOps V) (s : CockpitMetrics V)
    (timing : Timing) (buffer : Nat → Nat → Option V) :
    Nat → List MetricInfo → Option (MetricFrame V) → Option (FrameResult V)
  | _, [], output => some ⟨[], [], [], output⟩
  | metric, info :: infos, output =>
    if info.hasInstances then do
      let row ← s.rowLoop metas ops timing info.derive metric 0
        ((List.range info.nNextInstances).map (buffer metric)) none
      let output := pushArrayAt (.cell .null) output metric (.array (row.array.getD []))
      let rest ← metricLoop metas ops s timing buffer (metric + 1) infos output
      some ⟨row.samples :: rest.samples, row.derived :: rest.derived,
        .array (row.values.map sampleCell) :: rest.frame, rest.array⟩
    else do
      let c ← s.computeValue ops timing info.derive metric 0
        (if s.metaReset then none else some 0) (buffer metric 0)
      let output := if c.pushed then
        pushArrayAt (.cell .null) output metric (.cell (sampleCell c.value)) else output
      let rest ← metricLoop metas ops s timing buffer (metric + 1) infos output
      some ⟨[c.sample] :: rest.samples, [c.derived] :: rest.derived,
        .cell (sampleCell c.value) :: rest.frame, rest.array⟩

/-- The interpolation of `cockpit_metrics_send_data`. -/
def timing (timestamp : Int) : Timing :=
  if s.interpolate && !s.metaReset && decide (timestamp - s.lastTimestamp > 0) then
    ⟨(s.metaInterval, timestamp - s.lastTimestamp), s.lastTimestamp + s.metaInterval⟩
  else ⟨(1, 1), timestamp⟩

/-- `cockpit_metrics_send_data` -/
def sendData [DecidableEq V] (s : CockpitMetrics V)
    (buffer : Nat → Nat → Option V) (timestamp : Int) : CockpitMetrics V :=
  let timing := s.timing timestamp
  match s.metricLoop metas ops timing buffer 0 (s.metricInfo.getD []) none with
  | none => { s with overrun := true }
  | some result =>
    { s with
      message := some (s.message.getD [] ++ [result.array.getD []])
      lastData := result.samples
      derived := result.derived
      derivedValid := true
      lastMeta := s.nextMeta
      lastTimestamp := timing.timestamp
      metaReset := false
      computed := s.computed ++ [result.frame] }

end CockpitMetrics

/-- A call of the functions of the sender. -/
inductive MetricsCall (V : Type) where
  | sendMeta (object : Nat) (reset : Bool)
  | sendData (buffer : Nat → Nat → Option V) (timestamp : Int)
  | flush
  | setInterpolate (interpolate : Bool)
  | setCompress (compress : Bool)

/-- One call, and what it sends; a channel that has failed is closed. -/
def CockpitMetrics.call [DecidableEq V] (metas : Nat → MetaDesc) (ops : SampleOps V)
    (s : CockpitMetrics V) (call : MetricsCall V) : CockpitMetrics V × List (MetricsMessage V) :=
  if s.failed.isSome || s.overrun then (s, [])
  else
    match call with
    | .sendMeta object reset => s.sendMeta metas object reset
    | .sendData buffer timestamp => (s.sendData metas ops buffer timestamp, [])
    | .flush => s.flushData
    | .setInterpolate interpolate => ({ s with interpolate := interpolate }, [])
    | .setCompress compress => ({ s with compress := compress }, [])

end Cockpit
