import Cockpit.Bridge.Metrics

namespace Cockpit

/-!
# `src/base1/cockpit.js`: the decompression loop of a metrics channel

A frame that was decompressed is the `last` one for the frame after it.  Reading behind the end of
an array, or an element of a number, gives `undefined`; the length of `null` and of `undefined`
cannot be read, and the handler throws.
-/

variable {V : Type}

namespace MetricsReceiver

/-- The two loops over `k`. -/
def fillCells : List (MetricCell V) → List (MetricCell V) → List (MetricCell V)
  | last, [] => last
  | [], .null :: data => .undefined :: fillCells [] data
  | [], cell :: data => cell :: fillCells [] data
  | l :: last, .null :: data => l :: fillCells last data
  | _ :: last, cell :: data => cell :: fillCells last data

/-- The body of the loop over `j`, where `data[j]` is there. -/
def fillItem (lastj dataj : MetricItem V) : Option (MetricItem V) :=
  match dataj with
  | .cell .null | .cell .undefined => some lastj
  | .cell cell => some (.cell cell)
  | .array cells =>
    match lastj with
    | .array lastCells => some (.array (fillCells lastCells cells))
    | .cell .null | .cell .undefined => none
    | .cell _ => some (.array (fillCells [] cells))

/-- The loop over `j`. -/
def fillFrame : MetricFrame V → MetricFrame V → Option (MetricFrame V)
  | [], data => some data
  | l :: last, [] => (fillFrame last []).map (l :: ·)
  | l :: last, item :: data => do
    let item ← fillItem l item
    let rest ← fillFrame last data
    some (item :: rest)

/-- A turn of the loop over the frames of a message. -/
def decompress (last : Option (MetricFrame V)) (data : MetricFrame V) : Option (MetricFrame V) :=
  match last with
  | some last => fillFrame last data
  | none => some data

/-- The loop over the frames of a message; it gives the last frame and those that are passed on. -/
def decompressAll : Option (MetricFrame V) → List (MetricFrame V) →
    Option (MetricFrame V) × Option (List (MetricFrame V))
  | last, [] => (last, some [])
  | last, data :: message =>
    match decompress last data with
    | none => (last, none)
    | some frame =>
      let (last, frames) := decompressAll (some frame) message
      (last, frames.map (frame :: ·))

end MetricsReceiver

/-- The receiver of a metrics channel. -/
structure MetricsReceiver (V : Type) where
  /-- Whether there was a meta message. -/
  gotMeta : Bool
  last : Option (MetricFrame V)
  /-- The frames that were passed to `callback`. -/
  received : List (MetricFrame V)

namespace MetricsReceiver

/-- The variables of `transfer`. -/
def new : MetricsReceiver V := ⟨false, none, []⟩

/-- The handler of a message; when it throws, no frame of the message is passed on. -/
def receive (r : MetricsReceiver V) : MetricsMessage V → MetricsReceiver V
  | .metaObject _ => { r with gotMeta := true }
  | .data frames =>
    if r.gotMeta then
      let (last, out) := decompressAll r.last frames
      { r with last := last, received := r.received ++ out.getD [] }
    else r

end MetricsReceiver

/-- A metrics channel with its two ends. -/
structure MetricsPair (V : Type) where
  sender : CockpitMetrics V
  receiver : MetricsReceiver V

namespace MetricsPair

def new : MetricsPair V := ⟨CockpitMetrics.new, MetricsReceiver.new⟩

/-- One call at the sender; the channel delivers what it sends. -/
def step [DecidableEq V] (metas : Nat → MetaDesc) (ops : SampleOps V) (p : MetricsPair V)
    (call : MetricsCall V) : MetricsPair V :=
  let (sender, sent) := p.sender.call metas ops call
  ⟨sender, sent.foldl MetricsReceiver.receive p.receiver⟩

end MetricsPair

end Cockpit
