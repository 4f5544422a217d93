import Mathlib

namespace Cockpit

/-!
# `src/base1/cockpit.js`: the cache of a `SeriesSink`

The index is an array of entries ordered by where they begin.  Each call of the source that edits
it in place is a function from index to index here; the linked list for the expiry is the list of
the entries' identities from `head` on.  The calls of `process` and of `fetch_callback` are kept
in two logs.  A caller hands over an array of its own with every `input`, so the values of the
arrays are enough.
-/

/-- An entry of the index.  An item is `none` where the array has no element. -/
structure SeriesEntry (α μ : Type) where
  beg : Int
  items : List (Option α)
  mapping : Option μ
  ident : Nat

/-- What `process` is called with. -/
structure SeriesChunk (α μ : Type) where
  beg : Int
  items : List (Option α)
  mapping : Option μ

/-- A call of `fetch_callback`. -/
structure SeriesRequest where
  beg : Int
  stop : Int
  walking : Bool
  deriving DecidableEq

/-- `SeriesSink` -/
structure SeriesSink (α μ : Type) where
  limit : Nat
  /-- Whether there is a `fetch_callback`. -/
  fetching : Bool
  index : List (SeriesEntry α μ)
  count : Int
  /-- The linked list of the entries, from `head` on. -/
  chain : List Nat
  created : Nat
  processed : List (SeriesChunk α μ)
  requests : List SeriesRequest

variable {α μ : Type}

namespace SeriesEntry

variable (entry : SeriesEntry α μ)

/-- One more than the last position of an entry. -/
def stop : Int := entry.beg + entry.items.length

/-- Whether an entry has positions in the range: `b < e` in the source. -/
def meets (beg stop : Int) : Bool :=
  decide (max entry.beg beg < min entry.stop stop)

/-- The part of an entry in the range: `entry.items.slice (b - eb, e - eb)` -/
def slice (beg stop : Int) : List (Option α) :=
  let b := max entry.beg beg
  let e := min entry.stop stop
  (entry.items.drop (b - entry.beg).toNat).take (e - b).toNat

/-- The edit that `stash` makes to an entry that meets the range. -/
def cut (beg stop : Int) : SeriesEntry α μ :=
  let b := max entry.beg beg
  let e := min entry.stop stop
  { entry with
    items := entry.items.take (b - entry.beg).toNat ++ entry.items.drop (e - entry.beg).toNat
    beg := if b - entry.beg = 0 then entry.beg + (e - entry.beg) else entry.beg }

end SeriesEntry

/-- The loop of `search`; `high` is one more than in the source. -/
def searchLoop (index : List (SeriesEntry α μ)) (beg : Int) : Nat → Nat → Nat → Nat
  | 0, low, _ => low
  | turns + 1, low, high =>
    if low < high then
      let mid := (low + high - 1) / 2
      match index[mid]? with
      | none => low
      | some entry =>
        if entry.beg < beg then searchLoop index beg turns (mid + 1) high
        else if entry.beg > beg then searchLoop index beg turns low mid
        else mid
    else low

variable (index : List (SeriesEntry α μ))

/-- `search`; every turn of the loop leaves out an entry. -/
def search (beg : Int) : Nat :=
  searchLoop index beg index.length 0 index.length

namespace SeriesSink

/-- `new SeriesSink (interval, identifier, fetch_callback)`, for an index that is not there yet. -/
def new (identifier fetching : Bool) : SeriesSink α μ where
  limit := if identifier then 64 * 1024 else 1024
  fetching := fetching
  index := []
  count := 0
  chain := []
  created := 0
  processed := []
  requests := []

/-! ### `stash` -/

/-- What the loop that truncates entries comes to. -/
structure Truncated (α μ : Type) where
  entries : List (SeriesEntry α μ)
  removed : Int
  /-- `i` after the loop. -/
  stop : Nat

/-- The loop that truncates the entries that meet the new one, from entry `i` on. -/
def truncateLoop (beg stop : Int) (at_ : Nat) : Nat → List (SeriesEntry α μ) → Truncated α μ
  | i, [] => ⟨[], 0, i⟩
  | i, entry :: rest =>
    if entry.items.isEmpty then
      let t := truncateLoop beg stop at_ (i + 1) rest
      { t with entries := entry :: t.entries }
    else if entry.meets beg stop then
      let t := truncateLoop beg stop at_ (i + 1) rest
      { t with
        entries := entry.cut beg stop :: t.entries
        removed := (min entry.stop stop - max entry.beg beg) + t.removed }
    else if i ≥ at_ then ⟨entry :: rest, 0, i⟩
    else
      let t := truncateLoop beg stop at_ (i + 1) rest
      { t with entries := entry :: t.entries }

/-- The loop that removes entries of length zero up to position `last`. -/
def removeLoop (last : Nat) : Nat → List (SeriesEntry α μ) → List (SeriesEntry α μ)
  | _, [] => []
  | pos, entry :: rest =>
    if pos > last then entry :: rest
    else if entry.items.isEmpty then removeLoop last pos rest
    else entry :: removeLoop last (pos + 1) rest

variable (s : SeriesSink α μ) (beg : Int)

/-- `stash` up to the expiry: entries in the way are truncated and the new one is put in. -/
def insert (items : List (Option α)) (mapping : μ) :
    SeriesSink α μ :=
  let at_ := search s.index beg
  let t := truncateLoop beg (beg + items.length) at_ (at_ - 1) (s.index.drop (at_ - 1))
  let index := s.index.take (at_ - 1) ++ t.entries
  let index := index.take at_ ++ ⟨beg, items, some mapping, s.created⟩ :: index.drop at_
  { s with
    index := index.take (at_ - 1) ++ removeLoop t.stop (at_ - 1) (index.drop (at_ - 1))
    count := s.count - t.removed + items.length
    chain := s.chain ++ [s.created]
    created := s.created + 1 }

/-- The length of an entry of the linked list; one that left the index is empty. -/
def lengthOf (ident : Nat) : Nat :=
  ((index.filter (·.ident == ident)).map (·.items.length)).sum

/-- The loop that expires entries from `head` on. -/
def expireLoop (s : SeriesSink α μ) : List Nat → SeriesSink α μ
  | [] => { s with chain := [] }
  | ident :: chain =>
    if s.count > s.limit then
      expireLoop { s with
        count := s.count - lengthOf s.index ident
        index := s.index.map
          (fun e => if e.ident == ident then { e with items := [], mapping := none } else e) } chain
    else { s with chain := ident :: chain }

/-- `stash` -/
def stash (items : List (Option α)) (mapping : μ) :
    SeriesSink α μ :=
  if items.isEmpty then s
  else
    let s := s.insert beg items mapping
    let s := s.expireLoop s.chain
    { s with index := s.index.dropWhile (·.items.isEmpty) }

/-! ### `load` and `input` -/

/-- `fetch`; the data made up for a range is an array without elements and a mapping `{ }`. -/
def fetch [EmptyCollection μ] (stop : Int) (walking : Bool) :
    SeriesSink α μ :=
  if s.fetching then
    let s := if walking then s else s.stash beg (List.replicate (stop - beg).toNat none) {}
    { s with requests := s.requests ++ [⟨beg, stop, walking⟩] }
  else s

/-- The notes of the walk over the index. -/
structure Walk (α μ : Type) where
  last : Int
  fetches : List (Int × Int)
  chunks : List (SeriesChunk α μ)

/-- An entry that meets the range is processed, and what lies before it is noted down. -/
def Walk.note (stop : Int) (w : Walk α μ) (entry : SeriesEntry α μ) : Walk α μ :=
  let b := max entry.beg beg
  { last := min entry.stop stop
    fetches := if b > w.last then w.fetches ++ [(w.last, b)] else w.fetches
    chunks := w.chunks ++ [⟨b, entry.slice beg stop, entry.mapping⟩] }

/-- The walk over the index from entry `i` on. -/
def loadLoop (beg stop : Int) (at_ : Nat) : Nat → List (SeriesEntry α μ) → Walk α μ → Walk α μ
  | _, [], w => w
  | i, entry :: rest, w =>
    if entry.items.isEmpty then loadLoop beg stop at_ (i + 1) rest w
    else if entry.meets beg stop then loadLoop beg stop at_ (i + 1) rest (w.note beg stop entry)
    else if i ≥ at_ then w
    else loadLoop beg stop at_ (i + 1) rest w

/-- The first phase of `load`. -/
def walk (stop : Int) : Walk α μ :=
  let at_ := search s.index beg
  loadLoop beg stop at_ (at_ - 1) (s.index.drop (at_ - 1)) ⟨beg, [], []⟩

/-- `load` -/
def load [EmptyCollection μ] (stop : Int) (walking : Bool) :
    SeriesSink α μ :=
  if stop ≤ beg then s
  else
    let w := s.walk beg stop
    let s := { s with processed := s.processed ++ w.chunks }
    let s := w.fetches.foldl (fun s r => s.fetch r.1 r.2 walking) s
    if w.last ≠ stop then s.fetch w.last stop walking else s

/-- `input` -/
def input (items : List (Option α)) (mapping : μ) :
    SeriesSink α μ :=
  ({ s with processed := s.processed ++ [⟨beg, items, some mapping⟩] } : SeriesSink α μ).stash
    beg items mapping

end SeriesSink

/-- A call from outside. -/
inductive SeriesCall (α μ : Type) where
  | input (beg : Int) (items : List (Option α)) (mapping : μ)
  | load (beg stop : Int) (walking : Bool)

/-- One call. -/
def SeriesSink.step [EmptyCollection μ] (s : SeriesSink α μ) : SeriesCall α μ → SeriesSink α μ
  | .input beg items mapping => s.input beg items mapping
  | .load beg stop walking => s.load beg stop walking

end Cockpit
