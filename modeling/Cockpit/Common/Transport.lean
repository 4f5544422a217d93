import Cockpit.Lib.LinkQueue
import Cockpit.Common.GLib
import Cockpit.Common.Json

namespace Cockpit

open Lib

/-!
# `src/common/cockpittransport.c` — freezing and thawing channels

A transport holds back the messages of frozen channels in one queue for all of them.  An entry
does not name its channel: it points at the key of the `freeze` table, and
`cockpit_transport_thaw` recognises the messages it has to flush by that pointer.  So keys
have addresses here, which an `Allocator` gives out, and an address that was freed may come
back.

Flushing a message runs handlers, which may freeze, thaw and emit in turn.  The loop of
`cockpit_transport_thaw` is therefore cut into steps: `beginThaw` enters it, `next` is one
half of an iteration, up to the handlers or from their return on, and `thaws` holds the calls in
progress, innermost first.  A loop that reads or deletes a link that is no longer in the queue
sets `fault`.
-/

/-- `g_strdup`: a new string is at an address that is not in use. -/
structure Allocator where
  strdup : Nat → List Nat → Nat
  fresh : ∀ time live, strdup time live ∉ live

/-- An allocator that gives out the address above all that are in use. -/
def Allocator.above : Allocator where
  strdup := fun _ live => live.foldr max 0 + 1
  fresh := by
    intro _ live hmem
    have hle : ∀ (l : List Nat), ∀ n ∈ l, n ≤ l.foldr max 0 := by
      intro l
      induction l with
      | nil => simp
      | cons x l ih =>
        intro n hn
        rcases List.mem_cons.mp hn with rfl | hn
        · exact le_max_left _ _
        · exact le_trans (ih n hn) (le_max_right _ _)
    have := hle live _ hmem
    omega

/-- What is emitted on a transport: a payload or a control message. -/
inductive TransportMessage where
  | recv (data : Bytes)
  | control (command : Option String) (options : JsonObject) (data : Bytes)
  deriving Repr

/-- The command that `cockpit_transport_thaw` reads out of a control message. -/
def commandOf (options : JsonObject) : Option String :=
  (Json.getString options "command" none).join

/-- A control message is emitted under the command in its options.  `cockpit_transport_parse_command`
    and `process_open` emit no others. -/
def TransportMessage.Named : TransportMessage → Prop
  | .recv _ => True
  | .control command options _ => command = commandOf options

instance : ∀ m : TransportMessage, Decidable m.Named
  | .recv _ => inferInstanceAs (Decidable True)
  | .control command options _ => inferInstanceAs (Decidable (command = commandOf options))

/-- `FrozenMessage`: `channel` is a pointer to the key of the table.  The C code does not store
    the channel's name; `owner` keeps it for the statements about the queue. -/
structure FrozenMessage where
  channel : Nat
  control : Option JsonObject
  data : Bytes
  owner : String
  deriving Repr

/-- What `cockpit_transport_thaw` emits for a frozen message. -/
def FrozenMessage.message (frozen : FrozenMessage) : TransportMessage :=
  match frozen.control with
  | some control => .control (commandOf control) control frozen.data
  | none => .recv frozen.data

/-- The frozen form of a message. -/
def FrozenMessage.of (key : Nat) (owner : String) : TransportMessage → FrozenMessage
  | .recv data => ⟨key, none, data, owner⟩
  | .control _ options data => ⟨key, some options, data, owner⟩

namespace FrozenMessage

@[simp] theorem of_channel (key : Nat) (owner : String) (message : TransportMessage) :
    (of key owner message).channel = key := by cases message <;> rfl

@[simp] theorem of_owner (key : Nat) (owner : String) (message : TransportMessage) :
    (of key owner message).owner = owner := by cases message <;> rfl

/-- Freezing loses nothing of a message that is emitted under its own command. -/
theorem message_of {message : TransportMessage} (h : message.Named) (key : Nat) (owner : String) :
    (of key owner message).message = message := by
  cases message with
  | recv data => rfl
  | control command options data =>
    have hc : command = commandOf options := h
    rw [hc]
    rfl

/-- What was frozen is emitted under its own command. -/
theorem named_message (frozen : FrozenMessage) : frozen.message.Named := by
  unfold message
  split
  · rfl
  · trivial

end FrozenMessage

/-- A call of `cockpit_transport_thaw` in progress, with its local variables.  `channel` is the
    string that `stolen` points at; `flush` is set while the handlers run. -/
structure Thaw where
  channel : String
  stolen : Option Nat
  l : Option Nat
  flush : Option Nat
  deriving Repr, DecidableEq

namespace Thaw

/-- Whether the loop of `thaw` flushes a link: `stolen == frozen->channel`. -/
def flushes (thaw : Thaw) (l : Link FrozenMessage) : Bool := thaw.stolen == some l.data.channel

variable {thaw : Thaw}

theorem flushes_iff {l : Link FrozenMessage} :
    thaw.flushes l ↔ thaw.stolen = some l.data.channel := by
  rw [flushes, beq_iff_eq]

theorem flushes_congr {thaw' : Thaw} (h : thaw'.stolen = thaw.stolen) :
    thaw'.flushes = thaw.flushes := by
  funext l
  rw [flushes, flushes, h]

end Thaw

/-- `CockpitTransportPrivate`, the calls in progress, and what the transport has done. -/
structure Transport where
  /-- The frozen channels and the addresses of their keys. -/
  freeze : AList (fun _ : String => Nat)
  frozen : LinkQueue FrozenMessage
  thaws : List Thaw
  /-- How often `g_strdup` was called. -/
  strdups : Nat
  /-- What was handed to the handlers, with the channel. -/
  delivered : List (Option String × TransportMessage)
  /-- What was emitted from outside of `cockpit_transport_thaw`. -/
  emitted : List (Option String × TransportMessage)
  fault : Bool

namespace Transport

/-- `cockpit_transport_init` -/
def new : Transport where
  freeze := ∅
  frozen := LinkQueue.empty
  thaws := []
  strdups := 0
  delivered := []
  emitted := []
  fault := false

/-- The addresses of keys that are in use: those in the table and those stolen from it. -/
def live (t : Transport) : List Nat :=
  t.freeze.entries.map Sigma.snd ++ t.thaws.filterMap Thaw.stolen

variable {t : Transport} (a : Allocator)

/-- The key that `cockpit_transport_freeze` duplicates is not the key of any channel. -/
theorem lookup_ne_strdup {c : String} {key : Nat}
    (hc : t.freeze.lookup c = some key) : key ≠ a.strdup t.strdups t.live := by
  intro heq
  have hmem : (⟨c, key⟩ : Sigma fun _ : String => Nat) ∈ t.freeze.entries :=
    AList.mem_lookup_iff.mp hc
  apply a.fresh t.strdups t.live
  rw [← heq]
  exact List.mem_append_left _ (List.mem_map.mpr ⟨_, hmem, rfl⟩)

/-- Nor was it stolen by a call in progress. -/
theorem stolen_ne_strdup {thaw : Thaw} (h : thaw ∈ t.thaws) :
    thaw.stolen ≠ some (a.strdup t.strdups t.live) := by
  intro heq
  apply a.fresh t.strdups t.live
  exact List.mem_append_right _ (List.mem_filterMap.mpr ⟨thaw, h, heq⟩)

/-! ### Emitting -/

/-- `maybe_freeze_message`; `none` where it returns `FALSE`. -/
def maybeFreezeMessage (t : Transport) (channel : Option String) (message : TransportMessage) :
    Option Transport :=
  match channel with
  | none => none
  | some name =>
    match t.freeze.lookup name with
    | none => none
    | some key => some { t with frozen := t.frozen.pushTail (.of key name message) }

/-- The signals `recv` and `control`. -/
def deliver (t : Transport) (channel : Option String) (message : TransportMessage) : Transport :=
  { t with delivered := t.delivered ++ [(channel, message)] }

/-- `cockpit_transport_emit_recv` and `cockpit_transport_emit_control` -/
def emit (t : Transport) (channel : Option String) (message : TransportMessage) : Transport :=
  match t.maybeFreezeMessage channel message with
  | some t' => t'
  | none => t.deliver channel message

/-! ### Freezing and thawing -/

/-- `cockpit_transport_freeze`: `g_hash_table_add` replaces a key that is already there. -/
def freezeChannel (t : Transport) (channel : String) : Transport :=
  { t with
    freeze := t.freeze.insert channel (a.strdup t.strdups t.live)
    strdups := t.strdups + 1 }

/-- A channel that is frozen and whose message is emitted then. -/
theorem emit_freezeChannel (t : Transport) (channel : String)
    (message : TransportMessage) :
    (t.freezeChannel a channel).emit (some channel) message =
      { t.freezeChannel a channel with
        frozen := t.frozen.pushTail (.of (a.strdup t.strdups t.live) channel message) } := by
  simp [emit, maybeFreezeMessage, freezeChannel, AList.lookup_insert]

/-- `cockpit_transport_thaw` up to its loop. -/
def beginThaw (t : Transport) (channel : String) : Transport :=
  { t with
    freeze := t.freeze.erase channel
    thaws := ⟨channel, t.freeze.lookup channel, t.frozen.head, none⟩ :: t.thaws }

/-- The first half of an iteration of `thaw`, at the link `i`: the cursor moves on, and a message
    that is to be flushed is emitted.  If its channel is frozen again no handler runs and the
    link is deleted at once. -/
def visit (t : Transport) (thaw : Thaw) (outer : List Thaw) (i : Nat) : Transport :=
  match t.frozen.find i with
  | none => { t with fault := true }
  | some frozen =>
    let l := t.frozen.next i
    if thaw.stolen = some frozen.channel then
      match t.maybeFreezeMessage (some thaw.channel) frozen.message with
      | some t' =>
        { t' with frozen := t'.frozen.deleteLink i, thaws := { thaw with l := l } :: outer }
      | none =>
        { t.deliver (some thaw.channel) frozen.message with
          thaws := { thaw with l := l, flush := some i } :: outer }
    else { t with thaws := { thaw with l := l } :: outer }

/-- The second half, when the handlers have returned: `g_queue_delete_link`. -/
def flushed (t : Transport) (thaw : Thaw) (outer : List Thaw) (i : Nat) : Transport :=
  match t.frozen.find i with
  | none => { t with fault := true }
  | some _ =>
    { t with frozen := t.frozen.deleteLink i, thaws := { thaw with flush := none } :: outer }

/-- The innermost call of `cockpit_transport_thaw` goes on. -/
def next (t : Transport) : Transport :=
  match t.thaws with
  | [] => t
  | thaw :: outer =>
    match thaw.flush, thaw.l with
    | some i, _ => t.flushed thaw outer i
    | none, some i => t.visit thaw outer i
    -- the loop is over, and `stolen` is freed
    | none, none => { t with thaws := outer }

/-- Whether code outside of the loop runs: no call is in progress, or the innermost one waits for
    the handlers. -/
def outside (t : Transport) : Bool :=
  match t.thaws with
  | [] => true
  | thaw :: _ => thaw.flush.isSome

/-! ### Runs -/

/-- What can happen on a transport: calls from outside, and the loops going on. -/
inductive Event where
  | freeze (channel : String)
  | thaw (channel : String)
  | emit (channel : Option String) (message : TransportMessage)
  | next
  deriving Repr

/-- One event.  While the innermost loop is between two messages nobody else runs. -/
def step (t : Transport) : Event → Transport
  | .freeze channel => if t.outside then t.freezeChannel a channel else t
  | .thaw channel => if t.outside then t.beginThaw channel else t
  | .emit channel message =>
    if t.outside then { t.emit channel message with emitted := t.emitted ++ [(channel, message)] }
    else t
  | .next => t.next

/-- Freezing `channel` leaves no message behind: none points at the key that is replaced. -/
def FreezeOk (t : Transport) (channel : String) : Prop :=
  ∀ key, t.freeze.lookup channel = some key → ∀ l ∈ t.frozen.links, l.data.channel ≠ key

instance (t : Transport) (channel : String) : Decidable (t.FreezeOk channel) :=
  inferInstanceAs (Decidable (∀ key ∈ t.freeze.lookup channel, ∀ l ∈ t.frozen.links, _))

/-- Thawing `channel` leaves the calls in progress alone: none has saved a link of the channel. -/
def ThawOk (t : Transport) (channel : String) : Prop :=
  ∀ thaw ∈ t.thaws, ∀ l ∈ t.frozen.links, thaw.l = some l.id →
    t.freeze.lookup channel ≠ some l.data.channel

instance (t : Transport) (channel : String) : Decidable (t.ThawOk channel) :=
  inferInstanceAs (Decidable (∀ thaw ∈ t.thaws, ∀ l ∈ t.frozen.links, _ → _))

/-- The messages of the queue that have not been handed to the handlers. -/
def held (t : Transport) : List (Link FrozenMessage) :=
  t.frozen.links.filter (fun l => ¬ ∃ thaw ∈ t.thaws, thaw.flush = some l.id)

/-! ### A whole call of `cockpit_transport_thaw`, with handlers that do not call back -/

/-- The loops in progress go on, for at most `fuel` steps. -/
def settle : Nat → Transport → Transport
  | 0, t => t
  | fuel + 1, t => if t.thaws = [] then t else settle fuel t.next

/-- `cockpit_transport_thaw`: two steps for each link, and one to leave the loop. -/
def thawChannel (t : Transport) (channel : String) : Transport :=
  settle (2 * t.frozen.links.length + 1) (t.beginThaw channel)

end Transport

end Cockpit
