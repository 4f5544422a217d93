import Cockpit.Base1.ChannelsTables

namespace Cockpit.Page

open Lib List Option JsonObject Channel

/-!
# What a channel hands to its transport

* `Stage.send`, … — what each function of a channel does to its stage;
* `run_disciplined` — every run in which `control` is not called on a closed channel.
-/

/-! ## Messages -/

/-- A control message of the application with this command. -/
def Item.isCommand (command : String) : Item → Bool
  | .control options => hasCommand options command
  | .payload _ => false

def Item.isPayload : Item → Bool
  | .control _ => false
  | .payload _ => true

def Message.isCommand (command : String) : Message → Bool
  | .control data => hasCommand data command
  | .payload _ _ => false

def Message.isPayload : Message → Bool
  | .control _ => false
  | .payload _ _ => true

/-- Whether a message carries this id. -/
def Message.Carries (id : String) : Message → Prop
  | .control data => isString (data.getMember "channel") id
  | .payload channel _ => channel = some id

/-- A message has one command. -/
theorem hasCommand_ne {data : JsonObject} {command other : String}
    (h : hasCommand data command) (hne : command ≠ other) : hasCommand data other = false := by
  unfold hasCommand isString at h ⊢
  split at h
  · rename_i text _
    obtain rfl := eq_of_beq h
    exact beq_eq_false_iff_ne.mpr hne
  · exact nomatch h

variable (binary : Bool)

/-- The message of a call, once the channel has an id. -/
def Item.message (id : String) : Item → Message
  | .control options => .control (options.setMember "channel" (.string id))
  | .payload sent => .payload (some id) (if !binary then sent.toText else sent)

theorem hasCommand_setMember_ne {name : String} (hname : name ≠ "command") (data : JsonObject)
    (value : Json) (command : String) :
    hasCommand (data.setMember name value) command = hasCommand data command := by
  unfold hasCommand
  rw [getMember_setMember_ne hname]

@[simp] theorem Item.isCommand_message (id command : String) (item : Item) :
    (item.message binary id).isCommand command = item.isCommand command := by
  cases item with
  | control options => exact hasCommand_setMember_ne (by decide) _ _ _
  | payload payload => rfl

@[simp] theorem Item.isPayload_message (id : String) (item : Item) :
    (item.message binary id).isPayload = item.isPayload := by
  cases item <;> rfl

theorem Item.carries_message (id : String) (item : Item) :
    (item.message binary id).Carries id := by
  cases item with
  | control options =>
    show isString ((options.setMember "channel" (.string id)).getMember "channel") id
    rw [getMember_setMember_self]
    exact beq_self_eq_true id
  | payload payload => rfl

section

variable (ch : Channel) (defaultHost : Option Json) (id : String)

include ch defaultHost id

/-- The members of `open` that the channel sets itself stay as it sets them. -/
theorem Channel.getMember_openCommand
    {name : String} (hhost : name ≠ "host") (hbin : name ≠ "binary") :
    (ch.openCommand defaultHost id).getMember name =
      ((ch.options.setMember "command" (.string "open")).setMember "channel"
        (.string id)).getMember name := by
  unfold openCommand
  dsimp only
  -- the host first, then the mode
  have hset : ∀ command : JsonObject, (if ch.binary then command.setMember "binary" (.string "raw")
        else command.removeMember "binary").getMember name = command.getMember name := by
    intro command
    split
    · exact getMember_setMember_ne (Ne.symm hbin) _
    · exact getMember_removeMember_ne (Ne.symm hbin)
  rw [hset]
  split
  · rfl
  · split
    · exact getMember_setMember_ne (Ne.symm hhost) _
    · rfl

theorem Channel.openCommand_isCommand :
    hasCommand (ch.openCommand defaultHost id) "open" := by
  unfold hasCommand
  rw [getMember_openCommand _ _ _ (by decide) (by decide),
    getMember_setMember_ne (by decide), getMember_setMember_self]
  exact beq_self_eq_true "open"

theorem Channel.openCommand_carries :
    (Message.control (ch.openCommand defaultHost id)).Carries id := by
  show isString ((ch.openCommand defaultHost id).getMember "channel") id
  rw [getMember_openCommand _ _ _ (by decide) (by decide), getMember_setMember_self]
  exact beq_self_eq_true id

/-! ## The discipline -/

end

/-- What a channel owes to the other end of its transport. -/
structure Disciplined (ch : Channel) : Prop where
  /-- Nothing, or `open` and then every call, in the order of the calls. -/
  order : ch.handed = [] ∨ ∃ id defaultHost, ch.id = some id ∧
    ch.handed = .control (ch.openCommand defaultHost id) :: ch.calls.map (·.message ch.binary id)
  opensFirst : ∀ message ∈ ch.handed.head?, message.isCommand "open"
  opensOnce : ∀ message ∈ ch.handed.tail, message.isCommand "open" = false
  doneLast : ch.handed.Pairwise fun a b => a.isCommand "done" → b.isPayload = false
  closeLast : ch.handed.Pairwise fun a _ => a.isCommand "close" = false
  carries : ∀ message ∈ ch.handed, ∃ id, ch.id = some id ∧ message.Carries id
  /-- The `close` event comes once at most, and nothing is handed over after it. -/
  closesOnce : ch.closeEvents = [] ∨ ch.closeEvents = [ch.handed.length]

/-- What the calls on a channel that is not closed can be. -/
structure Fits (calls : List Item) (sentDone : Bool) : Prop where
  notOpen : ∀ item ∈ calls, item.isCommand "open" = false
  notClose : ∀ item ∈ calls, item.isCommand "close" = false
  doneLast : calls.Pairwise fun a b => a.isCommand "done" → b.isPayload = false
  sentDone : sentDone = false → ∀ item ∈ calls, item.isCommand "done" = false

/-- What was handed over since the channel was opened. -/
def Channel.Opened (ch : Channel) (id : String) : Prop :=
  ∃ defaultHost, ch.handed =
    .control (ch.openCommand defaultHost id) :: ch.calls.map (·.message ch.binary id)

/-- How far a channel is. -/
inductive Stage (ch : Channel) : Prop where
  | waiting (transport : ch.transport = false) (closed : ch.closed = none) (id : ch.id = none)
      (handed : ch.handed = []) (queue : ch.queue = ch.calls) (fits : Fits ch.calls ch.sentDone)
      (closeEvents : ch.closeEvents = [])
  | dropped (closed : ch.closed.isSome) (id : ch.id = none) (handed : ch.handed = [])
      (closeEvents : ch.closeEvents = [0])
  | opened (id : String) (transport : ch.transport) (closed : ch.closed = none)
      (hid : ch.id = some id) (handed : ch.Opened id) (fits : Fits ch.calls ch.sentDone)
      (closeEvents : ch.closeEvents = [])
  | closed (id : String) (transport : ch.transport) (closed : ch.closed.isSome)
      (hid : ch.id = some id) (handed : ch.Opened id) (kept : List Item)
      (fits : Fits kept ch.sentDone)
      (calls : ch.calls = kept ∨ ∃ options, hasCommand options "close" ∧
        ch.calls = kept ++ [.control options])
      (closeEvents : ch.closeEvents = [ch.handed.length])

namespace Fits

variable {calls : List Item} {sentDone : Bool}

theorem nil (sentDone : Bool) : Fits [] sentDone :=
  ⟨fun _ h => (nomatch h), fun _ h => (nomatch h), .nil, fun _ _ h => (nomatch h)⟩

theorem payload (h : Fits calls sentDone) (hdone : sentDone = false) (payload : Payload) :
    Fits (calls ++ [.payload payload]) sentDone where
  notOpen item hitem := by
    rcases mem_append.mp hitem with hitem | hitem
    · exact h.notOpen item hitem
    · rw [mem_singleton.mp hitem]
      rfl
  notClose item hitem := by
    rcases mem_append.mp hitem with hitem | hitem
    · exact h.notClose item hitem
    · rw [mem_singleton.mp hitem]
      rfl
  doneLast := by
    refine pairwise_append.mpr ⟨h.doneLast, pairwise_singleton _ _, ?_⟩
    intro a ha b _ hisDone
    exact absurd (hisDone.symm.trans (h.sentDone hdone a ha)) (by decide)
  sentDone hnot item hitem := by
    rcases mem_append.mp hitem with hitem | hitem
    · exact h.sentDone hnot item hitem
    · rw [mem_singleton.mp hitem]
      rfl

theorem control (h : Fits calls sentDone) {options : JsonObject} {sentDone' : Bool}
    (hopen : hasCommand options "open" = false) (hclose : hasCommand options "close" = false)
    (hdone : sentDone' = false → sentDone = false ∧ hasCommand options "done" = false) :
    Fits (calls ++ [.control options]) sentDone' where
  notOpen item hitem := by
    rcases mem_append.mp hitem with hitem | hitem
    · exact h.notOpen item hitem
    · rw [mem_singleton.mp hitem]
      exact hopen
  notClose item hitem := by
    rcases mem_append.mp hitem with hitem | hitem
    · exact h.notClose item hitem
    · rw [mem_singleton.mp hitem]
      exact hclose
  doneLast := by
    refine pairwise_append.mpr ⟨h.doneLast, pairwise_singleton _ _, ?_⟩
    intro a _ b hb _
    rw [mem_singleton.mp hb]
    rfl
  sentDone hnot item hitem := by
    rcases mem_append.mp hitem with hitem | hitem
    · exact h.sentDone (hdone hnot).1 item hitem
    · rw [mem_singleton.mp hitem]
      exact (hdone hnot).2

end Fits

/-- What an open channel handed over is in order. -/
theorem Channel.Opened.disciplined {ch : Channel} {id : String} (h : ch.Opened id)
    (hid : ch.id = some id) {kept : List Item} {sentDone : Bool} (hfits : Fits kept sentDone)
    (hcalls : ch.calls = kept ∨ ∃ options, hasCommand options "close" ∧
      ch.calls = kept ++ [.control options])
    (hevents : ch.closeEvents = [] ∨ ch.closeEvents = [ch.handed.length]) :
    Disciplined ch := by
  obtain ⟨defaultHost, hhanded⟩ := h
  have hopen := ch.openCommand_isCommand defaultHost id
  -- the `open` is neither a `done` nor a `close`
  have hfirst : ∀ command, command ≠ "open" →
      (Message.control (ch.openCommand defaultHost id)).isCommand command = false :=
    fun command hne => hasCommand_ne hopen (Ne.symm hne)
  -- the last call may be a `close`, and the others are not
  have hclsg : ∀ item ∈ ch.calls, item.isCommand "open" = false := by
    intro item hitem
    rcases hcalls with hcalls | ⟨options, hclose, hcalls⟩
    · exact hfits.notOpen item (hcalls ▸ hitem)
    rw [hcalls] at hitem
    rcases mem_append.mp hitem with hitem | hitem
    · exact hfits.notOpen item hitem
    · rw [mem_singleton.mp hitem]
      exact hasCommand_ne hclose (by decide)
  have hdone : ch.calls.Pairwise fun a b => a.isCommand "done" → b.isPayload = false := by
    rcases hcalls with hcalls | ⟨options, -, hcalls⟩
    · exact hcalls ▸ hfits.doneLast
    rw [hcalls]
    refine pairwise_append.mpr ⟨hfits.doneLast, pairwise_singleton _ _, ?_⟩
    intro a _ b hb _
    rw [mem_singleton.mp hb]
    rfl
  have hlast : ch.calls.Pairwise fun a _ => a.isCommand "close" = false := by
    have hkept : kept.Pairwise fun a _ => a.isCommand "close" = false :=
      pairwise_of_forall_mem_list fun a ha _ _ => hfits.notClose a ha
    rcases hcalls with hcalls | ⟨options, -, hcalls⟩
    · exact hcalls ▸ hkept
    · rw [hcalls]
      exact pairwise_append.mpr ⟨hkept, pairwise_singleton _ _,
        fun a ha _ _ => hfits.notClose a ha⟩
  refine ⟨.inr ⟨id, defaultHost, hid, hhanded⟩, ?_, ?_, ?_, ?_, ?_, hevents⟩
  · intro message hmsg
    rw [hhanded] at hmsg
    obtain rfl := some.inj hmsg
    exact hopen
  · intro message hmsg
    rw [hhanded] at hmsg
    obtain ⟨item, hitem, rfl⟩ := mem_map.mp hmsg
    rw [Item.isCommand_message]
    exact hclsg item hitem
  · rw [hhanded]
    refine pairwise_cons.mpr ⟨fun _ _ hisDone => ?_, ?_⟩
    · exact absurd (hisDone.symm.trans (hfirst "done" (by decide))) (by decide)
    · refine pairwise_map.mpr (hdone.imp fun himp => ?_)
      rw [Item.isCommand_message, Item.isPayload_message]
      exact himp
  · rw [hhanded]
    refine pairwise_cons.mpr ⟨fun _ _ => hfirst "close" (by decide), ?_⟩
    refine pairwise_map.mpr (hlast.imp fun himp => ?_)
    rw [Item.isCommand_message]
    exact himp
  intro message hmsg
  refine ⟨id, hid, ?_⟩
  rw [hhanded] at hmsg
  rcases mem_cons.mp hmsg with rfl | hmsg
  · exact ch.openCommand_carries defaultHost id
  · obtain ⟨item, -, rfl⟩ := mem_map.mp hmsg
    exact item.carries_message _ _

theorem Stage.disciplined {ch : Channel} (h : Stage ch) : Disciplined ch := by
  -- a channel that has handed nothing over owes nothing
  have hno : ch.handed = [] → (ch.closeEvents = [] ∨ ch.closeEvents = [0]) →
      Disciplined ch := by
    intro hhanded hevents
    refine ⟨.inl hhanded, ?_, ?_, ?_, ?_, ?_, ?_⟩
    all_goals rw [hhanded]
    · exact nofun
    · exact nofun
    · exact .nil
    · exact .nil
    · exact nofun
    · exact hevents
  cases h with
  | waiting transport closed id handed queue fits closeEvents =>
    exact hno handed (.inl closeEvents)
  | dropped closed id handed closeEvents => exact hno handed (.inr closeEvents)
  | opened id transport closed hid handed fits closeEvents =>
    exact handed.disciplined hid fits (.inl rfl) (.inl closeEvents)
  | closed id transport closed hid handed kept fits calls closeEvents =>
    exact handed.disciplined hid fits calls (.inr closeEvents)

/-! ## What the functions of a channel do to its stage -/

theorem Channel.drainItem_eq {x : Channel × Transport} {id : String} (hid : x.1.id = some id)
    (item : Item) :
    (drainItem x item).1 =
      { x.1 with handed := x.1.handed ++ [item.message x.1.binary id] } := by
  cases item with
  | control options =>
    show { x.1 with handed := x.1.handed ++ [Message.control (options.setMember "channel"
      (idValue x.1.id))] } = _
    rw [hid]
    rfl
  | payload payload =>
    unfold drainItem Channel.sendPayload
    dsimp only
    rw [hid]
    rfl

/-- The queue is handed over in its order. -/
theorem Channel.foldl_drainItem {x : Channel × Transport} {id : String}
    (hid : x.1.id = some id) (queue : List Item) :
    (queue.foldl drainItem x).1 =
      { x.1 with handed := x.1.handed ++ queue.map (·.message x.1.binary id) } := by
  induction queue generalizing x with
  | nil => simp
  | cons item queue ih =>
    have hitem := drainItem_eq hid item
    have hnext : (drainItem x item).1.id = some id := by
      rw [hitem]
      exact hid
    rw [foldl_cons, ih hnext, hitem]
    simp

namespace Stage

variable {x : Channel × Transport}

theorem make (options : JsonObject) (home : Nat) : Stage (Channel.make options home) :=
  .waiting rfl rfl rfl rfl rfl (.nil _) rfl

/-- The callback of the transport opens a channel that was not closed before. -/
theorem onTransport (h : Stage x.1) (huncal : x.1.transport = false) (c : Nat)
    (defaultHost : Option Json) : Stage (Channel.onTransport c defaultHost x).1 := by
  unfold Channel.onTransport
  dsimp only
  cases h with
  | waiting transport closed id handed queue fits closeEvents =>
    rw [if_neg (by simp [closed])]
    rw [@Channel.foldl_drainItem _ x.2.nextId rfl]
    refine .opened x.2.nextId rfl closed rfl ⟨defaultHost, ?_⟩ fits closeEvents
    show (x.1.handed ++ [_]) ++ x.1.queue.map _ = _
    rw [handed, queue]
    rfl
  | dropped closed id handed closeEvents =>
    rw [if_pos closed]
    exact .dropped closed id handed closeEvents
  | opened id transport | closed id transport => exact nomatch (transport.symm.trans huncal)

/-- A payload is handed over or queued, as long as no `done` was. -/
theorem send (h : Stage x.1) (message : Payload) : Stage (Channel.send x message).1 := by
  unfold Channel.send
  split
  · exact h
  rename_i hclos
  split
  · exact h
  rename_i hdone
  have hnot : x.1.sentDone = false := by simpa using hdone
  cases h with
  | waiting transport closed id handed queue fits closeEvents =>
    dsimp only
    rw [if_pos (by simp [transport])]
    exact .waiting transport closed id handed (congrArg (· ++ _) queue)
      (fits.payload hnot message) closeEvents
  | dropped closed => exact absurd closed hclos
  | opened id transport closed hid handed fits closeEvents =>
    dsimp only
    rw [if_neg (by simp [transport])]
    obtain ⟨defaultHost, hhanded⟩ := handed
    refine .opened id transport closed hid ⟨defaultHost, ?_⟩ (fits.payload hnot message)
      closeEvents
    show x.1.handed ++ [.payload x.1.id _] = _ :: (x.1.calls ++ [Item.payload message]).map _
    rw [hhanded, hid, map_append]
    rfl
  | closed id transport closed => exact absurd closed hclos

/-- Options with the channel in them are the message that is handed over. -/
theorem message_setMember (id : String) (options : JsonObject) (value : Json) :
    (Item.control (options.setMember "channel" value)).message binary id =
      .control (options.setMember "channel" (.string id)) :=
  congrArg Message.control (setMember_setMember _ _ _ _)

section

variable (h : Stage x.1)

include h

/-- A control message of an open channel or of one that waits; the caller of `queueControl` may
    have noted a `done` before. -/
theorem queueControl (hclos : x.1.closed = none) {options : JsonObject}
    (hopen : hasCommand options "open" = false) (hclose : hasCommand options "close" = false)
    {sentDone : Bool}
    (hdone : sentDone = false → x.1.sentDone = false ∧ hasCommand options "done" = false) :
    Stage (Channel.queueControl ({ x.1 with sentDone }, x.2)
      (options.setMember "channel" (idValue x.1.id))).1 := by
  have hne : ∀ command, hasCommand (options.setMember "channel" (idValue x.1.id)) command =
      hasCommand options command := hasCommand_setMember_ne (by decide) _ _
  have hfits : ∀ {calls}, Fits calls x.1.sentDone →
      Fits (calls ++ [.control (options.setMember "channel" (idValue x.1.id))]) sentDone := by
    intro calls fits
    exact fits.control ((hne _).trans hopen) ((hne _).trans hclose)
      fun hnot => ⟨(hdone hnot).1, (hne _).trans (hdone hnot).2⟩
  unfold Channel.queueControl
  dsimp only
  cases h with
  | waiting transport closed id handed queue fits closeEvents =>
    rw [if_pos (by simp [transport])]
    exact .waiting transport closed id handed (congrArg (· ++ _) queue) (hfits fits) closeEvents
  | dropped closed => exact nomatch (hclos ▸ closed)
  | opened id transport closed hid handed fits closeEvents =>
    rw [if_neg (by simp [transport])]
    obtain ⟨defaultHost, hhanded⟩ := handed
    refine .opened id transport closed hid ⟨defaultHost, ?_⟩ (hfits fits) closeEvents
    show x.1.handed ++ [.control _] = _ :: (x.1.calls ++ [Item.control _]).map _
    rw [hhanded, map_append, map_singleton, message_setMember, hid]
    rfl
  | closed id transport closed => exact nomatch (hclos ▸ closed)

/-- Before the transport is there, a closed channel may note more calls, none of which will be
    handed over. -/
theorem queueControl_dropped (hclos : x.1.closed.isSome)
    (huncal : x.1.transport = false) (options : JsonObject) (sentDone : Bool) :
    Stage (Channel.queueControl ({ x.1 with sentDone }, x.2) options).1 := by
  unfold Channel.queueControl
  dsimp only
  rw [if_pos (by simp [huncal])]
  cases h with
  | waiting transport closed => exact nomatch (closed ▸ hclos)
  | dropped closed id handed closeEvents => exact .dropped closed id handed closeEvents
  | opened id transport | closed id transport => exact nomatch (transport.symm.trans huncal)

/-- The options of `control` always have a command. -/
theorem control (options : Option JsonObject)
    (hclos : x.1.closed = none ∨ x.1.transport = false)
    (hopen : hasCommand (controlOptions options) "open" = false)
    (hclose : hasCommand (controlOptions options) "close" = false) :
    Stage (Channel.control x options).1 := by
  have hsame : Channel.control x options = Channel.queueControl
      ({ x.1 with sentDone := if hasCommand (controlOptions options) "done" then true
          else x.1.sentDone }, x.2)
      ((controlOptions options).setMember "channel" (idValue x.1.id)) := by
    unfold Channel.control
    dsimp only
    split <;> rfl
  rw [hsame]
  cases hwas : x.1.closed with
  | none =>
    refine h.queueControl hwas hopen hclose fun hnot => ?_
    split at hnot
    · exact nomatch hnot
    · rename_i hdone
      exact ⟨hnot, by simpa using hdone⟩
  | some data =>
    refine h.queueControl_dropped (by simp [hwas]) ?_ _ _
    rcases hclos with hnone | huncal
    · exact nomatch hwas.symm.trans hnone
    · exact huncal

/-- A close from the other end, of a channel that is open. -/
theorem onClose (htrans : x.1.transport)
    (hclos : x.1.closed = none) (data : JsonObject) : Stage (Channel.onClose x data).1 := by
  cases h with
  | waiting transport => exact nomatch (htrans.symm.trans transport)
  | dropped closed => exact nomatch (hclos ▸ closed)
  | opened id transport closed hid handed fits closeEvents =>
    exact .closed id transport rfl hid handed _ fits (.inl rfl)
      (congrArg (· ++ [x.1.handed.length]) closeEvents)
  | closed id transport closed => exact nomatch (hclos ▸ closed)

/-- `close` hands the `close` over, or gives up a channel that waits. -/
theorem close (options : CloseOptions) :
    Stage (Channel.close x options).1 := by
  unfold Channel.close
  split
  · exact h
  rename_i hclos
  dsimp only
  unfold Channel.queueControl
  dsimp only
  cases h with
  | waiting transport closed id handed queue fits closeEvents =>
    rw [if_pos (by simp [transport])]
    refine .dropped rfl id handed ?_
    show x.1.closeEvents ++ [x.1.handed.length] = [0]
    rw [closeEvents, handed]
    rfl
  | dropped closed => exact absurd closed hclos
  | opened id transport closed hid handed fits closeEvents =>
    rw [if_neg (by simp [transport])]
    obtain ⟨defaultHost, hhanded⟩ := handed
    refine .closed id transport rfl hid ⟨defaultHost, ?_⟩ _ fits
      (.inr ⟨_, ?_, rfl⟩) (congrArg (· ++ [_]) closeEvents)
    · show x.1.handed ++ [.control _] = _ :: (x.1.calls ++ [Item.control _]).map _
      rw [hhanded, map_append, map_singleton, message_setMember, hid]
      rfl
    · rw [hasCommand_setMember_ne (by decide)]
      exact hasCommand_setMember _ _
  | closed id transport closed => exact absurd closed hclos

theorem onMessage : Stage (Channel.onMessage x).1 := by
  unfold Channel.onMessage
  split
  · exact h.close _
  · exact h

/-- A control message for a channel that is open. -/
theorem onControl (htrans : x.1.transport)
    (hclos : x.1.closed = none) (data : JsonObject) : Stage (Channel.onControl x data).1 := by
  unfold Channel.onControl
  split
  · exact h.onClose htrans hclos data
  split
  · exact h.close _
  split
  · cases h with
    | waiting transport => exact nomatch (htrans.symm.trans transport)
    | dropped closed => exact nomatch (hclos ▸ closed)
    | opened id transport closed hid handed fits closeEvents =>
      exact .opened id transport closed hid handed fits closeEvents
    | closed id transport closed => exact nomatch (hclos ▸ closed)
  · exact h

end

end Stage

/-! ## Whole runs -/

/-- The invariant of a run: the tables are right, and every channel is at some stage. -/
structure InStage (s : State) : Prop where
  wired : Wired s
  stages : ∀ {c : Nat} {ch : Channel}, s.channels[c]? = some ch → Stage ch

namespace InStage

variable {s : State}

/-- A function of one channel, in a stage that it keeps. -/
theorem onChannel (h : ∀ {c : Nat} {ch : Channel}, s.channels[c]? = some ch → Stage ch)
    {c : Nat} {f : Channel × Transport → Channel × Transport}
    (hf : ∀ {ch tr}, s.channels[c]? = some ch → s.transports[ch.home]? = some tr →
      Stage (f (ch, tr)).1)
    {c' : Nat} {ch' : Channel} (hget : (s.onChannel c f).channels[c']? = some ch') :
    Stage ch' := by
  unfold State.onChannel at hget
  split at hget
  · exact h hget
  rename_i ch hch
  split at hget
  · exact h hget
  rename_i tr htr
  have hget' : (s.channels.set c (f (ch, tr)).1)[c']? = some ch' := hget
  rw [getElem?_set] at hget'
  split at hget'
  · rename_i heq
    split at hget'
    · obtain rfl := some.inj hget'
      exact hf hch htr
    · exact nomatch hget'
  · exact h hget'

theorem of_channels {s' : State} (h : InStage s) (hwired : Wired s')
    (hchans : s'.channels = s.channels) : InStage s' :=
  ⟨hwired, fun hch => h.stages (hchans ▸ hch)⟩

theorem ensureDefault_channels (s : State) : s.ensureDefault.channels = s.channels := by
  unfold State.ensureDefault
  split <;> rfl

theorem readyForChannels_channels (s : State) (t : Nat) :
    (s.readyForChannels t).channels = s.channels := by
  unfold State.readyForChannels
  split
  · rfl
  · split <;> rfl

theorem keeps : Keeps InStage fun _ _ _ => True where
  same h hchans htrs hstack hdefault :=
    h.of_channels (Wired.keeps.same h.wired hchans htrs hstack hdefault) hchans
  quiet hg h := h.of_channels (Wired.keeps.quiet hg h.wired) rfl
  seed hseed h := h.of_channels (Wired.keeps.seed hseed h.wired) rfl
  listen htr hready hlsn h :=
    h.of_channels (Wired.keeps.listen htr hready hlsn h.wired) rfl
  ensureDefault h := h.of_channels h.wired.ensureDefault (ensureDefault_channels _)
  ready t h := h.of_channels (h.wired.readyForChannels t) (readyForChannels_channels _ t)
  push htask h := h.of_channels (Wired.keeps.push htask h.wired) rfl
  pop hstack htask h := h.of_channels (Wired.keeps.pop hstack htask h.wired) rfl
  dropClose hstack h := h.of_channels (Wired.keeps.dropClose hstack h.wired) rfl
  heard hstack hlsn h := h.of_channels (Wired.keeps.heard hstack hlsn h.wired) rfl
  start hstack h :=
    h.of_channels (Wired.keeps.start hstack h.wired) (readyForChannels_channels _ _)
  call c hcall h := by
    refine ⟨Wired.keeps.call c hcall h.wired, onChannel h.stages fun hch _ => ?_⟩
    cases hcall with
    | send message => exact Stage.send (h.stages hch) message
    | close options => exact Stage.close (h.stages hch) options
  deliver htr hlook hdel h := by
    refine ⟨Wired.keeps.deliver htr hlook hdel h.wired, onChannel h.stages ?_⟩
    intro ch tr' hch _
    obtain ⟨old, hold, -, -, htrans, hclos⟩ := h.wired.entries htr hlook
    obtain rfl := some.inj (hold.symm.trans hch)
    cases hdel with
    | message => exact Stage.onMessage (h.stages hch)
    | control data => exact Stage.onControl (h.stages hch) htrans hclos data

end InStage

/-- `control` is not called once a channel is closed, unless the channel never opens, and it
    does not send the commands `open` and `close`. -/
def CallsControl (s : State) : Event → Prop
  | .control c options => ∀ ch, s.channels[c]? = some ch →
    (ch.closed = none ∨ ch.transport = false) ∧ hasCommand (controlOptions options) "open" = false ∧
      hasCommand (controlOptions options) "close" = false
  | _ => True

/-- The callback of a channel that does not wait any more. -/
theorem Calling.stages {s : State} {c : Nat} (h : Calling c s)
    (hstages : ∀ {c : Nat} {ch : Channel}, s.channels[c]? = some ch → Stage ch)
    (defaultHost : Option Json) {c' : Nat} {ch' : Channel}
    (hget : (s.onChannel c (Channel.onTransport c defaultHost)).channels[c']? = some ch') :
    Stage ch' := by
  refine InStage.onChannel hstages ?_ hget
  intro ch tr hch _
  obtain ⟨old, hold, huncal⟩ := h.called
  obtain rfl := mem_unique hold hch
  exact Stage.onTransport (x := (old, tr)) (hstages hch) huncal c defaultHost

theorem InStage.createChannel {s : State} (h : InStage s) (options : JsonObject) :
    InStage (s.createChannel options) := by
  have hdef : InStage s.ensureDefault :=
    h.of_channels h.wired.ensureDefault (InStage.ensureDefault_channels s)
  refine ⟨h.wired.createChannel options, ?_⟩
  intro c ch hget
  unfold State.createChannel at hget
  dsimp only at hget
  split at hget
  · exact hdef.stages hget
  rename_i t ht
  have hcalling := hdef.wired.calling_new options ht
  have hstages : ∀ {c : Nat} {ch : Channel},
      (s.ensureDefault.channels ++ [Channel.make options t])[c]? = some ch → Stage ch := by
    intro c ch hch
    rw [getElem?_append] at hch
    split at hch
    · exact hdef.stages hch
    rw [getElem?_singleton] at hch
    split at hch
    · obtain rfl := some.inj hch
      exact .make options t
    · exact nomatch hch
  unfold State.whenReady at hget
  split at hget
  · exact hstages hget
  · split at hget
    · exact hcalling.stages hstages _ hget
    · exact hstages hget

/-- Every admitted step keeps the stages. -/
theorem InStage.step {s : State} {e : Event} (h : InStage s) (hok : CallsControl s e) :
    InStage (Page.step s e) := by
  refine InStage.keeps.step (fun _ _ _ _ _ _ => trivial) (fun options _ => h.createChannel options)
    ?_ ?_ h
  · rintro c options rfl
    refine ⟨h.wired.onChannel c fun x => effect_control x options,
      InStage.onChannel h.stages fun hch _ => ?_⟩
    obtain ⟨hclos, hopen, hclose⟩ := hok _ hch
    exact Stage.control (h.stages hch) options hclos hopen hclose
  rintro task stack rfl hstack hspec
  have hwired : Wired s.resume := h.wired.step .resume
  unfold State.resume at hwired ⊢
  rw [hstack] at hwired ⊢
  cases task with
  | listeners t rest =>
    cases rest with
    | nil => exact hspec.elim
    | cons listener rest =>
      cases listener with
      | channel c =>
        exact ⟨hwired, (h.wired.calling_next hstack).stages h.stages s.defaultHost⟩
      | control data | callback => exact hspec.elim
  | startBroadcast t options =>
    dsimp only at hwired ⊢
    split
    · exact ⟨h.wired.stack rfl rfl (by simp [hstack, Task.waiting]) (.inl rfl), h.stages⟩
    · rename_i htr
      simp only [htr] at hwired
      exact ⟨hwired, h.stages⟩
  | broadcast t options keys =>
    cases keys with
    | nil => exact ⟨hwired, h.stages⟩
    | cons key keys =>
      have hnext : InStage { s with stack := .broadcast t options keys :: stack } :=
        ⟨h.wired.stack rfl rfl (by simp [hstack, Task.waiting]) (.inl rfl), h.stages⟩
      dsimp only
      split
      · exact hnext
      rename_i tr htr
      split
      · exact hnext
      · rename_i c hlook
        exact InStage.keeps.deliver htr hlook (.control options) hnext
  | close t options | initialized t | forget => exact hspec.elim

theorem InStage.new (socket : Socket) : InStage { socket } :=
  ⟨.new socket, fun hch => (nomatch hch)⟩

/-- **Every channel hands its calls over in order.**  In a run in which `control` is not called
    on a closed channel, a channel hands over nothing, or one `open` and then its calls; no
    payload follows a `done`, nothing follows a `close` or the `close` event, which comes once
    at most. -/
theorem run_disciplined (socket : Socket) {es : List Event}
    (hok : RunOk step CallsControl { socket } es) {c : Nat} {ch : Channel}
    (hch : (run step { socket } es).channels[c]? = some ch) : Disciplined ch := by
  have hstage : InStage (run step { socket } es) :=
    run_invariant InStage (fun _ _ h => h.step) (.new socket) hok
  exact (hstage.stages hch).disciplined

/-- The `init` message of the server. -/
def serverInit : JsonObject := [("command", .string "init"), ("version", .int 1)]

/-- A message and a `done` are queued, and the channel is closed once it is open. -/
def queuedCalls : List Event :=
  [.create [("payload", .string "echo")], .send 0 (.string "hello"),
    .control 0 (some [("command", .string "done")]), .receivedControl 0 serverInit, .resume,
    .resume, .resume, .close 0 .none]

theorem run_disciplined_queued : ∃ ch, (run step { socket := .own } queuedCalls).channels[0]? =
    some ch ∧ ch.handed.length = 4 ∧ Disciplined ch := by
  have hrun : (run step { socket := .own } queuedCalls).channels[0]?.map
      (fun ch => ch.handed.length) = some 4 := by decide
  obtain ⟨ch, hch, hlength⟩ := map_eq_some_iff.mp hrun
  refine ⟨ch, hch, hlength, @run_disciplined .own queuedCalls ?_ 0 ch hch⟩
  refine ⟨trivial, trivial, ?_, trivial, trivial, trivial, trivial, trivial, trivial⟩
  intro ch' hch'
  obtain rfl := some.inj hch'
  exact ⟨.inl rfl, by decide, by decide⟩

/-- A channel is closed, and `control` is called after that. -/
def lateControl : List Event :=
  [.create [("payload", .string "echo")], .receivedControl 0 serverInit, .resume, .resume,
    .resume, .close 0 .none, .control 0 none]

/-- The control message of a channel that was closed goes out behind its `close`. -/
theorem not_disciplined_late_control : ∃ ch,
    (run step { socket := .own } lateControl).channels[0]? = some ch ∧ ¬ Disciplined ch := by
  have hrun : (run step { socket := .own } lateControl).channels[0]?.map
      (fun ch => (ch.closeEvents, ch.handed.length)) = some ([2], 3) := by decide
  obtain ⟨ch, hch, hpair⟩ := map_eq_some_iff.mp hrun
  refine ⟨ch, hch, fun h => ?_⟩
  have hevents : ch.closeEvents = [2] := congrArg Prod.fst hpair
  have hlength : ch.handed.length = 3 := congrArg Prod.snd hpair
  rcases h.closesOnce with hnone | hone
  · exact nomatch (hevents.symm.trans hnone)
  · rw [hevents, hlength] at hone
    exact nomatch hone

end Cockpit.Page
