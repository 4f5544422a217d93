import Cockpit.Bridge.RouterRun

namespace Cockpit

open Lib JsonObject Json

/-!
# What `process_open` can do

An "open" message that reaches the rules has one of a few outcomes (`Bridge.Outcome`), whatever
the rules and the peers are.  This is said once here, and every invariant of a bridge is derived
from it.

* `Bridge.offer_outcome` — the loop over the rules, by induction on them;
* `Bridge.opening` — the whole of `process_open`, where the group that is read is the one that
  the client sent.
-/

namespace Bridge

/-! ### The outcomes of an "open" message -/

/-- What can have become of an "open" message that was offered to the rules.  Peers may have been
    asked in vain before, so their state is left open. -/
inductive Outcome (S : Setup) (options : JsonObject) (b : Bridge) (channel : String) :
    Bridge → Prop where
  /-- No rule takes it. -/
  | dropped (peers : Nat → Peer) (connected : List Nat) (spawns : Nat) :
      Outcome S options b channel
        { b with peers := peers, connected := connected, spawns := spawns }
  /-- A payload rule takes it, but the "group" cannot be read. -/
  | unread (peers : Nat → Peer) (connected : List Nat) (spawns : Nat)
      (hgroup : (getString options "group" (some "default")).join = none) :
      Outcome S options b channel
        { b with peers := peers, connected := connected, spawns := spawns, undefined := true }
  /-- A local channel without a group, which reports that the payload is not supported. -/
  | unsupported (peers : Nat → Peer) (connected : List Nat) (spawns : Nat) :
      Outcome S options b channel
        { b with
          peers := peers, connected := connected, spawns := spawns
          channels := b.channels ++ [channel]
          transport := b.transport.freezeChannel S.alloc channel }
  /-- A local channel in a group. -/
  | created (peers : Nat → Peer) (connected : List Nat) (spawns : Nat) (group : String) :
      Outcome S options b channel
        { b with
          peers := peers, connected := connected, spawns := spawns
          fences := if group = "fence" then b.fences.insert channel else b.fences
          groups := b.groups.insert channel group
          channels := b.channels ++ [channel]
          transport := b.transport.freezeChannel S.alloc channel }
  /-- A peer that has ended with a problem answers. -/
  | answered (peers : Nat → Peer) (connected : List Nat) (spawns : Nat) (id : Nat) :
      Outcome S options b channel
        { b with
          peers := peers, connected := connected, spawns := spawns
          log := b.log ++ [.closed channel (.peer id)] }
  /-- A peer hands it to its process. -/
  | given (peers : Nat → Peer) (connected : List Nat) (spawns : Nat) (id : Nat) :
      Outcome S options b channel
        { b with
          peers := peers, connected := connected, spawns := spawns
          given := b.given ++ [(id, channel)] }
  /-- A peer whose process is not ready puts it back into the transport. -/
  | held (peers : Nat → Peer) (connected : List Nat) (spawns : Nat) (data : Bytes) :
      Outcome S options b channel
        { b with
          peers := peers, connected := connected, spawns := spawns
          transport := (b.transport.freezeChannel S.alloc channel).emit (some channel)
            (.control (some "open") options data) }

/-- What peers that refuse have done to themselves makes no difference. -/
theorem Outcome.of_refused {S : Setup} {options : JsonObject} {b : Bridge} {channel : String}
    {peers : Nat → Peer} {connected : List Nat} {spawns : Nat} {b' : Bridge}
    (h : Outcome S options { b with peers := peers, connected := connected, spawns := spawns }
      channel b') : Outcome S options b channel b' := by
  cases h with
  | dropped p c s => exact .dropped p c s
  | unread p c s hgroup => exact .unread p c s hgroup
  | unsupported p c s => exact .unsupported p c s
  | created p c s group => exact .created p c s group
  | answered p c s id => exact .answered p c s id
  | given p c s id => exact .given p c s id
  | held p c s data => exact .held p c s data

/-- `cockpit_peer_handle` takes the message, or changes nothing but itself. -/
theorem peerHandle_outcome (S : Setup) (options : JsonObject) (b : Bridge) (id : Nat)
    (channel : String) :
    ((b.peerHandle S id channel options).2 ∧
      Outcome S options b channel (b.peerHandle S id channel options).1) ∨
    ((b.peerHandle S id channel options).2 = false ∧ ∃ peers connected spawns,
      (b.peerHandle S id channel options).1 =
        { b with peers := peers, connected := connected, spawns := spawns }) := by
  unfold peerHandle
  dsimp only
  generalize (if (b.peers id).closed = true then b.peers id
    else (b.peers id).ensure (S.config id) (S.spawn b.spawns)) = peer
  by_cases hclos : peer.closed
  · simp only [if_pos hclos]
    cases peer.problem with
    | some _ => exact .inl ⟨rfl, .answered _ _ _ id⟩
    | none => exact .inr ⟨rfl, _, _, _, rfl⟩
  simp only [if_neg hclos]
  by_cases hinited : (peer.track channel).inited
  · simp only [if_pos hinited]
    exact .inl ⟨trivial, .given _ _ _ id⟩
  · simp only [if_neg hinited]
    exact .inl ⟨trivial, .held _ _ _ _⟩

/-- The loop over the rules. -/
theorem offer_outcome (S : Setup) (options : JsonObject) (channel : String) (rules : List RouterRule)
    (b : Bridge) : Outcome S options b channel (b.offer S channel options rules) := by
  induction rules generalizing b with
  | nil => exact .dropped b.peers b.connected b.spawns
  | cons rule rules ih =>
    rw [offer]
    split
    · cases hcall : rule.callback with
      | channel =>
        simp only [invoke, processOpenChannel]
        split
        · rename_i hgroup
          exact .unread b.peers b.connected b.spawns hgroup
        · exact .created b.peers b.connected b.spawns _
      | notSupported => exact .unsupported b.peers b.connected b.spawns
      | peer select =>
        simp only [invoke]
        rcases peerHandle_outcome S options b (select options) channel with
          ⟨htaken, hout⟩ | ⟨hrefu, peers, connected, spawns, heq⟩
        · generalize b.peerHandle S (select options) channel options = r at htaken hout ⊢
          obtain ⟨b', taken⟩ := r
          subst htaken
          exact hout
        generalize b.peerHandle S (select options) channel options = r at hrefu heq ⊢
        obtain ⟨b', taken⟩ := r
        subst hrefu heq
        exact (ih _).of_refused
    · exact ih b

/-- What `process_open` can do with the "open" message of `channel`. -/
inductive Opening (S : Setup) (b : Bridge) (channel : String) (options : JsonObject)
    (data : Bytes) : Bridge → Prop where
  /-- The channel is already open here. -/
  | reused (hopen : channel ∈ b.channels) :
      Opening S b channel options data { b with transportProblem := some "protocol-error" }
  /-- A fence is up. -/
  | blocked (hnew : channel ∉ b.channels) (hfences : b.fences ≠ []) :
      Opening S b channel options data
        { b with
          fenced := b.fenced ++ [channel]
          transport := (b.transport.freezeChannel S.alloc channel).emit (some channel)
            (.control (some "open") options data)
          log := b.log ++ [.blocked channel] }
  /-- It goes to the rules, with a group that the normalization has not touched. -/
  | offered (hnew : channel ∉ b.channels) (hfences : b.fences = [] ∨ channel ∈ b.fences)
      {normal : JsonObject}
      (hgroup : getString normal "group" (some "default") =
        getString options "group" (some "default"))
      {b' : Bridge} (hout : Outcome S normal (b.record (.offered channel)) channel b') :
      Opening S b channel options data b'

end Bridge

/-! ### Normalization leaves the group alone -/

/-- A member made up of "host-" and a key is not the group. -/
theorem hostKey_ne_group (key : String) : "host-" ++ key ≠ "group" := by
  intro h
  have hlist := congrArg String.toList h
  rw [String.toList_append] at hlist
  have hhead := congrArg List.head? hlist
  simp at hhead

theorem getMember_normalizeHost {initHost : String} {options normal : JsonObject}
    (h : normalizeHost initHost options = some normal) :
    normal.getMember "group" = options.getMember "group" := by
  unfold normalizeHost at h
  split at h
  · rename_i host _
    -- both ways to parse the host leave the group alone
    have hparsed : ∀ parsed : JsonObject × String,
        parsed.1.getMember "group" = options.getMember "group" →
        (if parsed.2 = initHost then some (parsed.1.removeMember "host")
          else if parsed.2 ≠ host then some (parsed.1.setStringMember "host" parsed.2)
          else some parsed.1) = some normal →
        normal.getMember "group" = options.getMember "group" := by
      intro parsed hgroup heq
      split at heq
      · rw [← Option.some.inj heq, getMember_removeMember_ne (by decide), hgroup]
      split at heq
      · rw [← Option.some.inj heq, setStringMember, getMember_setMember_ne (by decide), hgroup]
      · rw [← Option.some.inj heq, hgroup]
    refine hparsed _ ?_ h
    split
    · split
      · exact getMember_setMember_ne (hostKey_ne_group _) _
      · rfl
    · rfl
  · cases h

theorem getMember_normalizeHostParams (userName : String) (options : JsonObject) :
    (normalizeHostParams userName options).getMember "group" = options.getMember "group" := by
  have hremove : ∀ (c : Prop) [Decidable c] (o : JsonObject) (name : String), name ≠ "group" →
      (if c then o.removeMember name else o).getMember "group" = o.getMember "group" := by
    intro c _ o name hne
    split
    · exact getMember_removeMember_ne hne
    · rfl
  have hset : ∀ (c : Prop) [Decidable c] (o : JsonObject) (name value : String), name ≠ "group" →
      (if c then o.setStringMember name value else o).getMember "group" =
        o.getMember "group" := by
    intro c _ o name value hne
    split
    · exact getMember_setMember_ne hne _
    · rfl
  unfold normalizeHostParams
  rw [hset _ _ _ _ (by decide), hremove _ _ _ (by decide), hremove _ _ _ (by decide)]

/-- **What `process_open` does** with an "open" message of a channel. -/
theorem Bridge.opening (S : Setup) (b : Bridge) (host channel : String) (options : JsonObject)
    (data : Bytes) :
    Opening S b channel options data (b.processOpen S host (some channel) options data) := by
  unfold processOpen
  dsimp only
  by_cases hopen : channel ∈ b.channels
  · rw [if_pos hopen]
    exact .reused hopen
  rw [if_neg hopen]
  by_cases hfence : b.fences ≠ [] ∧ channel ∉ b.fences
  · rw [if_pos hfence]
    exact .blocked hopen hfence.1
  rw [if_neg hfence]
  have hfences : b.fences = [] ∨ channel ∈ b.fences := by
    by_cases hnil : b.fences = []
    · exact .inl hnil
    · exact .inr (by_contra fun hmem => hfence ⟨hnil, hmem⟩)
  cases hnormal : normalizeHost host options with
  | none =>
    exact .offered hopen hfences rfl
      (.unsupported (b.record (.offered channel)).peers b.connected b.spawns)
  | some normal =>
    refine .offered hopen hfences ?_ (offer_outcome S _ channel S.rules _)
    refine getString_congr ?_ _
    rw [getMember_normalizeHostParams, getMember_normalizeHost hnormal]

end Cockpit
