import Cockpit.Ws.Service

namespace Cockpit.Ws.WebService

open List

/-!
# Channels in the history of a web service

* `ChannelsClosed` — when a socket is destroyed, the bridge has been sent one "close" for each
  such channel of it;
* `channelsClosed_snoc` — what an entry has to meet for that to stay so.
-/

/-- A "close" that goes to the bridge for a channel. -/
def closes (channel : String) : Entry → Bool
  | .control _ options _ =>
    Json.getString options "command" none == some (some "close") &&
      Json.getString options "channel" none == some (some channel)
  | _ => false

/-- A "close" of a channel that comes from a WebSocket or from the bridge. -/
def closedBySide (channel : String) : Entry → Bool
  | .control (.relay i) options payload => closes channel (.control (.relay i) options payload)
  | .closed other => other == channel
  | _ => false

/-- A channel that was opened through a socket and has not been closed by either side; `between`
    is the history since then. -/
structure Live (log : List Entry) (i : Nat) (channel : String) (between : List Entry) :
    Prop where
  since : ∃ before, log = before ++ .opened i channel :: between
  unclosed : ∀ e ∈ between, closedBySide channel e = false

/-- When a socket is destroyed while the transport is open, each channel that was opened through
    it and not closed by either side has had one "close" sent to the bridge. -/
def ChannelsClosed (log : List Entry) : Prop :=
  ∀ (before between after : List Entry) (i : Nat) (channel : String),
    log = before ++ .opened i channel :: (between ++ .destroyed i true :: after) →
    (∀ e ∈ between, closedBySide channel e = false) → between.countP (closes channel) = 1

variable {log : List Entry} {e : Entry} {i : Nat} {channel : String} {between es : List Entry}

/-- One more entry opens a channel, or is part of the history since an opening. -/
theorem Live.snoc (h : Live (log ++ [e]) i channel between) :
    (between = [] ∧ e = .opened i channel) ∨ ∃ since, between = since ++ [e] ∧
      Live log i channel since ∧ closedBySide channel e = false := by
  obtain ⟨⟨before, hlog⟩, hunclosed⟩ := h
  cases between using List.reverseRecOn with
  | nil =>
    obtain ⟨-, he⟩ := append_inj' hlog rfl
    obtain rfl := head_eq_of_cons_eq he
    exact .inl ⟨rfl, rfl⟩
  | append_singleton since e' _ =>
    rw [← cons_append, ← append_assoc] at hlog
    obtain ⟨hrest, he⟩ := append_inj' hlog rfl
    obtain rfl := head_eq_of_cons_eq he
    exact .inr ⟨since, rfl, ⟨⟨before, hrest⟩,
      fun x hx => hunclosed x (mem_append_left _ hx)⟩,
      hunclosed e (mem_append_right _ (mem_singleton_self e))⟩

/-- Entries that open nothing are part of the history since an opening. -/
theorem Live.append
    (hes : ∀ e ∈ es, ∀ j other, e ≠ .opened j other) (h : Live (log ++ es) i channel between) :
    ∃ since, between = since ++ es ∧ Live log i channel since := by
  induction es using List.reverseRecOn generalizing between with
  | nil =>
    rw [append_nil] at h
    exact ⟨between, (append_nil _).symm, h⟩
  | append_singleton es e ih =>
    rw [← append_assoc] at h
    have hlast : e ∈ es ++ [e] := mem_append_right _ (mem_singleton_self e)
    rcases h.snoc with ⟨-, rfl⟩ | ⟨middle, rfl, hmiddle, -⟩
    · exact absurd rfl (hes _ hlast i channel)
    · obtain ⟨since, rfl, hsince⟩ :=
        ih (fun x hx => hes x (mem_append_left _ hx)) hmiddle
      exact ⟨since, append_assoc .., hsince⟩

/-- A destroyed socket must have its channels closed; nothing is asked of other entries. -/
theorem channelsClosed_snoc (h : ChannelsClosed log)
    (he : ∀ i, e = .destroyed i true → ∀ channel between, Live log i channel between →
      between.countP (closes channel) = 1) : ChannelsClosed (log ++ [e]) := by
  intro before between after i channel hlog hunclosed
  cases after using List.reverseRecOn with
  | nil =>
    rw [← cons_append, ← append_assoc] at hlog
    obtain ⟨hrest, hlast⟩ := append_inj' hlog rfl
    exact he i (head_eq_of_cons_eq hlast) channel between ⟨⟨before, hrest⟩, hunclosed⟩
  | append_singleton after e' _ =>
    have hsplit : log ++ [e] =
        (before ++ .opened i channel :: (between ++ .destroyed i true :: after)) ++ [e'] := by
      rw [hlog]
      simp only [append_assoc, cons_append]
    obtain ⟨hrest, -⟩ := append_inj' hsplit rfl
    exact h before between after i channel hrest hunclosed

/-- Nothing is asked of entries that destroy no socket. -/
theorem channelsClosed_append (h : ChannelsClosed log)
    (hes : ∀ e ∈ es, ∀ i, e ≠ .destroyed i true) : ChannelsClosed (log ++ es) := by
  induction es using List.reverseRecOn with
  | nil =>
    rw [append_nil]
    exact h
  | append_singleton es e ih =>
    rw [← append_assoc]
    refine channelsClosed_snoc (ih fun x hx => hes x (mem_append_left _ hx)) ?_
    intro i he
    exact absurd he (hes e (mem_append_right _ (mem_singleton_self e)) i)

/-! ## The messages of "closing" -/

theorem closes_disconnected (S : Setup) (channel other : String) :
    closes channel (disconnected S other) = (other == channel) := by
  show (true && some (some other) == some (some channel)) = (other == channel)
  rw [Bool.true_and]
  rfl

/-- A socket that closes sends one "close" for each of its channels, and no other. -/
theorem countP_disconnected (S : Setup) (channels : AList (fun _ : String => WebSocket.DataType))
    (channel : String) : (channels.keys.map (disconnected S)).countP (closes channel) =
      if channel ∈ channels then 1 else 0 := by
  have hcount : (channels.keys.map (disconnected S)).countP (closes channel) =
      channels.keys.count channel := by
    rw [countP_map, List.count]
    apply countP_congr
    intro other _
    rw [Function.comp_apply, closes_disconnected]
  rw [hcount]
  split
  · rename_i hmem
    exact count_eq_one_of_mem channels.nodupKeys (AList.mem_keys.mp hmem)
  · rename_i hnot
    exact count_eq_zero.mpr fun hmem => hnot (AList.mem_keys.mpr hmem)

end Cockpit.Ws.WebService
