import Cockpit.Ssh.Relay

namespace Cockpit.Ssh

open Lib List

/-!
# What a relay reports

* `History` — the histories that a proper relay has;
* `run_proper` — a run is proper throughout exactly when its steps meet the condition.
-/

namespace Relay

/-! ### The statement -/

def Entry.isFree : Entry → Bool
  | .free => true
  | _ => false

def Entry.isInit : Entry → Bool
  | .init _ => true
  | _ => false

def Entry.isDisconnect : Entry → Bool
  | .disconnect => true
  | _ => false

/-- What `ssh_data` is freed at: the first frame, or a call of `cockpit_relay_disconnect`. -/
def Entry.isOccasion : Entry → Bool
  | .frame => true
  | .disconnecting => true
  | _ => false

/-- Every failure is reported at most once and has a name, `ssh_data` is freed at the first
    occasion, and no assertion fails. -/
structure Proper (s : Relay) : Prop where
  running : s.aborted = false
  named : .authReply none ∉ s.log
  inits : s.log.countP Entry.isInit ≤ 1
  initFirst : ∀ before object after, s.log = before ++ .init object :: after →
    ∀ data, .relayed data ∉ before
  frees : s.log.countP Entry.isFree = if s.sshData.isSome then 0 else 1
  freedIff : s.sshData = none ↔ ∃ entry ∈ s.log, entry.isOccasion
  freedAt : ∀ before after, s.log = before ++ .free :: after → before.countP Entry.isOccasion = 1
  disposed : s.place = .disposed → s.sshData = none
  disconnects : s.log.countP Entry.isDisconnect ≤ 1

/-- No exit status 0 comes while `ssh_data` is there, the pipe is closed and there is no exit
    code. -/
def Meets (s : Relay) : Event → Prop
  | .callback (.exitStatus status) =>
    status = 0 → s.inCall → s.channel → s.sshData.isSome →
      s.pipeClosed → s.exitCode ≠ 0
  | _ => True

/-! ### Histories -/

/-- What may follow once `ssh_data` is freed. -/
def Entry.isLate : Entry → Bool
  | .disconnecting => true
  | .disconnect => true
  | .relayed _ => true
  | _ => false

def Entry.isRelayed : Entry → Bool
  | .relayed _ => true
  | _ => false

/-- The history of a proper relay, and whether `ssh_data` is there. -/
inductive History : Bool → List Entry → Prop
  | fresh : History true []
  | frame {late : List Entry} (h : ∀ entry ∈ late, entry.isLate) :
      History false (.frame :: .free :: late)
  | disconnect {problem : String} {object : JsonObject} {late : List Entry}
      (h : ∀ entry ∈ late, entry.isLate ∧ entry.isRelayed = false) :
      History false
        (.disconnecting :: .authReply (some problem) :: .init object :: .free :: late)

variable {log : List Entry}

theorem History.log_eq_nil (h : History true log) : log = [] := by
  cases h
  rfl

/-- A history goes on with what may follow, and with relayed data after a frame only. -/
theorem History.append (h : History false log) {entry : Entry}
    (hlate : entry.isLate)
    (hrelay : entry.isRelayed → log.head? = some .frame) :
    History false (log ++ [entry]) := by
  cases h with
  | frame hall =>
    refine .frame fun other hother => ?_
    rcases mem_append.mp hother with hold | hnew
    · exact hall other hold
    · rw [mem_singleton.mp hnew]
      exact hlate
  | disconnect hall =>
    refine .disconnect fun other hother => ?_
    rcases mem_append.mp hother with hold | hnew
    · exact hall other hold
    rw [mem_singleton.mp hnew]
    refine ⟨hlate, ?_⟩
    -- the history starts with a disconnect, so no data was relayed
    cases hentry : entry.isRelayed with
    | false => rfl
    | true => exact nomatch (hrelay hentry)

/-- Late entries are no free, no "init" and no reply. -/
theorem countP_late {late : List Entry} (h : ∀ entry ∈ late, entry.isLate)
    {p : Entry → Bool} (hp : ∀ entry, p entry → entry.isLate = false) :
    late.countP p = 0 := by
  apply countP_eq_zero.mpr
  intro entry hentry hpos
  have hfalse := hp entry hpos
  rw [h entry hentry] at hfalse
  exact nomatch hfalse

variable {there : Bool}

section

variable (h : History there log)

include h

theorem History.countP_free :
    log.countP Entry.isFree = if there then 0 else 1 := by
  have hfree : ∀ entry : Entry, entry.isFree → entry.isLate = false := by
    rintro ⟨⟩ <;> simp [Entry.isFree, Entry.isLate]
  cases h with
  | fresh => rfl
  | frame hall => simp [Entry.isFree, countP_cons, countP_late hall hfree]
  | disconnect hall =>
    simp [Entry.isFree, countP_cons, countP_late (fun e he => (hall e he).1) hfree]

theorem History.countP_init :
    log.countP Entry.isInit ≤ 1 := by
  have hinit : ∀ entry : Entry, entry.isInit → entry.isLate = false := by
    rintro ⟨⟩ <;> simp [Entry.isInit, Entry.isLate]
  cases h with
  | fresh => simp
  | frame hall => simp [Entry.isInit, countP_late hall hinit]
  | disconnect hall =>
    simp [Entry.isInit, countP_cons, countP_late (fun e he => (hall e he).1) hinit]

theorem History.named :
    .authReply none ∉ log := by
  intro hmem
  cases h with
  | fresh => simp at hmem
  | @frame late hall =>
    have hlate : Entry.authReply none ∈ late := by simpa using hmem
    exact absurd (hall _ hlate) (by simp [Entry.isLate])
  | @disconnect problem object late hall =>
    have hlate : Entry.authReply none ∈ late := by simpa using hmem
    exact absurd (hall _ hlate).1 (by simp [Entry.isLate])

variable {after before : List Entry}

/-- No "init" follows relayed data: a history has one or the other. -/
theorem History.initFirst {object : JsonObject} (heq : log = before ++ .init object :: after)
    (data : Bytes) : .relayed data ∉ before := by
  have hinit : Entry.init object ∈ log := by simp [heq]
  intro hbef
  have hrelay : Entry.relayed data ∈ log := by simp [heq, hbef]
  cases h with
  | fresh => simp at hinit
  | @frame late hall =>
    have hlate : Entry.init object ∈ late := by simpa using hinit
    exact absurd (hall _ hlate) (by simp [Entry.isLate])
  | @disconnect problem told late hall =>
    have hlate : Entry.relayed data ∈ late := by simpa using hrelay
    exact absurd (hall _ hlate).2 (by simp [Entry.isRelayed])

theorem History.freed_iff :
    there = false ↔ ∃ entry ∈ log, entry.isOccasion := by
  cases h with
  | fresh => simp
  | frame hall | disconnect hall => simp [Entry.isOccasion]

/-- `ssh_data` is freed at the first occasion, and before the next one. -/
theorem History.freedAt (heq : log = before ++ .free :: after) :
    before.countP Entry.isOccasion = 1 := by
  have hfree : ∀ {late : List Entry}, (∀ entry ∈ late, entry.isLate) →
      Entry.free ∉ late := by
    intro late hall hmem
    exact absurd (hall _ hmem) (by simp [Entry.isLate])
  cases h with
  | fresh => exact absurd heq (by simp)
  | @frame late hall =>
    have hsplit : [Entry.frame] ++ .free :: late = before ++ .free :: after := heq
    rw [append_cons_inj_of_notMem (by simp) (hfree hall)] at hsplit
    rw [← hsplit.1]
    rfl
  | @disconnect problem object late hall =>
    have hsplit : [Entry.disconnecting, .authReply (some problem), .init object] ++ .free :: late
      = before ++ .free :: after := heq
    rw [append_cons_inj_of_notMem (by simp) (hfree fun e he => (hall e he).1)] at hsplit
    rw [← hsplit.1]
    rfl

/-! ### The invariant -/

end

/-- What holds in every state of a run that meets the condition. -/
structure Inv (s : Relay) : Prop where
  running : s.aborted = false
  history : History s.sshData.isSome s.log
  disconnects : s.log.countP Entry.isDisconnect = if s.sentDisconnect then 1 else 0
  /-- While callbacks can come, `ssh_data` was freed at a frame or not at all. -/
  owner : s.channel → s.sshData = none → s.log.head? = some .frame
  seen : s.log.head? = some .frame → s.receivedFrame
  /-- `received_frame` also says that the pipe closed. -/
  early : s.sshData.isSome → s.receivedFrame → s.pipeClosed
  closed : s.pipeClosed → s.receivedFrame
  exit : s.receivedExit → s.sshData.isSome → s.exitCode ≠ 0
  eof : s.sentEof → s.pipeClosed
  sent : s.sentPart ≤ (s.queue.head?.getD []).length
  ending : 0 < s.timeouts ∨ s.sentDisconnect → s.sshData = none
  /-- An end of file is only sent for a closed pipe. -/
  sending : s.place = .eofOfPipe ∨ s.place = .eofOfPoll → s.pipeClosed
  disposed : s.place = .disposed → s.sshData = none

variable {s : Relay}

theorem Inv.proper (h : Inv s) : Proper s := { h with
  named := h.history.named
  inits := h.history.countP_init
  initFirst := fun _ _ _ heq data => h.history.initFirst heq data
  frees := h.history.countP_free
  freedIff := by
    rw [← h.history.freed_iff]
    simp
  freedAt := fun _ _ heq => h.history.freedAt heq
  disconnects := by
    rw [h.disconnects]
    split <;> omega }

/-- What is done next is done: nothing failed. -/
theorem Inv.andThen (h : Inv s) {f : Relay → Relay} (hf : Inv (f s)) :
    Inv (s.andThen f) := by
  unfold Relay.andThen
  rw [h.running]
  exact hf

/-! ### The end of a relay -/

theorem disconnect_of_none (hdata : s.sshData = none) (hrunning : s.aborted = false)
    (problem : Option String) :
    s.disconnect problem = { s with
      log := s.log ++ [.disconnecting], channel := false, io := s.io.destroy,
      timeouts := s.timeouts + 1 } := by
  simp [disconnect, andThen, record, hdata, hrunning]

variable {problem : Option String} {data : SshData}

theorem disconnect_of_some (hdata : s.sshData = some data)
    (hrunning : s.aborted = false) {p : String}
    (hp : (problem <|> exitCodeProblem s.exitCode) = some p) :
    s.disconnect problem = { s with
      log := s.log ++ [.disconnecting, .authReply (some p), .init (authReply data p), .free],
      sshData := none, channel := false, io := s.io.destroy, timeouts := s.timeouts + 1 } := by
  simp [disconnect, sendAuthReply, freeSshData, andThen, record, hdata, hrunning, hp]

section

variable (h : Inv s)

include h

/-- A relay may end with a problem, with an exit code, or after it told what it had to tell. -/
theorem Inv.disconnect (hprob : s.sshData.isSome → problem = none → s.exitCode ≠ 0) :
    Inv (s.disconnect problem) := by
  have hhistory := h.history
  cases hdata : s.sshData with
  | none =>
    rw [hdata] at hhistory
    rw [disconnect_of_none hdata h.running]
    have hlog : History false (s.log ++ [.disconnecting]) :=
      hhistory.append rfl fun hrelay => absurd hrelay (by simp [Entry.isRelayed])
    exact { h with
      history := by
        rw [hdata]
        exact hlog
      disconnects := by
        rw [countP_append, h.disconnects]
        rfl
      owner := nofun
      seen := by
        intro hhead
        apply h.seen
        cases hs : s.log with
        | nil =>
          rw [hs] at hhead
          exact nomatch hhead
        | cons entry log =>
          rw [hs] at hhead
          exact hhead
      ending := fun _ => hdata }
  | some data =>
    -- nothing happened so far, so the history is what is written here
    rw [hdata] at hhistory
    have hnil := hhistory.log_eq_nil
    have hsome : s.sshData.isSome := by simp [hdata]
    obtain ⟨p, hp⟩ : ∃ p, (problem <|> exitCodeProblem s.exitCode) = some p := by
      cases problem with
      | some p => exact ⟨p, rfl⟩
      | none =>
        have hcode := hprob hsome rfl
        apply Option.ne_none_iff_exists'.mp
        intro hnone
        exact hcode (exitCodeProblem_eq_none.mp hnone)
    have hquiet : s.sentDisconnect = false := by
      cases hsent : s.sentDisconnect with
      | false => rfl
      | true =>
        have hnone := h.ending (.inr hsent)
        rw [hdata] at hnone
        exact nomatch hnone
    rw [disconnect_of_some hdata h.running hp, hnil]
    exact { h with
      history := .disconnect nofun
      disconnects := by
        show List.countP Entry.isDisconnect _ = if s.sentDisconnect then 1 else 0
        rw [hquiet]
        rfl
      owner := nofun
      seen := nofun
      early := nofun
      exit := nofun
      ending := fun _ => rfl
      disposed := fun _ => rfl }

variable {exitCode : Nat}

/-- `received_exit` comes with an exit code. -/
theorem Inv.setExitCode (hcode : s.sshData.isSome → s.exitCode = 0 → exitCode ≠ 0) :
    Inv ({ s with receivedExit := true }.setExitCode exitCode) := by
  unfold Relay.setExitCode
  split
  · rename_i hzero
    exact { h with exit := fun _ hthere => hcode hthere hzero }
  · rename_i hne
    exact { h with exit := fun _ _ => hne }

theorem Inv.fail
    (hcode : s.sshData.isSome → s.exitCode = 0 → exitCode ≠ 0) : Inv (s.fail exitCode) := by
  have hset := h.setExitCode hcode
  apply hset.disconnect
  intro hthere _
  refine hset.exit ?_ hthere
  unfold Relay.setExitCode
  split <;> rfl

/-! ### Callbacks -/

theorem Inv.relayData (hchan : s.channel) (data : Bytes)
    (isStderr : Bool) : Inv (s.relayData data isStderr) := by
  unfold Relay.relayData
  split
  · exact h
  split
  · rename_i hrelay
    obtain ⟨hframe, hopen⟩ := hrelay
    -- a frame was seen and the pipe is open, so `ssh_data` was freed at the frame
    have hnone : s.sshData = none := by
      cases hdata : s.sshData with
      | none => rfl
      | some _ => exact absurd (h.early (by simp [hdata]) hframe) hopen
    have hhead := h.owner hchan hnone
    have hhistory := h.history
    rw [hnone] at hhistory
    exact { h with
      history := by
        show History s.sshData.isSome (s.log ++ [Entry.relayed data])
        rw [hnone]
        exact hhistory.append rfl fun _ => hhead
      disconnects := by
        show (s.log ++ [Entry.relayed data]).countP Entry.isDisconnect = _
        rw [countP_append, h.disconnects]
        rfl
      owner := by
        intro _ _
        show (s.log ++ [Entry.relayed data]).head? = some .frame
        rw [head?_append, hhead]
        rfl
      seen := fun _ => hframe }
  · exact h

theorem Inv.onChannelData (hchan : s.channel) (data : Bytes)
    (isStderr : Bool) : Inv (s.onChannelData data isStderr) := by
  unfold Relay.onChannelData
  split
  · rename_i hfirst
    split
    · exact h
    split
    · have hcode : Inv { s with exitCode := noCockpit } :=
        { h with exit := fun _ _ => by simp [noCockpit] }
      exact hcode.relayData hchan data isStderr
    -- the first frame: `ssh_data` is still there
    have hhead : s.log.head? ≠ some .frame := fun hhead => hfirst.1 (h.seen hhead)
    obtain ⟨d, hd⟩ : ∃ d, s.sshData = some d := by
      apply Option.ne_none_iff_exists'.mp
      intro hnone
      exact hhead (h.owner hchan hnone)
    have hhistory := h.history
    rw [hd] at hhistory
    have hnil := hhistory.log_eq_nil
    have hquiet : s.sentDisconnect = false := by
      cases hsent : s.sentDisconnect with
      | false => rfl
      | true =>
        have hnone := h.ending (.inr hsent)
        rw [hd] at hnone
        cases hnone
    have hfree : ({ s with receivedFrame := true }.record .frame).freeSshData
        = { s with receivedFrame := true, log := [.frame, .free], sshData := none } := by
      simp [freeSshData, record, hd, hnil]
    have hinv : Inv
        { s with receivedFrame := true, log := [.frame, .free], sshData := none } := { h with
      history := .frame (by simp)
      disconnects := by
        show List.countP Entry.isDisconnect _ = if s.sentDisconnect then 1 else 0
        rw [hquiet]
        rfl
      owner := fun _ _ => rfl
      seen := fun _ => rfl
      early := fun _ _ => by simp_all
      closed := fun _ => rfl
      exit := fun _ h => by cases h
      ending := fun _ => rfl
      disposed := fun _ => rfl }
    rw [hfree]
    apply hinv.andThen
    exact hinv.relayData hchan data isStderr
  · exact h.relayData hchan data isStderr

theorem Inv.onChannelExitSignal (signal : Option Bytes) :
    Inv (s.onChannelExitSignal signal) := by
  cases signal with
  | none => exact h
  | some name =>
    apply h.fail
    intro _ _
    split <;> simp [terminated, internalError]

/-- The status of the remote bridge becomes an exit code, unless it is a status 0 that comes
    early. -/
theorem Inv.onChannelExitStatus (hcall : s.inCall)
    (hchan : s.channel) {status : Int}
    (hmeets : Meets s (.callback (.exitStatus status))) : Inv (s.onChannelExitStatus status) := by
  apply h.fail
  intro hthere hzero
  unfold statusExitCode
  split
  · simp [noCockpit]
  split
  · simp [noCockpit]
  rename_i hframe
  split
  · simp [internalError]
  · rename_i hstat
    have hclos := h.early hthere (by simpa using hframe)
    exact absurd hzero (hmeets (by simpa using hstat) hcall hchan hthere hclos)

theorem Inv.callback (hcall : s.inCall)
    (hchan : s.channel) {callback : Callback} (hmeets : Meets s (.callback callback)) :
    Inv (s.callback callback) := by
  cases callback with
  | data data isStderr => exact h.onChannelData hchan data isStderr
  | eof | close => exact { h with }
  | signal signal =>
    show Inv (s.onChannelSignal signal)
    unfold onChannelSignal
    split
    · exact h.onChannelExitSignal signal
    · exact h
  | exitSignal signal => exact h.onChannelExitSignal signal
  | exitStatus status => exact h.onChannelExitStatus hcall hchan hmeets

/-! ### The source -/

variable {place : Place}

/-- The relay goes to another place, where nothing is asked of it. -/
theorem Inv.goTo (hsending : place = .eofOfPipe ∨ place = .eofOfPoll → s.pipeClosed)
    (hdisposed : place ≠ .disposed) : Inv { s with place := place } :=
  { h with
    sending := hsending
    disposed := fun hplace => absurd hplace hdisposed }

theorem Inv.pollOut (ret : Bool) : Inv (s.pollOut ret) := by
  have hend : Inv (if s.receivedExit then s.disconnect none else s) := by
    split
    · rename_i hexit
      apply h.disconnect
      intro hthere _
      exact h.exit hexit hthere
    · exact h
  apply hend.andThen
  have hgo := hend.goTo (by simp : Place.mainLoop = .eofOfPipe ∨ Place.mainLoop = .eofOfPoll → _)
    (by simp)
  exact { hgo with }

theorem Inv.dispatchClose (hsent : ¬ s.sentClose)
    (hsending : place = .eofOfPipe ∨ place = .eofOfPoll → s.pipeClosed)
    (hplace : place ≠ .disposed) : Inv (s.dispatchClose place) := by
  unfold Relay.dispatchClose
  rw [if_neg hsent]
  exact h.goTo hsending hplace

theorem Inv.dispatchEof (hsent : ¬ s.sentEof)
    (hclos : s.pipeClosed) (hplace : place ≠ .disposed) :
    Inv (s.dispatchEof place) := by
  unfold Relay.dispatchEof
  rw [if_neg hsent]
  exact h.goTo (fun _ => hclos) hplace

theorem Inv.pollClose : Inv s.pollClose := by
  unfold Relay.pollClose
  split
  · rename_i hcond
    exact h.dispatchClose hcond.2.2 (by simp) (by simp)
  · exact h.pollOut true

theorem Inv.pollEof : Inv s.pollEof := by
  unfold Relay.pollEof
  split
  · rename_i hcond
    exact h.dispatchClose hcond.2.2 (by simp) (by simp)
  · exact h.pollClose

theorem Inv.pollQueue (ret : Bool) : Inv (s.pollQueue ret) := by
  unfold Relay.pollQueue
  split
  · rename_i hcond
    exact h.dispatchEof hcond.2.2 hcond.2.1 (by simp)
  · exact h.pollEof

theorem Inv.dispatchBlock : Inv s.dispatchBlock := by
  unfold Relay.dispatchBlock
  split
  · exact h.pollQueue false
  rename_i block queue hqueue
  have hsent := h.sent
  rw [hqueue] at hsent
  rw [if_pos (by simpa using hsent)]
  exact h.goTo (by simp) (by simp)

theorem Inv.dispatchQueue : Inv s.dispatchQueue := by
  unfold Relay.dispatchQueue
  split
  · exact h.pollQueue false
  · exact h.dispatchBlock

theorem Inv.poll (cond : Condition) : Inv (s.poll cond) := by
  have hrest : ∀ {t}, Inv t → Inv (if t.receivedExit then { t with io := t.io.destroy }
        else if cond.nval then { t with io := t.io.destroy }
        else { t with place := .dopoll cond }) := by
    intro t ht
    split
    · exact { ht with }
    · split
      · exact { ht with }
      · exact ht.goTo (by simp) (by simp)
  unfold Relay.poll
  apply hrest
  split
  · exact { h with }
  · exact h

/-! ### Results -/

variable (result : Result)

theorem Inv.requestExecReturns :
    Inv (s.requestExecReturns result) := by
  unfold Relay.requestExecReturns
  split
  · exact h
  split
  · have hatt : Inv { s with io := .attached } := { h with }
    exact hatt.goTo (by simp) (by simp)
  have hcode : Inv { s with exitCode := authenticationFailed } :=
    { h with exit := fun _ _ => by simp [authenticationFailed] }
  have hgo := hcode.goTo (by simp : Place.mainLoop = .eofOfPipe ∨ _ → _) (by simp)
  exact hgo.disconnect nofun

theorem Inv.dopollReturns (cond : Condition) (result : Result) :
    Inv (s.dopollReturns cond result) := by
  have hexit : ∀ {exitCode}, exitCode ≠ 0 →
      Inv (({ s with receivedExit := true }.setExitCode exitCode).pollOut false) :=
    fun hcode => (h.setExitCode fun _ _ => hcode).pollOut false
  unfold Relay.dopollReturns
  split
  · split
    · exact hexit (by simp [disconnected])
    · split
      · exact h.dispatchQueue
      · exact h.pollOut true
  · split
    · exact hexit (by simp [terminated])
    · exact hexit (by simp [internalError])

theorem Inv.writeReturns :
    Inv (s.writeReturns result) := by
  unfold Relay.writeReturns
  split
  · exact h
  rename_i block queue hqueue
  have hsent : s.sentPart ≤ block.length := by
    have := h.sent
    rwa [hqueue] at this
  dsimp only
  split
  · split
    · have hclose : Inv { s with receivedClose := true, receivedEof := true } := { h with }
      exact hclose.pollQueue false
    · exact h.pollQueue false
  rename_i hnonneg
  split
  · -- the whole block was sent
    have hpop : Inv { s with queue := queue, sentPart := 0 } :=
      { h with sent := Nat.zero_le _ }
    exact hpop.dispatchBlock
  split
  · exact h.pollQueue false
  rename_i hmore
  have hpart : Inv { s with sentPart := s.sentPart + result.rc.toNat } :=
    { h with
      sent := by
        show s.sentPart + result.rc.toNat ≤ (s.queue.head?.getD []).length
        rw [hqueue]
        show s.sentPart + result.rc.toNat ≤ block.length
        omega }
  split
  · exact hpart.pollQueue true
  · exact hpart.dispatchBlock

variable {next : Relay → Relay}

theorem Inv.eofReturns (hclos : s.pipeClosed) (result : Result) (hnext : ∀ {t}, Inv t → Inv (next t)) :
    Inv (s.eofReturns result next) := by
  unfold Relay.eofReturns
  split
  · exact hnext h
  split
  · exact hnext { h with eof := fun _ => hclos }
  · have hfail : Inv (s.fail internalError) := h.fail fun _ _ => by simp [internalError]
    exact hfail.andThen (hnext hfail)

theorem Inv.closeReturns (hnext : ∀ {t}, Inv t → Inv (next t)) :
    Inv (s.closeReturns result next) := by
  unfold Relay.closeReturns
  split
  · exact hnext h
  split
  · exact hnext { h with }
  · have hfail : Inv (s.fail internalError) := h.fail fun _ _ => by simp [internalError]
    exact hfail.andThen (hnext hfail)

theorem Inv.returns : Inv (s.returns result) := by
  unfold Relay.returns
  split
  · exact h
  · exact h
  · exact h.requestExecReturns result
  · exact h.dopollReturns _ result
  · exact h.writeReturns result
  · rename_i hplace
    apply h.eofReturns (h.sending (.inl hplace)) result
    intro t ht
    exact ht.goTo (by simp) (by simp)
  · rename_i hplace
    exact h.eofReturns (h.sending (.inr hplace)) result Inv.pollEof
  · exact h.closeReturns result Inv.pollClose
  · exact h.closeReturns result fun ht => ht.pollOut true

/-! ### The pipe and the owner -/

theorem Inv.onPipeRead (buf : Bytes) : Inv (s.onPipeRead buf) := by
  unfold Relay.onPipeRead
  split
  · have hsent := h.sent
    refine { h with sent := ?_ }
    show s.sentPart ≤ ((s.queue ++ [buf]).head?.getD []).length
    cases hqueue : s.queue with
    | nil =>
      rw [hqueue] at hsent
      exact Nat.le_trans hsent (Nat.zero_le _)
    | cons block queue =>
      rw [hqueue] at hsent
      exact hsent
  · exact h

theorem Inv.onPipeClose (hopen : ¬ s.pipeClosed) :
    Inv s.onPipeClose := by
  have hclos : Inv { s with pipeClosed := true, receivedFrame := true } :=
    { h with
      seen := fun _ => rfl
      early := fun _ _ => rfl
      closed := fun _ => rfl
      eof := fun _ => rfl
      sending := fun _ => rfl }
  unfold Relay.onPipeClose
  dsimp only
  split
  · exact hclos
  · -- no end of file was sent while the pipe was open
    exact hclos.dispatchEof (fun hsent => hopen (h.eof hsent)) rfl (by simp)

theorem Inv.emitDisconnect (hnone : s.sshData = none) :
    Inv s.emitDisconnect := by
  unfold Relay.emitDisconnect
  split
  · exact h
  rename_i hsent
  have hhistory := h.history
  rw [hnone] at hhistory
  exact { h with
    history := by
      show History s.sshData.isSome (s.log ++ [Entry.disconnect])
      rw [hnone]
      exact hhistory.append rfl fun hrelay => absurd hrelay (by simp [Entry.isRelayed])
    disconnects := by
      show (s.log ++ [Entry.disconnect]).countP Entry.isDisconnect = 1
      rw [countP_append, h.disconnects, if_neg hsent]
      rfl
    owner := by
      intro hchan hdata
      show (s.log ++ [Entry.disconnect]).head? = some .frame
      rw [head?_append, h.owner hchan hdata]
      rfl
    seen := by
      intro hhead
      apply h.seen
      cases hlog : s.log with
      | nil =>
        rw [record, hlog] at hhead
        exact nomatch hhead
      | cons entry log =>
        rw [record, hlog] at hhead
        exact hhead
    ending := fun _ => hnone }

theorem Inv.dispose (hnone : s.sshData = none) : Inv s.dispose := by
  unfold Relay.dispose
  rw [if_neg (by simp [hnone])]
  exact { h with
    sending := by simp
    disposed := fun _ => hnone }

/-! ### Runs -/

/-- One step keeps the invariant when it meets the condition. -/
theorem Inv.step {event : Event} (hmeets : Meets s event) :
    Inv (s.step event) := by
  unfold Relay.step
  rw [if_neg (by simp [h.running])]
  cases event with
  | callback callback =>
    dsimp only
    split
    · rename_i hcond
      exact h.callback hcond.1 hcond.2 hmeets
    · exact h
  | returns result => exact h.returns result
  | poll cond =>
    dsimp only
    split
    · exact h.poll cond
    · exact h
  | pipeRead buf =>
    dsimp only
    split
    · exact h.onPipeRead buf
    · exact h
  | pipeClose =>
    dsimp only
    split
    · rename_i hcond
      exact h.onPipeClose hcond.2.2
    · exact h
  | timeout =>
    dsimp only
    split
    · rename_i hcond
      have hnone := h.ending (.inl hcond.2)
      have hless : Inv { s with timeouts := s.timeouts - 1 } := { h with ending := fun _ => hnone }
      exact hless.emitDisconnect hnone
    · exact h
  | dispose =>
    dsimp only
    split
    · rename_i hcond
      exact h.dispose (h.ending (.inr hcond.2))
    · exact h

end

theorem Inv.start (data : SshData) (problem : Option String) : Inv (start data problem) := by
  have hfresh : ∀ exitCode channel pipe place,
      place ≠ .eofOfPipe → place ≠ .eofOfPoll → place ≠ .disposed →
      Inv { sshData := some data, exitCode := exitCode, channel := channel, pipe := pipe,
            place := place } := by
    intro exitCode channel pipe place hpipe hpoll hdisposed
    exact {
      running := rfl
      history := .fresh
      disconnects := rfl
      owner := nofun
      seen := nofun
      early := nofun
      closed := nofun
      exit := nofun
      eof := nofun
      sent := Nat.le_refl _
      ending := by simp
      sending := by simp [hpipe, hpoll]
      disposed := fun hplace => absurd hplace hdisposed }
  cases problem with
  | none => exact hfresh 0 true true .requestExec (by simp) (by simp) (by simp)
  | some problem =>
    have h := hfresh authenticationFailed false false .mainLoop (by simp) (by simp) (by simp)
    exact h.disconnect nofun

end Relay

end Cockpit.Ssh
