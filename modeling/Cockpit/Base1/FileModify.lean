import Cockpit.Base1.FileKnown

namespace Cockpit.Page.File

open Fs Lib List Option Unicode Nat

/-!
# What `modify` overwrites

* `Inv.step` — the steps of the bridge, and with them all steps;
* `run_modify` — the statement for all runs.
-/

variable {ws : WebSocket} {flushed : Bool} {first : Version} {s t : World}

/-! ### The channels of the bridge -/

/-- What a channel of the bridge did, as the page will see it. -/
def Channel.serve (c : Channel) (result : Fs.State × List Sent) : Channel :=
  { c with server := result.1, incoming := c.incoming ++ result.2 }

variable {c : Channel} {result : Fs.State × List Sent} {ch : Nat} {d : Disk}

/-- A channel of the bridge does something, and the path leads where it did. -/
theorem Inv.serve (h : Inv ws flushed first s) (hc : s.channels[ch]? = some c)
    (hpath : d.path = s.disk.path) (hnodes : s.disk.nodes.length ≤ d.nodes.length)
    (hvers : d.version = s.disk.version)
    (hwriter : ∀ fd e g, result.1 = .fsreplace fd e g → fd < d.nodes.length ∧
      s.disk.path ≠ some fd ∧
        ((∃ e' g', c.server = .fsreplace fd e' g') ∨ s.disk.nodes.length ≤ fd))
    (hok : ChannelOk ws flushed first s ch (c.serve result)) :
    Inv ws flushed first (s.serve ch (d, result)) := by
  have hgrows : Grows s (s.serve ch (d, result)) := .of_eq rfl rfl
  have hcases : ∀ i b, (s.serve ch (d, result)).channels[i]? = some b →
      (i = ch ∧ b = c.serve result) ∨ (i ≠ ch ∧ s.channels[i]? = some b) := by
    intro i b hb
    obtain ⟨a, ha, ⟨rfl, rfl⟩ | ⟨hne, rfl⟩⟩ := modify_cases hb
    · refine .inl ⟨rfl, ?_⟩
      rw [mem_unique ha hc]
      rfl
    · exact .inr ⟨fun heq => hne heq.symm, ha⟩
  have hother : ∀ (i : Nat) (b : Channel) fd e g e' g', i ≠ ch → s.channels[i]? = some b →
      b.server = .fsreplace fd e g → result.1 = .fsreplace fd e' g' → False := by
    intro i b fd e g e' g' hne hb hfd hres
    -- the file of another channel is neither the old one of this channel nor a new one
    rcases (hwriter fd e' g' hres).2.2 with ⟨e₀, g₀, hold⟩ | hnew
    · exact hne (h.apart i ch b c hb hc fd e g e₀ g₀ hfd hold)
    · have hlt := (h.writers i b hb fd e g hfd).1
      omega
  refine ⟨?_, fun fd hfd => ?_, fun i b hb fd e g hfd => ?_,
    fun i j b b' hb hb' fd e g e' g' hfd hfd' => ?_, fun i b hb => ?_,
    fun i b hb problem hmem => ?_, h.updates, h.commits, fun task hmem => hgrows.taskOk (h.tasks task hmem), h.outcomes⟩
  · show Chained first s.commits d.version
    rw [hvers]
    exact h.chain
  · show fd < d.nodes.length
    have hlt := h.path fd (hpath.symm.trans hfd)
    omega
  · show fd < d.nodes.length ∧ d.path ≠ some fd
    rw [hpath]
    rcases hcases i b hb with ⟨rfl, rfl⟩ | ⟨hne, hb⟩
    · obtain ⟨hlt, hne, -⟩ := hwriter fd e g hfd
      exact ⟨hlt, hne⟩
    · obtain ⟨hlt, hne⟩ := h.writers i b hb fd e g hfd
      exact ⟨by omega, hne⟩
  · rcases hcases i b hb with ⟨rfl, rfl⟩ | ⟨hne, hold⟩
    · rcases hcases j b' hb' with ⟨rfl, rfl⟩ | ⟨hne', hold'⟩
      · rfl
      · exact (hother j b' fd e' g' e g hne' hold' hfd' hfd).elim
    · rcases hcases j b' hb' with ⟨rfl, rfl⟩ | ⟨hne', hold'⟩
      · exact (hother i b fd e g e' g' hne hold hfd hfd').elim
      · exact h.apart i j b b' hold hold' fd e g e' g' hfd hfd'
  · rcases hcases i b hb with ⟨rfl, rfl⟩ | ⟨-, hb⟩
    · exact hgrows.channelOk hok
    · exact hgrows.channelOk (h.channels i b hb)
  · rcases hcases i b hb with ⟨rfl, rfl⟩ | ⟨-, hold⟩
    · exact h.closes i c hc problem hmem
    · exact h.closes i b hold problem hmem

/-! ### `fsread1` -/

/-- The version that the path leads to is one of those so far. -/
theorem Inv.version_mem (h : Inv ws flushed first s) : s.disk.version ∈ s.versions first :=
  h.chain.mem

variable {problem : String}

/-- A channel of `read` that closes with a problem is of no use to the page. -/
theorem outcome_problem (payloads : List Bytes) (parts : List Text) (receivedDone : Bool) (hprob : World.failed (some problem)) (tag : Option String) :
    outcome ws parts receivedDone (payloads.map .payload ++ [.close (some problem) tag]) = none := by
  induction payloads generalizing parts receivedDone with
  | nil =>
    show (if World.failed (some problem) then none else _) = none
    rw [if_pos hprob]
  | cons p payloads ih =>
    show (if receivedDone then none else
      outcome ws (parts ++ [ws.decode p]) false
        (payloads.map .payload ++ [.close (some problem) tag])) = none
    split
    · rfl
    · exact ih _ _

theorem failed_problemOf (errn : Errno) : World.failed (some (problemOf errn)) := by
  unfold problemOf
  split <;> decide

/-- A channel of `read` is prepared. -/
theorem Inv.readOk_prepare (h : Inv ws flushed first s)
    (hok : ReadOk ws flushed first s c) (hsrv : c.server = .opened) (error : Option Errno) :
    ReadOk ws flushed first s (c.serve (fsreadPrepare s.disk error)) := by
  unfold ReadOk at hok
  rw [hsrv] at hok
  obtain ⟨hparts, hin, hnot⟩ := hok
  have hclos : ∀ sent : List Sent, (∀ content tag, outcome ws [] false sent = some (content, tag) →
        Known ws flushed (s.versions first) content tag) →
      ReadOk ws flushed first s (c.serve (.closed, sent)) := by
    intro sent hsent content tag hout
    apply hsent content tag
    have hout' : outcome ws c.contentParts c.receivedDone (c.incoming ++ sent) =
        some (content, tag) := hout
    rw [hparts, hin, hnot] at hout'
    exact hout'
  unfold fsreadPrepare
  cases hpath : s.disk.path with
  | none =>
    apply hclos
    intro content tag hout
    obtain ⟨rfl, rfl⟩ := Prod.mk.inj (some.inj hout)
    have hvers : s.disk.version = none := by
      unfold Disk.version
      rw [hpath]
      rfl
    exact ⟨none, hvers ▸ h.version_mem, rfl, trivial⟩
  | some fd =>
    have hlt := h.path fd hpath
    obtain ⟨node, hnode⟩ : ∃ node, s.disk.nodes[fd]? = some node :=
      ⟨_, getElem?_eq_getElem hlt⟩
    cases error with
    | some errn =>
      apply hclos
      intro content tag hout
      exact nomatch (outcome_problem [] [] false (failed_problemOf errn) none).symm.trans hout
    | none =>
      dsimp only
      split
      · apply hclos
        intro content tag hout
        exact nomatch (outcome_problem [] [] false (by decide) none).symm.trans hout
      refine ⟨hnot, node, [], [], ?_, ?_, hparts, ?_, fun _ => ⟨[], .nil, ?_⟩⟩
      · have hvers : s.disk.version = some node := by
          unfold Disk.version
          rw [hpath]
          exact hnode
        exact hvers ▸ h.version_mem
      · show tagOf s.disk.nodes[fd]? = tagOf (some node)
        rw [hnode]
      · show c.incoming ++ [] = []
        rw [hin]
        rfl
      · rw [pushBytes_flatten, hnode]
        rfl

variable {outBuffer : Option Bytes} {fd : Nat} {queue : List Bytes} {startTag : String}

/-- A channel of `read` sends the next part of the file, or the end. -/
theorem ReadOk.idle (hok : ReadOk ws flushed first s c)
    (hsrv : c.server = .fsread fd startTag queue outBuffer) (d : Disk) :
    ReadOk ws flushed first s (c.serve (onIdleSendBlock d fd startTag queue outBuffer)) := by
  unfold ReadOk at hok
  rw [hsrv] at hok
  obtain ⟨hnot, node, delivered, waiting, hmem, htag, hparts, hin, htext⟩ := hok
  cases queue with
  | nil =>
    intro content tag hout
    have hout' : outcome ws c.contentParts c.receivedDone (c.incoming ++
        (.done :: (flushText outBuffer).map .payload ++ [if d.getFileTagFromFd fd = startTag then
          .close none (some (d.getFileTagFromFd fd)) else .close (some "change-conflict") none])) =
        some (content, tag) := hout
    rw [hnot, hin, outcome_payloads, hparts, ← map_append] at hout'
    cases outBuffer with
    | some held =>
      -- what is held back comes after "done", and the page does not take it
      exact nomatch hout'
    | none =>
      split at hout'
      · rename_i hsame
        have hout'' : some (if some (d.getFileTagFromFd fd) = some "-" then none
            else some ((delivered ++ waiting).map ws.decode).flatten,
              some (d.getFileTagFromFd fd)) = some (content, tag) := hout'
        have hne : some (d.getFileTagFromFd fd) ≠ some "-" := by
          rw [hsame, htag]
          exact fun heq => tagOf_some_ne node (some.inj heq)
        rw [if_neg hne] at hout''
        obtain ⟨rfl, rfl⟩ := Prod.mk.inj (some.inj hout'')
        refine ⟨some node, hmem, ?_, fun hf => ?_⟩
        · rw [hsame, htag]
        obtain ⟨text, ⟨⟨done, hflat, -, hsplit⟩, hvalid⟩, hcont⟩ := htext hf
        refine ⟨delivered ++ waiting, rfl, ?_, hvalid⟩
        rw [hflat, hcont, hsplit]
        show forceUtf8 done = forceUtf8 (done ++ [] ++ [])
        rw [append_nil, append_nil]
      · exact nomatch hout'
  | cons payload queue =>
    refine ⟨hnot, node, delivered, waiting ++ (sendText outBuffer payload).1, hmem, htag,
      hparts, ?_, fun hf => ?_⟩
    · show c.incoming ++ (sendText outBuffer payload).1.map .payload = _
      rw [hin, map_append]
    obtain ⟨text, hpass, hcont⟩ := htext hf
    refine ⟨text ++ payload, ?_, ?_⟩
    · rw [← append_assoc]
      exact hpass.sendText payload
    · rw [hcont, flatten_cons, append_assoc]

/-- The timeout of a channel of `read`. -/
theorem ReadOk.flush (hok : ReadOk ws true first s c)
    (hsrv : c.server = .fsread fd startTag queue outBuffer) :
    ReadOk ws true first s (c.serve
      (.fsread fd startTag queue none, (flushText outBuffer).map .payload)) := by
  unfold ReadOk at hok
  rw [hsrv] at hok
  obtain ⟨hnot, node, delivered, waiting, hmem, htag, hparts, hin, -⟩ := hok
  refine ⟨hnot, node, delivered, waiting ++ flushText outBuffer, hmem, htag, hparts, ?_, nofun⟩
  show c.incoming ++ (flushText outBuffer).map .payload = _
  rw [hin, map_append]

/-- A channel of `read` closes with a problem. -/
theorem ReadOk.closes (hok : ReadOk ws flushed first s c)
    (hsrv : c.server = .fsread fd startTag queue outBuffer)
    (hprob : World.failed (some problem)) :
    ReadOk ws flushed first s (c.serve
      (.closed, (flushText outBuffer).map .payload ++ [.close (some problem) none])) := by
  unfold ReadOk at hok
  rw [hsrv] at hok
  obtain ⟨hnot, node, delivered, waiting, -, -, -, hin, -⟩ := hok
  intro content tag hout
  have hout' : outcome ws c.contentParts c.receivedDone (c.incoming ++
      ((flushText outBuffer).map .payload ++ [.close (some problem) none])) =
      some (content, tag) := hout
  rw [hin, ← append_assoc, ← map_append] at hout'
  exact nomatch (outcome_problem _ _ _ hprob none).symm.trans hout'

/-! ### `fsreplace1` -/

/-- Writing to a file that the path does not lead to. -/
theorem version_write (hpath : d.path ≠ some fd) (data : Bytes)
    (stat : Stat) : (d.write fd data stat).version = d.version := by
  unfold Disk.version
  show d.path.bind ((d.nodes.modify fd _)[·]?) = d.path.bind (d.nodes[·]?)
  cases hcase : d.path with
  | none => rfl
  | some i =>
    show (d.nodes.modify fd _)[i]? = d.nodes[i]?
    have hne : fd ≠ i := by
      rintro rfl
      exact hpath hcase
    exact getElem?_modify_ne _ d.nodes hne

variable {newContent : Option Text}

/-- A channel of `replace` does something that is no success. -/
theorem ReplaceOk.serve {call : Nat}
    (h : ReplaceOk s ch c call newContent)
    (hstate : ∀ fd e g, result.1 = .fsreplace fd e g →
      c.options = .fsreplace e ∨ ∃ fd' g', c.server = .fsreplace fd' e g')
    (hnotRead : ∀ fd startTag queue outBuffer, result.1 ≠ .fsread fd startTag queue outBuffer)
    (hsent : ∀ problem tag, .close problem tag ∈ result.2 → World.failed problem) :
    ReplaceOk s ch (c.serve result) call newContent where
  update := by
    obtain ⟨u, hu, hchan, hcall, hcont, hopts, hsrv⟩ := h.update
    refine ⟨u, hu, hchan, hcall, hcont, hopts, fun fd e g hres => ?_⟩
    rcases hstate fd e g hres with hopt | ⟨fd', g', hold⟩
    · exact (Options.fsreplace.inj (hopts.symm.trans hopt)).symm
    · exact hsrv fd' e g' hold
  notRead := hnotRead
  success problem tag hmem hworks := by
    rcases mem_append.mp hmem with hmem | hmem
    · exact h.success problem tag hmem hworks
    · exact nomatch (hsent problem tag hmem).symm.trans hworks

section

variable (h : Inv ws flushed first s) (hc : s.channels[ch]? = some c)

include h hc

/-- A channel that stays as it is. -/
theorem Inv.serve_nothing : Inv ws flushed first (s.serve ch (s.disk, c.server, [])) := by
  apply h.serve hc rfl (le_refl _) rfl
  · intro fd e g hres
    obtain ⟨hlt, hne⟩ := h.writers ch c hc fd e g hres
    exact ⟨hlt, hne, .inl ⟨e, g, hres⟩⟩
  have hsame : c.serve (c.server, []) = c := by
    unfold Channel.serve
    rw [append_nil]
  rw [hsame]
  exact h.channels ch c hc

variable {call : Nat}

/-- A channel of `replace` does something that is no success. -/
theorem Inv.serve_replace (howner : c.owner = .replace call newContent) {d : Disk}
    (hpath : d.path = s.disk.path) (hnodes : s.disk.nodes.length ≤ d.nodes.length)
    (hvers : d.version = s.disk.version)
    (hwriter : ∀ fd e g, result.1 = .fsreplace fd e g → fd < d.nodes.length ∧
      s.disk.path ≠ some fd ∧ ((c.options = .fsreplace e ∧ s.disk.nodes.length ≤ fd) ∨
          ∃ g', c.server = .fsreplace fd e g'))
    (hnotRead : ∀ fd startTag queue outBuffer, result.1 ≠ .fsread fd startTag queue outBuffer)
    (hsent : ∀ problem tag, .close problem tag ∈ result.2 → World.failed problem) :
    Inv ws flushed first (s.serve ch (d, result)) := by
  apply h.serve hc hpath hnodes hvers
  · intro fd e g hres
    obtain ⟨hlt, hne, ⟨-, hnew⟩ | ⟨g', hold⟩⟩ := hwriter fd e g hres
    · exact ⟨hlt, hne, .inr hnew⟩
    · exact ⟨hlt, hne, .inl ⟨e, g', hold⟩⟩
  have hok := h.channels ch c hc
  unfold ChannelOk at hok
  rw [howner] at hok
  refine channelOk_of_replace ws flushed first howner ?_
  apply hok.serve _ hnotRead hsent
  intro fd e g hres
  obtain ⟨-, -, ⟨hopt, -⟩ | ⟨g', hold⟩⟩ := hwriter fd e g hres
  · exact .inl hopt
  · exact .inr ⟨fd, g', hold⟩

/-- A channel of `read` does something. -/
theorem Inv.serve_read (howner : c.owner = .read)
    (hres : ∀ fd e g, result.1 ≠ .fsreplace fd e g)
    (hread : ReadOk ws flushed first s c → ReadOk ws flushed first s (c.serve result)) :
    Inv ws flushed first (s.serve ch (s.disk, result)) := by
  apply h.serve hc rfl (le_refl _) rfl
  · exact fun fd e g heq => absurd heq (hres fd e g)
  have hok := h.channels ch c hc
  unfold ChannelOk at hok
  rw [howner] at hok
  exact channelOk_of_read ws flushed first howner hok.1 hres fun hvalid => hread (hok.2.2 hvalid)

/-- The file is replaced, or removed. -/
theorem Inv.commit (howner : c.owner = .replace call newContent) {e : Option String} {g : Bool}
    (hsrv : c.server = .fsreplace fd e g)
    (hexp : ¬ (e.isSome ∧ e ≠ some s.disk.getFileTag)) {path : Option Nat}
    (hpath : path = none ∨ path = some fd)
    (ht : t = { s.serve ch ({ s.disk with path := path }, .closed,
        [.close none (some ({ s.disk with path := path } : Disk).getFileTag)]) with
      commits := s.commits ++
        [⟨ch, s.disk.version, ({ s.disk with path := path } : Disk).version⟩] }) :
    Inv ws flushed first t := by
  have hgrows : Grows s t := by
    subst ht
    exact ⟨fun _ hmem => mem_append_left _ hmem, fun _ hmem => hmem⟩
  have hok := h.channels ch c hc
  unfold ChannelOk at hok
  rw [howner] at hok
  obtain ⟨u, hu, hchan, hcall, hcont, hopts, htag⟩ := hok.update
  have hutag : u.tag = some (tagOf s.disk.version) := by
    -- the update has a tag, so the tag was compared
    obtain ⟨v, -, hknown, -⟩ := h.updates u hu
    have he := htag fd e g hsrv
    rw [← he] at hknown ⊢
    by_contra hne
    apply hexp
    rw [hknown]
    rw [hknown] at hne
    exact ⟨rfl, hne⟩
  have hcases : ∀ i b, t.channels[i]? = some b → (i = ch ∧ b = c.serve (.closed,
        [.close none (some ({ s.disk with path := path } : Disk).getFileTag)])) ∨
      (i ≠ ch ∧ s.channels[i]? = some b) := by
    subst ht
    intro i b hb
    obtain ⟨a, ha, ⟨rfl, rfl⟩ | ⟨hne, rfl⟩⟩ := modify_cases hb
    · refine .inl ⟨rfl, ?_⟩
      rw [mem_unique ha hc]
      rfl
    · exact .inr ⟨fun heq => hne heq.symm, ha⟩
  have hwriter : ∀ (i : Nat) (b : Channel) fd' e' g', t.channels[i]? = some b →
      b.server = .fsreplace fd' e' g' → i ≠ ch ∧ s.channels[i]? = some b := by
    intro i b fd' e' g' hb hfd
    rcases hcases i b hb with ⟨-, rfl⟩ | hold
    · cases hfd
    · exact hold
  refine ⟨?_, fun i hi => ?_, fun i b hb fd' e' g' hfd => ?_,
    fun i j b b' hb hb' fd' e' g' e'' g'' hfd hfd' => ?_, fun i b hb => ?_,
    fun i b hb problem hmem => ?_, fun u hu => ?_, fun commit hmem => ?_,
    fun task hmem => hgrows.taskOk ?_, fun call newContent newTag hmem => hgrows.committed ?_⟩
  · subst ht
    exact h.chain.snoc rfl
  · have hlt := (h.writers ch c hc fd e g hsrv).1
    subst ht
    rcases hpath with rfl | rfl
    · cases hi
    · exact some.inj hi ▸ hlt
  · obtain ⟨hne, hold⟩ := hwriter i b fd' e' g' hb hfd
    subst ht
    refine ⟨(h.writers i b hold fd' e' g' hfd).1, fun hsame => ?_⟩
    rcases hpath with rfl | rfl
    · cases hsame
    · obtain rfl : fd = fd' := some.inj hsame
      exact hne (h.apart i ch b c hold hc fd e' g' e g hfd hsrv)
  · exact h.apart i j b b' (hwriter i b fd' e' g' hb hfd).2 (hwriter j b' fd' e'' g'' hb' hfd').2
      fd' e' g' e'' g'' hfd hfd'
  · rcases hcases i b hb with ⟨rfl, rfl⟩ | ⟨-, hold⟩
    · refine channelOk_of_replace ws flushed first howner
        ⟨⟨u, hgrows.updates u hu, hchan, hcall, hcont, hopts,
          fun _ _ _ hclos => by cases hclos⟩, fun _ _ _ _ hclos => (by cases hclos),
          fun problem tag hmem hworks => ?_⟩
      rcases mem_append.mp hmem with hmem | hmem
      · exact hgrows.committed (hok.success problem tag hmem hworks)
      obtain ⟨rfl, rfl⟩ := Sent.close.inj (mem_singleton.mp hmem)
      subst ht
      exact ⟨_, mem_append_right _ (mem_singleton_self _), u, hu, hchan, hcall, hcont, rfl, hutag⟩
    · exact hgrows.channelOk (h.channels i b hold)
  · rcases hcases i b hb with ⟨rfl, rfl⟩ | ⟨-, hold⟩
    · exact h.closes i c hc problem hmem
    · exact h.closes i b hold problem hmem
  · subst ht
    exact (h.updates u hu).mono hgrows.versions
  · subst ht
    rcases mem_append.mp hmem with hmem | hmem
    · exact h.commits commit hmem
    · rw [mem_singleton.mp hmem]
      exact ⟨u, hu, hchan, hutag⟩
  · subst ht
    exact h.tasks task hmem
  · subst ht
    exact h.outcomes call newContent newTag hmem

/-! ### Steps of the bridge -/

end

theorem fsreadPrepare_not_fsreplace (d : Disk) (error : Option Errno) (fd : Nat)
    (e : Option String) (g : Bool) : (fsreadPrepare d error).1 ≠ .fsreplace fd e g := by
  unfold fsreadPrepare
  split
  · exact nofun
  split
  · exact nofun
  dsimp only
  split <;> exact nofun

theorem onIdleSendBlock_not_fsreplace (d : Disk) (i : Nat) (startTag : String) (queue : List Bytes)
    (outBuffer : Option Bytes) (fd : Nat) (e : Option String) (g : Bool) :
    (onIdleSendBlock d i startTag queue outBuffer).1 ≠ .fsreplace fd e g := by
  cases queue <;> exact nofun

namespace Inv

section

variable (h : Inv ws flushed first s) {ch : Nat} {c : Channel} (hc : s.channels[ch]? = some c)

include h hc

variable {call : Nat}

/-- A channel that closes with a problem leaves the file alone. -/
theorem closes_replace (howner : c.owner = .replace call newContent) (d : Disk)
    (problem : String) (tag : Option String) (hpath : d.path = s.disk.path)
    (hnodes : s.disk.nodes.length ≤ d.nodes.length) (hvers : d.version = s.disk.version)
    (hprob : World.failed (some problem)) :
    Inv ws flushed first (s.serve ch (d, .closed, [.close (some problem) tag])) := by
  apply h.serve_replace hc howner hpath hnodes hvers
  · exact nofun
  · exact nofun
  · intro problem' tag' hmem
    rw [(Sent.close.inj (mem_singleton.mp hmem)).1]
    exact hprob

/-- The idle callback that prepares a channel. -/
theorem prepare (hsrv : c.server = .opened) (io : Io) :
    Inv ws flushed first (s.serve ch (Fs.prepare s.disk c.options io)) := by
  have hok := h.channels ch c hc
  unfold ChannelOk at hok
  cases howner : c.owner with
  | read =>
    rw [howner] at hok
    rw [hok.1]
    exact h.serve_read hc howner (fsreadPrepare_not_fsreplace s.disk io.error)
      fun hread => h.readOk_prepare hread hsrv io.error
  | replace call newContent =>
    rw [howner] at hok
    obtain ⟨u, -, -, -, -, hopts, -⟩ := hok.update
    rw [hopts]
    unfold Fs.prepare fsreplacePrepare
    dsimp only
    split
    · -- the tag is not the one that is expected
      exact h.closes_replace hc howner _ _ _ rfl (le_refl _) rfl (by decide)
    split
    · rename_i errn _
      exact h.closes_replace hc howner _ _ _ rfl (le_refl _) rfl (failed_problemOf errn)
    have hlen : (s.disk.nodes ++ [(⟨[], io.stat⟩ : Fs.Node)]).length =
        s.disk.nodes.length + 1 := by
      rw [List.length_append, length_singleton]
    refine h.serve_replace (d := ⟨s.disk.nodes ++ [⟨[], io.stat⟩], s.disk.path⟩) hc howner rfl
      ?_ ?_ ?_ ?_ ?_
    · show s.disk.nodes.length ≤ (s.disk.nodes ++ [(⟨[], io.stat⟩ : Fs.Node)]).length
      omega
    · -- the path leads to an older file
      unfold Disk.version
      show s.disk.path.bind ((s.disk.nodes ++ [(⟨[], io.stat⟩ : Fs.Node)])[·]?) =
        s.disk.path.bind (s.disk.nodes[·]?)
      cases hpath : s.disk.path with
      | none => rfl
      | some i => exact getElem?_append_left (h.path i hpath)
    · intro fd e g hres
      obtain ⟨rfl, rfl, -⟩ := Fs.State.fsreplace.inj hres
      refine ⟨?_, fun hpath => ?_, .inl ⟨hopts, le_refl _⟩⟩
      · show s.disk.nodes.length < (s.disk.nodes ++ [(⟨[], io.stat⟩ : Fs.Node)]).length
        omega
      · have hlt := h.path _ hpath
        omega
    · exact nofun
    · exact nofun

variable {message : Received}

/-- A channel of `replace` receives a message. -/
theorem receive_replace
    (howner : c.owner = .replace call newContent) {e : Option String} {g : Bool}
    (hsrv : c.server = .fsreplace fd e g)
    (hclose : ∀ problem, message = .close problem → World.failed (some problem)) (io : Io) :
    Inv ws flushed first (s.receive ch c message io) := by
  obtain ⟨hlt, hne⟩ := h.writers ch c hc fd e g hsrv
  have hcloses := h.closes_replace hc howner
  have hwrite : ∀ data stat,
      (s.disk.write fd data stat).nodes.length = s.disk.nodes.length := fun data stat =>
    length_modify ..
  unfold World.receive Fs.receive
  rw [hsrv]
  cases message with
  | close problem => exact hcloses s.disk problem none rfl (le_refl _) rfl (hclose problem rfl)
  | payload data =>
    have hmore : ∀ d : Disk, d.path = s.disk.path → d.nodes.length = s.disk.nodes.length →
        d.version = s.disk.version →
        Inv ws flushed first (s.serve ch (d, .fsreplace fd e true, [])) := by
      intro d hpath hnodes hvers
      apply h.serve_replace hc howner hpath (le_of_eq hnodes.symm) hvers
      · intro fd' e' g' hres
        obtain ⟨rfl, rfl, -⟩ := Fs.State.fsreplace.inj hres
        exact ⟨hnodes.symm ▸ hlt, hne, .inr ⟨g, hsrv⟩⟩
      · exact nofun
      · exact nofun
    show Inv ws flushed first (s.serve ch (fsreplaceRecv s.disk fd e data io))
    unfold fsreplaceRecv
    split
    · rename_i errn _
      exact hcloses _ _ none rfl (le_of_eq (hwrite _ _).symm) (version_write hne _ _)
        (failed_problemOf errn)
    · split
      · exact hmore s.disk rfl rfl rfl
      · exact hmore _ rfl (hwrite _ _) (version_write hne _ _)
  | done =>
    dsimp only
    unfold fsreplaceDone
    split
    · rename_i errn _
      exact hcloses s.disk _ none rfl (le_refl _) rfl (failed_problemOf errn)
    split
    · exact hcloses s.disk _ none rfl (le_refl _) rfl (by decide)
    rename_i hexp
    split
    · dsimp only
      split
      · rename_i errn _
        exact hcloses s.disk _ _ rfl (le_refl _) rfl (failed_problemOf errn)
      · exact h.commit hc howner hsrv hexp (.inr rfl) rfl
    split
    · rename_i errn _
      exact hcloses s.disk _ _ rfl (le_refl _) rfl (failed_problemOf errn)
    · exact h.commit hc howner hsrv hexp (.inl rfl) rfl

/-- A channel that reads is one of `read`. -/
theorem owner_of_fsread {fd : Nat} {startTag : String} {queue : List Bytes}
    {outBuffer : Option Bytes} (hsrv : c.server = .fsread fd startTag queue outBuffer) :
    c.owner = .read := by
  have hok := h.channels ch c hc
  unfold ChannelOk at hok
  cases howner : c.owner with
  | replace call newContent =>
    rw [howner] at hok
    exact absurd hsrv (hok.notRead fd startTag queue outBuffer)
  | read => rfl

/-- A channel receives a message. -/
theorem receive
    (hclose : ∀ problem, message = .close problem → World.failed (some problem)) (io : Io) :
    Inv ws flushed first (s.receive ch c message io) := by
  have hno := h.serve_nothing hc
  have hok := h.channels ch c hc
  unfold ChannelOk at hok
  cases hsrv : c.server with
  | opened | closed =>
    unfold World.receive Fs.receive
    rw [hsrv] at hno ⊢
    exact hno
  | fsreplace fd e g =>
    cases howner : c.owner with
    | read =>
      rw [howner] at hok
      exact absurd hsrv (hok.2.1 fd e g)
    | replace call newContent => exact h.receive_replace hc howner hsrv hclose io
  | fsread fd startTag queue outBuffer =>
    have howner := h.owner_of_fsread hc hsrv
    have hcloses : ∀ problem, World.failed (some problem) → Inv ws flushed first
        (s.serve ch (s.disk, .closed,
          (flushText outBuffer).map .payload ++ [.close (some problem) none])) := by
      intro problem hprob
      apply h.serve_read hc howner
      · exact nofun
      · exact fun hread => hread.closes hsrv hprob
    unfold World.receive Fs.receive
    rw [hsrv] at hno ⊢
    cases message with
    | payload data => exact hcloses "protocol-error" (by decide)
    | done => exact hno
    | close problem => exact hcloses problem (hclose problem rfl)

/-- A source of the main loop of the bridge. -/
theorem idle :
    Inv ws flushed first (s.serve ch (s.disk, Fs.idle s.disk c.server)) := by
  have hno := h.serve_nothing hc
  cases hsrv : c.server with
  | opened | closed | fsreplace fd e g =>
    rw [hsrv] at hno
    exact hno
  | fsread fd startTag queue outBuffer =>
    have howner := h.owner_of_fsread hc hsrv
    exact h.serve_read hc howner (onIdleSendBlock_not_fsreplace _ _ _ _ _)
      fun hread => hread.idle hsrv s.disk

end

/-- The timeout of a channel. -/
theorem flush (h : Inv ws true first s) (hc : s.channels[ch]? = some c) :
    Inv ws true first (s.serve ch (s.disk, Fs.flush c.server)) := by
  have hno := h.serve_nothing hc
  cases hsrv : c.server with
  | opened | closed | fsreplace fd e g =>
    rw [hsrv] at hno
    exact hno
  | fsread fd startTag queue outBuffer =>
    have howner := h.owner_of_fsread hc hsrv
    apply h.serve_read hc howner
    · exact nofun
    · exact fun hread => hread.flush hsrv

theorem bridgeStep (h : Inv ws flushed first s) (hc : s.channels[ch]? = some c) (io : Io) :
    Inv ws flushed first (s.bridgeStep ch c io) := by
  unfold World.bridgeStep
  split
  · exact h
  cases houtgoing : c.outgoing with
  | nil => exact h
  | cons message rest =>
    have hthis : ∀ b, s.channels[ch]? = some b → b = c := fun b hb =>
      mem_unique hb hc
    have hpopped : Inv ws flushed first
        (s.setChannel ch (fun b => { b with outgoing := c.outgoing.tail })) := by
      refine h.setChannel (fun b => ?_) (fun b problem hmem => ?_) fun b hb => ?_
      · rfl
      · refine .inr (h.closes ch c hc problem (mem_of_mem_tail hmem))
      · exact (h.channels ch b hb).same rfl rfl id rfl rfl rfl rfl
    rw [houtgoing] at hpopped
    apply hpopped.receive
    · show (s.channels.modify ch _)[ch]? = _
      rw [getElem?_modify_eq, hc]
      rfl
    rintro problem rfl
    apply h.closes ch c hc problem
    rw [houtgoing]
    exact mem_cons_self ..

end Inv

/-! ### Runs -/

/-- Whether the timeout of a channel comes. -/
def World.Event.isFlush : World.Event → Bool
  | .flush _ => true
  | _ => false

variable {e : World.Event}

theorem World.step_channel (ws : WebSocket) (s : World) {ch : Nat}
    (he : e.channel = some ch) :
    World.step ws s e =
      match s.channels[ch]? with
      | none => s
      | some c => s.channelStep ws ch c e := by
  cases e <;> cases he <;> rfl

/-- An event of a channel does nothing when there is no such channel. -/
theorem Inv.channelEvent (h : Inv ws flushed first s) {ch : Nat}
    (he : e.channel = some ch)
    (hstep : ∀ c, s.channels[ch]? = some c → Inv ws flushed first (s.channelStep ws ch c e)) :
    Inv ws flushed first (World.step ws s e) := by
  rw [World.step_channel ws s he]
  cases hc : s.channels[ch]? with
  | none => exact h
  | some c => exact hstep c hc

/-- **Step.**  Contents and tags stay known, and what is replaced is what was expected. -/
theorem Inv.step (h : Inv ws flushed first s)
    (hflush : e.isFlush → flushed) : Inv ws flushed first (World.step ws s e) := by
  cases e with
  | modify handle => exact h.modify handle
  | read handle => exact h.read handle []
  | close handle =>
    apply Inv.closeAny _ _ (by decide)
    exact h.closeAny _ (by decide)
  | task i result =>
    dsimp only [World.step]
    cases htask : s.tasks[i]? with
    | none => exact h
    | some task =>
      have hgone : Inv ws flushed first { s with tasks := s.tasks.eraseIdx i } :=
        h.page rfl rfl rfl rfl (fun _ hmem => .inl (mem_of_mem_eraseIdx hmem))
          (fun _ _ _ hmem => .inl hmem)
      apply hgone.runTask
      exact (Grows.of_eq rfl rfl).taskOk (h.tasks task (mem_of_getElem? htask))
  | deliver ch => exact h.channelEvent rfl fun c hc => h.pageStep hc
  | lost ch =>
    refine h.channelEvent rfl fun c hc => ?_
    dsimp only [World.channelStep]
    split
    · apply Inv.onClose_problem _ c (by decide)
      exact h.drop (fun _ => rfl) (fun _ => rfl) (fun _ => rfl) (fun _ => rfl)
        (fun _ _ hmem => .inl hmem) fun _ _ _ hmem => hmem
    · exact h
  | prepare ch io =>
    refine h.channelEvent rfl fun c hc => ?_
    dsimp only [World.channelStep]
    split
    · rename_i hopened
      exact h.prepare hc hopened io
    · exact h
  | receive ch io => exact h.channelEvent rfl fun c hc => h.bridgeStep hc io
  | idle ch => exact h.channelEvent rfl fun c hc => h.idle hc
  | flush ch =>
    obtain rfl := hflush rfl
    exact h.channelEvent rfl fun c hc => h.flush hc

theorem inv_start (ws : WebSocket) (flushed : Bool) (first : Version) :
    Inv ws flushed first (World.start first) where
  chain := by
    show first = (World.start first).disk.version
    cases first <;> rfl
  path fd hfd := by
    cases first with
    | none => exact nomatch hfd
    | some node =>
      obtain rfl : 0 = fd := some.inj hfd
      exact one_pos
  writers _ _ hc := nomatch hc
  apart _ _ _ _ hc := nomatch hc
  channels _ _ hc := nomatch hc
  closes _ _ hc := nomatch hc
  updates _ hu := nomatch hu
  commits _ hcommit := nomatch hcommit
  tasks _ htask := nomatch htask
  outcomes _ _ _ houtcome := nomatch houtcome

/-- Whether the timeout of a channel comes in a run. -/
def World.flushes (es : List World.Event) : Bool := es.any World.Event.isFlush

/-- Different versions have different tags. -/
def World.TagsDiffer (s : World) (first : Version) : Prop :=
  ∀ v ∈ s.versions first, ∀ w ∈ s.versions first, tagOf v = tagOf w → v = w

/-- With the tag of a version comes the content of that version. -/
theorem Known.reads {vs : List Version} {content : Option Text} {v : Version}
    (hdiffer : ∀ v ∈ vs, ∀ w ∈ vs, tagOf v = tagOf w → v = w) (hmem : v ∈ vs)
    (h : Known ws flushed vs content (some (tagOf v))) : Reads ws flushed v content := by
  obtain ⟨w, hw, htag, hreads⟩ := h
  rw [hdiffer v hmem w hw (some.inj htag)]
  exact hreads

/-- **Modifications lose nothing.**  After every run the replacements of the file form a chain, and
    each of them was made for an update whose callback was given the text of the version that was
    replaced.  When a call of `modify` resolves there is such a replacement, by what its callback
    returned. -/
theorem run_modify (ws : WebSocket) (first : Version) (es : List World.Event)
    (hdiffer : (run (World.step ws) (World.start first) es).TagsDiffer first) :
    let s := run (World.step ws) (World.start first) es
    Chained first s.commits s.disk.version ∧
      (∀ commit ∈ s.commits, ∃ u ∈ s.updates, u.channel = commit.channel ∧
        Reads ws (World.flushes es) commit.replaced u.content) ∧
      ∀ call newContent newTag, (call, Outcome.resolved newContent newTag) ∈ s.outcomes →
        ∃ commit ∈ s.commits, ∃ u ∈ s.updates, u.channel = commit.channel ∧ u.call = call ∧
          u.newContent = newContent ∧ newTag = some (tagOf commit.version) ∧
          Reads ws (World.flushes es) commit.replaced u.content := by
  intro s
  have hok : ∀ t fs, (∀ e ∈ fs, e ∈ es) →
      RunOk (World.step ws) (fun _ e => e.isFlush = true → World.flushes es = true) t fs := by
    intro t fs hsub
    induction fs generalizing t with
    | nil => trivial
    | cons e fs ih =>
      refine ⟨fun hflush => ?_, ih _ (fun e' he' => hsub e' (mem_cons_of_mem _ he'))⟩
      exact any_eq_true.mpr ⟨e, hsub e (mem_cons_self ..), hflush⟩
  have hinv : Inv ws (World.flushes es) first s :=
    run_invariant (Inv ws (World.flushes es) first) (fun _ _ h hflush => h.step hflush)
      (inv_start ws _ first) (hok _ es (fun _ he => he))
  refine ⟨hinv.chain, fun commit hcommit => ?_, fun call newContent newTag hresolved => ?_⟩
  · obtain ⟨u, hu, hchannel, htag⟩ := hinv.commits commit hcommit
    have hknown := hinv.updates u hu
    rw [htag] at hknown
    exact ⟨u, hu, hchannel, hknown.reads hdiffer (hinv.chain.replaced_mem hcommit)⟩
  obtain ⟨commit, hcommit, u, hu, hchannel, hcall, hcontent, hnew, htag⟩ :=
    hinv.outcomes call newContent newTag hresolved
  have hknown := hinv.updates u hu
  rw [htag] at hknown
  exact ⟨commit, hcommit, u, hu, hchannel, hcall, hcontent, hnew,
    hknown.reads hdiffer (hinv.chain.replaced_mem hcommit)⟩

/-! ### Two files -/

/-- How a browser reads sequences of up to three bytes. -/
def decodeShort : Bytes → Text
  | [] => []
  | [b] => [b.toUInt16]
  | [b, c] => [b.toUInt16, c.toUInt16]
  | b :: c :: d :: rest =>
    if b < 0x80 then b.toUInt16 :: decodeShort (c :: d :: rest)
    else if b < 0xE0 then
      ((b.toUInt16 - 0xC0) * 64 + (c.toUInt16 - 0x80)) :: decodeShort (d :: rest)
    else
      ((b.toUInt16 - 0xE0) * 4096 + (c.toUInt16 - 0x80) * 64 + (d.toUInt16 - 0x80)) ::
        decodeShort rest

/-- How a browser writes code units that are no surrogates. -/
def encodeShort (text : Text) : Bytes :=
  text.flatMap (fun unit =>
    if unit < 0x80 then [unit.toUInt8]
    else if unit < 0x800 then [0xC0 + (unit / 64).toUInt8, 0x80 + (unit % 64).toUInt8]
    else [0xE0 + (unit / 4096).toUInt8, 0x80 + (unit / 64 % 64).toUInt8,
      0x80 + (unit % 64).toUInt8])

def browser : WebSocket := ⟨decodeShort, encodeShort⟩

/-- A call of `modify` that nobody disturbs, with a callback that returns "x". -/
def alone : List World.Event :=
  let io : Io := { stat := ⟨2, 0, 0⟩ }
  [.modify 0, .prepare 0 io, .idle 0, .idle 0, .deliver 0, .deliver 0, .deliver 0,
    .task 0 (.returns (some [0x78])), .prepare 1 io, .receive 1 io, .receive 1 io, .deliver 1,
    .task 0 .undefined]

/-- "hi" -/
def greeting : Version := some ⟨[0x68, 0x69], ⟨1, 0, 0⟩⟩

theorem run_modify_greeting :
    let s := run (World.step browser) (World.start greeting) alone
    Chained greeting s.commits s.disk.version ∧
      (∀ commit ∈ s.commits, ∃ u ∈ s.updates, u.channel = commit.channel ∧
        Reads browser (World.flushes alone) commit.replaced u.content) ∧
      ∀ call newContent newTag, (call, Outcome.resolved newContent newTag) ∈ s.outcomes →
        ∃ commit ∈ s.commits, ∃ u ∈ s.updates, u.channel = commit.channel ∧ u.call = call ∧
          u.newContent = newContent ∧ newTag = some (tagOf commit.version) ∧
          Reads browser (World.flushes alone) commit.replaced u.content := by
  apply run_modify browser greeting alone
  unfold World.TagsDiffer
  decide +kernel

/-- A file that is no UTF-8. -/
def binary : Version := some ⟨[0xFF, 0x20], ⟨1, 0, 0⟩⟩

/-- The callback is not given what the file holds, but the text that a channel made of it. -/
theorem not_exactly_binary :
    let s := run (World.step browser) (World.start binary) alone
    ∃ commit ∈ s.commits, ∃ u ∈ s.updates, u.channel = commit.channel ∧
      (u.call, Outcome.resolved u.newContent (some (tagOf commit.version))) ∈ s.outcomes ∧
      commit.replaced.map Fs.Node.content = some [0xFF, 0x20] ∧
      u.content = some [0xFFFD, 0x20] ∧
      u.content.map browser.encode ≠ commit.replaced.map Fs.Node.content := by
  decide +kernel

end Cockpit.Page.File
