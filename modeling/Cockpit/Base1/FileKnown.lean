import Cockpit.Base1.File
import Cockpit.Lib.Modify

namespace Cockpit.Page.File

open Fs Lib List Unicode

/-!
# What the users of a file know of it

* `ChannelOk`, `TaskOk`, `Inv` — contents and tags are known wherever they are, and a rename or an
  unlink replaces the version whose tag its writer expected;
* `Inv.update`, `Inv.runTask`, `Inv.pageStep` — the steps of a page keep this.
-/

/-! ### Versions -/

variable (ws : WebSocket)

/-- The text of a file, in the payloads that are sent for it; nothing is said about it after the
    timeout of a channel came. -/
def Reads (flushed : Bool) (v : Version) (content : Option Text) : Prop :=
  match v, content with
  | none, none => True
  | some node, some text => flushed = false → ∃ payloads : List Bytes,
      text = (payloads.map ws.decode).flatten ∧
      payloads.flatten = forceUtf8 node.content ∧
      ∀ p ∈ payloads, GLib.utf8Validate p = p.length
  | _, _ => False

/-- A content that was read from one of some versions, which the tag is of. -/
def Known (flushed : Bool) (vs : List Version) (content : Option Text)
    (tag : Option String) : Prop :=
  ∃ v ∈ vs, tag = some (tagOf v) ∧ Reads ws flushed v content

/-- The replacements lead from one version to another, each from where the last one led. -/
def Chained : Version → List Commit → Version → Prop
  | v, [], w => v = w
  | v, commit :: commits, w => commit.replaced = v ∧ Chained commit.version commits w

/-- All versions, with the one at the beginning. -/
def World.versions (s : World) (first : Version) : List Version :=
  first :: s.commits.map Commit.version

variable {commits : List Commit} {v w : Version} {commit : Commit}

theorem Chained.snoc (h : Chained v commits w) (hreplaced : commit.replaced = w) :
    Chained v (commits ++ [commit]) commit.version := by
  induction commits generalizing v with
  | nil => exact ⟨hreplaced.trans h.symm, rfl⟩
  | cons c commits ih => exact ⟨h.1, ih h.2⟩

/-- Where the replacements lead to is a version. -/
theorem Chained.mem (h : Chained v commits w) :
    w ∈ v :: commits.map Commit.version := by
  induction commits generalizing v with
  | nil =>
    have hsame : v = w := h
    rw [hsame]
    exact mem_cons_self ..
  | cons c commits ih => exact mem_cons_of_mem _ (ih h.2)

/-- What was replaced is a version. -/
theorem Chained.replaced_mem (h : Chained v commits w) (hmem : commit ∈ commits) :
    commit.replaced ∈ v :: commits.map Commit.version := by
  induction commits generalizing v with
  | nil => exact nomatch hmem
  | cons c commits ih =>
    rcases mem_cons.mp hmem with rfl | hmem
    · rw [h.1]
      exact mem_cons_self ..
    · exact mem_cons_of_mem _ (ih h.2 hmem)

/-- The tag of a file is not the one for no file. -/
theorem tagOf_some_ne (node : Fs.Node) : tagOf (some node) ≠ "-" := by
  intro h
  have hlist := congrArg String.toList h
  simp only [tagOf, Option.map_some, fileTagFromStat, String.toList_append] at hlist
  exact absurd (List.cons.inj hlist).1 (by decide)

/-! ### Texts -/

theorem pushSlices_flatten (bytes : Bytes) : (pushSlices bytes).flatten = bytes := by
  fun_induction pushSlices bytes with
  | case1 => rfl
  | case2 bytes hne ih => rw [flatten_cons, ih, take_append_drop]

theorem pushBytes_flatten (bytes : Bytes) : (pushBytes bytes).flatten = bytes := by
  unfold pushBytes
  split
  · exact append_nil bytes
  · exact pushSlices_flatten bytes

/-- What was sent of a text, and what is held back of it. -/
structure Passed (payloads : List Bytes) (held : Option Bytes) (text : Bytes) : Prop where
  split : ∃ done, payloads.flatten = forceUtf8 done ∧
    hasIncompleteEnding done = false ∧ text = done ++ held.getD []
  valid : ∀ p ∈ payloads, GLib.utf8Validate p = p.length

theorem Passed.nil : Passed [] none [] :=
  ⟨⟨[], forceUtf8_nil.symm, hasIncompleteEnding_nil, rfl⟩, nofun⟩

theorem Passed.sendText {payloads : List Bytes} {held : Option Bytes} {text : Bytes}
    (h : Passed payloads held text) (payload : Bytes) :
    Passed (payloads ++ (sendText held payload).1) (sendText held payload).2 (text ++ payload) := by
  obtain ⟨⟨done, hflat, hend, htext⟩, hvalid⟩ := h
  unfold Fs.sendText
  dsimp only
  split
  · refine ⟨⟨done, ?_, hend, ?_⟩, ?_⟩
    · rw [append_nil]
      exact hflat
    · rw [htext, append_assoc]
      rfl
    · rw [append_nil]
      exact hvalid
  rename_i hcompl
  have hcompl' : hasIncompleteEnding (held.getD [] ++ payload) = false := by
    simpa using hcompl
  refine ⟨⟨done ++ (held.getD [] ++ payload), ?_, ?_, ?_⟩, fun p hp => ?_⟩
  · rw [flatten_append, hflat, forceUtf8_append done _ hend]
    simp
  · exact hasIncompleteEnding_append done _ hend hcompl'
  · rw [htext, append_assoc]
    exact (append_nil _).symm
  rcases mem_append.mp hp with hp | hp
  · exact hvalid p hp
  · rw [mem_singleton.mp hp]
    exact utf8Validate_forceUtf8 _

/-! ### What is on its way -/

/-- What a page takes for the content and the tag of the file, if it takes the messages. -/
def outcome (ws : WebSocket) : List Text → Bool → List Sent → Option (Option Text × Option String)
  | _, _, [] => none
  | parts, receivedDone, .payload data :: rest =>
    if receivedDone then none else outcome ws (parts ++ [ws.decode data]) false rest
  | parts, receivedDone, .done :: rest => if receivedDone then none else outcome ws parts true rest
  | parts, _, .close problem tag :: _ =>
    if World.failed problem then none
    else some (if tag = some "-" then none else some parts.flatten, tag)

theorem outcome_payloads (parts : List Text) (payloads : List Bytes)
    (rest : List Sent) :
    outcome ws parts false (payloads.map .payload ++ rest) =
      outcome ws (parts ++ payloads.map ws.decode) false rest := by
  induction payloads generalizing parts with
  | nil =>
    rw [map_nil, map_nil, append_nil]
    rfl
  | cons p payloads ih =>
    show outcome ws (parts ++ [ws.decode p]) false (payloads.map .payload ++ rest) = _
    rw [ih, map_cons, append_assoc]
    rfl

section Invariant

variable (ws : WebSocket) (flushed : Bool) (first : Version)

/-- A channel of `read` whose other end is still sending. -/
structure Sending (s : World) (c : Channel) (startTag : String) (queue : List Bytes)
    (outBuffer : Option Bytes) : Prop where
  notDone : c.receivedDone = false
  texts : ∃ (node : Fs.Node) (delivered waiting : List Bytes),
    some node ∈ s.versions first ∧ startTag = tagOf (some node) ∧
      c.contentParts = delivered.map ws.decode ∧ c.incoming = waiting.map .payload ∧
      (flushed = false → ∃ text, Passed (delivered ++ waiting) outBuffer text ∧
        node.content = text ++ queue.flatten)

variable (s : World)

/-- A channel of `read`, as long as the page listens to it. -/
def ReadOk (c : Channel) : Prop :=
  match c.server with
  | .opened => c.contentParts = [] ∧ c.incoming = [] ∧ c.receivedDone = false
  | .fsread _ startTag queue outBuffer => Sending ws flushed first s c startTag queue outBuffer
  | .fsreplace _ _ _ => False
  | .closed => ∀ content tag, outcome ws c.contentParts c.receivedDone c.incoming =
      some (content, tag) → Known ws flushed (s.versions first) content tag

/-- A commit of a channel, and the update that opened the channel: it expected what was
    replaced. -/
def Committed (call : Nat) (newContent : Option Text) (tag : Option String) : Prop :=
  ∃ commit ∈ s.commits, ∃ u ∈ s.updates, u.channel = commit.channel ∧ u.call = call ∧
    u.newContent = newContent ∧ tag = some (tagOf commit.version) ∧
      u.tag = some (tagOf commit.replaced)

/-- A channel of `replace`: it expects the tag of its update, and a success was a commit. -/
structure ReplaceOk (s : World) (ch : Nat) (c : Channel) (call : Nat) (newContent : Option Text) :
    Prop where
  update : ∃ u ∈ s.updates, u.channel = ch ∧ u.call = call ∧ u.newContent = newContent ∧
    c.options = .fsreplace u.tag ∧
      ∀ fd expectedTag gotContent, c.server = .fsreplace fd expectedTag gotContent →
        expectedTag = u.tag
  notRead : ∀ fd startTag queue outBuffer, c.server ≠ .fsread fd startTag queue outBuffer
  success : ∀ problem tag, .close problem tag ∈ c.incoming → World.failed problem = false →
    Committed s call newContent tag

/-- A channel of a file. -/
def ChannelOk (ch : Nat) (c : Channel) : Prop :=
  match c.owner with
  | .read => c.options = .fsread ∧ (∀ fd expectedTag gotContent,
      c.server ≠ .fsreplace fd expectedTag gotContent) ∧
        (c.valid → ReadOk ws flushed first s c)
  | .replace call newContent => ReplaceOk s ch c call newContent

theorem channelOk_of_read {s : World} {ch : Nat} {c : Channel} (howner : c.owner = .read)
    (hopts : c.options = .fsread)
    (hsrv : ∀ fd expectedTag gotContent, c.server ≠ .fsreplace fd expectedTag gotContent)
    (hread : c.valid → ReadOk ws flushed first s c) : ChannelOk ws flushed first s ch c := by
  unfold ChannelOk
  rw [howner]
  exact ⟨hopts, hsrv, hread⟩

theorem channelOk_of_replace {s : World} {ch call : Nat} {c : Channel} {newContent : Option Text}
    (howner : c.owner = .replace call newContent) (h : ReplaceOk s ch c call newContent) :
    ChannelOk ws flushed first s ch c := by
  unfold ChannelOk
  rw [howner]
  exact h

/-- A handler that waits. -/
def TaskOk : Task → Prop
  | .update _ _ content tag => Known ws flushed (s.versions first) content tag
  | .replaced call newContent newTag => Committed s call newContent newTag
  | .readFailed _ _ | .replaceFailed _ _ _ => True

/-- Contents and tags are known, and the file is what was committed last. -/
structure Inv (s : World) : Prop where
  chain : Chained first s.commits s.disk.version
  path : ∀ fd, s.disk.path = some fd → fd < s.disk.nodes.length
  writers : ∀ (ch : Nat) (c : Channel), s.channels[ch]? = some c →
    ∀ fd expectedTag gotContent, c.server = .fsreplace fd expectedTag gotContent →
      fd < s.disk.nodes.length ∧ s.disk.path ≠ some fd
  apart : ∀ (ch ch' : Nat) (c c' : Channel), s.channels[ch]? = some c →
    s.channels[ch']? = some c' → ∀ fd e g e' g', c.server = .fsreplace fd e g →
      c'.server = .fsreplace fd e' g' → ch = ch'
  channels : ∀ (ch : Nat) (c : Channel), s.channels[ch]? = some c →
    ChannelOk ws flushed first s ch c
  closes : ∀ (ch : Nat) (c : Channel), s.channels[ch]? = some c →
    ∀ problem, .close problem ∈ c.outgoing → World.failed (some problem)
  updates : ∀ u ∈ s.updates, Known ws flushed (s.versions first) u.content u.tag
  commits : ∀ commit ∈ s.commits, ∃ u ∈ s.updates, u.channel = commit.channel ∧
    u.tag = some (tagOf commit.replaced)
  tasks : ∀ task ∈ s.tasks, TaskOk ws flushed first s task
  outcomes : ∀ (call : Nat) (newContent : Option Text) (newTag : Option String),
    (call, Outcome.resolved newContent newTag) ∈ s.outcomes → Committed s call newContent newTag

end Invariant

variable {ws : WebSocket} {flushed : Bool} {first : Version} {s t : World}

/-! ### What stays true -/

theorem World.setChannel_setChannel (s : World) (ch : Nat) (f g : Channel → Channel) :
    (s.setChannel ch f).setChannel ch g = s.setChannel ch (g ∘ f) := by
  unfold World.setChannel
  dsimp only
  congr 1
  exact modify_modify_eq f g ch s.channels

theorem World.setChannel_id (s : World) (ch : Nat) : s.setChannel ch id = s := by
  unfold World.setChannel
  congr 1
  exact modify_id ch s.channels

theorem Known.mono {vs vs' : List Version} {content : Option Text} {tag : Option String}
    (h : Known ws flushed vs content tag) (hsub : ∀ v ∈ vs, v ∈ vs') :
    Known ws flushed vs' content tag := by
  obtain ⟨v, hmem, htag, hreads⟩ := h
  exact ⟨v, hsub v hmem, htag, hreads⟩

/-- The history goes on. -/
structure Grows (s t : World) : Prop where
  commits : ∀ c ∈ s.commits, c ∈ t.commits
  updates : ∀ u ∈ s.updates, u ∈ t.updates

namespace Grows

theorem of_eq (hcommits : t.commits = s.commits) (hupdates : t.updates = s.updates) :
    Grows s t :=
  ⟨fun _ hmem => hcommits.symm ▸ hmem, fun _ hmem => hupdates.symm ▸ hmem⟩

theorem versions (h : Grows s t) : ∀ v ∈ s.versions first, v ∈ t.versions first := by
  intro v hmem
  rcases mem_cons.mp hmem with rfl | hmem
  · exact mem_cons_self ..
  · obtain ⟨c, hc, rfl⟩ := mem_map.mp hmem
    exact mem_cons_of_mem _ (mem_map.mpr ⟨c, h.commits c hc, rfl⟩)

variable {call ch : Nat} {newContent : Option Text}

theorem committed (h : Grows s t) {tag : Option String}
    (hdone : Committed s call newContent tag) : Committed t call newContent tag := by
  obtain ⟨commit, hcommit, u, hu, hrest⟩ := hdone
  exact ⟨commit, h.commits commit hcommit, u, h.updates u hu, hrest⟩

theorem taskOk (h : Grows s t) {task : Task} (hok : TaskOk ws flushed first s task) :
    TaskOk ws flushed first t task := by
  cases task with
  | update _ _ content tag => exact Known.mono hok h.versions
  | replaced call newContent newTag => exact h.committed hok
  | readFailed _ _ | replaceFailed _ _ _ => trivial

variable {c : Channel}

theorem readOk (h : Grows s t) (hok : ReadOk ws flushed first s c) :
    ReadOk ws flushed first t c := by
  unfold ReadOk at hok ⊢
  split
  · rename_i hsrv
    rw [hsrv] at hok
    exact hok
  · rename_i hsrv
    rw [hsrv] at hok
    obtain ⟨hnot, node, delivered, waiting, hmem, hrest⟩ := hok
    exact ⟨hnot, node, delivered, waiting, h.versions _ hmem, hrest⟩
  · rename_i hsrv
    rw [hsrv] at hok
    exact hok
  · rename_i hsrv
    rw [hsrv] at hok
    exact fun content tag hout => (hok content tag hout).mono h.versions

theorem replaceOk (h : Grows s t) (hok : ReplaceOk s ch c call newContent) :
    ReplaceOk t ch c call newContent where
  update := by
    obtain ⟨u, hu, hrest⟩ := hok.update
    exact ⟨u, h.updates u hu, hrest⟩
  notRead := hok.notRead
  success problem tag hmem hworks := h.committed (hok.success problem tag hmem hworks)

theorem channelOk (h : Grows s t)
    (hok : ChannelOk ws flushed first s ch c) : ChannelOk ws flushed first t ch c := by
  unfold ChannelOk at hok ⊢
  split
  · rename_i howner
    rw [howner] at hok
    exact ⟨hok.1, hok.2.1, fun hvalid => h.readOk (hok.2.2 hvalid)⟩
  · rename_i howner
    rw [howner] at hok
    exact h.replaceOk hok

end Grows

/-- The messages to the bridge do not matter, nor does a page that stops listening. -/
theorem ChannelOk.same {ch : Nat} {c c' : Channel} (h : ChannelOk ws flushed first s ch c)
    (howner : c'.owner = c.owner) (hopts : c'.options = c.options)
    (hvalid : c'.valid → c.valid) (hdone : c'.receivedDone = c.receivedDone)
    (hparts : c'.contentParts = c.contentParts) (hin : c'.incoming = c.incoming)
    (hsrv : c'.server = c.server) : ChannelOk ws flushed first s ch c' := by
  unfold ChannelOk at h ⊢
  rw [howner]
  split
  · rename_i hread
    rw [hread] at h
    refine ⟨hopts.trans h.1, hsrv ▸ h.2.1, fun hlistens => ?_⟩
    have hok := h.2.2 (hvalid hlistens)
    unfold ReadOk at hok ⊢
    rw [hsrv, hdone, hparts, hin]
    split
    · rename_i hopened
      rw [hopened] at hok
      exact hok
    · rename_i hsends
      rw [hsends] at hok
      refine ⟨hdone.trans hok.notDone, ?_⟩
      rw [hparts, hin]
      exact hok.texts
    · rename_i hreplaces
      rw [hreplaces] at hok
      exact hok
    · rename_i hclos
      rw [hclos] at hok
      exact hok
  rename_i hrepl
  rw [hrepl] at h
  refine ⟨?_, hsrv ▸ h.notRead, hin ▸ h.success⟩
  rw [hopts, hsrv]
  exact h.update

/-! ### The parts of a page -/

namespace Inv

section

variable (h : Inv ws flushed first s)

include h

/-- A page changes its handles, and adds handlers and outcomes. -/
theorem page (hdisk : t.disk = s.disk)
    (hchans : t.channels = s.channels) (hcommits : t.commits = s.commits)
    (hupdates : t.updates = s.updates)
    (htasks : ∀ task ∈ t.tasks, task ∈ s.tasks ∨ TaskOk ws flushed first s task)
    (houts : ∀ call newContent newTag, (call, Outcome.resolved newContent newTag) ∈ t.outcomes →
        (call, Outcome.resolved newContent newTag) ∈ s.outcomes ∨
          Committed s call newContent newTag) :
    Inv ws flushed first t := by
  have hgrows : Grows s t := .of_eq hcommits hupdates
  refine ⟨?_, ?_, ?_, ?_, ?_, ?_, ?_, ?_, ?_, ?_⟩
  · rw [hcommits, hdisk]
    exact h.chain
  · rw [hdisk]
    exact h.path
  · rw [hdisk, hchans]
    exact h.writers
  · rw [hchans]
    exact h.apart
  · intro ch c hc
    rw [hchans] at hc
    exact hgrows.channelOk (h.channels ch c hc)
  · rw [hchans]
    exact h.closes
  · intro u hu
    rw [hupdates] at hu
    exact (h.updates u hu).mono hgrows.versions
  · intro commit hmem
    rw [hcommits] at hmem
    obtain ⟨u, hu, hrest⟩ := h.commits commit hmem
    exact ⟨u, hgrows.updates u hu, hrest⟩
  · intro task hmem
    apply hgrows.taskOk
    rcases htasks task hmem with hold | hnew
    · exact h.tasks task hold
    · exact hnew
  intro call newContent newTag hmem
  apply hgrows.committed
  rcases houts call newContent newTag hmem with hold | hnew
  · exact h.outcomes call newContent newTag hold
  · exact hnew

theorem setHandle (handle : Nat) (value : Handle) :
    Inv ws flushed first (s.setHandle handle value) :=
  h.page rfl rfl rfl rfl (fun _ hmem => .inl hmem) fun _ _ _ hmem => .inl hmem

theorem later {tasks : List Task}
    (hok : ∀ task ∈ tasks, TaskOk ws flushed first s task) :
    Inv ws flushed first (s.later tasks) :=
  h.page rfl rfl rfl rfl
    (fun task hmem => (mem_append.mp hmem).imp_right (hok task))
    (fun _ _ _ hmem => .inl hmem)

theorem settle {call : Nat} {outcome : Outcome}
    (hok : ∀ newContent newTag, outcome = .resolved newContent newTag →
      Committed s call newContent newTag) :
    Inv ws flushed first (s.settle call outcome) := by
  refine h.page rfl rfl rfl rfl (fun _ hmem => .inl hmem) fun call' newContent newTag hmem => ?_
  rcases mem_append.mp hmem with hmem | hmem
  · exact .inl hmem
  · obtain ⟨rfl, rfl⟩ := Prod.mk.inj (mem_singleton.mp hmem)
    exact .inr (hok newContent newTag rfl)

end

variable {f : Channel → Channel} {ch : Nat}

section

variable (h : Inv ws flushed first s)

include h

/-- What one channel changes besides its other end. -/
theorem setChannel (hsrv : ∀ c, (f c).server = c.server)
    (hcloses : ∀ c problem, .close problem ∈ (f c).outgoing →
      .close problem ∈ c.outgoing ∨ World.failed (some problem))
    (hok : ∀ c, s.channels[ch]? = some c → ChannelOk ws flushed first s ch (f c)) :
    Inv ws flushed first (s.setChannel ch f) := by
  have hgrows : Grows s (s.setChannel ch f) := .of_eq rfl rfl
  have hwas : ∀ (i : Nat) (c : Channel), (s.channels.modify ch f)[i]? = some c →
      ∃ b, s.channels[i]? = some b ∧ c.server = b.server := by
    intro i c hc
    obtain ⟨b, hb, ⟨-, rfl⟩ | ⟨-, rfl⟩⟩ := modify_cases hc
    · exact ⟨b, hb, hsrv b⟩
    · exact ⟨c, hb, rfl⟩
  refine { h with
      writers := fun i c hc fd e g hfd => ?_,
      apart := fun i i' c c' hc hc' fd e g e' g' hfd hfd' => ?_, channels := fun i c hc => ?_,
      closes := fun i c hc problem hmem => ?_ }
  · obtain ⟨b, hb, hsame⟩ := hwas i c hc
    exact h.writers i b hb fd e g (hsame ▸ hfd)
  · obtain ⟨b, hb, hsame⟩ := hwas i c hc
    obtain ⟨b', hb', hsame'⟩ := hwas i' c' hc'
    exact h.apart i i' b b' hb hb' fd e g e' g' (hsame ▸ hfd) (hsame' ▸ hfd')
  · obtain ⟨b, hb, ⟨rfl, rfl⟩ | ⟨-, rfl⟩⟩ := modify_cases hc
    · exact hgrows.channelOk (hok b hb)
    · exact hgrows.channelOk (h.channels i c hb)
  obtain ⟨b, hb, ⟨rfl, rfl⟩ | ⟨-, rfl⟩⟩ := modify_cases hc
  · rcases hcloses b problem hmem with hold | hnew
    · exact h.closes ch b hb problem hold
    · exact hnew
  · exact h.closes i c hb problem hmem

/-- A channel opens, maybe for an update. -/
theorem addChannel {c : Channel} {handles : Nat → Handle}
    {updates : List Update} (hopened : c.server = .opened)
    (hcloses : ∀ problem, .close problem ∉ c.outgoing)
    (hupdates : ∀ u ∈ updates, Known ws flushed (s.versions first) u.content u.tag)
    (hok : ChannelOk ws flushed first { s with updates := s.updates ++ updates } s.channels.length
      c) :
    Inv ws flushed first { s with
      channels := s.channels ++ [c], handles := handles, updates := s.updates ++ updates } := by
  have hgrows : Grows s { s with
      channels := s.channels ++ [c], handles := handles, updates := s.updates ++ updates } :=
    ⟨fun _ hmem => hmem, fun _ hmem => mem_append_left _ hmem⟩
  have hupdated : Grows { s with updates := s.updates ++ updates } { s with
      channels := s.channels ++ [c], handles := handles, updates := s.updates ++ updates } :=
    .of_eq rfl rfl
  have hnew : ∀ (i : Nat) (b : Channel) fd e g, (s.channels ++ [c])[i]? = some b →
      b.server = .fsreplace fd e g → s.channels[i]? = some b := by
    intro i b fd e g hb hfd
    rcases append_singleton_cases hb with hb | ⟨-, rfl⟩
    · exact hb
    · exact nomatch hopened.symm.trans hfd
  refine ⟨h.chain, h.path, fun i b hb fd e g hfd => ?_,
    fun i i' b b' hb hb' fd e g e' g' hfd hfd' => ?_, fun i b hb => ?_,
    fun i b hb problem hmem => ?_, fun u hu => ?_, fun commit hmem => ?_, fun task hmem => hgrows.taskOk (h.tasks task hmem),
    fun call newContent newTag hmem => hgrows.committed (h.outcomes call newContent newTag hmem)⟩
  · exact h.writers i b (hnew i b fd e g hb hfd) fd e g hfd
  · exact h.apart i i' b b' (hnew i b fd e g hb hfd) (hnew i' b' fd e' g' hb' hfd') fd e g e' g'
      hfd hfd'
  · rcases append_singleton_cases hb with hb | ⟨rfl, rfl⟩
    · exact hgrows.channelOk (h.channels i b hb)
    · exact hupdated.channelOk hok
  · rcases append_singleton_cases hb with hb | ⟨rfl, rfl⟩
    · exact h.closes i b hb problem hmem
    · exact absurd hmem (hcloses problem)
  · rcases mem_append.mp hu with hu | hu
    · exact h.updates u hu
    · exact hupdates u hu
  · obtain ⟨u, hu, hrest⟩ := h.commits commit hmem
    exact ⟨u, mem_append_left _ hu, hrest⟩

/-! ### `read` -/

theorem tryRead (handle : Nat) :
    Inv ws flushed first (s.tryRead handle) := by
  have hok : ChannelOk ws flushed first { s with updates := s.updates ++ [] } s.channels.length
      { handle := handle, owner := .read, options := .fsread, outgoing := [] } :=
    ⟨rfl, fun _ _ _ hsrv => (nomatch hsrv), fun _ => ⟨rfl, rfl, rfl⟩⟩
  have hopen : Inv ws flushed first { s with
      channels := s.channels ++
        [{ handle := handle, owner := .read, options := .fsread, outgoing := [] }]
      handles := Function.update s.handles handle
        { s.handles handle with readChannel := some s.channels.length }
      updates := s.updates ++ [] } :=
    h.addChannel rfl (nofun) (nofun) hok
  rw [append_nil] at hopen
  exact hopen

theorem read (handle : Nat) (waiting : List Nat) :
    Inv ws flushed first (s.read handle waiting) := by
  unfold World.read
  split
  · exact h.setHandle handle _
  · exact (h.tryRead handle).setHandle handle _

end

variable {problem tag : Option String}

theorem readClosed (h : Inv ws flushed first s) (handle : Nat) {parts : List Text}
    (hknown : World.failed problem = false → Known ws flushed (s.versions first)
      (if tag = some "-" then none else some parts.flatten) tag) :
    Inv ws flushed first (s.readClosed handle parts problem tag) := by
  unfold World.readClosed
  dsimp only
  split
  · exact (h.setHandle handle _).tryRead handle
  split
  · apply ((h.setHandle handle _).setHandle handle _).later
    intro task hmem
    obtain ⟨call, -, rfl⟩ := mem_map.mp hmem
    trivial
  rename_i hworks
  apply ((h.setHandle handle _).setHandle handle _).later
  intro task hmem
  obtain ⟨call, -, rfl⟩ := mem_map.mp hmem
  exact hknown (by simpa using hworks)

theorem replaceClosed (h : Inv ws flushed first s) (handle : Nat) {call : Nat}
    {newContent : Option Text}
    (hcommitted : World.failed problem = false → Committed s call newContent tag) :
    Inv ws flushed first (s.replaceClosed handle call newContent problem tag) := by
  unfold World.replaceClosed
  dsimp only
  split
  · apply (h.setHandle handle _).later
    intro task hmem
    rw [mem_singleton.mp hmem]
    trivial
  rename_i hworks
  apply (h.setHandle handle _).later
  intro task hmem
  rw [mem_singleton.mp hmem]
  exact hcommitted (by simpa using hworks)

/-! ### Closing -/

/-- The page does not listen to a channel any longer. -/
theorem drop (h : Inv ws flushed first s)
    (howner : ∀ c, (f c).owner = c.owner) (hopts : ∀ c, (f c).options = c.options)
    (hsrv : ∀ c, (f c).server = c.server) (hvalid : ∀ c, (f c).valid = false)
    (hcloses : ∀ c problem, .close problem ∈ (f c).outgoing →
      .close problem ∈ c.outgoing ∨ World.failed (some problem))
    (hin : ∀ c, s.channels[ch]? = some c → ∀ m ∈ (f c).incoming, m ∈ c.incoming) :
    Inv ws flushed first (s.setChannel ch f) := by
  apply h.setChannel hsrv hcloses
  intro c hc
  have hok := h.channels ch c hc
  unfold ChannelOk at hok ⊢
  rw [howner]
  split
  · rename_i hread
    rw [hread] at hok
    rw [hopts, hsrv]
    exact ⟨hok.1, hok.2.1, fun hlistens => nomatch (hvalid c).symm.trans hlistens⟩
  rename_i hrepl
  rw [hrepl] at hok
  refine ⟨?_, ?_, fun problem tag hmem => hok.success problem tag (hin c hc _ hmem)⟩
  · rw [hopts, hsrv]
    exact hok.update
  · rw [hsrv]
    exact hok.notRead

section

variable (h : Inv ws flushed first (s.setChannel ch (fun c => { c with valid := false })))

include h

/-- The handlers of "close", after the page has stopped to listen. -/
theorem onClose {channel : Channel}
    (hread : channel.owner = .read → World.failed problem = false →
      Known ws flushed (s.versions first)
        (if tag = some "-" then none else some channel.contentParts.flatten) tag)
    (hrepl : ∀ call newContent, channel.owner = .replace call newContent →
      World.failed problem = false → Committed s call newContent tag) :
    Inv ws flushed first (s.onClose ch channel problem tag) := by
  unfold World.onClose
  dsimp only
  split
  · rename_i howner
    exact h.readClosed _ (hread howner)
  · rename_i call newContent howner
    exact h.replaceClosed _ (hrepl call newContent howner)

/-- A channel closes with a problem. -/
theorem onClose_problem (channel : Channel) {problem : String}
    (hprob : World.failed (some problem)) :
    Inv ws flushed first (s.onClose ch channel (some problem) none) := by
  apply h.onClose
  · exact fun _ hworks => nomatch hprob.symm.trans hworks
  · exact fun _ _ _ hworks => nomatch hprob.symm.trans hworks

end

/-- A channel closes with a problem, and leaves some messages behind. -/
theorem close_dropped (h : Inv ws flushed first s)
    (howner : ∀ c, (f c).owner = c.owner) (hopts : ∀ c, (f c).options = c.options)
    (hsrv : ∀ c, (f c).server = c.server) (hvalid : ∀ c, (f c).valid = c.valid)
    (houtgoing : ∀ c, (f c).outgoing = c.outgoing)
    (hin : ∀ c, s.channels[ch]? = some c → ∀ m ∈ (f c).incoming, m ∈ c.incoming)
    (hlistens : ∀ c, s.channels[ch]? = some c → c.valid) {problem : String}
    (hprob : World.failed (some problem)) :
    Inv ws flushed first ((s.setChannel ch f).close ch problem) := by
  unfold World.close
  split
  · rename_i hnone
    -- then there was no such channel to begin with
    apply h.setChannel hsrv fun c _ hmem => .inl (houtgoing c ▸ hmem)
    intro c hc
    have hsome : (s.channels.modify ch f)[ch]? = some (f c) := by
      rw [getElem?_modify_eq, hc]
      rfl
    exact nomatch hnone.symm.trans hsome
  rename_i c hc
  obtain ⟨b, hb, ⟨-, rfl⟩ | ⟨hne, -⟩⟩ := modify_cases hc
  · have hopen : ¬ (!(f b).valid) := by
      rw [hvalid, hlistens b hb]
      exact nofun
    rw [if_neg hopen]
    apply onClose_problem _ _ hprob
    rw [World.setChannel_setChannel, World.setChannel_setChannel]
    refine h.drop howner hopts hsrv (fun _ => rfl) (fun c other hmem => ?_) hin
    have hmem' : Received.close other ∈ (f c).outgoing ++ [.close problem] := hmem
    rcases mem_append.mp hmem' with hold | hnew
    · exact .inl (houtgoing c ▸ hold)
    · rw [Received.close.inj (mem_singleton.mp hnew)]
      exact .inr hprob
  · exact absurd rfl hne

theorem close (h : Inv ws flushed first s) (ch : Nat) {problem : String}
    (hprob : World.failed (some problem)) :
    Inv ws flushed first (s.close ch problem) := by
  cases hc : s.channels[ch]? with
  | none =>
    unfold World.close
    rw [hc]
    exact h
  | some c =>
    cases hvalid : c.valid with
    | false =>
      unfold World.close
      rw [hc]
      dsimp only
      rw [hvalid]
      exact h
    | true =>
      have hclose : Inv ws flushed first ((s.setChannel ch id).close ch problem) := by
        apply h.close_dropped (fun _ => rfl) (fun _ => rfl) (fun _ => rfl) (fun _ => rfl)
          (fun _ => rfl) (fun _ _ _ hmem => hmem) _ hprob
        intro b hb
        rw [Option.some.inj (hb.symm.trans hc)]
        exact hvalid
      rw [World.setChannel_id] at hclose
      exact hclose

theorem closeAny (h : Inv ws flushed first s) (ch : Option Nat) {problem : String}
    (hprob : World.failed (some problem)) :
    Inv ws flushed first (s.closeAny ch problem) := by
  cases ch with
  | none => exact h
  | some ch => exact h.close ch hprob

end Inv

/-- Closing is no part of the history. -/
theorem history_closeAny (s : World) (ch : Option Nat) (problem : String) :
    (s.closeAny ch problem).commits = s.commits ∧ (s.closeAny ch problem).updates = s.updates := by
  have honClose : ∀ (t : World) (ch : Nat) (channel : Channel) (tag : Option String),
      (t.onClose ch channel (some problem) tag).commits = t.commits ∧
        (t.onClose ch channel (some problem) tag).updates = t.updates := by
    intro t ch channel tag
    unfold World.onClose World.readClosed World.replaceClosed
    dsimp only
    split
    · split
      · exact ⟨rfl, rfl⟩
      · split <;> exact ⟨rfl, rfl⟩
    · split <;> exact ⟨rfl, rfl⟩
  cases ch with
  | none => exact ⟨rfl, rfl⟩
  | some ch =>
    show (s.close ch problem).commits = _ ∧ (s.close ch problem).updates = _
    unfold World.close
    split
    · exact ⟨rfl, rfl⟩
    · split
      · exact ⟨rfl, rfl⟩
      · exact honClose _ ch _ none

/-! ### `replace` and `modify` -/

namespace Inv

/-- A callback returned, and its content and its tag go to a channel. -/
theorem update (h : Inv ws flushed first s) (handle call : Nat) {content : Option Text}
    (newContent : Option Text) {tag : Option String}
    (hknown : Known ws flushed (s.versions first) content tag) :
    Inv ws flushed first (s.update ws handle call content newContent tag) := by
  have hclos := h.closeAny (s.handles handle).replaceChannel
    (show World.failed (some "abort") by decide)
  obtain ⟨hcommits, hupdates⟩ := history_closeAny s (s.handles handle).replaceChannel "abort"
  have hgrows : Grows s (s.closeAny (s.handles handle).replaceChannel "abort") :=
    .of_eq hcommits hupdates
  have hknown' := hknown.mono fun v hv => hgrows.versions v hv
  unfold World.update World.replace
  dsimp only
  generalize s.closeAny (s.handles handle).replaceChannel "abort" = t at hclos hknown' ⊢
  rw [List.length_append, length_singleton, Nat.add_sub_cancel]
  apply hclos.addChannel rfl
  · intro problem hmem
    rcases mem_append.mp hmem with hmem | hmem
    · obtain ⟨batch, -, hbatch⟩ := mem_map.mp hmem
      exact nomatch hbatch
    · exact nomatch mem_singleton.mp hmem
  · intro u hu
    rw [mem_singleton.mp hu]
    exact hknown'
  refine ⟨⟨⟨call, content, tag, newContent, t.channels.length⟩, ?_, rfl, rfl, rfl, rfl, ?_⟩, ?_, ?_⟩
  · exact mem_append_right _ (mem_singleton_self _)
  · exact nofun
  · exact nofun
  · exact nofun

theorem modify (h : Inv ws flushed first s) (handle : Nat) :
    Inv ws flushed first (s.modify handle) := by
  have hcalled : Inv ws flushed first { s with calls := s.calls + 1 } :=
    h.page rfl rfl rfl rfl (fun _ hmem => .inl hmem) fun _ _ _ hmem => .inl hmem
  exact hcalled.read handle [s.calls]

theorem runTask (h : Inv ws flushed first s) {task : Task}
    (hok : TaskOk ws flushed first s task) (result : World.CallbackResult) :
    Inv ws flushed first (s.runTask ws result task) := by
  cases task with
  | update handle call content tag =>
    cases result with
    | undefined => exact h.update handle call content hok
    | returns newContent => exact h.update handle call newContent hok
    | throws => exact h
  | readFailed call problem => exact h.settle nofun
  | replaced call newContent newTag =>
    apply h.settle
    intro newContent' newTag' hresol
    obtain ⟨rfl, rfl⟩ := Outcome.resolved.inj hresol
    exact hok
  | replaceFailed handle call problem =>
    show Inv ws flushed first (if problem = "change-conflict" then s.read handle [call]
      else s.settle call (.rejected problem))
    split
    · exact h.read handle [call]
    · exact h.settle nofun

end Inv

/-! ### Messages to the page -/

/-- The page takes the next message of a channel of `read`. -/
theorem ReadOk.deliver {c : Channel} {message : Sent} {rest : List Sent}
    (hok : ReadOk ws flushed first s c) (hin : c.incoming = message :: rest) :
    (∀ data, message = .payload data → c.receivedDone = false → ReadOk ws flushed first s
        { c with incoming := rest, contentParts := c.contentParts ++ [ws.decode data] }) ∧
    (message = .done → c.receivedDone = false →
      ReadOk ws flushed first s { c with incoming := rest, receivedDone := true }) ∧
    (∀ problem tag, message = .close problem tag → World.failed problem = false →
      Known ws flushed (s.versions first)
        (if tag = some "-" then none else some c.contentParts.flatten) tag) := by
  unfold ReadOk at hok ⊢
  dsimp only at hok ⊢
  cases hsrv : c.server with
  | opened =>
    rw [hsrv] at hok
    exact nomatch hin.symm.trans hok.2.1
  | fsreplace fd expectedTag gotContent =>
    rw [hsrv] at hok
    exact hok.elim
  | fsread fd startTag queue outBuffer =>
    rw [hsrv] at hok
    obtain ⟨hnot, node, delivered, waiting, hmem, htag, hparts, hsent, htext⟩ := hok
    -- only payload is on its way
    cases waiting with
    | nil => exact nomatch hin.symm.trans hsent
    | cons p waiting =>
      obtain ⟨hmsg, hrest⟩ := List.cons.inj (hin.symm.trans hsent)
      subst hmsg hrest
      refine ⟨fun data hdata hdone => ?_, fun hdone => (nomatch hdone),
        fun _ _ hclose => (nomatch hclose)⟩
      cases hdata
      refine ⟨hdone, node, delivered ++ [p], waiting, hmem, htag, ?_, rfl, fun hf => ?_⟩
      · show c.contentParts ++ [ws.decode p] = _
        rw [hparts, map_append]
        rfl
      · rw [append_assoc]
        exact htext hf
  | closed =>
    rw [hsrv, hin] at hok
    refine ⟨fun data hdata hdone content tag hout => ?_, fun hdata hdone content tag hout => ?_,
      fun problem tag hdata hworks => ?_⟩
    · subst hdata
      apply hok content tag
      rw [outcome, hdone]
      rw [hdone] at hout
      exact hout
    · subst hdata
      apply hok content tag
      rw [outcome, hdone]
      exact hout
    subst hdata
    apply hok
    rw [outcome, hworks]
    rfl

/-- What a channel of `replace` needs does not depend on the messages that it gets. -/
theorem ReplaceOk.deliver {ch : Nat} {c c' : Channel} {call : Nat} {newContent : Option Text}
    (h : ReplaceOk s ch c call newContent) (hopts : c'.options = c.options)
    (hsrv : c'.server = c.server) (hin : ∀ m ∈ c'.incoming, m ∈ c.incoming) :
    ReplaceOk s ch c' call newContent where
  update := by
    rw [hopts, hsrv]
    exact h.update
  notRead := hsrv ▸ h.notRead
  success problem tag hmem := h.success problem tag (hin _ hmem)

/-- The page receives a message. -/
theorem Inv.pageStep (h : Inv ws flushed first s) {ch : Nat} {channel : Channel}
    (hc : s.channels[ch]? = some channel) : Inv ws flushed first (s.pageStep ws ch channel) := by
  unfold World.pageStep
  cases hin : channel.incoming with
  | nil => exact h
  | cons message rest =>
    have hthis : ∀ c, s.channels[ch]? = some c → c = channel := fun c hc' =>
      Option.mem_unique hc' hc
    have hrest : ∀ c, s.channels[ch]? = some c → ∀ m ∈ rest, m ∈ c.incoming := by
      intro c hc' m hm
      rw [hthis c hc', hin]
      exact mem_cons_of_mem _ hm
    have hok := h.channels ch channel hc
    unfold ChannelOk at hok
    have hmove : ∀ f : Channel → Channel, (∀ c, (f c).server = c.server) →
        (∀ c, (f c).outgoing = c.outgoing) → ChannelOk ws flushed first s ch (f channel) →
        Inv ws flushed first (s.setChannel ch f) := fun f hsrv hout hnew =>
      h.setChannel hsrv (fun c _ hmem => .inl (hout c ▸ hmem)) fun c hc' => (hthis c hc').symm ▸ hnew
    dsimp only
    split
    · rename_i hvalid
      have hlistens : ∀ c, s.channels[ch]? = some c → c.valid := fun c hc' =>
        (hthis c hc').symm ▸ hvalid
      have hprotocol : Inv ws flushed first
          ((s.setChannel ch (fun c => { c with incoming := rest })).close ch "protocol-error") :=
        h.close_dropped (f := fun c => { c with incoming := rest }) (fun _ => rfl) (fun _ => rfl)
          (fun _ => rfl) (fun _ => rfl) (fun _ => rfl) hrest hlistens (by decide)
      cases howner : channel.owner with
      | read =>
        rw [howner] at hok
        obtain ⟨hopts, hsrv, hread⟩ := hok
        obtain ⟨hpayload, hdone, hclose⟩ := (hread hvalid).deliver hin
        cases message with
        | payload data =>
          show Inv ws flushed first (if channel.receivedDone then _ else World.setChannel _ ch _)
          split
          · exact hprotocol
          rename_i hnot
          rw [World.setChannel_setChannel]
          exact hmove _ (fun _ => rfl) (fun _ => rfl)
            (channelOk_of_read _ _ _ howner hopts hsrv fun _ => hpayload data rfl (by simpa using hnot))
        | done =>
          show Inv ws flushed first (if channel.receivedDone then _ else _)
          split
          · exact hprotocol
          rename_i hnot
          rw [World.setChannel_setChannel]
          exact hmove _ (fun _ => rfl) (fun _ => rfl)
            (channelOk_of_read _ _ _ howner hopts hsrv fun _ => hdone rfl (by simpa using hnot))
        | close problem tag =>
          unfold World.deliver
          apply Inv.onClose
          · rw [World.setChannel_setChannel]
            exact h.drop (fun _ => rfl) (fun _ => rfl) (fun _ => rfl) (fun _ => rfl)
              (fun _ _ hmem => .inl hmem) hrest
          · exact fun _ hworks => hclose problem tag rfl hworks
          · exact nofun
      | replace call newContent =>
        rw [howner] at hok
        have hkeep : ∀ f : Channel → Channel, (∀ c, (f c).owner = c.owner) →
            (∀ c, (f c).options = c.options) → (∀ c, (f c).server = c.server) →
            (∀ c, (f c).outgoing = c.outgoing) → (∀ c, (f c).incoming = rest) →
            Inv ws flushed first (s.setChannel ch f) := by
          intro f hfo hfopt hfs hfout hfi
          refine hmove f hfs hfout ?_
          unfold ChannelOk
          rw [hfo, howner]
          apply hok.deliver (hfopt channel) (hfs channel)
          intro m hm
          rw [hfi] at hm
          exact hrest channel hc m hm
        cases message with
        | payload data =>
          show Inv ws flushed first (if channel.receivedDone then _ else s.setChannel ch _)
          split
          · exact hprotocol
          · exact hkeep _ (fun _ => rfl) (fun _ => rfl) (fun _ => rfl) (fun _ => rfl)
              fun _ => rfl
        | done =>
          show Inv ws flushed first (if channel.receivedDone then _ else _)
          split
          · exact hprotocol
          · rw [World.setChannel_setChannel]
            exact hkeep _ (fun _ => rfl) (fun _ => rfl) (fun _ => rfl) (fun _ => rfl)
              fun _ => rfl
        | close problem tag =>
          unfold World.deliver
          apply Inv.onClose
          · rw [World.setChannel_setChannel]
            exact h.drop (fun _ => rfl) (fun _ => rfl) (fun _ => rfl) (fun _ => rfl)
              (fun _ _ hmem => .inl hmem) hrest
          · exact nofun
          intro call' newContent' hrepl hworks
          obtain ⟨rfl, rfl⟩ := Owner.replace.inj hrepl
          have hmem : Sent.close problem tag ∈ channel.incoming := by
            rw [hin]
            exact mem_cons_self ..
          exact hok.success problem tag hmem hworks
    rename_i hinval
    -- nobody listens, and the message is lost
    refine hmove (fun c => { c with incoming := rest }) (fun _ => rfl) (fun _ => rfl) ?_
    unfold ChannelOk
    dsimp only
    split at hok
    · exact ⟨hok.1, hok.2.1, fun hvalid => absurd hvalid hinval⟩
    · exact hok.deliver rfl rfl (hrest channel hc)

end Cockpit.Page.File
