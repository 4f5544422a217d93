import Cockpit.Bridge.Channel
import Cockpit.Bridge.Fs

namespace Cockpit

open Lib List

/-!
# What a replacement leaves behind: `src/bridge/cockpitfsreplace.c`

One `fsreplace1` channel with its descriptor, the temporary file and the target, system call by
system call.  `Fs` says what such a channel does to a path; here every call can fail by itself.

* `Fsreplace.run_target` — after every run the target is what the outcome says;
* `Fsreplace.cleaned_iff` — the descriptor and the temporary file are left right in just the runs
  in which no "done" gets past `fsync`, the client does not close without a problem, and no
  temporary file is opened for a channel that the parent class has closed.
-/

/-- `CockpitFsreplace`, with what it works on. -/
structure Fsreplace where
  /-- The content of the file at the path, when there is one. -/
  target : Option Bytes
  expectedTag : Option String := none
  /-- `tmp_path` is set. -/
  tmpPath : Bool := false
  /-- The content of the temporary file, while it has its name. -/
  tmp : Option Bytes := none
  /-- `fd` is not `-1`. -/
  fd : Bool := false
  gotContent : Bool := false
  receivedDone : Bool := false
  /-- The channel was closed, with this problem. -/
  closed : Option (Option String) := none
  /-- A descriptor was opened, and so many calls of `close` had its number. -/
  opened : Bool := false
  closes : Nat := 0
  /-- An `unlink` of the temporary file failed. -/
  unlinkFailed : Bool := false
  /-- The payloads that were received. -/
  received : List Bytes := []
  deriving DecidableEq

namespace Fsreplace

/-! ### System calls -/

/-- What one `open` of a temporary file comes to; `taken` is `EEXIST`. -/
inductive Opened where
  | ok
  | taken
  | failed (errn : Errno)

/-- The loop over the names of temporary files. -/
def openLoop : Nat → List Opened → Opened
  | 0, _ => .taken
  | _ + 1, [] => .ok
  | n + 1, .taken :: rest => openLoop n rest
  | _ + 1, result :: _ => result

/-- The loop of `cockpit_fsreplace_recv`; a `write` that works writes at least one byte, and what
    is left after these results is written at once. -/
def writeLoop (content : Bytes) : Bytes → List (Except Errno Nat) → Bytes × Option Errno
  | [], _ => (content, none)
  | data, [] => (content ++ data, none)
  | data, .error .intr :: results => writeLoop content data results
  | _, .error errn :: _ => (content, some errn)
  | data, .ok n :: results =>
    writeLoop (content ++ data.take (n + 1)) (data.drop (n + 1)) results

/-- `xfsync`; `fsync` works after these failures. -/
def xfsync : List Errno → Option Errno
  | [] => none
  | .intr :: rest => xfsync rest
  | errn :: _ => some errn

/-- `xclose` -/
def xclose : Option Errno → Option Errno
  | some .intr => none
  | result => result

variable (self : Fsreplace)

/-- `unlink` of the temporary file. -/
def unlinkTmp (error : Option Errno) : Fsreplace :=
  match self.tmp, error with
  | none, _ => self
  | some _, none => { self with tmp := none }
  | some _, some _ => { self with unlinkFailed := true }

/-! ### The functions of the class -/

/-- `cockpit_fsreplace_close`, as `cockpit_channel_close` calls it; the parent's handler does
    nothing more for a channel that was closed before. -/
def close (problem : Option String) (cleanup : Option Errno) : Fsreplace :=
  let self := if self.fd then { self with closes := self.closes + 1, fd := false } else self
  let self := if problem.isSome && self.tmpPath then self.unlinkTmp cleanup else self
  { self with closed := some (self.closed.getD problem) }

/-- `close_with_errno` -/
def closeWithErrno (errn : Errno) (cleanup : Option Errno) : Fsreplace :=
  self.close (some (Fs.problemOf errn)) cleanup

variable (options : JsonObject)

/-- The problem with which `cockpit_channel_real_prepare` closes the channel, if it does. -/
def parentCloses : Option (Option String) :=
  ((Channel.new "" options none false).realPrepare true).closedSignals.head?

variable (actualTag : Option String)

/-- `cockpit_fsreplace_prepare` after the parent's; `none` is a tag that can't be read. -/
def openTmp
    (opens : List Opened) (cleanup : Option Errno) : Fsreplace :=
  match Json.getString options "path" none with
  | none | some none | some (some "") => self.close (some "protocol-error") cleanup
  | some (some _) =>
    match Json.getString options "tag" none with
    | none => self.close (some "protocol-error") cleanup
    | some expectedTag =>
      let self := { self with expectedTag }
      if expectedTag.isSome ∧ expectedTag ≠ actualTag then
        self.close (some "change-conflict") cleanup
      else
        match openLoop 9999 opens with
        | .ok => { self with tmpPath := true, fd := true, opened := true, tmp := some [] }
        | .taken => self.close (some "internal-error") cleanup
        | .failed errn => { self with tmpPath := true }.closeWithErrno errn cleanup

/-- `cockpit_fsreplace_prepare`; it goes on when the parent has closed the channel. -/
def prepare
    (opens : List Opened) (cleanup : Option Errno) : Fsreplace :=
  let self :=
    match parentCloses options with
    | none => self
    | some problem => self.close problem cleanup
  self.openTmp options actualTag opens cleanup

/-- A temporary file can be opened for these options. -/
def opensTmp (opens : List Opened) : Bool :=
  match Json.getString options "path" none, Json.getString options "tag" none with
  | some (some path), some expectedTag =>
    path != "" && (expectedTag.isNone || expectedTag == actualTag) &&
      (openLoop 9999 opens matches .ok)
  | _, _ => false

/-- `cockpit_fsreplace_recv` -/
def recv (data : Bytes) (results : List (Except Errno Nat))
    (cleanup : Option Errno) : Fsreplace :=
  let written := writeLoop (self.tmp.getD []) data results
  let self :=
    { self with gotContent := true, tmp := some written.1, received := self.received ++ [data] }
  match written.2 with
  | none => self
  | some errn => self.closeWithErrno errn cleanup

/-- What the system calls of `cockpit_fsreplace_control` come to. -/
structure Io where
  fsync : List Errno := []
  close : Option Errno := none
  actualTag : Option String := none
  unlinkTmp : Option Errno := none
  unlink : Option Errno := none
  rename : Option Errno := none
  /-- `unlink` when the channel closes with a problem. -/
  cleanup : Option Errno := none

/-- `cockpit_fsreplace_control` after `fsync` and `close`. -/
def commit (io : Io) : Fsreplace :=
  if self.expectedTag.isSome ∧ self.expectedTag ≠ io.actualTag then
    self.close (some "out-of-date") io.cleanup
  else if self.gotContent then
    match io.rename with
    | some errn => self.closeWithErrno errn io.cleanup
    | none => { self with target := self.tmp, tmp := none }.close none io.cleanup
  else
    let self := self.unlinkTmp io.unlinkTmp
    match io.unlink with
    | none | some .noent => { self with target := none }.close none io.cleanup
    | some errn => self.closeWithErrno errn io.cleanup

/-- `cockpit_fsreplace_control`, for "done". -/
def control (io : Io) : Fsreplace :=
  let self := { self with receivedDone := true }
  let self :=
    match xfsync io.fsync with
    | some errn => self.closeWithErrno errn io.cleanup
    | none =>
      let self := { self with closes := self.closes + 1 }
      match xclose io.close with
      | some errn => self.closeWithErrno errn io.cleanup
      | none => self.commit io
  { self with fd := false }

/-! ### Runs of a channel -/

/-- What happens to a channel. -/
inductive Event where
  | prepare (options : JsonObject) (actualTag : Option String) (opens : List Opened)
      (cleanup : Option Errno)
  | recv (data : Bytes) (results : List (Except Errno Nat)) (cleanup : Option Errno)
  | done (io : Io)
  | close (problem : Option String) (cleanup : Option Errno)
  | transportClosed (problem : Option String) (cleanup : Option Errno)

/-- Messages are held back until the channel is ready, and don't come after it was closed. -/
def step (e : Event) : Fsreplace :=
  if self.closed.isSome then self
  else
    match e with
    | .prepare options actualTag opens cleanup =>
      if self.opened then self else self.prepare options actualTag opens cleanup
    | .recv data results cleanup => if self.fd then self.recv data results cleanup else self
    | .done io => if self.fd then self.control io else self
    | .close problem cleanup => if self.fd then self.close problem cleanup else self
    | .transportClosed problem cleanup =>
      self.close (some (problem.getD "disconnected")) cleanup

/-- The target is what the outcome says: the payloads after a "done" without a problem, and
    otherwise what was there first. -/
def TargetRight (first : Option Bytes) (self : Fsreplace) : Prop :=
  self.target =
    if self.receivedDone ∧ self.closed = some none then
      if self.received = [] then none else some self.received.flatten
    else first

/-- The descriptor was closed once, and the temporary file went away unless that failed. -/
structure CleanedUp (s : Fsreplace) : Prop where
  closes : s.closes = if s.opened then 1 else 0
  tmp : s.tmp = none ∨ s.unlinkFailed

/-- A channel that was closed cleaned up. -/
def Clean (first : Option Bytes) (self : Fsreplace) : Prop :=
  self.closed.isSome → self.CleanedUp ∧ self.TargetRight first

/-- A step that leaves something behind: a "done" that gets past `fsync`, a client that closes
    without a problem, or a temporary file for a channel that the parent class has closed. -/
def leaves : Event → Bool
  | .done io => self.fd && self.closed.isNone && (xfsync io.fsync).isNone
  | .close none _ => self.fd && self.closed.isNone
  | .prepare options actualTag opens _ =>
    !self.opened && self.closed.isNone && (parentCloses options).isSome &&
      opensTmp options actualTag opens
  | _ => false

variable {first : Option Bytes} {self : Fsreplace}

/-- Without an error all bytes of a message are written. -/
theorem writeLoop_eq {content data : Bytes} {results : List (Except Errno Nat)}
    (hok : (writeLoop content data results).2 = none) :
    (writeLoop content data results).1 = content ++ data := by
  induction results generalizing content data with
  | nil => cases data <;> simp [writeLoop]
  | cons result results ih =>
    match data, result with
    | [], _ => simp [writeLoop]
    | byte :: data, .ok n =>
      rw [writeLoop] at hok ⊢
      · rw [ih hok, append_assoc, take_append_drop]
      all_goals simp
    | byte :: data, .error errn =>
      cases errn
      case intr => exact ih hok
      all_goals exact nomatch hok

/-! ### What is left behind -/

theorem unlinkTmp_eq (self : Fsreplace) (error : Option Errno) : ∃ tmp failed,
    self.unlinkTmp error = { self with tmp := tmp, unlinkFailed := failed } ∧
      (tmp = none ∨ failed) := by
  obtain ⟨_, _, _, tmp, _, _, _, _, _, _, failed, _⟩ := self
  match tmp, error with
  | none, _ | some _, none => exact ⟨none, failed, rfl, .inl rfl⟩
  | some tmp, some _ => exact ⟨some tmp, true, rfl, .inr rfl⟩

/-- Everything that closing does; it removes the temporary file when there is a problem. -/
theorem close_eq (self : Fsreplace) (problem : Option String) (cleanup : Option Errno) :
    ∃ tmp failed, self.close problem cleanup =
      { self with
        closes := self.closes + self.fd.toNat, fd := false, tmp := tmp, unlinkFailed := failed
        closed := some (self.closed.getD problem) } ∧
      (problem.isSome → (self.tmp = none ∨ self.tmpPath) → tmp = none ∨ failed) ∧
      (problem = none → tmp = self.tmp ∧ failed = self.unlinkFailed) := by
  unfold close
  have hfd : (if self.fd then { self with closes := self.closes + 1, fd := false } else self) =
      { self with closes := self.closes + self.fd.toNat, fd := false } := by
    obtain ⟨_, _, _, _, fd, _⟩ := self
    cases fd <;> rfl
  rw [hfd]
  dsimp only
  split
  · rename_i hprob
    obtain ⟨tmp, failed, heq, hgone⟩ := unlinkTmp_eq
      { self with closes := self.closes + self.fd.toNat, fd := false } cleanup
    refine ⟨tmp, failed, by rw [heq], fun _ _ => hgone, ?_⟩
    rintro rfl
    exact nomatch hprob
  rename_i hprob
  refine ⟨self.tmp, self.unlinkFailed, rfl, fun hsome htmp => ?_, fun _ => ⟨rfl, rfl⟩⟩
  rw [hsome, Bool.true_and] at hprob
  exact .inl (htmp.resolve_right hprob)

/-- Without a descriptor and a temporary file there is nothing to clean up. -/
theorem close_fresh (hfd : self.fd = false) (htmp : self.tmp = none) (problem : Option String)
    (cleanup : Option Errno) :
    self.close problem cleanup = { self with closed := some (self.closed.getD problem) } := by
  have hnone : self.unlinkTmp cleanup = self := by
    unfold unlinkTmp
    rw [htmp]
  unfold close
  simp only [hfd, hnone, Bool.false_eq_true, if_false, ite_self]

/-- The descriptor was not closed, and the temporary file has a name that is known. -/
structure Closable (first : Option Bytes) (s : Fsreplace) : Prop where
  opened : s.opened = s.fd
  closes : s.closes = 0
  tmp : s.tmp = none ∨ s.tmpPath
  target : s.target = first
  notDone : s.closed = some none → s.receivedDone = false

theorem Closable.cleanedUp_close (h : Closable first self) (problem : String)
    (cleanup : Option Errno) : (self.close (some problem) cleanup).CleanedUp := by
  obtain ⟨tmp, failed, heq, hgone, -⟩ := close_eq self (some problem) cleanup
  rw [heq]
  refine ⟨?_, hgone rfl h.tmp⟩
  show self.closes + self.fd.toNat = if self.opened then 1 else 0
  rw [h.closes, h.opened]
  cases self.fd <;> rfl

/-- A problem leaves the target as it was. -/
theorem targetRight_close (htarget : self.target = first)
    (hdone : self.closed = some none → self.receivedDone = false) (problem : String)
    (cleanup : Option Errno) : TargetRight first (self.close (some problem) cleanup) := by
  obtain ⟨tmp, failed, heq, -⟩ := close_eq self (some problem) cleanup
  rw [heq]
  unfold TargetRight
  rw [if_neg ?_, htarget]
  rintro ⟨hreceived, hclosed⟩
  have hnone : self.closed = some none := by
    cases hc : self.closed with
    | none => simp [hc] at hclosed
    | some problem => simpa [hc] using hclosed
  exact absurd (hdone hnone) (by simpa using hreceived)

theorem closes_close (self : Fsreplace) (problem : Option String) (cleanup : Option Errno) :
    (self.close problem cleanup).closes = self.closes + self.fd.toNat ∧
      (self.close problem cleanup).opened = self.opened := by
  obtain ⟨tmp, failed, heq, -⟩ := close_eq self problem cleanup
  rw [heq]
  exact ⟨rfl, rfl⟩

/-- A commit closes the descriptor whatever comes of it. -/
theorem closes_commit (self : Fsreplace) (io : Io) :
    (self.commit io).closes = self.closes + self.fd.toNat ∧
      (self.commit io).opened = self.opened := by
  obtain ⟨tmp, failed, heq, -⟩ := unlinkTmp_eq self io.unlinkTmp
  unfold commit
  dsimp only
  rw [heq]
  repeat' split
  all_goals exact closes_close _ _ _

/-- A channel that was not closed yet. -/
structure Live (first : Option Bytes) (s : Fsreplace) : Prop where
  closed : s.closed = none
  target : s.target = first
  receivedDone : s.receivedDone = false
  closes : s.closes = 0
  opened : s.opened = s.fd
  tmp : s.tmp = if s.fd then some s.received.flatten else none
  tmpPath : s.fd → s.tmpPath
  gotContent : s.gotContent ↔ s.received ≠ []
  unlinkFailed : s.unlinkFailed = false
  fresh : s.opened = false → s.received = []

/-- The temporary file has a name that is known. -/
theorem Live.tmp_or (h : Live first self) : self.tmp = none ∨ self.tmpPath := by
  cases hfd : self.fd with
  | false => exact .inl (by rw [h.tmp, hfd]; rfl)
  | true => exact .inr (h.tmpPath hfd)

/-- A commit puts the payloads in the place of the target, or leaves it. -/
theorem targetRight_commit (htarget : self.target = first) (hclosed : self.closed = none)
    (hdone : self.receivedDone) (htmp : self.tmp = some self.received.flatten)
    (hgot : self.gotContent ↔ self.received ≠ []) (io : Io) :
    TargetRight first (self.commit io) := by
  unfold commit
  dsimp only
  split
  · exact targetRight_close htarget (by simp [hclosed]) _ _
  split
  · rename_i hcont
    split
    · exact targetRight_close htarget (by simp [hclosed]) _ _
    obtain ⟨tmp, failed, heq, -⟩ :=
      close_eq { self with target := self.tmp, tmp := none } none io.cleanup
    rw [heq]
    simp [TargetRight, hclosed, hdone, htmp, hgot.mp hcont]
  rename_i hcont
  have hnone : self.received = [] := not_not.mp fun hne => hcont (hgot.mpr hne)
  obtain ⟨tmp, failed, heq, -⟩ := unlinkTmp_eq self io.unlinkTmp
  rw [heq]
  split
  case h_3 => exact targetRight_close (by exact htarget) (by simp [hclosed]) _ _
  all_goals
    obtain ⟨tmp', failed', heq', -⟩ := close_eq
      { self with target := none, tmp := tmp, unlinkFailed := failed } none io.cleanup
    rw [heq']
    simp [TargetRight, hclosed, hdone, hnone]

/-- A commit closes the channel. -/
theorem closed_commit (self : Fsreplace) (io : Io) : (self.commit io).closed.isSome := by
  unfold commit
  dsimp only
  repeat' split
  all_goals rfl

/-- What a step comes to that closes the channel. -/
structure Ends (first : Option Bytes) (leaves : Bool) (s : Fsreplace) : Prop where
  closed : s.closed.isSome
  target : s.TargetRight first
  cleaned : s.CleanedUp ↔ leaves = false

/-- Closing with a problem leaves nothing behind. -/
theorem Closable.ends_close (h : Closable first self) (problem : String)
    (cleanup : Option Errno) : Ends first false (self.close (some problem) cleanup) :=
  ⟨rfl, targetRight_close h.target h.notDone problem cleanup,
    iff_of_true (h.cleanedUp_close problem cleanup) rfl⟩

theorem Live.closable (h : Live first self) : Closable first self :=
  { h with tmp := h.tmp_or, notDone := fun _ => h.receivedDone }

/-- What is left of preparing either opens a temporary file, or closes the channel. -/
theorem openTmp_cases (self : Fsreplace) (options : JsonObject) (actualTag : Option String)
    (opens : List Opened) (cleanup : Option Errno) : ∃ tag,
    (opensTmp options actualTag opens ∧ self.openTmp options actualTag opens cleanup =
      { self with expectedTag := tag, tmpPath := true, fd := true, opened := true, tmp := some [] }) ∨
    (opensTmp options actualTag opens = false ∧ ∃ named problem,
      self.openTmp options actualTag opens cleanup =
        { self with expectedTag := tag, tmpPath := named }.close (some problem) cleanup) := by
  unfold openTmp opensTmp
  cases hpath : Json.getString options "path" none with
  | none => exact ⟨_, .inr ⟨rfl, _, _, rfl⟩⟩
  | some path =>
    rcases path with - | path
    · exact ⟨_, .inr ⟨rfl, _, _, rfl⟩⟩
    by_cases hempty : path = ""
    · subst hempty
      refine ⟨_, .inr ⟨?_, _, _, rfl⟩⟩
      cases Json.getString options "tag" none <;> rfl
    cases htag : Json.getString options "tag" none with
    | none => exact ⟨_, .inr ⟨rfl, _, _, by simp; rfl⟩⟩
    | some tag =>
      refine ⟨tag, ?_⟩
      by_cases hchanged : tag.isSome ∧ tag ≠ actualTag
      · refine .inr ⟨?_, _, _, by simp [hchanged]; rfl⟩
        simp [hchanged, Option.isNone_eq_false_iff.mpr hchanged.1]
      have hsame : (tag.isNone || tag == actualTag) := by
        simpa [imp_iff_or_not, or_comm] using hchanged
      cases hloop : openLoop 9999 opens with
      | ok => exact .inl ⟨by simp [hempty, hsame], by simp [hchanged]⟩
      | taken => exact .inr ⟨by simp, _, _, by simp [hchanged]; rfl⟩
      | failed errn => exact .inr ⟨by simp, _, _, by simp [hchanged, closeWithErrno]; rfl⟩

/-- Only the parent's closing leaves a temporary file behind that is opened. -/
theorem Live.prepare (h : Live first self) (hnew : self.opened = false) (options : JsonObject)
    (actualTag : Option String) (opens : List Opened) (cleanup : Option Errno) :
    Live first (self.prepare options actualTag opens cleanup) ∧ parentCloses options = none ∨
      Ends first ((parentCloses options).isSome && opensTmp options actualTag opens)
        (self.prepare options actualTag opens cleanup) := by
  have hfd : self.fd = false := h.opened.symm.trans hnew
  have htmp : self.tmp = none := by rw [h.tmp, hfd]; rfl
  unfold Fsreplace.prepare
  cases hparent : parentCloses options with
  | none =>
    obtain ⟨tag, ⟨-, heq⟩ | ⟨-, named, problem, heq⟩⟩ :=
      openTmp_cases self options actualTag opens cleanup
    · refine .inl ⟨?_, rfl⟩
      dsimp only
      rw [heq]
      refine { h with
          opened := rfl, tmp := ?_, tmpPath := fun _ => rfl, fresh := fun _ => h.fresh hnew }
      simp [h.fresh hnew]
    · dsimp only
      rw [heq]
      exact .inr (Closable.ends_close
        (by exact { h with tmp := .inl htmp, notDone := fun _ => h.receivedDone }) _ _)
  | some problem =>
    dsimp only
    rw [close_fresh hfd htmp]
    obtain ⟨tag, ⟨hopens, heq⟩ | ⟨hopens, named, problem', heq⟩⟩ := openTmp_cases
      { self with closed := some (self.closed.getD problem) } options actualTag opens cleanup
    · -- the descriptor stays open: nobody closes the channel again
      rw [heq, hopens]
      refine .inr ⟨rfl, ?_, iff_of_false (fun hclean => ?_) (by simp)⟩
      · simp [TargetRight, h.target, h.receivedDone]
      · have hcloses := hclean.closes
        simp [h.closes] at hcloses
    · rw [heq, hopens]
      exact .inr (Closable.ends_close
        (by exact { h with tmp := .inl htmp, notDone := fun _ => h.receivedDone }) _ _)

/-- A message is appended to the temporary file, or the channel closes. -/
theorem Live.recv (h : Live first self) (hfd : self.fd) (data : Bytes)
    (results : List (Except Errno Nat)) (cleanup : Option Errno) :
    Live first (self.recv data results cleanup) ∨
      Ends first false (self.recv data results cleanup) := by
  unfold Fsreplace.recv
  dsimp only
  split
  · rename_i hok
    refine .inl { h with tmp := ?_, gotContent := ?_, fresh := fun hnew => ?_ }
    · show some _ = ite _ _ _
      rw [writeLoop_eq hok, h.tmp, hfd]
      simp
    · simp
    · exact absurd (h.opened.trans hfd) (by simpa using hnew)
  · exact
      .inr (Closable.ends_close (by exact
        { h with tmp := .inr (h.tmpPath hfd), notDone := fun _ => h.receivedDone }) _ _)

/-- Closing again what was closed. -/
theorem not_cleanedUp {s : Fsreplace} (hcloses : s.closes = 2) (hopened : s.opened) :
    ¬ s.CleanedUp := by
  intro h
  have honce := h.closes
  rw [hcloses, hopened] at honce
  exact nomatch honce

/-- Only a `fsync` that fails leaves the descriptor to the closing of the channel. -/
theorem Live.control (h : Live first self) (hfd : self.fd) (io : Io) :
    Ends first (xfsync io.fsync).isNone (self.control io) := by
  have hopened : self.opened := h.opened.trans hfd
  have htmp : self.tmp = some self.received.flatten := by rw [h.tmp, hfd]; rfl
  unfold Fsreplace.control
  dsimp only
  split
  · rename_i errn hfsync
    have hends : Ends first false
        ({ self with receivedDone := true }.closeWithErrno errn io.cleanup) :=
      Closable.ends_close (by exact { h with tmp := h.tmp_or, notDone := by simp [h.closed] }) _ _
    rw [hfsync]
    have hclean := hends.cleaned.mpr rfl
    exact ⟨rfl, hends.target, iff_of_true ⟨hclean.closes, hclean.tmp⟩ rfl⟩
  rename_i hfsync
  rw [hfsync]
  split
  · rename_i errn hclose
    refine ⟨rfl, targetRight_close (by exact h.target) (by simp [h.closed]) _ _, iff_of_false ?_ (by simp)⟩
    obtain ⟨hcloses, ho⟩ := closes_close
      { self with receivedDone := true, closes := self.closes + 1 }
        (some (Fs.problemOf errn)) io.cleanup
    exact not_cleanedUp (hcloses.trans (by simp [h.closes, hfd])) (ho.trans hopened)
  obtain ⟨hcloses, ho⟩ :=
    closes_commit { self with receivedDone := true, closes := self.closes + 1 } io
  refine ⟨?_, targetRight_commit (by exact h.target) (by exact h.closed) rfl (by exact htmp)
    (by exact h.gotContent) io,
    iff_of_false ?_ (by simp)⟩
  · exact closed_commit _ io
  · exact not_cleanedUp (hcloses.trans (by simp [h.closes, hfd])) (ho.trans hopened)

/-- Everything that a step comes to while the channel is open. -/
theorem Live.step (h : Live first self) (e : Event) :
    Live first (self.step e) ∧ self.leaves e = false ∨
      Ends first (self.leaves e) (self.step e) := by
  unfold Fsreplace.step
  rw [if_neg (by simp [h.closed])]
  cases e with
  | prepare options actualTag opens cleanup =>
    dsimp only
    split
    · rename_i hopened
      exact .inl ⟨h, by simp [leaves, hopened]⟩
    · rename_i hnew
      refine (h.prepare (Bool.not_eq_true _ ▸ hnew) options actualTag opens cleanup).imp
        (fun hlive => ⟨hlive.1, by simp [leaves, hlive.2]⟩) fun hends => ?_
      have hleaves : self.leaves (.prepare options actualTag opens cleanup) =
          ((parentCloses options).isSome && opensTmp options actualTag opens) := by
        simp [leaves, hnew, h.closed]
      exact hleaves ▸ hends
  | recv data results cleanup =>
    dsimp only
    split
    · rename_i hfd
      exact (h.recv hfd data results cleanup).imp (⟨·, rfl⟩) id
    · exact .inl ⟨h, rfl⟩
  | done io =>
    dsimp only
    split
    · rename_i hfd
      have hleaves : self.leaves (.done io) = (xfsync io.fsync).isNone := by
        simp [leaves, hfd, h.closed]
      exact .inr (hleaves ▸ h.control hfd io)
    · rename_i hfd
      exact .inl ⟨h, by simp [leaves, hfd]⟩
  | close problem cleanup =>
    dsimp only
    split
    · rename_i hfd
      cases problem with
      | some problem => exact .inr (h.closable.ends_close problem cleanup)
      | none =>
        -- nobody removes the temporary file when there is no problem
        obtain ⟨tmp, failed, heq, -, hkept⟩ := close_eq self none cleanup
        obtain ⟨rfl, rfl⟩ := hkept rfl
        refine .inr ⟨rfl, ?_, iff_of_false (fun hclean => ?_) (by simp [leaves, hfd, h.closed])⟩
        · rw [heq]
          simp [TargetRight, h.target, h.receivedDone]
        · have htmp := hclean.tmp
          rw [heq] at htmp
          simp [h.tmp, hfd, h.unlinkFailed] at htmp
    · rename_i hfd
      refine .inl ⟨h, ?_⟩
      cases problem <;> simp [leaves, hfd]
  | transportClosed problem cleanup => exact .inr (h.closable.ends_close _ cleanup)

/-! ### Runs -/

theorem step_of_closed (hclos : self.closed.isSome) (e : Event) : self.step e = self :=
  if_pos hclos

theorem live_init (first : Option Bytes) : Live first { target := first } :=
  ⟨rfl, rfl, rfl, rfl, rfl, rfl, fun h => absurd h Bool.false_ne_true, by simp, rfl, fun _ => rfl⟩

theorem run_targetRight (h : Live first self ∨ self.closed.isSome ∧ self.TargetRight first)
    (es : List Event) (hclos : (run step self es).closed.isSome) :
    (run step self es).TargetRight first := by
  induction es generalizing self with
  | nil =>
    rcases h with hlive | ⟨-, htarget⟩
    · rw [run_nil, hlive.closed] at hclos
      exact nomatch hclos
    · exact htarget
  | cons e es ih =>
    refine ih ?_ hclos
    rcases h with hlive | ⟨hself, htarget⟩
    · exact (hlive.step e).imp And.left fun hends => ⟨hends.closed, hends.target⟩
    · exact .inr (by rw [step_of_closed hself]; exact ⟨hself, htarget⟩)

/-- **The target after every run** is what the outcome of the channel says. -/
theorem run_target (first : Option Bytes) (es : List Event)
    (hclos : (run step { target := first } es).closed.isSome) :
    (run step { target := first } es).TargetRight first :=
  run_targetRight (.inl (live_init first)) es hclos

/-- **What is left behind**: nothing, in just the runs in which no "done" gets past `fsync`, the
    client does not close without a problem, and the parent class closes no channel for which a
    temporary file is opened. -/
theorem cleaned_iff (first : Option Bytes) (es : List Event) :
    (∀ before, before <+: es → Clean first (run step { target := first } before)) ↔
      RunOk step (fun s e => s.leaves e = false) { target := first } es := by
  refine run_good_iff
    (fun s => Live first s ∨ s.closed.isSome = true ∧ s.CleanedUp ∧ s.TargetRight first)
    (Clean first) ?_ ?_ ?_ (.inl (live_init first)) es
  · rintro s (hlive | ⟨-, hgood⟩) hclosed
    · rw [hlive.closed] at hclosed
      exact nomatch hclosed
    · exact hgood
  · rintro s e (hlive | hclosed) hok
    · exact (hlive.step e).imp And.left
        fun hends => ⟨hends.closed, hends.cleaned.mpr hok, hends.target⟩
    · exact .inr (by rw [step_of_closed hclosed.1]; exact hclosed)
  rintro s e (hlive | ⟨hclosed, -⟩) hleaves hclean
  · rcases hlive.step e with ⟨-, hok⟩ | hends
    · exact hleaves hok
    · exact hleaves (hends.cleaned.mp (hclean hends.closed).1)
  refine hleaves ?_
  have hnone : s.closed.isNone = false := by rw [Option.isNone_eq_false_iff]; exact hclosed
  unfold leaves
  split <;> simp [hnone]

/-- Two bytes that are written and committed without any failure. -/
theorem not_clean_done :
    ¬ Clean none (run step { target := none }
      [.prepare [("path", .string "/a")] none [] none, .recv [104, 105] [] none, .done {}]) := by
  intro h
  exact absurd (h rfl).1.closes (by decide)

end Fsreplace

end Cockpit
