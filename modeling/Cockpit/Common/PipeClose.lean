import Cockpit.Common.PipeOutput

namespace Cockpit

open Lib List Bool Pipe Entry

/-!
# How a pipe closes

* `Orderly` — the condition: connecting does not fail, and no shared descriptor is closed by
  `close_immediately`;
* `run_closes_once` — the statement for all runs that meet it.
-/

namespace Pipe

/-! ### Histories -/

/-- The descriptors that were closed. -/
def Entry.fd : Entry → Option Nat
  | .closeFd fd => some fd
  | _ => none

/-- Whether "close" was emitted. -/
def Entry.isClose : Entry → Bool
  | .close _ _ => true
  | _ => false

/-- Whether "read" was emitted with the end of the data. -/
def Entry.isEnd : Entry → Bool
  | .read eof _ => eof
  | _ => false

/-- What is wrong at any time: a failed check, "read" after the pipe closed, or "close" while it
    is open or its child is waited for. -/
def Entry.fine : Entry → Bool
  | .read _ closed => !closed
  | .close closed child => closed && !child
  | .closeFd _ => true
  | .failed => false

/-- Nothing is wrong, and neither "close", nor the end of the data, nor the end of a descriptor
    comes twice. -/
structure ClosesOnce (log : List Entry) : Prop where
  fine : ∀ entry ∈ log, entry.fine
  closes : log.countP isClose ≤ 1
  ends : log.countP isEnd ≤ 1
  fds : (log.filterMap fd).Nodup

/-! ### The condition -/

variable (s : Pipe)

/-- One descriptor for both directions. -/
def Shared : Prop := s.inFd = s.outFd ∧ s.inFd.isSome

instance (s : Pipe) : Decidable s.Shared := by
  unfold Shared
  infer_instance

/-- Whether `close_output` closes a pipe with a shared descriptor through `close_immediately`. -/
def outputCloses (shutdown : Option Errno) : Bool :=
  match shutdown with
  | none => s.idle
  | some .notsock => false
  | some _ => true

/-- Whether a result of `read` is an error that closes the pipe. -/
def ReadResult.closes (transient : List Errno) : ReadResult → Bool
  | .data _ => false
  | .error errn => !transient.contains errn

/-- Whether nothing is read, which is the end. -/
def ReadResult.ends (hup : Bool) : ReadResult → Bool
  | .data bytes => hup || bytes.isEmpty
  | .error _ => hup

/-- Whether a result of `writev` is an error that closes the pipe. -/
def WritevResult.closes : WritevResult → Bool
  | .wrote _ => false
  | .error errn => !(decide (errn = .again ∨ errn = .intr))

/-- Whether the queue is empty after `dispatch_output`, which then stops the source. -/
def drains : WritevResult → Bool
  | .wrote n => (wroteBlocks iovCount (min n s.iov.length) s.outQueue s.outPartial).1.isEmpty
  | .error _ => s.outQueue.isEmpty

/-- Whether `close_immediately` runs in a step, for a pipe with a shared descriptor that is not
    connecting. -/
def closesNow : Event → Bool
  | .call (.close (some _) _) | .call .dispose => true
  | .call (.close none shutdown) => s.outQueue.isEmpty && s.outputCloses shutdown
  | .call (.write _) | .call (.skip _) | .reap _ => false
  | .readReturns => s.reading == some true && s.idle
  | .later => s.reading.isNone && s.later
  | .input hup result =>
    s.reading.isNone && decide (s.inSource = .attached) &&
      !hup && result.closes [.again, .intr, .connreset]
  | .error hup result =>
    s.reading.isNone && decide (s.errSource = .attached) &&
      if result.ends hup then { s with errSource := .null }.idle
      else result.closes [.again, .intr]
  | .output _ result shutdown =>
    s.reading.isNone && decide (s.outSource = .attached) &&
      if s.drains result then
        if s.closing then { s with outSource := .null }.outputCloses shutdown
        else { s with outSource := .null }.idle
      else result.closes

/-- Connecting does not fail, and `close_immediately` does not run for a shared descriptor. -/
structure Orderly (s : Pipe) (e : Event) : Prop where
  connects : ∀ connect result shutdown, e = .output connect result shutdown →
    s.reading = none → s.outSource = .attached → s.connecting → connect.fails = false
  apart : s.closed = false → s.Shared → s.closesNow e = false

/-! ### The invariant -/

/-- How many times "close" was emitted: once, when the pipe is closed and no child is waited for. -/
def dueCloses : Nat := if s.closed && !s.child then 1 else 0

/-- The history agrees with the state. -/
structure Inv (s : Pipe) : Prop where
  fine : ∀ entry ∈ s.log, entry.fine
  closes : s.log.countP isClose = s.dueCloses
  ends : s.log.countP isEnd ≤ 1
  reads : s.inSource ≠ .null → s.log.countP isEnd = 0
  fds : (s.log.filterMap fd).Nodup
  opened : ∀ fd, some fd = s.inFd ∨ some fd = s.outFd ∨ some fd = s.errFd →
    fd ∉ s.log.filterMap Entry.fd
  apart : ∀ fd, s.errFd = some fd → s.inFd ≠ some fd ∧ s.outFd ≠ some fd
  past : s.closed → s.inSource = .null ∧ s.outSource = .null ∧ s.errSource = .null

variable {s s' : Pipe}

theorem Inv.closesOnce (h : Inv s) : ClosesOnce s.log := by
  refine { h with closes := ?_ }
  rw [h.closes]
  unfold dueCloses
  split
  · exact Nat.le_refl 1
  · exact Nat.zero_le 1

/-- Fields that the invariant does not speak of. -/
theorem Inv.congr (h : Inv s) (hlog : s'.log = s.log) (hclos : s'.closed = s.closed)
    (hchild : s'.child = s.child) (hin : s'.inSource = .null ∨ s'.inSource = s.inSource)
    (hout : s'.outSource = .null ∨ s'.outSource = s.outSource ∨ s.closed = false)
    (herr : s'.errSource = .null ∨ s'.errSource = s.errSource)
    (hinFd : s'.inFd = s.inFd) (houtFd : s'.outFd = none ∨ s'.outFd = s.outFd)
    (herrFd : s'.errFd = s.errFd) : Inv s' where
  fine := hlog ▸ h.fine
  closes := by
    rw [hlog, h.closes]
    unfold dueCloses
    rw [hclos, hchild]
  ends := hlog ▸ h.ends
  reads hsource := by
    rw [hlog]
    rcases hin with hnull | hsame
    · exact absurd hnull hsource
    · exact h.reads (hsame ▸ hsource)
  fds := hlog ▸ h.fds
  opened fd hfd := by
    rw [hlog]
    apply h.opened fd
    rw [hinFd, herrFd] at hfd
    rcases hfd with hfd | hfd | hfd
    · exact .inl hfd
    · rcases houtFd with hnone | hsame
      · rw [hnone] at hfd
        cases hfd
      · exact .inr (.inl (hfd.trans hsame))
    · exact .inr (.inr hfd)
  apart fd hfd := by
    rw [herrFd] at hfd
    obtain ⟨hinNe, houtNe⟩ := h.apart fd hfd
    refine ⟨hinFd ▸ hinNe, ?_⟩
    rcases houtFd with hnone | hsame
    · rw [hnone]
      simp
    · exact hsame ▸ houtNe
  past hover := by
    have hbef : s.closed := hclos.symm.trans hover
    obtain ⟨hin', hout', herr'⟩ := h.past hbef
    refine ⟨?_, ?_, ?_⟩
    · rcases hin with hnull | hsame
      · exact hnull
      · exact hsame.trans hin'
    · rcases hout with hnull | hsame | hopen
      · exact hnull
      · exact hsame.trans hout'
      · cases hopen.symm.trans hbef
    · rcases herr with hnull | hsame
      · exact hnull
      · exact hsame.trans herr'

theorem Inv.same (h : Inv s)
    (hsame : (s'.log, s'.closed, s'.child, s'.inSource, s'.outSource, s'.errSource, s'.inFd,
        s'.outFd, s'.errFd) = (s.log, s.closed, s.child, s.inSource, s.outSource, s.errSource,
        s.inFd, s.outFd, s.errFd)) : Inv s' := by
  simp only [Prod.mk.injEq] at hsame
  obtain ⟨hlog, hclos, hchild, hin, hout, herr, hinFd, houtFd, herrFd⟩ := hsame
  exact h.congr hlog hclos hchild (.inr hin) (.inr (.inl hout)) (.inr herr) hinFd (.inr houtFd)
    herrFd

/-- `close_immediately`, for a pipe that is open. -/
theorem Inv.closeAll (h : Inv s) (hopen : s.closed = false) (hshared : ¬ s.Shared)
    (problem : Option String) : Inv (s.closeAll problem) := by
  rw [closeAll_eq]
  have hfdOf : ∀ fd : Option Nat, (closedFd fd).filterMap Entry.fd = fd.toList := by
    intro fd
    cases fd <;> rfl
  have hcloseOf : ∀ fd : Option Nat, (closedFd fd).countP isClose = 0 ∧
      (closedFd fd).countP isEnd = 0 ∧ ∀ entry ∈ closedFd fd, entry.fine := by
    intro fd
    cases fd with
    | none => exact ⟨rfl, rfl, nofun⟩
    | some fd => exact ⟨rfl, rfl, fun entry hmem => by rw [mem_singleton.mp hmem]; rfl⟩
  have hlast : ∀ child : Bool, (if child then [] else [Entry.close true false]).filterMap Entry.fd =
      [] ∧ (if child then [] else [Entry.close true false]).countP Entry.isEnd = 0 ∧
      (if child then [] else [Entry.close true false]).countP Entry.isClose =
        (if child then 0 else 1) ∧
      ∀ entry ∈ (if child then [] else [Entry.close true false]), entry.fine := by
    intro child
    cases child with
    | true => exact ⟨rfl, rfl, rfl, nofun⟩
    | false => exact ⟨rfl, rfl, rfl, fun entry hmem => by rw [mem_singleton.mp hmem]; rfl⟩
  obtain ⟨hlastFd, hlastEnd, hlastClose, hlastFine⟩ := hlast s.child
  have hzero : s.log.countP Entry.isClose = 0 := by
    rw [h.closes]
    unfold dueCloses
    rw [hopen]
    rfl
  refine ⟨fun entry hmem => ?_, ?_, ?_, fun hnull => absurd rfl hnull, ?_, fun fd hfd => ?_,
    fun fd hfd => (nomatch hfd), fun _ => ⟨rfl, rfl, rfl⟩⟩
  · rcases mem_append.mp hmem with hmem | hmem
    · rcases mem_append.mp hmem with hmem | hmem
      · rcases mem_append.mp hmem with hmem | hmem
        · rcases mem_append.mp hmem with hmem | hmem
          · exact h.fine entry hmem
          · exact (hcloseOf _).2.2 entry hmem
        · exact (hcloseOf _).2.2 entry hmem
      · exact (hcloseOf _).2.2 entry hmem
    · exact hlastFine entry hmem
  · simp only [countP_append, (hcloseOf _).1, hzero, hlastClose]
    show _ = if true && !s.child then 1 else 0
    cases s.child <;> rfl
  · simp only [countP_append, (hcloseOf _).2.1, hlastEnd]
    exact h.ends
  · -- no descriptor is closed twice
    simp only [filterMap_append, hfdOf, hlastFd, append_nil]
    have hne : ∀ fd, s.inFd = some fd → s.outFd ≠ some fd := by
      intro fd hin hout
      exact hshared ⟨hin.trans hout.symm, by rw [hin]; rfl⟩
    rw [nodup_append, nodup_append, nodup_append]
    have hnodup : ∀ fd : Option Nat, fd.toList.Nodup := by
      intro fd
      cases fd with
      | none => exact nodup_nil
      | some fd => exact nodup_singleton fd
    have hof : ∀ {fd : Nat} {o : Option Nat}, fd ∈ o.toList → o = some fd :=
      fun hmem => Option.mem_toList.mp hmem
    refine ⟨⟨⟨h.fds, hnodup _, fun a ha b hb heq => ?_⟩, hnodup _, fun a ha b hb heq => ?_⟩,
      hnodup _, fun a ha b hb heq => ?_⟩
    · subst heq
      exact h.opened a (.inl (hof hb).symm) ha
    · subst heq
      rcases mem_append.mp ha with ha | ha
      · exact h.opened a (.inr (.inl (hof hb).symm)) ha
      · exact hne a (hof ha) (hof hb)
    subst heq
    obtain ⟨hinNe, houtNe⟩ := h.apart a (hof hb)
    rcases mem_append.mp ha with ha | ha
    · rcases mem_append.mp ha with ha | ha
      · exact h.opened a (.inr (.inr (hof hb).symm)) ha
      · exact hinNe (hof ha)
    · exact houtNe (hof ha)
  rcases hfd with hfd | hfd | hfd <;> exact nomatch hfd

theorem Inv.closeImmediately (h : Inv s) (hshared : s.closed = false → ¬ s.Shared)
    (problem : Option String) : Inv (s.closeImmediately problem) := by
  unfold Pipe.closeImmediately
  split
  · exact h
  · rename_i hopen
    have hopen' : s.closed = false := by simpa using hopen
    exact h.closeAll hopen' (hshared hopen') problem

theorem Inv.closeMaybe (h : Inv s) (hshared : s.closed = false → s.idle → ¬ s.Shared) :
    Inv s.closeMaybe := by
  unfold Pipe.closeMaybe
  split
  · rename_i hidle
    exact h.closeImmediately (fun hopen => hshared hopen (and_eq_true_iff.mp hidle).2) none
  · exact h

/-! ### Ending the output -/

/-- What `close_output` does with a descriptor that is no socket. -/
theorem closeEntirely_eq (s : Pipe) (fd : Nat) :
    s.closeEntirely fd = { s with
      inFd := if s.inFd = s.outFd then none else s.inFd
      inSource := if s.inFd = s.outFd then .null else s.inSource
      outFd := none
      log := s.log ++ [.closeFd fd] } := by
  unfold closeEntirely
  dsimp only
  rw [closeFd_eq]
  dsimp only
  by_cases hsame : s.inFd = s.outFd
  · rw [if_pos hsame, if_pos hsame, if_pos hsame, stopAnyInput_eq]
    rfl
  · rw [if_neg hsame, if_neg hsame, if_neg hsame]
    rfl

theorem Inv.closeEntirely (h : Inv s) {fd : Nat} (hfd : s.outFd = some fd) :
    Inv (s.closeEntirely fd) := by
  rw [closeEntirely_eq]
  have hnotIn : ∀ fd', some fd' = (if s.inFd = s.outFd then none else s.inFd) →
      fd' ≠ fd ∧ some fd' = s.inFd := by
    intro fd' hfd'
    split at hfd'
    · exact nomatch hfd'
    rename_i hne
    refine ⟨?_, hfd'⟩
    rintro rfl
    exact hne (hfd'.symm.trans hfd.symm)
  refine ⟨fun entry hmem => ?_, ?_, ?_, fun hnull => ?_, ?_, fun fd' hfd' => ?_,
    fun fd' hfd' => ?_, fun hclos => ?_⟩
  · rcases mem_append.mp hmem with hmem | hmem
    · exact h.fine entry hmem
    · rw [mem_singleton.mp hmem]
      rfl
  · rw [countP_append, h.closes]
    rfl
  · rw [countP_append]
    exact h.ends
  · rw [countP_append]
    apply h.reads
    intro hwas
    apply hnull
    show (if s.inFd = s.outFd then Source.null else s.inSource) = .null
    rw [hwas, ite_self]
  · rw [filterMap_append]
    apply List.Nodup.append h.fds (nodup_singleton fd)
    intro fd' hmem hnew
    rw [mem_singleton.mp hnew] at hmem
    exact h.opened fd (.inr (.inl hfd.symm)) hmem
  · -- a descriptor that is left was not the one that closed
    rw [filterMap_append]
    intro hmem
    rcases mem_append.mp hmem with hmem | hmem
    · rcases hfd' with hfd' | hfd' | hfd'
      · exact h.opened fd' (.inl (hnotIn fd' hfd').2) hmem
      · exact nomatch hfd'
      · exact h.opened fd' (.inr (.inr hfd')) hmem
    have hsame : fd' = fd := mem_singleton.mp hmem
    rcases hfd' with hfd' | hfd' | hfd'
    · exact (hnotIn fd' hfd').1 hsame
    · exact nomatch hfd'
    · subst hsame
      exact (h.apart fd' hfd'.symm).2 hfd
  · refine ⟨fun hin => ?_, nofun⟩
    exact (h.apart fd' hfd').1 (hnotIn fd' hin.symm).2.symm
  obtain ⟨hin, hout, herr⟩ := h.past hclos
  refine ⟨?_, hout, herr⟩
  show (if s.inFd = s.outFd then Source.null else s.inSource) = .null
  rw [hin, ite_self]

variable {shutdown : Option Errno}

section

variable (h : Inv s)

include h

theorem Inv.closeOutput (hshared : s.closed = false → s.Shared → s.outputCloses shutdown = false) :
    Inv (s.closeOutput shutdown) := by
  unfold Pipe.closeOutput
  cases hfd : s.outFd with
  | none =>
    apply h.closeMaybe
    rintro - - ⟨hsame, hsome⟩
    rw [hsame, hfd] at hsome
    exact nomatch hsome
  | some fd =>
    dsimp only
    split
    · apply h.closeMaybe
      intro hopen hidle hboth
      exact nomatch hidle.symm.trans (hshared hopen hboth)
    · apply (h.closeEntirely hfd).closeMaybe
      rintro - - ⟨hsame, hsome⟩
      rw [closeEntirely_eq] at hsame hsome
      have hnone : (if s.inFd = s.outFd then none else s.inFd) = none := hsame
      have hsome' : (if s.inFd = s.outFd then none else s.inFd).isSome := hsome
      rw [hnone] at hsome'
      exact nomatch hsome'
    rename_i errn hne
    have hclose : Inv (s.closeImmediately (some "internal-error")) := by
      apply h.closeImmediately
      intro hopen hboth
      have hcloses : s.outputCloses (some errn) := by
        cases errn with
        | notsock => exact absurd rfl hne
        | _ => rfl
      exact nomatch hcloses.symm.trans (hshared hopen hboth)
    apply hclose.closeMaybe
    intro hopen
    exact nomatch (closed_closeImmediately s _).symm.trans hopen

/-! ### Dispatching -/

variable {eof hup : Bool}

/-- The emission of "read", in a pipe that is open and has not come to the end before. -/
theorem Inv.emitRead (hopen : s.closed = false)
    (hends : s.log.countP Entry.isEnd = 0) (heof : eof = decide (s.inSource = .null)) :
    Inv { s.record (.read eof s.closed) with reading := some eof } := by
  refine ⟨fun entry hmem => ?_, ?_, ?_, fun hsrc => ?_, ?_, fun fd hfd => ?_, h.apart, h.past⟩
  · rcases mem_append.mp hmem with hmem | hmem
    · exact h.fine entry hmem
    · rw [mem_singleton.mp hmem, hopen]
      rfl
  · show (s.log ++ [read eof s.closed]).countP isClose = s.dueCloses
    rw [countP_append, h.closes]
    rfl
  · show (s.log ++ [read eof s.closed]).countP isEnd ≤ 1
    rw [countP_append, hends]
    cases eof with
    | true => exact Nat.le_refl 1
    | false => exact Nat.zero_le 1
  · show (s.log ++ [read eof s.closed]).countP isEnd = 0
    have hmore : eof = false := heof.trans (decide_eq_false hsrc)
    rw [countP_append, hends, hmore]
    rfl
  · show ((s.log ++ [read eof s.closed]).filterMap fd).Nodup
    rw [filterMap_append]
    exact (append_nil _).symm ▸ h.fds
  · show fd ∉ (s.log ++ [Entry.read eof s.closed]).filterMap Entry.fd
    rw [filterMap_append]
    exact (append_nil _).symm ▸ h.opened fd hfd

/-- A pipe with a source is open. -/
theorem Inv.opens (hsrc : s.inSource ≠ .null ∨ s.outSource ≠ .null ∨ s.errSource ≠ .null) :
    s.closed = false := by
  by_contra hclos
  obtain ⟨hin, hout, herr⟩ := h.past (by simpa using hclos)
  rcases hsrc with hsrc | hsrc | hsrc
  · exact hsrc hin
  · exact hsrc hout
  · exact hsrc herr

variable {result : ReadResult}

theorem Inv.dispatchInput (hatt : s.inSource = .attached)
    (hshared : s.Shared → (!hup && result.closes [.again, .intr, .connreset]) = false) :
    Inv (s.dispatchInput hup result) := by
  have hsrc : s.inSource ≠ .null := by
    rw [hatt]
    exact nofun
  have hopen := h.opens (.inl hsrc)
  have hemit : ∀ data t, t = { s with inBuffer := s.inBuffer ++ data } →
      Inv (if data.isEmpty then t.stopInput else t) ∧
        (if data.isEmpty then t.stopInput else t).closed = false ∧
        (if data.isEmpty then t.stopInput else t).log = s.log := by
    rintro data t rfl
    split
    · unfold Pipe.stopInput
      have hsrc' : ({ s with inBuffer := s.inBuffer ++ data }).inSource ≠ .null := hsrc
      rw [if_neg hsrc']
      exact ⟨h.congr rfl rfl rfl (.inl rfl) (.inr (.inl rfl)) (.inr rfl) rfl (.inr rfl) rfl,
        hopen, rfl⟩
    · exact ⟨h.same rfl,
        hopen, rfl⟩
  have hread : ∀ data t,
      t = (if data.isEmpty then { s with inBuffer := s.inBuffer ++ data }.stopInput
        else { s with inBuffer := s.inBuffer ++ data }) →
      Inv { t.record (.read (decide (t.inSource = .null)) t.closed) with
        reading := some (decide (t.inSource = .null)) } := by
    rintro data t rfl
    obtain ⟨hinv, hopen', hlog⟩ := hemit data _ rfl
    apply hinv.emitRead hopen' _ rfl
    rw [hlog]
    exact h.reads hsrc
  unfold Pipe.dispatchInput
  rw [if_neg hsrc]
  dsimp only
  split
  · exact hread [] _ rfl
  rename_i hhup
  split
  · exact hread _ _ rfl
  rename_i errn
  split
  · exact h
  rename_i htransient
  split
  · exact hread [] _ rfl
  rename_i hreset
  have hcloses : ¬ s.Shared := by
    intro hboth
    have hno := hshared hboth
    have hup' : hup = false := by simpa using hhup
    rw [hup'] at hno
    simp only [ReadResult.closes, contains_cons, contains_nil, Bool.or_false,
      Bool.not_false, Bool.true_and, not_eq_false', or_eq_true,
      beq_iff_eq] at hno
    rcases hno with hagain | hintr | hsame
    · exact htransient (.inl hagain)
    · exact htransient (.inr hintr)
    · exact hreset hsame
  have hprob : Inv (s.setProblemFromErrno errn) := h.same rfl
  have hclos := hprob.closeImmediately (fun _ => hcloses) none
  refine hclos.congr rfl rfl rfl (.inl ?_) (.inr (.inl rfl)) (.inr rfl) rfl (.inr rfl) rfl
  have hover := hclos.past (closed_closeImmediately _ none)
  show Source.drop _ = .null
  rw [hover.1]
  rfl

theorem Inv.readReturns (hshared : s.closed = false → s.Shared → (eof && s.idle) = false) :
    Inv (s.readReturns eof) := by
  have hret : Inv { s with reading := none } := h.same rfl
  unfold Pipe.readReturns
  dsimp only
  split
  · rename_i heof
    apply hret.closeMaybe
    intro hopen hidle hboth
    have hno := hshared hopen hboth
    rw [heof, Bool.true_and] at hno
    exact nomatch hidle.symm.trans hno
  · exact hret

theorem Inv.dispatchError (hatt : s.errSource = .attached)
    (hshared : s.Shared → (if result.ends hup then { s with errSource := .null }.idle
      else result.closes [.again, .intr]) = false) :
    Inv (s.dispatchError hup result) := by
  have hsrc : s.errSource ≠ .null := by
    rw [hatt]
    exact nofun
  have hopen := h.opens (.inr (.inr hsrc))
  have hended : ∀ data t, t = { s with errBuffer := s.errBuffer ++ data } →
      (data.isEmpty → s.Shared → { s with errSource := .null }.idle = false) →
      Inv (if data.isEmpty then t.stopError.closeMaybe else t) := by
    rintro data t rfl hidle
    split
    · rename_i hempty
      have hstop : { s with errBuffer := s.errBuffer ++ data }.stopError =
          { s with errBuffer := s.errBuffer ++ data, errSource := .null } := by
        have hsrc' : ({ s with errBuffer := s.errBuffer ++ data }).errSource ≠ .null := hsrc
        unfold stopError
        rw [if_neg hsrc']
      rw [hstop]
      have hstopped : Inv { s with errBuffer := s.errBuffer ++ data, errSource := .null } :=
        h.congr rfl rfl rfl (.inr rfl) (.inr (.inl rfl)) (.inl rfl) rfl (.inr rfl) rfl
      apply hstopped.closeMaybe
      intro _ hidle' hboth
      have hbusy : ({ s with errBuffer := s.errBuffer ++ data, errSource := .null } : Pipe).idle =
          false := hidle hempty hboth
      exact nomatch hidle'.symm.trans hbusy
    · exact h.same rfl
  unfold Pipe.dispatchError
  rw [if_neg hsrc]
  dsimp only
  split
  · rename_i hhup
    apply hended [] _ rfl
    intro _ hboth
    have hno := hshared hboth
    have hends : result.ends hup := by
      cases result with
      | data bytes =>
        show (hup || bytes.isEmpty)
        rw [hhup]
        rfl
      | error errn => exact hhup
    rw [if_pos hends] at hno
    exact hno
  rename_i hhup
  have hup' : hup = false := by simpa using hhup
  subst hup'
  split
  · rename_i bytes
    apply hended bytes _ rfl
    intro hempty hboth
    have hno := hshared hboth
    have hends : (ReadResult.data bytes).ends false := hempty
    rw [if_pos hends] at hno
    exact hno
  rename_i errn
  split
  · exact h
  rename_i htransient
  have hclos := h.closeImmediately (fun _ hboth => by
    have hno : (ReadResult.error errn).closes [.again, .intr] = false := hshared hboth
    simp only [ReadResult.closes, contains_cons, contains_nil, Bool.or_false,
      not_eq_false', or_eq_true, beq_iff_eq] at hno
    exact htransient hno) (some "internal-error")
  refine hclos.congr rfl rfl rfl (.inr rfl) (.inr (.inl rfl)) (.inl ?_) rfl (.inr rfl) rfl
  have hover := hclos.past (closed_closeImmediately s _)
  show Source.drop _ = .null
  rw [hover.2.2]
  rfl

/-- The end of the source and what follows it, when all was written. -/
theorem Inv.wrote (hsrc : s.outSource ≠ .null) {ret : Nat}
    (hshared : (wroteBlocks iovCount ret s.outQueue s.outPartial).1 = [] → s.Shared →
      (if s.closing then { s with outSource := .null }.outputCloses shutdown
        else { s with outSource := .null }.idle) = false) :
    Inv (s.wrote ret shutdown) := by
  unfold Pipe.wrote
  dsimp only
  split
  · exact h.same rfl
  rename_i hqueue
  have hempty : (wroteBlocks iovCount ret s.outQueue s.outPartial).1 = [] := not_not.mp hqueue
  have hno := hshared hempty
  unfold stopOutput
  rw [if_neg hsrc]
  dsimp only
  have hstop : Inv { s with
      written := s.written ++ s.iov.take ret
      outQueue := (wroteBlocks iovCount ret s.outQueue s.outPartial).1
      outPartial := (wroteBlocks iovCount ret s.outQueue s.outPartial).2
      outSource := .null } :=
    h.congr rfl rfl rfl (.inr rfl) (.inl rfl) (.inr rfl) rfl (.inr rfl) rfl
  split
  · rename_i hclsg
    have hclosing' : s.closing := hclsg
    apply hstop.closeOutput
    intro _ hboth
    have hno' := hno hboth
    rw [if_pos hclosing'] at hno'
    exact hno'
  rename_i hclsg
  have hclosing' : ¬ s.closing := hclsg
  apply hstop.closeMaybe
  intro _ hidle hboth
  have hno' := hno hboth
  rw [if_neg hclosing'] at hno'
  exact nomatch hidle.symm.trans hno'

theorem Inv.dispatchWrite (hatt : s.outSource = .attached) {result : WritevResult}
    (hshared : s.Shared → (if s.drains result then
        if s.closing then { s with outSource := .null }.outputCloses shutdown
        else { s with outSource := .null }.idle
      else result.closes) = false) :
    Inv (s.dispatchWrite result shutdown) := by
  have hsrc : s.outSource ≠ .null := by
    rw [hatt]
    exact nofun
  unfold Pipe.dispatchWrite
  rw [if_neg hsrc]
  split
  · rename_i hqueue
    apply h.wrote hsrc
    intro _ hboth
    have hno := hshared hboth
    have hdrains : s.drains result := by
      cases result with
      | wrote n | error errn =>
        unfold drains
        rw [hqueue]
        rfl
    rw [if_pos hdrains] at hno
    exact hno
  rename_i hqueue
  cases result with
  | wrote n =>
    apply h.wrote hsrc
    intro hempty hboth
    have hno := hshared hboth
    have hdrains : s.drains (.wrote n) := by
      unfold drains
      dsimp only
      rw [hempty]
      rfl
    rw [if_pos hdrains] at hno
    exact hno
  | error errn =>
    have hdrains : ¬ s.drains (.error errn) := by
      unfold drains
      rw [List.isEmpty_iff]
      exact hqueue
    rw [if_neg hdrains] at hshared
    have hdrop : ∀ {t}, Inv t → t.closed →
        Inv { t with outSource := t.outSource.drop } := by
      intro t ht hclos
      have hover := ht.past hclos
      refine ht.congr rfl rfl rfl (.inr rfl) (.inl ?_) (.inr rfl) rfl (.inr rfl) rfl
      show Source.drop _ = .null
      rw [hover.2.1]
      rfl
    dsimp only
    split
    · have hopen := h.opens (.inr (.inl hsrc))
      exact h.congr rfl rfl rfl (.inr rfl) (.inr (.inr hopen)) (.inr rfl) rfl (.inr rfl) rfl
    rename_i hfatal
    have hcloses : ¬ s.Shared := by
      intro hboth
      have hno : (!(decide (errn = .again ∨ errn = .intr))) = false := hshared hboth
      rw [decide_eq_false hfatal] at hno
      exact nomatch hno
    split
    · exact hdrop (h.closeImmediately (fun _ => hcloses) _) (closed_closeImmediately _ _)
    have hprob : Inv (s.setProblemFromErrno errn) := h.same rfl
    exact hdrop (hprob.closeImmediately (fun _ => hcloses) _)
      (closed_closeImmediately _ _)

end

/-- Connecting that does not fail. -/
theorem connecting_eq {connect : ConnectResult}
    (hconnects : s.connecting → connect.fails = false) :
    ∃ connecting, (if s.connecting then s.dispatchConnect connect else s) =
      { s with connecting := connecting } := by
  split
  · rename_i hconn
    have hworks := hconnects hconn
    unfold dispatchConnect
    dsimp only
    split
    · exact nomatch hworks
    · exact ⟨true, rfl⟩
    · rename_i errn hne
      have hin : errn = .inprogress := by simpa [ConnectResult.fails] using hworks
      exact absurd hin hne
    · exact ⟨false, rfl⟩
  · exact ⟨s.connecting, rfl⟩

theorem Inv.onChildReap (h : Inv s) (hchild : s.child) (status : Int) :
    Inv (s.onChildReap status) := by
  have hzero : s.log.countP Entry.isClose = 0 := by
    rw [h.closes]
    unfold dueCloses
    rw [hchild, Bool.not_true, Bool.and_false]
    rfl
  unfold Pipe.onChildReap
  dsimp only
  split
  · rename_i hclos
    have hcl' : s.closed := hclos
    refine ⟨fun entry hmem => ?_, ?_, ?_, fun hsrc => ?_, ?_, fun fd hfd => ?_, h.apart, h.past⟩
    · rcases mem_append.mp hmem with hmem | hmem
      · exact h.fine entry hmem
      rw [mem_singleton.mp hmem]
      show (s.closed && !false)
      rw [hcl']
      rfl
    · show (s.log ++ [Entry.close s.closed false]).countP Entry.isClose =
        if s.closed && !false then 1 else 0
      rw [countP_append, hzero, hcl']
      rfl
    · show (s.log ++ [Entry.close s.closed false]).countP Entry.isEnd ≤ 1
      rw [countP_append]
      exact h.ends
    · show (s.log ++ [Entry.close s.closed false]).countP Entry.isEnd = 0
      rw [countP_append]
      exact h.reads hsrc
    · show ((s.log ++ [Entry.close s.closed false]).filterMap Entry.fd).Nodup
      rw [filterMap_append]
      exact (append_nil _).symm ▸ h.fds
    · show fd ∉ (s.log ++ [Entry.close s.closed false]).filterMap Entry.fd
      rw [filterMap_append]
      exact (append_nil _).symm ▸ h.opened fd hfd
  rename_i hopen
  have hopen' : s.closed = false := by simpa using hopen
  refine { h with closes := ?_ }
  show s.log.countP isClose = if s.closed && !false then 1 else 0
  rw [hzero, hopen']
  rfl

/-! ### Calls -/

theorem Inv.write (h : Inv s) (data : Bytes) : Inv (s.write data) := by
  unfold Pipe.write
  split
  · exact h
  rename_i hopen
  have hopen' : s.closed = false := by simpa using hopen
  split
  · exact h
  dsimp only
  split
  · rename_i hstart
    have hnull : s.outSource = .null := hstart.1
    unfold startOutput
    split
    · rename_i hsrc
      exact absurd hnull hsrc
    · exact h.congr rfl rfl rfl (.inr rfl) (.inr (.inr hopen')) (.inr rfl) rfl (.inr rfl) rfl
  · exact h.same rfl

theorem Inv.call (h : Inv s) {call : Call}
    (hshared : s.closed = false → s.Shared → s.closesNow (.call call) = false) :
    Inv (s.call call) := by
  cases call with
  | write data => exact h.write data
  | skip n => exact h.same rfl
  | dispose =>
    have hclos := h.closeImmediately (fun hopen hboth => nomatch hshared hopen hboth)
      (some "terminated")
    exact hclos.same rfl
  | close problem shutdown =>
    have hclsg : Inv { s with closing := true } := h.same rfl
    cases problem with
    | some problem =>
      exact hclsg.closeImmediately (fun hopen hboth => nomatch hshared hopen hboth) _
    | none =>
      show Inv (if s.outQueue = [] then { s with closing := true }.closeOutput shutdown
        else { s with closing := true })
      split
      · rename_i hqueue
        apply hclsg.closeOutput
        intro hopen hboth
        have hno : (s.outQueue.isEmpty && s.outputCloses shutdown) = false := hshared hopen hboth
        rw [hqueue] at hno
        exact hno
      · exact hclsg

/-! ### Runs -/

variable {e : Event}

theorem Inv.mainStep (h : Inv s) (hread : s.reading = none)
    (hord : Orderly s e) : Inv (s.mainStep e) := by
  have hready : ∀ b : Bool, (s.reading.isNone && b) = b := by
    intro b
    rw [hread]
    rfl
  cases e with
  | call call | readReturns => exact h
  | input hup result =>
    unfold mainStep
    dsimp only
    split
    · rename_i hatt
      apply h.dispatchInput hatt
      intro hboth
      have hopen := h.opens (.inl (by rw [hatt]; exact nofun))
      have hno := hord.apart hopen hboth
      simp only [closesNow, hready, decide_eq_true hatt, Bool.true_and] at hno
      exact hno
    · exact h
  | error hup result =>
    unfold mainStep
    dsimp only
    split
    · rename_i hatt
      apply h.dispatchError hatt
      intro hboth
      have hopen := h.opens (.inr (.inr (by rw [hatt]; exact nofun)))
      have hno := hord.apart hopen hboth
      simp only [closesNow, hready, decide_eq_true hatt, Bool.true_and] at hno
      exact hno
    · exact h
  | reap status =>
    unfold mainStep
    dsimp only
    split
    · rename_i hchild
      exact h.onChildReap hchild status
    · exact h
  | later =>
    unfold mainStep
    dsimp only
    split
    · rename_i hlater
      have hdone : Inv { s with later := false } := h.same rfl
      apply hdone.closeImmediately
      intro hopen hboth
      have hno : (s.reading.isNone && s.later) = false := hord.apart hopen hboth
      rw [hready, hlater] at hno
      exact nomatch hno
    · exact h
  | output connect result shutdown =>
    unfold mainStep
    dsimp only
    split
    · rename_i hatt
      have hopen := h.opens (.inr (.inl (by rw [hatt]; exact nofun)))
      obtain ⟨connecting, hconnect⟩ :=
        connecting_eq (hord.connects connect result shutdown rfl hread hatt)
      unfold dispatchOutput
      rw [hconnect]
      have hconn : Inv { s with connecting := connecting } := h.same rfl
      apply hconn.dispatchWrite hatt
      intro hboth
      have hno := hord.apart hopen hboth
      simp only [closesNow, hready, decide_eq_true hatt, Bool.true_and] at hno
      exact hno
    · exact h

/-- **Step.**  A step that closes orderly keeps the history in order. -/
theorem Inv.step (h : Inv s) (hord : Orderly s e) : Inv (s.step e) := by
  unfold Pipe.step
  split
  · exact h.call hord.apart
  split
  · rename_i hread
    exact h.mainStep hread hord
  rename_i eof hread
  split
  · apply h.readReturns
    intro hopen hboth
    have hno : (s.reading == some true && s.idle) = false := hord.apart hopen hboth
    rw [hread] at hno
    cases eof with
    | true => exact hno
    | false => rfl
  · exact h

theorem inv_new (setup : Setup) : Inv (new setup) where
  fine _ hmem := nomatch hmem
  closes := rfl
  ends := Nat.zero_le 1
  reads _ := rfl
  fds := nodup_nil
  opened _ _ hmem := nomatch hmem
  apart := setup.apart
  past hclosed := nomatch hclosed

/-- **A pipe closes once.**  When connecting does not fail, and no descriptor for both directions
    is closed by `close_immediately`, then after every run nothing failed, and neither "close", nor
    the end of the data, nor the end of a descriptor came twice. -/
theorem run_closes_once (setup : Setup) (es : List Event)
    (hok : RunOk Pipe.step Orderly (new setup) es) :
    ClosesOnce (run Pipe.step (new setup) es).log :=
  (run_invariant Inv (fun _ _ hinv horderly => hinv.step horderly) (inv_new setup) hok).closesOnce

/-- A terminal: one descriptor for both directions, and a process. -/
def terminal : Setup where
  inFd := some 5
  outFd := some 5
  errFd := none
  apart _ h := nomatch h
  pid := true
  problem := none
  connecting := false
  isUserFd := false

theorem Orderly.of_connected (hconnected : s.connecting = false)
    (happart : s.closesNow e = false) : Orderly s e :=
  ⟨fun _ _ _ _ _ _ hconn => (nomatch hconnected.symm.trans hconn),
    fun _ _ => happart⟩

/-- A terminal whose output ends through `close_output`. -/
theorem run_closes_once_terminal : ClosesOnce (run Pipe.step (new terminal)
    [.input false (.data [104]), .readReturns, .call (.write [105]),
      .output .connected (.wrote 1) none, .call (.close none (some .notsock)), .reap 0]).log :=
  run_closes_once terminal _
    ⟨.of_connected rfl (by decide), .of_connected rfl (by decide),
      .of_connected rfl (by decide), .of_connected rfl (by decide), .of_connected rfl (by decide),
      .of_connected rfl (by decide), trivial⟩

/-- A connection: one descriptor for both directions. -/
def connection (connecting : Bool) : Setup where
  inFd := some 5
  outFd := some 5
  errFd := none
  apart _ h := nomatch h
  pid := false
  problem := none
  connecting := connecting
  isUserFd := false

/-- A connection that is closed with a problem closes its descriptor twice, and one that is refused
    fails a check. -/
theorem not_closesOnce_connection :
    ¬ ClosesOnce (run Pipe.step (new (connection false))
        [.call (.close (some "terminated") none)]).log ∧
      ¬ ClosesOnce (run Pipe.step (new (connection true))
        [.output (.error .connrefused) (.wrote 0) none]).log := by
  refine ⟨fun h => ?_, fun h => ?_⟩
  · exact absurd h.fds (by decide)
  · exact absurd (h.fine .failed (by decide)) (by decide)

end Pipe

end Cockpit
