import Cockpit.Lib.Run
import Cockpit.Common.Pipe

namespace Cockpit

open Lib List

/-!
# What a pipe writes

* `Polled` — a queue that waits is polled for;
* `run_output` — the bytes written are always a prefix, and a pipe stalls exactly when a write is to
  be tried again.
-/

namespace Pipe

/-- The bytes that wait. -/
def pending (s : Pipe) : Bytes := s.outQueue.flatten.drop s.outPartial

/-- A pipe that could write and is not polled for. -/
def Stalled (s : Pipe) : Prop :=
  s.closed = false ∧ s.outFd.isSome ∧ s.outQueue ≠ [] ∧ s.outSource ≠ .attached

/-- Whether connecting fails, and the pipe closes. -/
def ConnectResult.fails : ConnectResult → Bool
  | .unavailable => true
  | .error errn => decide (errn ≠ .inprogress)
  | .connected => false

/-- Whether `writev` is called and is to be tried again. -/
def again (s : Pipe) : Event → Bool
  | .output connect (.error errn) _ =>
    decide (s.reading = none ∧ s.outSource = .attached ∧ s.outFd.isSome ∧ s.outQueue ≠ [] ∧
      (errn = .again ∨ errn = .intr)) && !(s.connecting && connect.fails)
  | _ => false

/-! ### The loop behind `writev` -/

/-- What is left in the queue is what was not written. -/
theorem wroteBlocks_pending {count ret : Nat} {queue : List Bytes} {offset : Nat}
    (hblocks : ∀ block ∈ queue, block ≠ []) (hoff : offset < (queue.headD [0]).length)
    (hret : ret ≤ ((queue.take count).flatten.drop offset).length) :
    (wroteBlocks count ret queue offset).1.flatten.drop (wroteBlocks count ret queue offset).2 =
        (queue.flatten.drop offset).drop ret ∧
      (wroteBlocks count ret queue offset).2 <
        ((wroteBlocks count ret queue offset).1.headD [0]).length ∧
      (wroteBlocks count ret queue offset).1 <:+ queue := by
  induction count generalizing ret queue offset with
  | zero =>
    have hzero : ret = 0 := by simpa using hret
    subst hzero
    exact ⟨rfl, hoff, suffix_refl queue⟩
  | succ count ih =>
    cases queue with
    | nil =>
      have hzero : ret = 0 := by simpa using hret
      subst hzero
      exact ⟨rfl, hoff, suffix_refl []⟩
    | cons block queue =>
      have hoffset' : offset < block.length := hoff
      unfold wroteBlocks
      split
      · rename_i hzero
        subst hzero
        exact ⟨rfl, hoff, suffix_refl _⟩
      split
      · -- the block was written to its end
        rename_i hall
        have hrest : ret - (block.length - offset) ≤ ((queue.take count).flatten.drop 0).length := by
          rw [take_succ_cons, flatten_cons, length_drop, List.length_append] at hret
          rw [drop_zero]
          omega
        have hhead : 0 < (queue.headD [0]).length := by
          cases queue with
          | nil => exact Nat.one_pos
          | cons next queue =>
            exact length_pos_of_ne_nil
              (hblocks next (mem_cons_of_mem _ (mem_cons_self ..)))
        obtain ⟨htext, hlt, hsuffix⟩ :=
          ih (fun b hb => hblocks b (mem_cons_of_mem _ hb)) hhead hrest
        refine ⟨htext.trans ?_, hlt, hsuffix.trans (suffix_cons block queue)⟩
        have hgone : block.drop (offset + ret) = [] := drop_eq_nil_of_le (by omega)
        rw [drop_zero, flatten_cons, drop_drop, drop_append, hgone, nil_append]
        congr 1
        omega
      rename_i hpart
      refine ⟨?_, ?_, suffix_refl _⟩
      · rw [drop_drop]
      · show offset + ret < block.length
        omega

/-! ### What does not concern the output -/

/-- The queue stays, and so do the descriptor and the source unless the output is closed. -/
structure Aside (s s' : Pipe) : Prop where
  queue : s'.outQueue = s.outQueue
  offset : s'.outPartial = s.outPartial
  queued : s'.queued = s.queued
  written : s'.written = s.written
  still : s.closed → s'.closed
  source : s'.closed = false → s'.outSource = s.outSource
  fd : s'.closed = false → s'.outFd = none ∨ s'.outFd = s.outFd
  past : (s.closed → s.outSource = .null) → s'.closed → s'.outSource = .null

namespace Aside

variable {s s' t : Pipe}

theorem refl (s : Pipe) : Aside s s :=
  ⟨rfl, rfl, rfl, rfl, id, fun _ => rfl, fun _ => .inr rfl, id⟩

theorem trans (h : Aside s s') (h' : Aside s' t) : Aside s t where
  queue := h'.queue.trans h.queue
  offset := h'.offset.trans h.offset
  queued := h'.queued.trans h.queued
  written := h'.written.trans h.written
  still := h'.still ∘ h.still
  source hopen := by
    have hbef : s'.closed = false := by
      by_contra hclos
      rw [h'.still (by simpa using hclos)] at hopen
      exact nomatch hopen
    exact (h'.source hopen).trans (h.source hbef)
  fd hopen := by
    have hbef : s'.closed = false := by
      by_contra hclos
      rw [h'.still (by simpa using hclos)] at hopen
      exact nomatch hopen
    rcases h'.fd hopen with hnone | hsame
    · exact .inl hnone
    · exact (h.fd hbef).imp hsame.trans hsame.trans
  past hs := h'.past (h.past hs)

/-- Fields that have nothing to do with the output. -/
theorem of_same (h : (s'.outQueue, s'.outPartial, s'.queued, s'.written, s'.closed, s'.outSource,
    s'.outFd) = (s.outQueue, s.outPartial, s.queued, s.written, s.closed, s.outSource, s.outFd)) :
    Aside s s' := by
  simp only [Prod.mk.injEq] at h
  obtain ⟨hqueue, hoff, hqueued, hwrit, hclos, hsrc, hfd⟩ := h
  exact ⟨hqueue, hoff, hqueued, hwrit, fun h => hclos.trans h, fun _ => hsrc,
    fun _ => .inr hfd, fun h hc => hsrc.trans (h (hclos.symm.trans hc))⟩

section

variable (s : Pipe)

theorem record (entry : Entry) : Aside s (s.record entry) := of_same rfl

theorem closeImmediately (problem : Option String) :
    Aside s (s.closeImmediately problem) := by
  unfold Pipe.closeImmediately
  split
  · exact refl s
  · rw [closeAll_eq]
    exact ⟨rfl, rfl, rfl, rfl, fun _ => rfl, fun h => (nomatch h), fun h => (nomatch h),
      fun _ _ => rfl⟩

theorem closeMaybe : Aside s s.closeMaybe := by
  unfold Pipe.closeMaybe
  split
  · exact closeImmediately s none
  · exact refl s

theorem closeEntirely (fd : Nat) : Aside s (s.closeEntirely fd) := by
  have hfd : ∀ t : Pipe, Aside t { t with outFd := none } := fun t =>
    ⟨rfl, rfl, rfl, rfl, id, fun _ => rfl, fun _ => .inl rfl, id⟩
  unfold Pipe.closeEntirely
  dsimp only
  refine (record s (.closeFd fd)).trans (trans ?_ (hfd _))
  split
  · rw [stopAnyInput_eq]
    exact of_same rfl
  · exact refl _

theorem closeOutput (shutdown : Option Errno) : Aside s (s.closeOutput shutdown) := by
  unfold Pipe.closeOutput
  refine trans ?_ (closeMaybe _)
  split
  · exact refl s
  split
  · exact refl s
  · exact closeEntirely s _
  · exact closeImmediately s _

theorem setProblemFromErrno (errn : Errno) : Aside s (s.setProblemFromErrno errn) := of_same rfl

theorem onChildReap (status : Int) : Aside s (s.onChildReap status) := by
  unfold Pipe.onChildReap
  dsimp only
  split <;> exact of_same rfl

theorem stopInput : Aside s s.stopInput := by
  unfold Pipe.stopInput
  split
  · exact record s .failed
  · exact of_same rfl

theorem stopError : Aside s s.stopError := by
  unfold Pipe.stopError
  split
  · exact record s .failed
  · exact of_same rfl

theorem dispatchInput (hup : Bool) (result : ReadResult) :
    Aside s (s.dispatchInput hup result) := by
  have hemit : ∀ data t, t = { s with inBuffer := s.inBuffer ++ data } →
      Aside s (if data.isEmpty then t.stopInput else t) := by
    rintro data t rfl
    have hdata : Aside s { s with inBuffer := s.inBuffer ++ data } := of_same rfl
    split
    · exact hdata.trans (stopInput _)
    · exact hdata
  have hread : ∀ eof t, Aside t { t.record (.read eof t.closed) with
      reading := some eof } := fun eof t => of_same rfl
  unfold Pipe.dispatchInput
  split
  · exact record s .failed
  dsimp only
  split
  · exact (hemit [] _ rfl).trans (hread _ _)
  split
  · exact (hemit _ _ rfl).trans (hread _ _)
  split
  · exact refl s
  split
  · exact (hemit [] _ rfl).trans (hread _ _)
  · have hdrop : ∀ t : Pipe, Aside t { t with inSource := t.inSource.drop } := fun t =>
      of_same rfl
    exact ((setProblemFromErrno s _).trans (closeImmediately _ none)).trans (hdrop _)

theorem readReturns (eof : Bool) : Aside s (s.readReturns eof) := by
  have hread : Aside s { s with reading := none } := of_same rfl
  unfold Pipe.readReturns
  dsimp only
  split
  · exact hread.trans (closeMaybe _)
  · exact hread

theorem dispatchError (hup : Bool) (result : ReadResult) :
    Aside s (s.dispatchError hup result) := by
  have hended : ∀ data t, t = { s with errBuffer := s.errBuffer ++ data } →
      Aside s (if data.isEmpty then t.stopError.closeMaybe else t) := by
    rintro data t rfl
    have hdata : Aside s { s with errBuffer := s.errBuffer ++ data } := of_same rfl
    split
    · exact (hdata.trans (stopError _)).trans (closeMaybe _)
    · exact hdata
  unfold Pipe.dispatchError
  split
  · exact record s .failed
  dsimp only
  split
  · exact hended [] _ rfl
  split
  · exact hended _ _ rfl
  · split
    · exact refl s
    · exact (closeImmediately s _).trans (of_same rfl)

theorem dispatchConnect (connect : ConnectResult) :
    Aside s (s.dispatchConnect connect) := by
  have hconn : ∀ connecting, Aside s { s with connecting := connecting } := fun _ => of_same rfl
  unfold Pipe.dispatchConnect
  dsimp only
  split
  · exact (hconn false).trans (closeImmediately _ _)
  · exact hconn true
  · exact ((hconn false).trans (setProblemFromErrno _ _)).trans (closeImmediately _ none)
  · exact hconn false

end

end Aside

/-! ### The text -/

/-- What was written and what waits are together what was queued. -/
structure Text (s : Pipe) : Prop where
  blocks : ∀ block ∈ s.outQueue, block ≠ []
  offset : s.closed = false → s.outPartial < (s.outQueue.headD [0]).length
  rest : ∃ rest, s.written ++ rest = s.queued ∧ (s.closed = false → rest = s.pending)
  past : s.closed → s.outSource = .null

/-- A queue that waits is polled for, and no source of an open descriptor was dropped. -/
structure Polled (s : Pipe) : Prop where
  waits : s.closed = false → s.outFd.isSome → s.outQueue ≠ [] → s.outSource = .attached
  kept : s.outFd.isSome → s.outSource ≠ .dropped

theorem Polled.not_stalled {s : Pipe} (h : Polled s) : ¬ Stalled s :=
  fun ⟨hopen, hfd, hqueue, hsrc⟩ => hsrc (h.waits hopen hfd hqueue)

namespace Aside

variable {s s' : Pipe}

theorem opened (h : Aside s s') (hopen : s'.closed = false) : s.closed = false := by
  by_contra hclos
  rw [h.still (by simpa using hclos)] at hopen
  exact nomatch hopen

theorem text (h : Aside s s') (hs : Text s) : Text s' where
  blocks := h.queue ▸ hs.blocks
  offset hopen := by
    rw [h.queue, h.offset]
    exact hs.offset (h.opened hopen)
  rest := by
    obtain ⟨rest, htext, hrest⟩ := hs.rest
    refine ⟨rest, ?_, fun hopen => ?_⟩
    · rw [h.written, h.queued]
      exact htext
    · unfold pending
      rw [h.queue, h.offset]
      exact hrest (h.opened hopen)
  past := h.past hs.past

theorem polled (h : Aside s s') (ht : Text s) (hs : Polled s) : Polled s' where
  waits hopen hfd hqueue := by
    rw [h.source hopen]
    rw [h.queue] at hqueue
    rcases h.fd hopen with hnone | hsame
    · rw [hnone] at hfd
      exact nomatch hfd
    · rw [hsame] at hfd
      exact hs.waits (h.opened hopen) hfd hqueue
  kept hfd := by
    cases hclos : s'.closed with
    | true =>
      rw [h.past ht.past hclos]
      exact nofun
    | false =>
      rw [h.source hclos]
      rcases h.fd hclos with hnone | hsame
      · rw [hnone] at hfd
        exact nomatch hfd
      · exact hs.kept (hsame ▸ hfd)

end Aside

/-! ### Steps -/

variable {s : Pipe}

/-- A block is queued. -/
theorem Text.write (h : Text s) (data : Bytes) :
    Text (s.write data) ∧ (Polled s → Polled (s.write data)) := by
  unfold Pipe.write
  split
  · exact ⟨h, id⟩
  rename_i hopen
  have hopen' : s.closed = false := by simpa using hopen
  split
  · exact ⟨h, id⟩
  rename_i hdata
  have hne : data ≠ [] := fun hnil => hdata (by rw [hnil]; rfl)
  dsimp only
  have hqueued : Text { s with
      outQueue := s.outQueue ++ [data], queued := s.queued ++ data } := by
    obtain ⟨rest, htext, hrest⟩ := h.rest
    have hoff := h.offset hopen'
    refine ⟨fun block hmem => ?_, fun _ => ?_, ⟨rest ++ data, ?_, fun _ => ?_⟩, h.past⟩
    · rcases mem_append.mp hmem with hold | hnew
      · exact h.blocks block hold
      · rw [mem_singleton.mp hnew]
        exact hne
    · show s.outPartial < ((s.outQueue ++ [data]).headD [0]).length
      cases hqueue : s.outQueue with
      | nil =>
        rw [hqueue] at hoff
        exact Nat.lt_of_lt_of_le hoff (length_pos_of_ne_nil hne)
      | cons block queue =>
        rw [hqueue] at hoff
        exact hoff
    · show s.written ++ (rest ++ data) = s.queued ++ data
      rw [← append_assoc, htext]
    show rest ++ data = (s.outQueue ++ [data]).flatten.drop s.outPartial
    have hlen : s.outPartial ≤ s.outQueue.flatten.length := by
      cases hqueue : s.outQueue with
      | nil =>
        rw [hqueue] at hoff
        exact Nat.lt_succ_iff.mp hoff
      | cons block queue =>
        rw [hqueue] at hoff
        rw [flatten_cons, List.length_append]
        exact Nat.le_trans (Nat.le_of_lt hoff) (Nat.le_add_right ..)
    rw [hrest hopen', flatten_append, drop_append_of_le_length hlen]
    simp [pending]
  split
  · rename_i hstart
    unfold startOutput
    rw [if_neg (by simpa using hstart.1)]
    refine ⟨{ hqueued with past := fun hclos => ?_ }, fun _ =>
      ⟨fun _ _ _ => rfl, nofun⟩⟩
    exact nomatch hopen'.symm.trans hclos
  rename_i hstart
  refine ⟨hqueued, fun hpolled => ⟨fun _ hfd _ => ?_, hpolled.kept⟩⟩
  -- the source is there, and was not dropped
  have hkept := hpolled.kept hfd
  cases hsrc : s.outSource with
  | null => exact absurd ⟨hsrc, hfd⟩ hstart
  | attached => rfl
  | dropped => exact absurd hsrc hkept

theorem Text.call (h : Text s) (c : Call) :
    Text (s.call c) ∧ (Polled s → Polled (s.call c)) := by
  have haside : ∀ {t}, Aside s t → Text t ∧ (Polled s → Polled t) :=
    fun ht => ⟨ht.text h, ht.polled h⟩
  cases c with
  | write data => exact h.write data
  | skip n => exact haside (.of_same rfl)
  | close problem shutdown =>
    have hclsg : Aside s { s with closing := true } := .of_same rfl
    show Text (s.close problem shutdown) ∧ (Polled s → Polled (s.close problem shutdown))
    unfold close
    dsimp only
    split
    · exact haside (hclsg.trans (.closeImmediately _ _))
    · split
      · exact haside (hclsg.trans (.closeOutput _ shutdown))
      · exact haside hclsg
  | dispose =>
    show Text s.dispose ∧ (Polled s → Polled s.dispose)
    unfold dispose
    have hclose := Aside.closeImmediately s (some "terminated")
    have hclos : (s.closeImmediately (some "terminated")).closed := by
      unfold closeImmediately
      split
      · assumption
      · rw [closeAll_eq]
    have htext := hclose.text h
    refine ⟨⟨fun block hmem => (nomatch hmem), fun hopen => ?_, ?_, htext.past⟩, fun hpolled =>
      ⟨fun _ _ hqueue => absurd rfl hqueue, (hclose.polled h hpolled).kept⟩⟩
    · exact nomatch hclos.symm.trans hopen
    · obtain ⟨rest, hrest, -⟩ := htext.rest
      exact ⟨rest, hrest, fun hopen => nomatch hclos.symm.trans hopen⟩

/-- The queue is empty: the source is stopped, and the pipe may close. -/
theorem Text.drained (h : Text s) (hatt : s.outSource = .attached) (hqueue : s.outQueue = [])
    (shutdown : Option Errno) :
    Text (if s.stopOutput.closing then s.stopOutput.closeOutput shutdown
        else s.stopOutput.closeMaybe) ∧
      Polled (if s.stopOutput.closing then s.stopOutput.closeOutput shutdown
        else s.stopOutput.closeMaybe) := by
  have hstop : s.stopOutput = { s with outSource := .null } := by
    unfold stopOutput
    rw [hatt]
    rfl
  have hstopped : Text s.stopOutput := by
    rw [hstop]
    exact { h with past := fun _ => rfl }
  have hpolled : Polled s.stopOutput := by
    rw [hstop]
    exact ⟨fun _ _ hwaits => absurd hqueue hwaits, nofun⟩
  split
  · exact ⟨(Aside.closeOutput _ shutdown).text hstopped,
      (Aside.closeOutput _ shutdown).polled hstopped hpolled⟩
  · exact ⟨(Aside.closeMaybe _).text hstopped, (Aside.closeMaybe _).polled hstopped hpolled⟩

/-- `writev` took bytes of the queue. -/
theorem Text.wrote (h : Text s) (hatt : s.outSource = .attached) {ret : Nat}
    (hret : ret ≤ s.iov.length) (shutdown : Option Errno) :
    Text (s.wrote ret shutdown) ∧ Polled (s.wrote ret shutdown) := by
  have hopen : s.closed = false := by
    by_contra hclos
    exact nomatch hatt.symm.trans (h.past (by simpa using hclos))
  obtain ⟨hpend, hoff, hsuffix⟩ := wroteBlocks_pending h.blocks (h.offset hopen) hret
  obtain ⟨rest, htext, hrest⟩ := h.rest
  unfold Pipe.wrote
  dsimp only
  generalize wroteBlocks iovCount ret s.outQueue s.outPartial = left at *
  have htaken : Text { s with
      written := s.written ++ s.iov.take ret, outQueue := left.1, outPartial := left.2 } := by
    refine ⟨fun block hmem => h.blocks block (hsuffix.subset hmem), fun _ => hoff,
      ⟨left.1.flatten.drop left.2, ?_, fun _ => rfl⟩, h.past⟩
    show s.written ++ s.iov.take ret ++ left.1.flatten.drop left.2 = s.queued
    have htake : s.iov.take ret = s.pending.take ret := by
      -- the blocks that `writev` is not given are behind what it takes
      have hfront : s.pending = s.iov ++ (s.outQueue.flatten.drop s.outPartial).drop
          s.iov.length := by
        have hprefix : s.iov <+: s.outQueue.flatten.drop s.outPartial := by
          obtain ⟨others, hothers⟩ := take_prefix iovCount s.outQueue
          have hflat : s.outQueue.flatten =
              (s.outQueue.take iovCount).flatten ++ others.flatten := by
            rw [← flatten_append, hothers]
          rw [hflat, drop_append]
          exact prefix_append _ _
        obtain ⟨others, hothers⟩ := hprefix
        unfold pending
        rw [← hothers, drop_left]
      rw [hfront, take_append_of_le_length hret]
    rw [hpend, htake, append_assoc, ← htext, hrest hopen]
    exact congrArg (s.written ++ ·) (take_append_drop ret s.pending)
  split
  · rename_i hqueue
    have hkept : s.outSource ≠ .dropped := by
      rw [hatt]
      exact nofun
    exact ⟨htaken, fun _ _ _ => hatt, fun _ => hkept⟩
  · rename_i hqueue
    exact htaken.drained hatt (by simpa using hqueue) shutdown

/-- A source that is dropped behind a close is not there any more. -/
theorem Text.closedDrop (h : Text s) {t : Pipe} (ht : Aside s t) (hclos : t.closed) :
    Text { t with outSource := t.outSource.drop } ∧
      Polled { t with outSource := t.outSource.drop } := by
  have htext := ht.text h
  have hnull : t.outSource = .null := htext.past hclos
  have hsame : ({ t with outSource := t.outSource.drop } : Pipe) = t := by
    rw [hnull]
    show ({ t with outSource := .null } : Pipe) = t
    rw [← hnull]
  rw [hsame]
  refine ⟨htext, fun hopen => (nomatch hclos.symm.trans hopen), fun _ hdropped => ?_⟩
  exact nomatch hnull.symm.trans hdropped

theorem closed_closeImmediately (s : Pipe) (problem : Option String) :
    (s.closeImmediately problem).closed := by
  unfold closeImmediately
  split
  · assumption
  · rw [closeAll_eq]

/-- `writev` is called, or fails. -/
theorem Text.dispatchWrite (h : Text s) (hsrc : s.outSource ≠ .dropped)
    (result : WritevResult) (shutdown : Option Errno) :
    Text (s.dispatchWrite result shutdown) ∧
      (Polled s → (∀ errn, result = .error errn → (errn = .again ∨ errn = .intr) →
        s.outSource = .attached → s.outFd.isSome → s.outQueue = []) →
          Polled (s.dispatchWrite result shutdown)) := by
  unfold Pipe.dispatchWrite
  split
  · exact ⟨(Aside.record s .failed).text h,
      fun hpolled _ => (Aside.record s .failed).polled h hpolled⟩
  rename_i hnull
  have hatt : s.outSource = .attached := by
    cases hcase : s.outSource with
    | null => exact absurd hcase hnull
    | attached => rfl
    | dropped => exact absurd hcase hsrc
  split
  · have hwrote := h.wrote hatt (Nat.zero_le _) shutdown
    exact ⟨hwrote.1, fun _ _ => hwrote.2⟩
  rename_i hqueue
  split
  · rename_i n
    have hwrote := h.wrote hatt (Nat.min_le_right n _) shutdown
    exact ⟨hwrote.1, fun _ _ => hwrote.2⟩
  rename_i errn
  dsimp only
  split
  · rename_i hagain
    refine ⟨{ h with past := fun hclos => ?_ }, fun _ hfirst => ?_⟩
    · exact nomatch (h.past hclos).symm.trans hatt
    -- only without a descriptor
    have hnone : ¬ s.outFd.isSome := fun hfd =>
      hqueue (hfirst errn rfl hagain hatt hfd)
    exact ⟨fun _ hfd => absurd hfd hnone, fun hfd => absurd hfd hnone⟩
  split
  · have hdrop := h.closedDrop (.closeImmediately s (some "terminated"))
      (closed_closeImmediately _ _)
    exact ⟨hdrop.1, fun _ _ => hdrop.2⟩
  · have hdrop := h.closedDrop ((Aside.setProblemFromErrno s errn).trans
      (.closeImmediately _ none)) (closed_closeImmediately _ _)
    exact ⟨hdrop.1, fun _ _ => hdrop.2⟩

/-- The connection, where the pipe is still connecting. -/
theorem aside_connecting (s : Pipe) (connect : ConnectResult) :
    Aside s (if s.connecting then s.dispatchConnect connect else s) := by
  split
  · exact .dispatchConnect s connect
  · exact .refl s

theorem Text.mainStep (h : Text s) (hread : s.reading = none) (e : Event) :
    Text (s.mainStep e) ∧ (Polled s → again s e = false → Polled (s.mainStep e)) := by
  have haside : ∀ {t}, Aside s t → Text t ∧ (Polled s → again s e = false → Polled t) :=
    fun ht => ⟨ht.text h, fun hpolled _ => ht.polled h hpolled⟩
  unfold Pipe.mainStep
  cases e with
  | readReturns | call c => exact haside (.refl s)
  | input hup result =>
    dsimp only
    split
    · exact haside (.dispatchInput s hup result)
    · exact haside (.refl s)
  | error hup result =>
    dsimp only
    split
    · exact haside (.dispatchError s hup result)
    · exact haside (.refl s)
  | reap status =>
    dsimp only
    split
    · exact haside (.onChildReap s status)
    · exact haside (.refl s)
  | later =>
    dsimp only
    split
    · have hlater : Aside s { s with later := false } := .of_same rfl
      exact haside (hlater.trans (.closeImmediately _ none))
    · exact haside (.refl s)
  | output connect result shutdown =>
    dsimp only
    split
    · rename_i hatt
      unfold Pipe.dispatchOutput
      have hconnect := aside_connecting s connect
      have hfails : s.connecting → connect.fails →
          (if s.connecting then s.dispatchConnect connect else s).closed := by
        intro hconn hfails
        rw [if_pos hconn]
        unfold dispatchConnect
        dsimp only
        split
        · exact closed_closeImmediately _ _
        · exact nomatch hfails
        · exact closed_closeImmediately _ _
        · exact nomatch hfails
      generalize (if s.connecting then s.dispatchConnect connect else s) = t at hconnect hfails ⊢
      have htext := hconnect.text h
      have hkept : t.outSource ≠ .dropped := by
        cases hclos : t.closed with
        | true =>
          rw [htext.past hclos]
          exact nofun
        | false =>
          rw [hconnect.source hclos, hatt]
          exact nofun
      obtain ⟨hnext, hstays⟩ := htext.dispatchWrite hkept result shutdown
      refine ⟨hnext, fun hpolled hnot => hstays (hconnect.polled h hpolled) ?_⟩
      rintro errn rfl hagain hattached' hfd
      by_contra hqueue
      -- then the write was to be tried again
      have hopen : t.closed = false := by
        by_contra hclos
        exact nomatch (htext.past (by simpa using hclos)).symm.trans hattached'
      have hfd' : s.outFd.isSome := by
        rcases hconnect.fd hopen with hnone | hsame
        · rw [hnone] at hfd
          exact nomatch hfd
        · exact hsame ▸ hfd
      have hconnected : (s.connecting && connect.fails) = false := by
        cases hcase : s.connecting && connect.fails with
        | false => rfl
        | true =>
          obtain ⟨hconn, hfail⟩ := Bool.and_eq_true_iff.mp hcase
          exact nomatch (hfails hconn hfail).symm.trans hopen
      rw [hconnect.queue] at hqueue
      unfold again at hnot
      dsimp only at hnot
      rw [decide_eq_true ⟨hread, hatt, hfd', hqueue, hagain⟩, hconnected] at hnot
      exact nomatch hnot
    · exact haside (.refl s)

/-- **Step.**  The text is kept, and the queue is polled for unless a write is to be tried
    again. -/
theorem Text.step (h : Text s) (e : Event) :
    Text (s.step e) ∧ (Polled s → again s e = false → Polled (s.step e)) := by
  unfold Pipe.step
  split
  · rename_i c
    have hcall := h.call c
    exact ⟨hcall.1, fun hpolled _ => hcall.2 hpolled⟩
  split
  · rename_i hread
    exact h.mainStep hread e
  split
  · have hreturns := Aside.readReturns s ‹Bool›
    exact ⟨hreturns.text h, fun hpolled _ => hreturns.polled h hpolled⟩
  · exact ⟨h, fun hpolled _ => hpolled⟩

/-- A write that is to be tried again is not tried again. -/
theorem Text.stalled (h : Text s) {e : Event} (hagain : again s e) :
    Stalled (s.step e) := by
  unfold again at hagain
  split at hagain
  · rename_i connect errn shutdown
    obtain ⟨hready, hconnect⟩ := Bool.and_eq_true_iff.mp hagain
    obtain ⟨hread, hatt, hfd, hqueue, herrn⟩ := of_decide_eq_true hready
    have hopen : s.closed = false := by
      by_contra hclos
      exact nomatch (h.past (by simpa using hclos)).symm.trans hatt
    have hstep : s.step (.output connect (.error errn) shutdown) =
        (if s.connecting then s.dispatchConnect connect else s).dispatchWrite (.error errn)
          shutdown := by
      unfold Pipe.step
      dsimp only
      rw [hread]
      unfold Pipe.mainStep
      dsimp only
      rw [if_pos hatt]
      rfl
    have hconnected : ∃ connecting, (if s.connecting then s.dispatchConnect connect else s) =
        { s with connecting := connecting } := by
      split
      · rename_i hconn
        rw [hconn, Bool.true_and] at hconnect
        unfold dispatchConnect
        dsimp only
        split
        · exact nomatch hconnect
        · exact ⟨true, rfl⟩
        · rename_i errn' hne
          simp only [ConnectResult.fails, Bool.not_eq_true', decide_eq_false_iff_not,
            not_not] at hconnect
          exact absurd hconnect hne
        · exact ⟨false, rfl⟩
      · exact ⟨s.connecting, rfl⟩
    obtain ⟨connecting, hconn⟩ := hconnected
    rw [hstep, hconn]
    unfold Pipe.dispatchWrite
    dsimp only
    rw [hatt, if_neg (nofun), if_neg hqueue, if_pos herrn]
    exact ⟨hopen, hfd, hqueue, nofun⟩
  · exact nomatch hagain

/-! ### Runs -/

theorem text_new (setup : Setup) : Text (new setup) where
  blocks _ hmem := nomatch hmem
  offset _ := Nat.one_pos
  rest := ⟨[], rfl, fun _ => rfl⟩
  past hclosed := nomatch hclosed

theorem polled_new (setup : Setup) : Polled (new setup) where
  waits _ _ hqueue := absurd rfl hqueue
  kept _ := by
    show sourceOf setup.outFd ≠ .dropped
    cases setup.outFd <;> exact nofun

/-- As long as no write is to be tried again the pipe does not stall, and no longer. -/
theorem Text.stalls_iff (h : Text s) (hpolled : Polled s) (es : List Event) :
    RunOk Pipe.step (fun s e => ¬ Stalled (s.step e)) s es ↔
      RunOk Pipe.step (fun s e => again s e = false) s es := by
  induction es generalizing s with
  | nil => exact Iff.rfl
  | cons e es ih =>
    obtain ⟨htext, hpolled'⟩ := h.step e
    cases hagain : again s e with
    | true =>
      constructor
      · exact fun hok => absurd (h.stalled hagain) hok.1
      · exact fun hok => nomatch hagain.symm.trans hok.1
    | false =>
      have hnext := hpolled' hpolled hagain
      have hrest := ih htext hnext
      constructor
      · exact fun hok => ⟨hagain, hrest.mp hok.2⟩
      · exact fun hok => ⟨hnext.not_stalled, hrest.mpr hok.2⟩

/-- **The output of a pipe.**  Whatever happens, the bytes written are a prefix of the bytes
    queued.  No state of a run is stalled if and only if no write of it is to be tried again. -/
theorem run_output (setup : Setup) (es : List Event) :
    (run Pipe.step (new setup) es).written <+: (run Pipe.step (new setup) es).queued ∧
      (RunOk Pipe.step (fun s e => ¬ Stalled (s.step e)) (new setup) es ↔
        RunOk Pipe.step (fun s e => again s e = false) (new setup) es) := by
  refine ⟨?_, (text_new setup).stalls_iff (polled_new setup) es⟩
  have hok : RunOk Pipe.step (fun _ _ => True) (new setup) es := by
    generalize new setup = s
    induction es generalizing s with
    | nil => trivial
    | cons e es ih => exact ⟨trivial, ih _⟩
  have htext : Text (run Pipe.step (new setup) es) :=
    run_invariant Text (fun _ e hs _ => (hs.step e).1) (text_new setup) hok
  obtain ⟨rest, hrest, -⟩ := htext.rest
  exact ⟨rest, hrest⟩

/-- A socket whose buffer is full. -/
def busySocket : Setup where
  inFd := some 5
  outFd := some 6
  errFd := none
  apart _ h := nomatch h
  pid := false
  problem := none
  connecting := false
  isUserFd := false

/-- The byte stays in the queue. -/
theorem stalled_busySocket : Stalled (run Pipe.step (new busySocket)
    [.call (.write [104]), .output .connected (.error .again) none]) := by
  refine ⟨rfl, rfl, ?_, ?_⟩ <;> decide

end Pipe

end Cockpit
