import Cockpit.Common.WebInject

namespace Cockpit

open Lib List

/-!
# How a stream is cut into blocks for `src/common/cockpitwebinject.c`

* `Overlaps` — but an occurrence that begins in this block may begin inside of the last one, and
  then it only shows when the next block comes;
* `passed_iff` — so the blocks make no difference unless this happens.
-/

namespace WebInject

variable {marker : Bytes} {count : Nat} {blocks : List Bytes} {block : Bytes}

/-- The part of a stream that has been filtered, where the occurrences ended, and where the next one
    may begin. -/
structure Track where
  stream : Bytes
  floor : Nat
  found : List Nat

/-- The occurrences in one more block. -/
def Track.new (marker : Bytes) (count : Nat) (t : Track) (block : Bytes) : List Nat :=
  ends marker (t.stream ++ block) (count - t.found.length)
    (max t.floor (t.stream.length + 1 - marker.length))

def Track.next (marker : Bytes) (count : Nat) (t : Track) (block : Bytes) : Track where
  stream := t.stream ++ block
  floor := if t.new marker count block = [] then t.floor else t.stream.length
  found := t.found ++ t.new marker count block

/-- The track of a stream in blocks. -/
def track (marker : Bytes) (count : Nat) (blocks : List Bytes) : Track :=
  blocks.foldl (Track.next marker count) ⟨[], 0, []⟩

theorem track_append (blocks : List Bytes) (block : Bytes) :
    track marker count (blocks ++ [block]) = (track marker count blocks).next marker count block := by
  simp [track]

theorem stream_track (blocks : List Bytes) : (track marker count blocks).stream = blocks.flatten := by
  induction blocks using reverseRecOn with
  | nil => rfl
  | append_singleton blocks block ih =>
    rw [track_append]
    simp [Track.next, ih]

theorem found_append (blocks : List Bytes) (block : Bytes) :
    (track marker count (blocks ++ [block])).found =
      (track marker count blocks).found ++ (track marker count blocks).new marker count block := by
  rw [track_append]
  rfl

/-- New occurrences end in the new block. -/
theorem lt_of_mem_new (hw : marker ≠ []) {t : Track} {e : Nat} (h : e ∈ t.new marker count block) :
    t.stream.length < e ∧ e ≤ (t.stream ++ block).length := by
  have := mem_ends hw h
  omega

theorem found_le (hw : marker ≠ []) (blocks : List Bytes) :
    ∀ e ∈ (track marker count blocks).found, e ≤ blocks.flatten.length := by
  induction blocks using reverseRecOn with
  | nil => exact nofun
  | append_singleton blocks block ih =>
    intro e he
    rw [found_append] at he
    rw [flatten_append, flatten_singleton]
    rcases mem_append.mp he with he | he
    · have := ih e he
      rw [length_append]
      omega
    · have := (lt_of_mem_new hw he).2
      rwa [stream_track] at this

/-- Occurrences end one after the other. -/
theorem pairwise_found (hw : marker ≠ []) (blocks : List Bytes) :
    (0 :: (track marker count blocks).found).Pairwise (· < ·) := by
  induction blocks using reverseRecOn with
  | nil => exact pairwise_singleton _ _
  | append_singleton blocks block ih =>
    have hpos := length_pos_iff.mpr hw
    rw [found_append, ← cons_append, pairwise_append]
    refine ⟨ih, (pairwise_ends hw).imp fun h => by omega, fun a ha b hb => ?_⟩
    have hb' := (lt_of_mem_new hw hb).1
    rw [stream_track] at hb'
    rcases mem_cons.mp ha with rfl | ha
    · omega
    · have := found_le hw blocks a ha
      omega

/-! ### A filter keeps to its track -/

/-- A filter, after some blocks. -/
structure Inv (marker inject : Bytes) (count : Nat) (blocks : List Bytes) (filter : WebInject)
    (out : Bytes) : Prop where
  marks : filter.marker = marker
  injects : filter.inject = inject
  maximum : filter.maximum = count
  injected : filter.injected = (track marker count blocks).found.length
  here : filter.At blocks.flatten (track marker count blocks).floor
  out : out = insertAll inject 0 (track marker count blocks).found blocks.flatten

theorem inv_new (marker_ne : marker ≠ []) (inject : Bytes) (count : Nat) :
    Inv marker inject count [] (new marker marker_ne inject count) [] where
  marks := rfl
  injects := rfl
  maximum := rfl
  injected := rfl
  here := at_new marker marker_ne inject count
  out := rfl

/-- **One more block.** -/
theorem Inv.push {inject out : Bytes} {filter : WebInject}
    (h : Inv marker inject count blocks filter out) (block : Bytes) :
    Inv marker inject count (blocks ++ [block]) (filter.push block).1
      (out ++ (filter.push block).2.flatten) := by
  have hw : marker ≠ [] := h.marks ▸ filter.marker_ne
  obtain ⟨hflat, hcount, hhere⟩ := push_spec h.here block
  have hnew : filter.newEnds blocks.flatten block (track marker count blocks).floor =
      (track marker count blocks).new marker count block := by
    unfold newEnds Track.new
    rw [h.marks, h.maximum, h.injected, stream_track]
  have hsame : (filter.push block).1.marker = filter.marker ∧
      (filter.push block).1.inject = filter.inject ∧
      (filter.push block).1.maximum = filter.maximum := by
    unfold WebInject.push
    split <;> exact ⟨rfl, rfl, rfl⟩
  have hflatten : (blocks ++ [block]).flatten = blocks.flatten ++ block := by simp
  rw [hnew] at hflat hcount hhere
  refine ⟨hsame.1.trans h.marks, hsame.2.1.trans h.injects, hsame.2.2.trans h.maximum, ?_, ?_, ?_⟩
  · rw [hcount, found_append, length_append, h.injected]
  · rw [hflatten, track_append]
    have hstream := @stream_track marker count blocks
    unfold Track.next
    dsimp only
    rwa [hstream]
  rw [hflat, h.out, h.injects, hflatten, found_append]
  have hsorted : (0 :: (track marker count blocks).found).Pairwise (· ≤ ·) :=
    (pairwise_found hw blocks).imp Nat.le_of_lt
  have hold : ∀ p ∈ (track marker count blocks).found, p ≤ 0 + blocks.flatten.length := by
    intro p hp
    have := found_le hw blocks p hp
    omega
  have hlate : ∀ q ∈ (track marker count blocks).new marker count block,
      0 + blocks.flatten.length ≤ q := by
    intro q hq
    have hlt := (lt_of_mem_new hw hq).1
    rw [stream_track] at hlt
    omega
  rw [insertAll_append inject hsorted hold hlate, Nat.zero_add]

theorem pushAll_append (self : WebInject) (blocks : List Bytes) (block : Bytes) :
    self.pushAll (blocks ++ [block]) = (((self.pushAll blocks).1.push block).1,
        (self.pushAll blocks).2 ++ ((self.pushAll blocks).1.push block).2) := by
  induction blocks generalizing self with
  | nil => simp [pushAll]
  | cons first blocks ih =>
    rw [cons_append, pushAll, pushAll, ih]
    simp

/-- What a new filter passes on is the stream, with something injected where its track says. -/
theorem passed_eq (marker_ne : marker ≠ []) (inject : Bytes) (count : Nat) (blocks : List Bytes) :
    passed marker marker_ne inject count blocks =
      insertAll inject 0 (track marker count blocks).found blocks.flatten := by
  have hinv : Inv marker inject count blocks
      ((new marker marker_ne inject count).pushAll blocks).1
      ((new marker marker_ne inject count).pushAll blocks).2.flatten := by
    induction blocks using reverseRecOn with
    | nil => exact inv_new marker_ne inject count
    | append_singleton blocks block ih =>
      rw [pushAll_append, flatten_append]
      exact ih.push block
  exact hinv.out

/-! ### Occurrences that overlap -/

/-- The last occurrence that ends in a block is followed by one that begins inside of it, in the same
    block, and reaches beyond the end of the block, while something is still to be injected. -/
def Overlaps (marker : Bytes) (count : Nat) (blocks : List Bytes) : Prop :=
  ∃ before block after e s, blocks = before ++ block :: after ∧
    (ends marker (before ++ [block]).flatten count 0).getLast? = some e ∧
    (ends marker (before ++ [block]).flatten count 0).length < count ∧
    before.flatten.length ≤ s ∧ s < e ∧
    (before ++ [block]).flatten.length < s + marker.length ∧ OccursAt marker blocks.flatten s

/-- Where the last occurrence ended. -/
def lastEnd (found : List Nat) : Nat := found.getLast?.getD 0

theorem flatten_snoc (blocks : List Bytes) (block : Bytes) :
    (blocks ++ [block]).flatten = blocks.flatten ++ block := by simp

/-- The occurrences in a stream that has one more block. -/
theorem ends_flatten_append (hw : marker ≠ []) (blocks : List Bytes) (block : Bytes) :
    ends marker (blocks ++ [block]).flatten count 0 = ends marker blocks.flatten count 0 ++
        ends marker (blocks.flatten ++ block)
          (count - (ends marker blocks.flatten count 0).length)
          (max (lastEnd (ends marker blocks.flatten count 0))
            (blocks.flatten.length + 1 - marker.length)) := by
  rw [flatten_snoc]
  exact ends_append hw block

/-- A list falls apart at a bound in one way only. -/
theorem append_inj_of_le {n : Nat} {as bs as' bs' : List Nat} (has : ∀ a ∈ as, a ≤ n)
    (has' : ∀ a ∈ as', a ≤ n) (hbs : ∀ b ∈ bs, n < b) (hbs' : ∀ b ∈ bs', n < b) :
    as ++ bs = as' ++ bs' ↔ as = as' ∧ bs = bs' := by
  refine ⟨fun h => ?_, fun h => by rw [h.1, h.2]⟩
  have hlow : ∀ {xs ys : List Nat}, (∀ a ∈ xs, a ≤ n) → (∀ b ∈ ys, n < b) →
      (xs ++ ys).filter (· ≤ n) = xs := by
    intro xs ys hxs hys
    rw [filter_append, filter_eq_self.mpr (by simpa using hxs),
      filter_eq_nil_iff.mpr (by simpa using hys), append_nil]
  have hfirst : as = as' := by rw [← hlow has hbs, h, hlow has' hbs']
  subst hfirst
  exact ⟨rfl, append_cancel_left h⟩

/-- The block in which the last occurrence ended, and after which there was none. -/
structure FloorAt (marker : Bytes) (count : Nat) (blocks : List Bytes) : Prop where
  /-- At first there is no such block. -/
  none : (track marker count blocks).found = [] → (track marker count blocks).floor = 0
  some : (track marker count blocks).found ≠ [] → ∃ before block after,
    blocks = before ++ block :: after ∧ (track marker count blocks).floor = before.flatten.length ∧
      (track marker count (before ++ [block])).found = (track marker count blocks).found ∧
      before.flatten.length < lastEnd (track marker count blocks).found

theorem floorAt (hw : marker ≠ []) (blocks : List Bytes) : FloorAt marker count blocks := by
  induction blocks using reverseRecOn with
  | nil => exact ⟨fun _ => rfl, fun h => absurd rfl h⟩
  | append_singleton blocks block ih =>
    by_cases hnew : (track marker count blocks).new marker count block = []
    · -- nothing new
      have hfound : (track marker count (blocks ++ [block])).found =
          (track marker count blocks).found := by
        rw [found_append, hnew, append_nil]
      have hfloor : (track marker count (blocks ++ [block])).floor =
          (track marker count blocks).floor := by
        rw [track_append]
        exact if_pos hnew
      constructor
      · rw [hfound, hfloor]
        exact ih.none
      rw [hfound, hfloor]
      intro hne
      obtain ⟨before, block', after, heq, hbef, hsame, hlt⟩ := ih.some hne
      exact ⟨before, block', after ++ [block], by simp [heq], hbef, hsame, hlt⟩
    have hfloor : (track marker count (blocks ++ [block])).floor = blocks.flatten.length := by
      have hstream := @stream_track marker count blocks
      rw [track_append, ← hstream]
      exact if_neg hnew
    refine ⟨fun h => ?_, fun _ => ⟨blocks, block, [], rfl, hfloor, rfl, ?_⟩⟩
    · rw [found_append] at h
      exact absurd (append_eq_nil_iff.mp h).2 hnew
    rw [found_append]
    unfold lastEnd
    rw [getLast?_append_of_ne_nil _ hnew]
    rw [getLast?_eq_some_getLast hnew, Option.getD_some]
    have := (lt_of_mem_new hw (getLast_mem hnew)).1
    rwa [stream_track] at this

/-- The next occurrence would begin inside of the last one, and reach into the new block. -/
def Reaches (marker : Bytes) (count : Nat) (blocks : List Bytes) (block : Bytes) : Prop :=
  (track marker count blocks).found.length < count ∧
    ∃ s, (track marker count blocks).floor ≤ s ∧ s < lastEnd (track marker count blocks).found ∧
      blocks.flatten.length < s + marker.length ∧ OccursAt marker (blocks.flatten ++ block) s

/-- The search goes on before the end of the last occurrence. -/
theorem floor_le_lastEnd (hw : marker ≠ []) (blocks : List Bytes) :
    (track marker count blocks).floor ≤ lastEnd (track marker count blocks).found := by
  have h := @floorAt marker count hw blocks
  by_cases hnil : (track marker count blocks).found = []
  · rw [h.none hnil]
    exact Nat.zero_le _
  · obtain ⟨before, block, after, -, heq, -, hlt⟩ := h.some hnil
    omega

/-- A block has just the occurrences that it should have, unless one reaches into it. -/
theorem new_eq_iff (hw : marker ≠ []) (blocks : List Bytes) (block : Bytes) :
    (track marker count blocks).new marker count block = ends marker (blocks.flatten ++ block)
          (count - (track marker count blocks).found.length)
          (max (lastEnd (track marker count blocks).found)
            (blocks.flatten.length + 1 - marker.length)) ↔
      ¬ Reaches marker count blocks block := by
  have hfloor := @floor_le_lastEnd marker count hw blocks
  unfold Track.new Reaches
  rw [stream_track]
  by_cases hfull : (track marker count blocks).found.length < count
  · rw [ends_eq_iff_of_le hw (by omega) (by omega)]
    constructor
    · rintro h ⟨-, s, hs, hlt, hreach, hocc⟩
      exact h s (by omega) (by omega) hocc
    · intro h s hs hlt hocc
      exact h ⟨hfull, s, by omega, by omega, by omega, hocc⟩
  · rw [show count - (track marker count blocks).found.length = 0 by omega, ends_zero, ends_zero]
    exact ⟨fun _ h => hfull h.1, fun _ => rfl⟩

/-- What comes later in a stream ends later. -/
theorem ends_flatten_split (hw : marker ≠ []) {before after : List Bytes} :
    ∃ more, ends marker (before ++ after).flatten count 0 =
        ends marker before.flatten count 0 ++ more ∧
      ∀ e ∈ more, lastEnd (ends marker before.flatten count 0) + marker.length ≤ e ∧
        before.flatten.length < e ∧ e ≤ (before ++ after).flatten.length := by
  rw [flatten_append]
  refine ⟨_, ends_append hw after.flatten, fun e he => ?_⟩
  have h := mem_ends hw he
  unfold lastEnd
  omega

/-- Something overlaps in a stream with one more block when it did before, or reaches into the
    block. -/
theorem overlaps_append_iff (hw : marker ≠ [])
    (hfound : (track marker count blocks).found = ends marker blocks.flatten count 0)
    (hnone : ¬ Overlaps marker count blocks) :
    Overlaps marker count (blocks ++ [block]) ↔ Reaches marker count blocks block := by
  have hflat : (blocks ++ [block]).flatten = blocks.flatten ++ block := flatten_snoc blocks block
  have hfloor := @floorAt marker count hw blocks
  constructor
  · rintro ⟨before, block', after, e, s, heq, hlast, hcount, hs, hse, hreach, hocc⟩
    rcases eq_nil_or_concat after with rfl | ⟨after, last, rfl⟩
    · -- nothing reaches beyond the end
      rw [heq] at hocc
      have := hocc.le hw
      omega
    rw [concat_eq_append, ← cons_append, ← append_assoc] at heq
    obtain ⟨hblocks, -⟩ := append_inj' heq rfl
    by_cases hle : s + marker.length ≤ blocks.flatten.length
    · -- the overlap was there before
      rw [hflat, occursAt_append_iff hle] at hocc
      exact absurd ⟨before, block', after, e, s, hblocks, hlast, hcount, hs, hse, hreach, hocc⟩ hnone
    have hsplit : blocks = (before ++ [block']) ++ after := by simp [hblocks]
    obtain ⟨more, hmore, hlate⟩ := @ends_flatten_split marker count hw (before ++ [block']) after
    -- an occurrence after that one would end behind what is there
    have hnil : more = [] := by
      rw [eq_nil_iff_forall_not_mem]
      intro e' he'
      have := hlate e' he'
      have hlastEnd : lastEnd (ends marker (before ++ [block']).flatten count 0) = e := by
        unfold lastEnd
        rw [hlast]
        rfl
      rw [← hsplit] at this
      omega
    rw [hnil, append_nil, ← hsplit, ← hfound] at hmore
    rw [← hmore] at hlast hcount
    have hlastEnd : lastEnd (track marker count blocks).found = e := by
      unfold lastEnd
      rw [hlast]
      rfl
    refine ⟨hcount, s, ?_, by omega, by omega, hflat ▸ hocc⟩
    -- the floor is the start of that block
    obtain ⟨before', block'', after', hblocks', hfloor', -, hlt⟩ := hfloor.some (by
      intro hnil
      rw [hnil] at hlast
      exact nomatch hlast)
    have hpre : before' <+: blocks := ⟨block'' :: after', hblocks'.symm⟩
    rw [hfloor']
    by_cases hshort : before'.length ≤ before.length
    · obtain ⟨t, ht⟩ := prefix_of_prefix_length_le hpre
        (⟨block' :: after, hblocks.symm⟩ : before <+: blocks) hshort
      rw [← ht, flatten_append, length_append] at hs
      omega
    obtain ⟨t, ht⟩ := prefix_of_prefix_length_le
      (⟨after, hsplit.symm⟩ : before ++ [block'] <+: blocks) hpre (by simp; omega)
    have hend := (mem_ends hw (mem_of_getLast? (hmore ▸ hlast))).2
    rw [← ht, flatten_append, length_append] at hlt
    omega
  rintro ⟨hcount, s, hs, hse, hreach, hocc⟩
  obtain ⟨before, block', after, hblocks, hfloor', hsame, -⟩ := hfloor.some (by
    intro hnil
    rw [hnil] at hse
    exact Nat.not_lt_zero _ hse)
  have hsplit : blocks = (before ++ [block']) ++ after := by simp [hblocks]
  obtain ⟨more, hmore, hlate⟩ := @ends_flatten_split marker count hw (before ++ [block']) after
  -- all of the occurrences ended in that block, or before it
  have hnil : more = [] := by
    rw [eq_nil_iff_forall_not_mem]
    intro e he
    have hmem : e ∈ (track marker count (before ++ [block'])).found := by
      rw [hsame, hfound, hsplit, hmore]
      exact mem_append_right _ he
    have := found_le hw _ e hmem
    have := hlate e he
    omega
  rw [hnil, append_nil, ← hsplit, ← hfound] at hmore
  refine ⟨before, block', after ++ [block], lastEnd (track marker count blocks).found, s, ?_, ?_,
    hmore ▸ hcount, hfloor' ▸ hs, hse, ?_, hflat ▸ hocc⟩
  · simp [hblocks]
  · rw [← hmore]
    cases hlast : (track marker count blocks).found.getLast? with
    | none =>
      rw [getLast?_eq_none_iff] at hlast
      rw [hlast] at hse
      exact absurd hse (Nat.not_lt_zero _)
    | some e =>
      unfold lastEnd
      rw [hlast]
      rfl
  · have hlen := congrArg length (congrArg flatten hsplit)
    rw [flatten_append, length_append] at hlen
    omega

theorem not_overlaps_nil : ¬ Overlaps marker count [] := by
  rintro ⟨before, block, after, e, s, heq, -⟩
  exact absurd heq (by simp)

/-- What overlaps goes on to. -/
theorem Overlaps.append (h : Overlaps marker count blocks) (block : Bytes) :
    Overlaps marker count (blocks ++ [block]) := by
  obtain ⟨before, block', after, e, s, heq, hlast, hcount, hs, hse, hreach, hocc⟩ := h
  refine ⟨before, block', after ++ [block], e, s, by simp [heq], hlast, hcount, hs, hse, hreach, ?_⟩
  rw [flatten_snoc]
  exact hocc.append block

/-- **The track has the leftmost occurrences** just when none overlaps. -/
theorem found_eq_iff (hw : marker ≠ []) (blocks : List Bytes) :
    (track marker count blocks).found = ends marker blocks.flatten count 0 ↔
      ¬ Overlaps marker count blocks := by
  induction blocks using reverseRecOn with
  | nil =>
    have hnil : ends marker ([] : List Bytes).flatten count 0 = [] :=
      ends_of_length_lt hw (by simpa using length_pos_iff.mpr hw)
    exact ⟨fun _ => not_overlaps_nil, fun _ => hnil.symm⟩
  | append_singleton blocks block ih =>
    -- the occurrences that end before the block, and those that end in it
    have hold : ∀ e ∈ (track marker count blocks).found, e ≤ blocks.flatten.length :=
      found_le hw blocks
    have hold' : ∀ e ∈ ends marker blocks.flatten count 0, e ≤ blocks.flatten.length :=
      fun e he => (mem_ends hw he).2
    have hnew : ∀ e ∈ (track marker count blocks).new marker count block,
        blocks.flatten.length < e := by
      intro e he
      have := (lt_of_mem_new hw he).1
      rwa [stream_track] at this
    have hnew' : ∀ e ∈ ends marker (blocks.flatten ++ block)
        (count - (ends marker blocks.flatten count 0).length)
        (max (lastEnd (ends marker blocks.flatten count 0))
          (blocks.flatten.length + 1 - marker.length)), blocks.flatten.length < e := by
      intro e he
      have := (mem_ends hw he).1
      omega
    rw [found_append, ends_flatten_append hw, append_inj_of_le hold hold' hnew hnew']
    constructor
    · rintro ⟨hfound, hblock⟩
      rw [overlaps_append_iff hw hfound (ih.mp hfound), ← new_eq_iff hw, hfound]
      exact hblock
    intro hnone
    have hfound := ih.mpr fun h => hnone (h.append block)
    rw [overlaps_append_iff hw hfound (ih.mp hfound), ← new_eq_iff hw, hfound] at hnone
    exact ⟨hfound, hnone⟩

/-- **Where a stream is cut makes no difference** to what a filter passes on, whatever it injects,
    just when no occurrence overlaps the last one of a block. -/
theorem passed_iff (marker_ne : marker ≠ []) (count : Nat) (blocks : List Bytes) :
    (∀ inject, passed marker marker_ne inject count blocks =
        injectedAfter marker inject count blocks.flatten) ↔
      ¬ Overlaps marker count blocks := by
  rw [← found_eq_iff marker_ne]
  have hpos := length_pos_iff.mpr marker_ne
  have hsorted : (0 :: (track marker count blocks).found).Pairwise (· < ·) :=
    pairwise_found marker_ne blocks
  have hsorted' : (0 :: ends marker blocks.flatten count 0).Pairwise (· < ·) := by
    apply pairwise_cons.mpr
    refine ⟨fun e he => ?_, (pairwise_ends marker_ne).imp fun h => by omega⟩
    have := (mem_ends marker_ne he).1
    omega
  have hle : ∀ e ∈ (track marker count blocks).found, e ≤ 0 + blocks.flatten.length := by
    simpa using found_le marker_ne blocks
  have hle' : ∀ e ∈ ends marker blocks.flatten count 0, e ≤ 0 + blocks.flatten.length := by
    intro e he
    have := (mem_ends marker_ne he).2
    omega
  have : Nontrivial UInt8 := ⟨0, 1, by decide⟩
  rw [← insertAll_inj hsorted hsorted' hle hle']
  unfold injectedAfter
  exact forall_congr' fun inject => by rw [passed_eq]

/-- A marker that cannot overlap with itself, cut in two. -/
theorem passed_cut :
    (∀ inject, passed [60, 104, 62] (by decide) inject 1 [[97, 60], [104, 62, 98]] =
        injectedAfter [60, 104, 62] inject 1 [97, 60, 104, 62, 98]) ∧
      ¬ Overlaps [60, 104, 62] 1 [[97, 60], [104, 62, 98]] := by
  have hiff := @passed_iff [60, 104, 62] (by decide) 1 [[97, 60], [104, 62, 98]]
  have hnone : ¬ Overlaps [60, 104, 62] 1 [[97, 60], [104, 62, 98]] := by
    rintro ⟨before, block, after, e, s, -, hlast, hcount, -⟩
    rw [Nat.lt_one_iff, length_eq_zero_iff] at hcount
    rw [hcount] at hlast
    exact nomatch hlast
  exact ⟨hiff.mpr hnone, hnone⟩

/-- The middle one of three bytes is used twice when a block ends before the last one. -/
theorem passed_overlap :
    passed [97, 97] (by decide) [33] 2 [[97, 97], [97]] ≠
      injectedAfter [97, 97] [33] 2 [97, 97, 97] := by
  decide +kernel

end WebInject

end Cockpit
