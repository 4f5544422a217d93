import Cockpit.Lib.Occurrences
import Cockpit.Lib.Run
import Cockpit.Common.GLib

namespace Cockpit

open Lib List Function Option Nat

/-!
# `src/common/cockpitwebinject.c`

A filter that puts bytes into a stream of blocks, after each of the first few occurrences of a
marker.  The marker may be cut by the end of a block, so the filter remembers how much of it the
stream has ended with so far.

* `WebInject.At` — what the filter knows after a part of the stream: which beginnings of the marker
  it has seen at the end, of those that begin in or after the block with the last occurrence;
* `WebInject.at_push` — what one more block does.
-/

/-- `struct _CockpitWebInject`; the marker is never empty.  `partialMatches` has the lengths that are
    `TRUE` in the array. -/
structure WebInject where
  marker : Bytes
  marker_ne : marker ≠ []
  inject : Bytes
  maximum : Nat
  partialMatches : Nat → Bool
  injected : Nat

namespace WebInject

/-- `cockpit_web_inject_new` -/
def new (marker : Bytes) (marker_ne : marker ≠ []) (inject : Bytes) (count : Nat) : WebInject where
  marker := marker
  marker_ne := marker_ne
  inject := inject
  maximum := count
  partialMatches := fun _ => false
  injected := 0

/-- The loop over the partial matches, the longest first, for the lengths below the argument; and
    how much of the block completes one. -/
def partialLoop (marker data : Bytes) : Nat → (Nat → Bool) → (Nat → Bool) × Option Nat
  | 0, partials => (partials, none)
  | partialLen + 1, partials =>
    if partials partialLen then
      -- our match can only grow longer
      let partials := Function.update partials partialLen false
      let remainingLen := marker.length - partialLen
      if remainingLen > data.length then
        -- our current block might be too short
        partialLoop marker data partialLen
          (if data.isPrefixOf (marker.drop partialLen) then
            Function.update partials (partialLen + data.length) true
          else partials)
      else if (marker.drop partialLen).isPrefixOf data then
        -- we have a match
        (fun _ => false, some remainingLen)
      else partialLoop marker data partialLen partials
    else partialLoop marker data partialLen partials

/-- `memmem` -/
def memmem (haystack needle : Bytes) : Option Nat := Lib.search needle haystack

theorem memmem_pos {self : WebInject} {data : Bytes} {cut offset : Nat}
    (hcut : cut < data.length) :
    data.length - (cut + offset + self.marker.length) < data.length - cut := by
  have := length_pos_iff.mpr self.marker_ne
  omega

/-- The bytes from `written` to `cut` are passed on, and an occurrence that ended at `pos` is followed
    by what is injected. -/
def emit (self : WebInject) (data : Bytes) (written cut : Nat) (pos : Option Nat)
    (injected : Nat) : List Bytes × Nat :=
  if cut ≠ written then
    let bytes := (data.drop written).take (cut - written)
    -- did we have a match?
    if pos = some cut ∧ injected < self.maximum then ([bytes, self.inject], injected + 1)
    else ([bytes], injected)
  else ([], injected)

/-- The loop that looks for the marker in the block, from `cut` on: what it passes on, and how often
    something has been injected then. -/
def pushLoop (self : WebInject) (data : Bytes) (written cut : Nat) (pos : Option Nat)
    (injected : Nat) : List Bytes × Nat :=
  let emitted := self.emit data written cut pos injected
  if _h : data.length ≤ cut then emitted
  else
    match if emitted.2 < self.maximum ∧ cut + self.marker.length ≤ data.length then
        memmem (data.drop cut) self.marker
      else none with
    | some offset =>
      -- we found a match, but we want to write out the mark also before we inject
      let found := cut + offset + self.marker.length
      let rest := pushLoop self data cut found (some found) emitted.2
      (emitted.1 ++ rest.1, rest.2)
    | none =>
      -- nothing found, forward
      let rest := pushLoop self data cut data.length none emitted.2
      (emitted.1 ++ rest.1, rest.2)
  termination_by data.length - cut
  decreasing_by
    · exact memmem_pos (by omega)
    · omega

/-- The loop at the end, for partial matches up to a length. -/
def markLoop (marker data : Bytes) : Nat → (Nat → Bool) → (Nat → Bool)
  | 0, partials => partials
  | partialLen + 1, partials =>
    markLoop marker data partialLen
      (if marker.take (partialLen + 1) = data.drop (data.length - (partialLen + 1)) then
        Function.update partials (partialLen + 1) true
      else partials)

/-- `cockpit_web_inject_push`: the filter, and what it passes on. -/
def push (self : WebInject) (data : Bytes) : WebInject × List Bytes :=
  if data.length = 0 then (self, [])
  else
    let looked : (Nat → Bool) × Option Nat :=
      if self.injected < self.maximum then
        partialLoop self.marker data self.marker.length self.partialMatches
      else (self.partialMatches, none)
    let pushed := self.pushLoop data 0 (looked.2.getD 0) looked.2 self.injected
    ({ self with
      partialMatches :=
        markLoop self.marker data (min (self.marker.length - 1) data.length) looked.1
      injected := pushed.2 },
      pushed.1)

/-- Blocks come one after the other. -/
def pushAll (self : WebInject) : List Bytes → WebInject × List Bytes
  | [] => (self, [])
  | block :: blocks =>
    let first := self.push block
    let rest := pushAll first.1 blocks
    (rest.1, first.2 ++ rest.2)

/-- Everything that a new filter passes on. -/
def passed (marker : Bytes) (marker_ne : marker ≠ []) (inject : Bytes) (count : Nat)
    (blocks : List Bytes) : Bytes :=
  ((new marker marker_ne inject count).pushAll blocks).2.flatten

end WebInject

/-- A stream with something inserted after each of the first `count` leftmost occurrences of a marker
    that do not overlap. -/
def injectedAfter (marker inject : Bytes) (count : Nat) (stream : Bytes) : Bytes :=
  insertAll inject 0 (ends marker stream count 0) stream

namespace WebInject

/-! ### The loops -/

variable {marker data : Bytes} {self : WebInject}

/-- What the loop over the partial matches below `n` comes to: the longest one that the block
    completes, or those that grow by all of the block. -/
def PartialSpec (marker data : Bytes) (n : Nat) (partials : Nat → Bool)
    (result : (Nat → Bool) × Option Nat) : Prop :=
  (∃ p < n, partials p ∧ marker.drop p <+: data ∧
      (∀ p' < n, p < p' → partials p' → ¬ marker.drop p' <+: data) ∧
      result = (fun _ => false, some (marker.length - p))) ∨
    (∀ p < n, partials p → ¬ marker.drop p <+: data) ∧ result.2 = none ∧
      ∀ j, result.1 j ↔ n ≤ j ∧ partials j ∨
        ∃ p < n, partials p ∧ j = p + data.length ∧ j < marker.length ∧
          data <+: marker.drop p

variable {n cut j : Nat}

/-- A match that the block does not complete is passed over. -/
theorem PartialSpec.succ {partials partials' : Nat → Bool}
    {result : (Nat → Bool) × Option Nat} (h : PartialSpec marker data n partials' result)
    (hno : partials n → ¬ marker.drop n <+: data) (hlower : ∀ p < n, partials' p = partials p)
    (hupper : ∀ j, n ≤ j → (partials' j ↔ n + 1 ≤ j ∧ partials j ∨
      partials n ∧ j = n + data.length ∧ j < marker.length ∧ data <+: marker.drop n)) :
    PartialSpec marker data (n + 1) partials result := by
  rcases h with ⟨p, hp, hset, hpre, hlongest, heq⟩ | ⟨hnone, hfound, hflags⟩
  · refine .inl ⟨p, by omega, hlower p hp ▸ hset, hpre, fun p' hp' hlt hset' => ?_, heq⟩
    rcases lt_or_eq_of_le (le_of_lt_succ hp') with hp' | rfl
    · exact hlongest p' hp' hlt (hlower p' hp' ▸ hset')
    · exact hno hset'
  refine .inr ⟨fun p hp hset => ?_, hfound, fun j => ?_⟩
  · rcases lt_or_eq_of_le (le_of_lt_succ hp) with hp | rfl
    · exact hnone p hp (hlower p hp ▸ hset)
    · exact hno hset
  rw [hflags]
  constructor
  · rintro (⟨hj, hset⟩ | ⟨p, hp, hset, hgrow⟩)
    · rcases (hupper j hj).mp hset with h | ⟨hset, hgrow⟩
      · exact .inl h
      · exact .inr ⟨n, lt_succ_self n, hset, hgrow⟩
    · exact .inr ⟨p, by omega, hlower p hp ▸ hset, hgrow⟩
  rintro (⟨hj, hset⟩ | ⟨p, hp, hset, hgrow⟩)
  · exact .inl ⟨by omega, (hupper j (by omega)).mpr (.inl ⟨hj, hset⟩)⟩
  rcases lt_or_eq_of_le (le_of_lt_succ hp) with hp | rfl
  · exact .inr ⟨p, hp, (hlower p hp).symm ▸ hset, hgrow⟩
  · have hle : p ≤ j := by omega
    exact .inl ⟨hle, (hupper j hle).mpr (.inr ⟨hset, hgrow⟩)⟩

/-- **The loop over the partial matches.** -/
theorem partialLoop_spec (hdata : 0 < data.length) {n : Nat} (hn : n ≤ marker.length)
    (partials : Nat → Bool) :
    PartialSpec marker data n partials (partialLoop marker data n partials) := by
  induction n generalizing partials with
  | zero => exact .inr ⟨fun p hp => absurd hp (not_lt_zero p), rfl, by simp [partialLoop]⟩
  | succ n ih =>
    unfold partialLoop
    by_cases hset : partials n
    · rw [if_pos hset]
      dsimp only
      have hclear : ∀ j, Function.update partials n false j ↔ j ≠ n ∧ partials j := by
        intro j
        by_cases hj : j = n <;> simp [hj]
      by_cases hshort : marker.length - n > data.length
      · -- the block is too short to complete this one
        rw [if_pos hshort]
        apply PartialSpec.succ (ih (by omega) _)
        · intro _ hpre
          have := hpre.length_le
          rw [length_drop] at this
          omega
        · intro p hp
          split
          · rw [update_of_ne (by omega), update_of_ne (by omega)]
          · rw [update_of_ne (by omega)]
        intro j hj
        by_cases hgrow : data <+: marker.drop n
        · rw [if_pos (List.isPrefixOf_iff_prefix.mpr hgrow)]
          by_cases heq : j = n + data.length
          · subst heq
            rw [update_self]
            exact ⟨fun _ => .inr ⟨hset, rfl, by omega, hgrow⟩, fun _ => rfl⟩
          rw [update_of_ne heq, hclear]
          constructor
          · exact fun h => .inl ⟨by omega, h.2⟩
          · rintro (h | h)
            · exact ⟨by omega, h.2⟩
            · exact absurd h.2.1 heq
        rw [if_neg (fun h => hgrow (List.isPrefixOf_iff_prefix.mp h)), hclear]
        constructor
        · exact fun h => .inl ⟨by omega, h.2⟩
        · rintro (h | h)
          · exact ⟨by omega, h.2⟩
          · exact absurd h.2.2.2 hgrow
      rw [if_neg hshort]
      by_cases hpre : (marker.drop n).isPrefixOf data
      · rw [if_pos hpre]
        refine .inl ⟨n, lt_succ_self n, hset, isPrefixOf_iff_prefix.mp hpre, ?_, rfl⟩
        intro p' hp' hlt
        omega
      -- this one comes to nothing
      rw [if_neg hpre]
      apply PartialSpec.succ (ih (by omega) _)
      · exact fun _ h => hpre (List.isPrefixOf_iff_prefix.mpr h)
      · exact fun p hp => update_of_ne (by omega) _ _
      intro j hj
      rw [hclear]
      constructor
      · exact fun h => .inl ⟨by omega, h.2⟩
      · rintro (h | h)
        · exact ⟨by omega, h.2⟩
        · omega
    rw [if_neg hset]
    apply PartialSpec.succ (ih (by omega) _)
    · exact fun h => absurd h hset
    · exact fun _ _ => rfl
    intro j hj
    constructor
    · intro h
      refine .inl ⟨?_, h⟩
      rcases lt_or_eq_of_le hj with hlt | rfl
      · exact hlt
      · exact absurd h hset
    · rintro (h | h)
      · exact h.2
      · exact absurd h.1 hset

/-- The beginnings of the marker that the block ends with. -/
theorem markLoop_spec (n : Nat) (partials : Nat → Bool) (j : Nat) :
    markLoop marker data n partials j ↔
      partials j ∨ 0 < j ∧ j ≤ n ∧ marker.take j = data.drop (data.length - j) := by
  induction n generalizing partials with
  | zero =>
    unfold markLoop
    constructor
    · exact .inl
    · rintro (h | ⟨hpos, hle, -⟩)
      · exact h
      · omega
  | succ n ih =>
    unfold markLoop
    rw [ih]
    by_cases heq : j = n + 1
    · subst heq
      split <;> simp_all
    have hsame : (if marker.take (n + 1) = data.drop (data.length - (n + 1)) then
        Function.update partials (n + 1) true else partials) j = partials j := by
      split
      · exact update_of_ne heq _ _
      · rfl
    rw [hsame]
    constructor
    all_goals
      rintro (h | ⟨hpos, hle, hmark⟩)
      · exact .inl h
      · exact .inr ⟨hpos, by omega, hmark⟩

/-- The occurrence that ended at `cut`, if something is injected after it. -/
def matched (self : WebInject) (written cut : Nat) (pos : Option Nat) (injected : Nat) : List Nat :=
  if cut ≠ written ∧ pos = some cut ∧ injected < self.maximum then [cut] else []

theorem matched_none (written cut injected : Nat) : self.matched written cut none injected = [] :=
  if_neg fun h => by cases h.2.1

variable {written : Nat}

theorem matched_some {injected : Nat} (hne : cut ≠ written)
    (hlt : injected < self.maximum) : self.matched written cut (some cut) injected = [cut] :=
  if_pos ⟨hne, rfl, hlt⟩

theorem length_matched {cut : Nat} {pos : Option Nat} {injected : Nat}
    (hmax : injected ≤ self.maximum) :
    injected + (self.matched written cut pos injected).length ≤ self.maximum := by
  unfold matched
  split
  · rename_i h
    exact h.2.2
  · exact hmax

/-- What is passed on before the loop goes on, and what it passes on then. -/
theorem emit_spec {cut : Nat} (hle : written ≤ cut) (pos : Option Nat) (injected : Nat) :
    (self.emit data written cut pos injected).2 =
        injected + (self.matched written cut pos injected).length ∧
      ∀ rest : List Nat, (∀ e ∈ rest, cut ≤ e) →
        (self.emit data written cut pos injected).1.flatten ++
            insertAll self.inject cut rest (data.drop cut) =
          insertAll self.inject written (self.matched written cut pos injected ++ rest)
            (data.drop written) := by
  have hdrop : (data.drop written).drop (cut - written) = data.drop cut := by
    rw [drop_drop, Nat.add_sub_cancel' hle]
  unfold emit matched
  by_cases hne : cut ≠ written
  · rw [if_pos hne]
    dsimp only
    by_cases hpos : pos = some cut ∧ injected < self.maximum
    · rw [if_pos hpos, if_pos (And.intro hne hpos)]
      refine ⟨rfl, fun rest _ => ?_⟩
      rw [singleton_append, insertAll, hdrop]
      simp
    have hnot : ¬ (cut ≠ written ∧ pos = some cut ∧ injected < self.maximum) := fun h => hpos h.2
    rw [if_neg hpos, if_neg hnot]
    refine ⟨rfl, fun rest hrest => ?_⟩
    rw [nil_append, insertAll_skip _ hle hrest, hdrop]
    simp
  have hnot : ¬ (cut ≠ written ∧ pos = some cut ∧ injected < self.maximum) := fun h => hne h.1
  rw [if_neg hne, if_neg hnot]
  obtain rfl : cut = written := not_not.mp hne
  exact ⟨rfl, fun rest _ => rfl⟩

/-- No occurrence begins at the end of a block. -/
theorem ends_of_length_lt (hw : marker ≠ []) (h : data.length < cut + marker.length) :
    ends marker data n cut = [] := by
  apply ends_of_none
  rw [next_eq_none_iff hw]
  intro k hk hocc
  have := hocc.le hw
  omega

/-- **The search in a block** injects after the occurrences in it. -/
theorem pushLoop_spec {cut : Nat} (hle : written ≤ cut) (hcut : cut ≤ data.length)
    (pos : Option Nat) {injected : Nat} (hmax : injected ≤ self.maximum) :
    let first := self.matched written cut pos injected
    let found := ends self.marker data (self.maximum - (injected + first.length)) cut
    (self.pushLoop data written cut pos injected).1.flatten =
        insertAll self.inject written (first ++ found) (data.drop written) ∧
      (self.pushLoop data written cut pos injected).2 = injected + first.length + found.length := by
  dsimp only
  induction hsize : data.length - cut using Nat.strongRecOn
    generalizing written cut pos injected with
  | ind n ih =>
    subst hsize
    have hw := self.marker_ne
    have hpos := length_pos_iff.mpr hw
    obtain ⟨hcount, hflat⟩ := @emit_spec data self written cut hle pos injected
    have hmax' := @length_matched self written cut pos injected hmax
    have hends : ∀ e ∈ ends self.marker data
        (self.maximum - (injected + (self.matched written cut pos injected).length)) cut, cut ≤ e := by
      intro e he
      have := (mem_ends hw he).1
      omega
    rw [pushLoop]
    dsimp only
    split
    · -- the end of the block
      rename_i hend
      have hnil := hflat [] (by simp)
      rw [drop_eq_nil_of_le hend] at hnil
      rw [ends_of_length_lt hw (by omega)]
      refine ⟨?_, hcount⟩
      rw [← hnil]
      simp [insertAll]
    rename_i hend
    split
    · -- the marker is found
      rename_i offset hsearch
      split at hsearch
      · rename_i hroom
        have hnext : next self.marker data cut = some (cut + offset) := by
          unfold Lib.next
          rw [show Lib.search self.marker (data.drop cut) = some offset from hsearch]
          rfl
        obtain ⟨-, hocc, -⟩ := (next_eq_some_iff hw).mp hnext
        have hend' := hocc.le hw
        rw [hcount] at hroom ⊢
        have hne : cut + offset + self.marker.length ≠ cut := by omega
        obtain ⟨hrest, hcount'⟩ := ih (data.length - (cut + offset + self.marker.length))
          (by omega) (le_trans (le_add_right cut offset) (le_add_right _ _)) hend'
          (some (cut + offset + self.marker.length)) hmax' rfl
        rw [matched_some hne hroom.1] at hrest hcount'
        have hfound : ends self.marker data
            (self.maximum - (injected + (self.matched written cut pos injected).length)) cut =
            (cut + offset + self.marker.length) :: ends self.marker data
              (self.maximum - (injected + (self.matched written cut pos injected).length + 1))
              (cut + offset + self.marker.length) := by
          rw [← ends_of_some hnext]
          congr 1
          omega
        rw [hfound] at hends ⊢
        refine ⟨?_, ?_⟩
        · rw [flatten_append, hrest]
          exact hflat _ hends
        · rw [hcount', length_singleton, length_cons]
          omega
      · cases hsearch
    -- it is not, or not looked for
    rename_i hsearch
    have hnone : ends self.marker data
        (self.maximum - (injected + (self.matched written cut pos injected).length)) cut = [] := by
      split at hsearch
      · apply ends_of_none
        unfold Lib.next
        rw [show Lib.search self.marker (data.drop cut) = none from hsearch]
        rfl
      rename_i hroom
      rw [hcount, not_and_or] at hroom
      rcases hroom with hfull | hshort
      · rw [show self.maximum - (injected + (self.matched written cut pos injected).length) = 0
          by omega, ends_zero]
      · exact ends_of_length_lt hw (by omega)
    rw [hcount]
    obtain ⟨hrest, hcount'⟩ := ih _ (by omega) (by omega) (le_refl _) none hmax' rfl
    rw [matched_none, ends_of_length_lt hw (by omega)] at hrest hcount'
    rw [hnone]
    refine ⟨?_, hcount'⟩
    rw [flatten_append, hrest]
    exact hflat [] (by simp)

/-! ### One more block -/

/-- The stream ends with the first `j` bytes of the marker, and they begin at `floor` or later. -/
def Begun (marker stream : Bytes) (floor j : Nat) : Prop :=
  0 < j ∧ j < marker.length ∧ floor + j ≤ stream.length ∧
    marker.take j = stream.drop (stream.length - j)

/-- What a filter knows after a part of the stream: the beginnings of the marker that the stream ends
    with, as long as it looks for some, of those that begin at `floor` or later. -/
structure At (filter : WebInject) (stream : Bytes) (floor : Nat) : Prop where
  floor_le : floor ≤ stream.length
  injected_le : filter.injected ≤ filter.maximum
  begun : filter.injected < filter.maximum →
    ∀ j, filter.partialMatches j ↔ Begun filter.marker stream floor j

theorem at_new (marker : Bytes) (marker_ne : marker ≠ []) (inject : Bytes) (count : Nat) :
    (new marker marker_ne inject count).At [] 0 where
  floor_le := le_refl 0
  injected_le := zero_le count
  begun := by
    intro _ j
    constructor
    · exact fun h => (nomatch h)
    · rintro ⟨hpos, -, hle, -⟩
      simp only [length_nil] at hle
      omega

/-- The beginning of an occurrence that reaches into the next block. -/
theorem occursAt_cross {stream block : Bytes} {floor k : Nat} (hk : k < stream.length)
    (hfloor : max floor (stream.length + 1 - marker.length) ≤ k) :
    OccursAt marker (stream ++ block) k ↔
      Begun marker stream floor (stream.length - k) ∧ marker.drop (stream.length - k) <+: block := by
  rw [occursAt_append_cross (by omega) (by omega)]
  unfold Begun
  have hback : stream.length - (stream.length - k) = k := by omega
  rw [hback]
  constructor
  · rintro ⟨htake, hpre⟩
    exact ⟨⟨by omega, by omega, by omega, htake⟩, hpre⟩
  · rintro ⟨⟨-, -, -, htake⟩, hpre⟩
    exact ⟨htake, hpre⟩

/-- Where the next occurrences end: in the new block, from a place on at which they may begin. -/
def newEnds (self : WebInject) (stream block : Bytes) (floor : Nat) : List Nat :=
  ends self.marker (stream ++ block) (self.maximum - self.injected)
    (max floor (stream.length + 1 - self.marker.length))

/-- What was looked at first, and where the search goes on. -/
def looked (self : WebInject) (block : Bytes) : (Nat → Bool) × Option Nat :=
  if self.injected < self.maximum then
    partialLoop self.marker block self.marker.length self.partialMatches
  else (self.partialMatches, none)

variable {block stream : Bytes} {floor : Nat}

/-- The occurrences that end in a block, by where they end there. -/
theorem newEnds_eq (h : self.At stream floor) (hblock : 0 < block.length) :
    let first := self.matched 0 ((self.looked block).2.getD 0) (self.looked block).2 self.injected
    self.newEnds stream block floor =
      (first ++ ends self.marker block (self.maximum - (self.injected + first.length))
        ((self.looked block).2.getD 0)).map (stream.length + ·) ∧
      (self.looked block).2.getD 0 ≤ block.length := by
  have hw := self.marker_ne
  have hpos := length_pos_iff.mpr hw
  have hfloor := h.floor_le
  dsimp only
  unfold newEnds looked
  by_cases hlooks : self.injected < self.maximum
  · rw [if_pos hlooks]
    rcases @partialLoop_spec self.marker block hblock _ (le_refl _) self.partialMatches with
      ⟨p, hp, hset, hpre, hlongest, heq⟩ | ⟨hnone, hfound, -⟩
    · -- the occurrence that the longest partial match is the beginning of
      have hbegun := (h.begun hlooks p).mp hset
      have hlen := hpre.length_le
      rw [length_drop] at hlen
      obtain ⟨hp0, -, hfp, htake⟩ := hbegun
      have hback : stream.length - (stream.length - p) = p := by omega
      have hnext : next self.marker (stream ++ block)
          (max floor (stream.length + 1 - self.marker.length)) = some (stream.length - p) := by
        rw [next_eq_some_iff hw]
        refine ⟨by omega, ?_, fun k hk hkp hocc => ?_⟩
        · rw [@occursAt_cross self.marker stream block floor _ (by omega) (by omega), hback]
          exact ⟨⟨hp0, hp, hfp, htake⟩, hpre⟩
        · rw [occursAt_cross (by omega) hk] at hocc
          exact hlongest _ (by omega) (by omega) ((h.begun hlooks _).mpr hocc.1) hocc.2
      rw [heq]
      dsimp only [getD_some]
      rw [matched_some (by omega) hlooks]
      have hend : stream.length - p + self.marker.length =
          stream.length + (self.marker.length - p) := by omega
      have hcount : self.maximum - self.injected = self.maximum - (self.injected + 1) + 1 := by omega
      rw [hcount, ends_of_some hnext, hend, ends_append_right hw]
      exact ⟨rfl, hlen⟩
    -- no occurrence is cut by the end of the last block
    rw [hfound]
    dsimp only [getD_none]
    rw [matched_none, nil_append, ← ends_append_right hw]
    refine ⟨ends_congr hw (by omega) fun k hk hks hocc => ?_, zero_le _⟩
    rw [add_zero] at hks
    rw [occursAt_cross hks hk] at hocc
    exact hnone _ (by omega) ((h.begun hlooks _).mpr hocc.1) hocc.2
  rw [if_neg hlooks]
  dsimp only [getD_none]
  rw [matched_none, show self.maximum - self.injected = 0 by omega, ends_zero,
    show self.maximum - (self.injected + ([] : List Nat).length) = 0 by simp; omega, ends_zero]
  exact ⟨rfl, zero_le _⟩

/-- Beginnings that grow by a block are cut by its end still. -/
theorem begun_append (hj : block.length < j) :
    Begun marker (stream ++ block) floor j ↔
      ∃ p, Begun marker stream floor p ∧ j = p + block.length ∧ j < marker.length ∧
        block <+: marker.drop p := by
  unfold Begun
  have hsplit : ∀ p, p ≤ stream.length → p + block.length < marker.length →
      (marker.take (p + block.length) =
          (stream ++ block).drop ((stream ++ block).length - (p + block.length)) ↔
        marker.take p = stream.drop (stream.length - p) ∧ block <+: marker.drop p) := by
    intro p hp hlt
    have hback : (stream ++ block).length - (p + block.length) = stream.length - p := by
      rw [length_append]
      omega
    rw [hback, drop_append_of_le_length (by omega), take_add]
    constructor
    · intro heq
      obtain ⟨hfirst, hrest⟩ := append_inj heq (by
        rw [length_take, length_drop]
        omega)
      exact ⟨hfirst, hrest ▸ take_prefix _ _⟩
    · rintro ⟨hfirst, hrest⟩
      rw [hfirst, ← prefix_iff_eq_take.mp hrest]
  constructor
  · rintro ⟨-, hlt, hle, htake⟩
    rw [length_append] at hle
    obtain ⟨p, rfl⟩ : ∃ p, j = p + block.length := ⟨j - block.length, by omega⟩
    obtain ⟨hfirst, hrest⟩ := (hsplit p (by omega) hlt).mp htake
    exact ⟨p, ⟨by omega, by omega, by omega, hfirst⟩, rfl, hlt, hrest⟩
  rintro ⟨p, ⟨hp, -, hle, hfirst⟩, rfl, hlt, hrest⟩
  refine ⟨by omega, hlt, ?_, (hsplit p (by omega) hlt).mpr ⟨hfirst, hrest⟩⟩
  rw [length_append]
  omega

/-- Beginnings in the last block. -/
theorem begun_block (hfloor : floor ≤ stream.length) (hj : j ≤ block.length) :
    Begun marker (stream ++ block) floor j ↔ 0 < j ∧ j ≤ min (marker.length - 1) block.length ∧
        marker.take j = block.drop (block.length - j) := by
  unfold Begun
  have hback : (stream ++ block).length - j = stream.length + (block.length - j) := by
    rw [length_append]
    omega
  rw [hback, drop_append, drop_eq_nil_of_le (by omega), nil_append,
    Nat.add_sub_cancel_left, length_append]
  constructor
  · rintro ⟨hpos, hlt, -, htake⟩
    exact ⟨hpos, by omega, htake⟩
  · rintro ⟨hpos, hle, htake⟩
    exact ⟨hpos, by omega, by omega, htake⟩

/-- **One more block**: what is passed on has something injected after the next occurrences, and the
    filter knows what the stream ends with now. -/
theorem push_spec (h : self.At stream floor) (block : Bytes) : (self.push block).2.flatten =
        insertAll self.inject stream.length (self.newEnds stream block floor) block ∧
      (self.push block).1.injected = self.injected + (self.newEnds stream block floor).length ∧
      (self.push block).1.At (stream ++ block)
        (if self.newEnds stream block floor = [] then floor else stream.length) := by
  have hw := self.marker_ne
  have hpos := length_pos_iff.mpr hw
  by_cases hblock : block.length = 0
  · -- an empty block changes nothing
    obtain rfl := eq_nil_of_length_eq_zero hblock
    have hnil : self.newEnds stream [] floor = [] := by
      unfold newEnds
      rw [append_nil]
      exact ends_of_length_lt hw (by omega)
    rw [hnil, append_nil, if_pos rfl]
    exact ⟨rfl, rfl, h⟩
  obtain ⟨hnew, hcut⟩ := newEnds_eq h (show 0 < block.length by omega)
  obtain ⟨hflat, hcount⟩ := @pushLoop_spec block self 0 _ (zero_le _) hcut
    (self.looked block).2 _ h.injected_le
  have hle := @length_matched self 0 ((self.looked block).2.getD 0) (self.looked block).2 _
    h.injected_le
  have hends := @length_ends_le UInt8 _ self.marker block ((self.looked block).2.getD 0)
    (self.maximum - (self.injected +
      (self.matched 0 ((self.looked block).2.getD 0) (self.looked block).2 self.injected).length))
  have hpush : self.push block = ({ self with
      partialMatches := markLoop self.marker block
        (min (self.marker.length - 1) block.length) (self.looked block).1
      injected := (self.pushLoop block 0 ((self.looked block).2.getD 0) (self.looked block).2
        self.injected).2 },
      (self.pushLoop block 0 ((self.looked block).2.getD 0) (self.looked block).2
        self.injected).1) := if_neg hblock
  rw [hpush]
  dsimp only
  refine ⟨?_, ?_, ?_⟩
  · rw [hflat, hnew, drop_zero]
    exact (insertAll_map self.inject stream.length 0 _ block).symm
  · rw [hcount, hnew, length_map, length_append, add_assoc]
  constructor
  · split
    · exact le_trans h.floor_le (by simp)
    · simp
  · dsimp only
    omega
  dsimp only
  intro hlooks' j
  have hlooks : self.injected < self.maximum := by omega
  rw [markLoop_spec]
  -- beginnings that the block cuts, when it is long enough to have an occurrence in it
  have hcuts : (∀ j, (self.looked block).1 j → False) →
      ((self.looked block).1 j ∨ 0 < j ∧ j ≤ min (self.marker.length - 1) block.length ∧
        self.marker.take j = block.drop (block.length - j) ↔
      Begun self.marker (stream ++ block) stream.length j) := by
    intro hnone
    by_cases hj : j ≤ block.length
    · rw [begun_block (le_refl _) hj]
      exact ⟨fun h => h.resolve_left (hnone j), .inr⟩
    constructor
    · rintro (h | ⟨-, hle, -⟩)
      · exact (hnone j h).elim
      · omega
    · rintro ⟨-, -, hle, -⟩
      rw [length_append] at hle
      omega
  have hlooked : self.looked block =
      partialLoop self.marker block self.marker.length self.partialMatches := if_pos hlooks
  rcases @partialLoop_spec self.marker block (by omega) _ (le_refl _) self.partialMatches with
    ⟨p, hp, hset, hpre, -, heq⟩ | ⟨hnone, hfound, hflags⟩
  · -- the longest partial match was completed, and the others are forgotten
    rw [← hlooked] at heq
    have hne : self.newEnds stream block floor ≠ [] := by
      rw [hnew, heq]
      dsimp only [getD_some]
      rw [matched_some (by omega) hlooks]
      exact cons_ne_nil _ _
    rw [if_neg hne]
    apply hcuts
    intro j hj
    rw [heq] at hj
    exact nomatch hj
  rw [← hlooked] at hfound hflags
  have hgrows : (self.looked block).1 j ↔
      ∃ p, Begun self.marker stream floor p ∧ j = p + block.length ∧
        j < self.marker.length ∧ block <+: self.marker.drop p := by
    rw [hflags]
    constructor
    · rintro (⟨hle, hset⟩ | ⟨p, -, hset, hgrow⟩)
      · have := ((h.begun hlooks j).mp hset).2.1
        omega
      · exact ⟨p, (h.begun hlooks p).mp hset, hgrow⟩
    · rintro ⟨p, hbegun, hgrow⟩
      exact .inr ⟨p, hbegun.2.1, (h.begun hlooks p).mpr hbegun, hgrow⟩
  by_cases hempty : self.newEnds stream block floor = []
  · rw [if_pos hempty]
    by_cases hj : j ≤ block.length
    · rw [begun_block h.floor_le hj, hgrows]
      refine ⟨fun h => h.resolve_left ?_, .inr⟩
      rintro ⟨p, hbegun, rfl, -⟩
      have := hbegun.1
      omega
    rw [begun_append (by omega), hgrows]
    refine ⟨fun h => h.resolve_right ?_, .inl⟩
    rintro ⟨-, hle, -⟩
    omega
  -- an occurrence in the block leaves no room for one that grows by all of it
  rw [if_neg hempty]
  have hlong : self.marker.length ≤ block.length := by
    rw [hnew, hfound] at hempty
    dsimp only [getD_none] at hempty
    rw [matched_none, nil_append] at hempty
    obtain ⟨e, he⟩ := exists_mem_of_ne_nil _ (mt map_eq_nil_iff.mpr hempty)
    have := mem_ends hw he
    omega
  apply hcuts
  intro j hj
  rcases (hflags j).mp hj with ⟨hle, hset⟩ | ⟨p, -, -, heq, hlt, -⟩
  · have := ((h.begun hlooks j).mp hset).2.1
    omega
  · omega

end WebInject

end Cockpit
