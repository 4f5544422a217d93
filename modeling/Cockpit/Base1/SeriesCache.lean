import Cockpit.Lib.Run
import Cockpit.Base1.Series

namespace Cockpit

open Lib List SeriesEntry SeriesSink

/-!
# The series cache returns what was last stored

A `SeriesStore` says what the cache is for: which item, with which mapping, was stored last at
a position.  `SeriesSink.Inv` connects it to the index.

* `SeriesSink.loadLoop_eq` — what the walk of `load` notes down;
* `SeriesSink.run_series` — the cache is kept exactly as long as no data is stored strictly
  inside an existing entry: `stash` then joins the two parts that are left of it.
-/

variable {α μ : Type}

/-- What is stored at a position: an item, or none where the array has no element, and the
    mapping it came with. -/
abbrev SeriesCell (α μ : Type) := Option α × Option μ

/-- The abstract cache: what was stored last at every position. -/
abbrev SeriesStore (α μ : Type) := Int → Option (SeriesCell α μ)

/-- The cell that an array which begins at `beg` has at `p`. -/
def cellAt (beg : Int) (items : List (Option α)) (mapping : Option μ) (p : Int) :
    Option (SeriesCell α μ) :=
  if beg ≤ p then items[(p - beg).toNat]?.map (·, mapping) else none

variable (st : SeriesStore α μ)

/-- Store an array. -/
def SeriesStore.write (beg : Int) (items : List (Option α)) (mapping : μ) :
    SeriesStore α μ :=
  fun p => (cellAt beg items (some mapping) p).or (st p)

variable {p : Int}

/-- Outside of an array there is no cell. -/
theorem cellAt_eq_none {beg : Int} {items : List (Option α)} {mapping : Option μ} :
    cellAt beg items mapping p = none ↔ ¬ (beg ≤ p ∧ p < beg + items.length) := by
  unfold cellAt
  split
  · rename_i h
    rw [Option.map_eq_none_iff, getElem?_eq_none_iff]
    omega
  · rename_i h
    exact ⟨fun _ hp => h hp.1, fun _ => rfl⟩

namespace SeriesEntry

/-- The cell of an entry at `p`. -/
def cell (entry : SeriesEntry α μ) (p : Int) : Option (SeriesCell α μ) :=
  cellAt entry.beg entry.items entry.mapping p

variable {entry : SeriesEntry α μ}

theorem cell_eq_none :
    entry.cell p = none ↔ ¬ (entry.beg ≤ p ∧ p < entry.stop) := cellAt_eq_none

/-- The entry after the loop of `stash`, for a range. -/
def truncated (entry : SeriesEntry α μ) (beg stop : Int) : SeriesEntry α μ :=
  if entry.meets beg stop then entry.cut beg stop else entry

/-- Whether the range lies strictly inside of the entry. -/
def Splits (entry : SeriesEntry α μ) (beg stop : Int) : Prop :=
  entry.beg < beg ∧ stop < entry.stop

instance (entry : SeriesEntry α μ) (beg stop : Int) : Decidable (entry.Splits beg stop) :=
  inferInstanceAs (Decidable (_ ∧ _))

variable {beg stop : Int}

/-- An entry has positions in the range when both ends are in order. -/
theorem meets_iff :
    entry.meets beg stop ↔
      entry.beg < entry.stop ∧ beg < stop ∧ entry.beg < stop ∧ beg < entry.stop := by
  unfold meets
  rw [decide_eq_true_eq]
  omega

/-- How much `stash` takes away from an entry. -/
def overlap (entry : SeriesEntry α μ) (beg stop : Int) : Int :=
  if entry.meets beg stop then min entry.stop stop - max entry.beg beg else 0

/-- Truncation takes the overlap away. -/
theorem length_truncated (entry : SeriesEntry α μ) (beg stop : Int) :
    ((entry.truncated beg stop).items.length : Int) =
      entry.items.length - entry.overlap beg stop := by
  unfold truncated overlap
  split
  · rename_i h
    rw [meets_iff] at h
    unfold SeriesEntry.stop at h ⊢
    simp only [cut, SeriesEntry.stop, length_append, length_take, length_drop]
    omega
  · omega

/-- Truncation only makes an entry smaller. -/
theorem truncated_bounds (entry : SeriesEntry α μ) (beg stop : Int) :
    entry.beg ≤ (entry.truncated beg stop).beg ∧ (entry.truncated beg stop).stop ≤ entry.stop := by
  have hlen := entry.length_truncated beg stop
  unfold overlap at hlen
  unfold SeriesEntry.stop at hlen ⊢
  unfold truncated at hlen ⊢
  split
  · rename_i h
    rw [if_pos h, if_pos h] at hlen
    rw [meets_iff, SeriesEntry.stop] at h
    simp only [cut, SeriesEntry.stop] at hlen ⊢
    split <;> omega
  · exact ⟨Int.le_refl _, Int.le_refl _⟩

/-- An entry that begins before the range keeps its begin. -/
theorem truncated_beg_of_lt (h : entry.beg < beg)
    (stop : Int) : (entry.truncated beg stop).beg = entry.beg := by
  unfold truncated
  split
  · simp only [cut]
    rw [if_neg (by omega)]
  · rfl

/-- What is left of an entry that begins in or behind the range is behind the range. -/
theorem stop_le_truncated (h : beg ≤ entry.beg)
    (hrange : beg < stop) (hne : (entry.truncated beg stop).items ≠ []) :
    stop ≤ (entry.truncated beg stop).beg := by
  have hpos : 0 < (entry.truncated beg stop).items.length := length_pos_iff.mpr hne
  have hlen := entry.length_truncated beg stop
  unfold overlap at hlen
  by_cases hm : entry.meets beg stop
  · rw [if_pos hm] at hlen
    rw [meets_iff] at hm
    unfold truncated
    rw [if_pos (meets_iff.mpr hm)]
    simp only [cut]
    unfold SeriesEntry.stop at hm hlen ⊢
    rw [if_pos (by omega)]
    omega
  have heq : entry.truncated beg stop = entry := if_neg hm
  rw [heq] at hpos ⊢
  rw [meets_iff] at hm
  unfold SeriesEntry.stop at hm
  omega

/-- What is left of an entry that begins before the range and is not split ends before it. -/
theorem truncated_stop_le (h : entry.beg < beg)
    (hrange : beg < stop) (hsplit : ¬ entry.Splits beg stop) (hne : entry.items ≠ []) :
    (entry.truncated beg stop).stop ≤ beg := by
  have hpos := length_pos_iff.mpr hne
  have hlen := entry.length_truncated beg stop
  have hbeg := truncated_beg_of_lt h stop
  unfold Splits at hsplit
  unfold overlap at hlen
  unfold SeriesEntry.stop at hsplit ⊢
  split at hlen
  · rename_i hm
    rw [meets_iff] at hm
    unfold SeriesEntry.stop at hm hlen
    omega
  rename_i hm
  rw [meets_iff] at hm
  unfold SeriesEntry.stop at hm
  omega

/-- A split entry still reaches into the range: its tail has moved to the front. -/
theorem lt_truncated_stop (hrange : beg < stop)
    (hsplit : entry.Splits beg stop) : beg < (entry.truncated beg stop).stop := by
  unfold Splits at hsplit
  have hm : entry.meets beg stop := by
    rw [meets_iff]
    omega
  have hlen := entry.length_truncated beg stop
  have hbeg := truncated_beg_of_lt hsplit.1 stop
  rw [overlap, if_pos hm] at hlen
  unfold SeriesEntry.stop at hsplit hlen ⊢
  omega

/-- **What truncation leaves.** An entry that is not split keeps its cells outside of the range,
    and has none inside. -/
theorem cell_truncated (hrange : beg < stop)
    (hsplit : ¬ entry.Splits beg stop) (p : Int) :
    (entry.truncated beg stop).cell p = if beg ≤ p ∧ p < stop then none else entry.cell p := by
  unfold truncated
  split
  · rename_i h
    rw [meets_iff] at h
    unfold Splits at hsplit
    by_cases hbeg : beg ≤ entry.beg
    · -- the head is cut off, and the entry begins later
      have hb : max entry.beg beg = entry.beg := by omega
      simp only [cell, cut, hb, Int.sub_self, Int.toNat_zero, take_zero, nil_append, if_true]
      have hbeg' : entry.beg + (min entry.stop stop - entry.beg) = min entry.stop stop := by omega
      rw [hbeg']
      by_cases hp : min entry.stop stop ≤ p
      · have hidx : (min entry.stop stop - entry.beg).toNat + (p - min entry.stop stop).toNat =
            (p - entry.beg).toNat := by omega
        simp only [cellAt, if_pos hp, getElem?_drop, hidx, if_pos (show entry.beg ≤ p by omega)]
        split
        · -- at or behind the end of the entry
          rw [getElem?_eq_none (by unfold SeriesEntry.stop at *; omega)]
          rfl
        · rfl
      rw [cellAt, if_neg hp]
      split
      · rfl
      · rw [cellAt_eq_none.mpr]
        omega
    -- the tail is cut off
    have hb : max entry.beg beg = beg := by omega
    have hs : min entry.stop stop = entry.stop := by omega
    have hdrop : entry.items.drop (entry.stop - entry.beg).toNat = [] := by
      apply drop_eq_nil_of_le
      unfold SeriesEntry.stop
      omega
    simp only [cell, cut, hb, hs, hdrop, append_nil]
    rw [if_neg (by omega)]
    unfold cellAt
    by_cases hp : entry.beg ≤ p
    · rw [if_pos hp, if_pos hp, getElem?_take]
      by_cases hin : p < beg
      · rw [if_pos (by omega), if_neg (by omega)]
      rw [if_neg (by omega)]
      split
      · rfl
      · rw [getElem?_eq_none (by unfold SeriesEntry.stop at *; omega)]
    · rw [if_neg hp, if_neg hp]
      split <;> rfl
  rename_i h
  rw [meets_iff] at h
  split
  · rename_i hp
    rw [cell_eq_none]
    omega
  · rfl

end SeriesEntry

/-! ### Ordered indexes -/

/-- An entry lies before another one. -/
def SeriesEntry.Before (entry other : SeriesEntry α μ) : Prop := entry.stop ≤ other.beg

/-- The entries are not empty, and each lies before the next ones. -/
structure Ordered (index : List (SeriesEntry α μ)) : Prop where
  nonempty : ∀ e ∈ index, e.items ≠ []
  before : index.Pairwise SeriesEntry.Before

variable (index : List (SeriesEntry α μ))

/-- The cell that the index has at `p`. -/
def cellOf (p : Int) : Option (SeriesCell α μ) :=
  index.findSome? (·.cell p)

/-- Entries with the same cells can take each other's place. -/
theorem findSome?_cell_congr {index : List (SeriesEntry α μ)} (f : SeriesEntry α μ → SeriesEntry α μ) (h : ∀ e ∈ index, (f e).cell p = e.cell p) :
    (index.map f).findSome? (·.cell p) = index.findSome? (·.cell p) := by
  induction index with
  | nil => rfl
  | cons e index ih =>
    rw [map_cons, findSome?_cons, findSome?_cons, h e mem_cons_self,
      ih (fun f hf => h f (mem_cons_of_mem e hf))]

/-- Where no entry has a cell, the index has none. -/
theorem cellOf_eq_none {index : List (SeriesEntry α μ)} :
    cellOf index p = none ↔ ∀ e ∈ index, e.cell p = none := findSome?_eq_none_iff

/-- Empty entries have no cells. -/
theorem cellOf_filter (p : Int) :
    cellOf (index.filter (!·.items.isEmpty)) p = cellOf index p := by
  unfold cellOf
  induction index with
  | nil => rfl
  | cons e index ih =>
    cases he : e.items.isEmpty with
    | true =>
      have hnone : e.cell p = none := by
        rw [cell_eq_none, stop, isEmpty_iff.mp he, length_nil]
        omega
      rw [filter_cons_of_neg (by simp [he]), findSome?_cons, hnone, ih]
    | false => rw [filter_cons_of_pos (by simp [he]), findSome?_cons,
        findSome?_cons, ih]

/-- The number of items in the index. -/
def itemCount : Int :=
  (index.map (fun e => (e.items.length : Int))).sum

/-- Empty entries do not count. -/
theorem itemCount_filter :
    itemCount (index.filter (!·.items.isEmpty)) = itemCount index := by
  unfold itemCount
  induction index with
  | nil => rfl
  | cons e index ih =>
    cases he : e.items.isEmpty with
    | true =>
      rw [filter_cons_of_neg (by simp [he]), map_cons, sum_cons, ih,
        isEmpty_iff.mp he, length_nil]
      omega
    | false => rw [filter_cons_of_pos (by simp [he]), map_cons, map_cons,
        sum_cons, sum_cons, ih]

/-- Truncation takes the overlaps away from the number of items. -/
theorem itemCount_truncated (beg stop : Int) :
    itemCount (index.map (·.truncated beg stop)) =
      itemCount index - (index.map (·.overlap beg stop)).sum := by
  unfold itemCount
  induction index with
  | nil => rfl
  | cons e index ih =>
    simp only [map_cons, sum_cons, ih, length_truncated]
    omega

namespace Ordered

variable {index left right : List (SeriesEntry α μ)} {entry : SeriesEntry α μ} {beg stop : Int}
    {e : SeriesEntry α μ}

theorem beg_lt_stop (h : Ordered index) (he : e ∈ index) :
    e.beg < e.stop := by
  have := length_pos_iff.mpr (h.nonempty e he)
  unfold stop
  omega

theorem tail (h : Ordered (entry :: right)) : Ordered right :=
  ⟨fun e he => h.nonempty e (mem_cons_of_mem entry he), h.before.tail⟩

/-- The rest of an ordered index lies behind its first entry. -/
theorem stop_le (h : Ordered (entry :: right)) (he : e ∈ right) :
    entry.stop ≤ e.beg := rel_of_pairwise_cons h.before he

theorem of_append_right (h : Ordered (left ++ right)) : Ordered right :=
  ⟨fun e he => h.nonempty e (mem_append_right left he), (pairwise_append.mp h.before).2.1⟩

theorem of_append_left (h : Ordered (left ++ right)) : Ordered left :=
  ⟨fun e he => h.nonempty e (mem_append_left right he), (pairwise_append.mp h.before).1⟩

/-- Entries behind the range do not meet it. -/
theorem not_meets_of_le (h : Ordered (entry :: right)) (hbeg : stop ≤ entry.beg) :
    ∀ e ∈ entry :: right, e.meets beg stop = false := by
  intro e he
  have hle : stop ≤ e.beg := by
    rcases mem_cons.mp he with rfl | he
    · exact hbeg
    · have h1 := h.beg_lt_stop mem_cons_self
      have h2 := h.stop_le he
      omega
  rw [← Bool.not_eq_true, meets_iff]
  omega

/-- The index falls apart at a position: what begins before it, and the rest. -/
theorem exists_split (h : Ordered index) (beg : Int) :
    ∃ left right, index = left ++ right ∧ (∀ e ∈ left, e.beg < beg) ∧ ∀ e ∈ right, beg ≤ e.beg := by
  induction index with
  | nil => exact ⟨[], [], rfl, by simp, by simp⟩
  | cons e index ih =>
    by_cases he : e.beg < beg
    · obtain ⟨left, right, rfl, hleft, hright⟩ := ih h.tail
      refine ⟨e :: left, right, rfl, ?_, hright⟩
      rintro f (_ | ⟨_, hf⟩)
      · exact he
      · exact hleft f hf
    refine ⟨[], e :: index, rfl, by simp, ?_⟩
    intro f hf
    rcases mem_cons.mp hf with rfl | hf
    · omega
    · have h1 := h.beg_lt_stop mem_cons_self
      have h2 := h.stop_le hf
      omega

/-- **The binary search** finds the place where the index falls apart. -/
theorem search_eq (h : Ordered (left ++ right)) (hleft : ∀ e ∈ left, e.beg < beg)
    (hright : ∀ e ∈ right, beg ≤ e.beg) : search (left ++ right) beg = left.length := by
  -- the place stays inside the window, and the window is never wider than the turns that are left
  have key : ∀ turns low high, low ≤ left.length → left.length ≤ high →
      high ≤ (left ++ right).length → high ≤ low + turns →
      searchLoop (left ++ right) beg turns low high = left.length := by
    intro turns
    induction turns with
    | zero =>
      intro low high hlow hhigh _ hturns
      show low = left.length
      omega
    | succ turns ih =>
      intro low high hlow hhigh hlen hturns
      unfold searchLoop
      by_cases hlt : low < high
      · have hmid : (low + high - 1) / 2 < (left ++ right).length := by omega
        rw [if_pos hlt]
        dsimp only
        rw [getElem?_eq_getElem hmid]
        dsimp only
        by_cases hside : (low + high - 1) / 2 < left.length
        · have he := hleft _ (getElem_mem hside)
          rw [getElem_append_left hside, if_pos he]
          exact ih _ _ (by omega) hhigh hlen (by omega)
        have hr : (low + high - 1) / 2 - left.length < right.length := by
          rw [length_append] at hmid
          omega
        have he := hright _ (getElem_mem hr)
        rw [getElem_append_right (by omega), if_neg (by omega)]
        split
        · exact ih _ _ hlow (by omega) (by omega) (by omega)
        -- the key is found, and it can only be the first entry on the right
        rename_i hfound
        by_contra hne
        have hfirst : 0 < right.length := by omega
        have hbef := pairwise_iff_getElem.mp h.of_append_right.before 0 _ hfirst hr (by omega)
        have h0 := hright _ (getElem_mem hfirst)
        have hstop := h.of_append_right.beg_lt_stop (getElem_mem hfirst)
        unfold SeriesEntry.Before at hbef
        omega
      · rw [if_neg hlt]
        omega
  exact key _ 0 _ (Nat.zero_le _) (by rw [length_append]; omega) (Nat.le_refl _) (by omega)

/-- An entry behind the range, and the rest. -/
theorem not_meets (h : Ordered (entry :: right)) (hbeg : beg ≤ entry.beg)
    (hm : ¬ entry.meets beg stop) : ∀ f ∈ entry :: right, f.meets beg stop = false := by
  have hlt := h.beg_lt_stop mem_cons_self
  by_cases hrange : beg < stop
  · apply h.not_meets_of_le
    rw [meets_iff] at hm
    omega
  · intro f _
    rw [← Bool.not_eq_true, meets_iff]
    omega

end Ordered

/-! ### What `stash` makes of an ordered index -/

namespace SeriesSink

variable {stop : Int}

/-- Where no entry meets the range, truncation changes nothing. -/
theorem map_truncated_of_not_meets {index : List (SeriesEntry α μ)} {beg : Int}
    (h : ∀ e ∈ index, e.meets beg stop = false) :
    index.map (·.truncated beg stop) = index ∧ (index.map (·.overlap beg stop)).sum = 0 := by
  induction index with
  | nil => exact ⟨rfl, rfl⟩
  | cons e index ih =>
    obtain ⟨hmap, hsum⟩ := ih fun f hf => h f (mem_cons_of_mem e hf)
    have he := h e mem_cons_self
    constructor
    · rw [map_cons, hmap, truncated, if_neg (by simp [he])]
    · rw [map_cons, sum_cons, hsum, overlap, if_neg (by simp [he])]
      rfl

variable {at_ : Nat}

/-- The loop of `stash` over the entries that begin in or behind the range truncates all of
    them, although it stops early; what lies behind the place where it stopped is not empty. -/
theorem truncateLoop_right {right : List (SeriesEntry α μ)} {beg : Int}
    (h : Ordered right) (hright : ∀ e ∈ right, beg ≤ e.beg) (stop : Int) (i : Nat) (hi : at_ ≤ i) :
    (truncateLoop beg stop at_ i right).entries = right.map (·.truncated beg stop) ∧
    (truncateLoop beg stop at_ i right).removed = (right.map (·.overlap beg stop)).sum ∧
    i ≤ (truncateLoop beg stop at_ i right).stop ∧
    ∀ e ∈ (right.map (·.truncated beg stop)).drop
      ((truncateLoop beg stop at_ i right).stop - i), e.items ≠ [] := by
  induction right generalizing i with
  | nil => exact ⟨rfl, rfl, Nat.le_refl _, by simp⟩
  | cons e right ih =>
    have hne : e.items.isEmpty = false := by
      simpa using h.nonempty e mem_cons_self
    unfold truncateLoop
    rw [hne, if_neg Bool.false_ne_true]
    by_cases hm : e.meets beg stop
    · -- the entry is truncated and the loop goes on
      obtain ⟨hentries, hrem, hstop, hrest⟩ :=
        ih h.tail (fun f hf => hright f (mem_cons_of_mem e hf)) (i + 1) (by omega)
      rw [if_pos hm]
      refine ⟨?_, ?_, by dsimp only; omega, ?_⟩
      · simp only [hentries, map_cons, truncated, if_pos hm]
      · simp only [hrem, map_cons, sum_cons, overlap, if_pos hm]
      intro f hf
      apply hrest f
      have hidx : (truncateLoop beg stop at_ (i + 1) right).stop - i =
          ((truncateLoop beg stop at_ (i + 1) right).stop - (i + 1)) + 1 := by omega
      dsimp only at hf
      rw [hidx, map_cons, drop_succ_cons] at hf
      exact hf
    -- the entry lies behind the range, and so does the rest
    have hout := h.not_meets (hright e mem_cons_self) hm
    obtain ⟨hmap, hsum⟩ := map_truncated_of_not_meets hout
    rw [if_neg hm, if_pos hi, hmap, hsum]
    refine ⟨rfl, rfl, Nat.le_refl _, ?_⟩
    dsimp only
    rw [Nat.sub_self]
    exact h.nonempty

/-- The loop that removes empty entries finds all of them, if none lies behind its end. -/
theorem removeLoop_eq {last : Nat} (pos : Nat)
    (h : ∀ e ∈ index.drop (last + 1 - pos), e.items ≠ []) :
    removeLoop last pos index = index.filter (!·.items.isEmpty) := by
  induction index generalizing pos with
  | nil => rfl
  | cons e index ih =>
    unfold removeLoop
    split
    · -- behind the end
      rename_i hpos
      rw [show last + 1 - pos = 0 by omega, drop_zero] at h
      exact (filter_eq_self.mpr (fun f hf => by simpa using h f hf)).symm
    rename_i hpos
    have hidx : last + 1 - pos = (last - pos) + 1 := by omega
    rw [hidx, drop_succ_cons] at h
    split
    · rename_i he
      rw [filter_cons_of_neg (by simp [he])]
      apply ih
      intro f hf
      apply h f
      have hmono : index.drop (last + 1 - pos) = (index.drop (last - pos)).drop 1 := by
        rw [drop_drop]
        congr 1
      rw [hmono] at hf
      exact mem_of_mem_drop hf
    rename_i he
    rw [filter_cons_of_pos (by simpa using he)]
    congr 1
    apply ih
    rwa [show last + 1 - (pos + 1) = last - pos by omega]

variable {left right : List (SeriesEntry α μ)} {beg : Int} {items : List (Option α)}

/-- The entry that `stash` puts in. -/
def newEntry (s : SeriesSink α μ) (beg : Int) (items : List (Option α)) (mapping : μ) :
    SeriesEntry α μ := ⟨beg, items, some mapping, s.created⟩

/-- The index that `stash` builds: all entries truncated, the new one in its place, and the
    empty ones gone. -/
def inserted (left right : List (SeriesEntry α μ)) (entry : SeriesEntry α μ) :
    List (SeriesEntry α μ) :=
  (left.map (·.truncated entry.beg entry.stop) ++
    entry :: right.map (·.truncated entry.beg entry.stop)).filter (!·.items.isEmpty)

variable {s : SeriesSink α μ}

/-- **What `stash` makes of an ordered index.** -/
theorem insert_index (hindex : s.index = left ++ right)
    (h : Ordered (left ++ right)) (hleft : ∀ e ∈ left, e.beg < beg)
    (hright : ∀ e ∈ right, beg ≤ e.beg) (items : List (Option α)) (mapping : μ) :
    (s.insert beg items mapping).index = inserted left right (s.newEntry beg items mapping) ∧
    (s.insert beg items mapping).count =
      s.count - ((left ++ right).map (·.overlap beg (beg + items.length))).sum + items.length := by
  have hsearch : search s.index beg = left.length := by
    rw [hindex]
    exact h.search_eq hleft hright
  obtain ⟨hentries, hrem, hstop, hrest⟩ := truncateLoop_right h.of_append_right hright
    (beg + items.length) left.length (Nat.le_refl _)
  rcases eq_nil_or_concat left with rfl | ⟨front, last, rfl⟩
  · -- the new entry comes first
    rw [length_nil] at hsearch hentries hrem hrest
    rw [nil_append] at hindex
    unfold insert inserted
    dsimp only
    rw [hsearch, hindex]
    constructor
    · show [] ++ removeLoop _ 0 (_ :: _) = _
      rw [nil_append, removeLoop_eq]
      · show (_ :: (truncateLoop _ _ 0 0 right).entries).filter _ = _
        rw [hentries]
        rfl
      intro e he
      apply hrest e
      rw [← hentries]
      exact he
    · show s.count - (truncateLoop _ _ 0 0 right).removed + _ = _
      rw [hrem]
      rfl
  -- the last entry before the new one may be truncated, the ones before it are out of reach
  rw [concat_eq_append] at *
  have hlen : (front ++ [last]).length = front.length + 1 := by simp
  rw [hlen] at hsearch hentries hrem hstop hrest
  rw [append_assoc, singleton_append] at hindex h
  have hlast := hleft last (by simp)
  have hlastne : last.items.isEmpty = false := by simpa using h.nonempty last (by simp)
  have hfront : ∀ e ∈ front, e.meets beg (beg + items.length) = false := by
    intro e he
    have hbef := (pairwise_append.mp h.before).2.2 e he last (by simp)
    unfold SeriesEntry.Before at hbef
    rw [← Bool.not_eq_true, meets_iff]
    omega
  obtain ⟨hfrontmap, hfrontsum⟩ := map_truncated_of_not_meets hfront
  have hloop : truncateLoop beg (beg + items.length) (front.length + 1) front.length
      (last :: right) =
      ⟨last.truncated beg (beg + items.length) ::
        right.map (·.truncated beg (beg + items.length)),
        last.overlap beg (beg + items.length) +
          (right.map (·.overlap beg (beg + items.length))).sum,
        (truncateLoop beg (beg + items.length) (front.length + 1) (front.length + 1) right).stop⟩ := by
    rw [truncateLoop, hlastne, if_neg Bool.false_ne_true, truncated,
      overlap]
    split
    · dsimp only
      rw [hentries, hrem]
    · rw [if_neg (by omega)]
      dsimp only
      rw [hentries, hrem, Int.zero_add]
  unfold insert inserted
  dsimp only
  rw [hsearch, hindex, Nat.add_sub_cancel, drop_left, take_left, hloop]
  dsimp only
  have hsplit : front ++ last.truncated beg (beg + items.length) ::
      right.map (·.truncated beg (beg + items.length)) =
      (front ++ [last.truncated beg (beg + items.length)]) ++
        right.map (·.truncated beg (beg + items.length)) := by simp
  have hlen' : (front ++ [last.truncated beg (beg + items.length)]).length =
      front.length + 1 := by simp
  constructor
  · rw [hsplit, ← hlen', take_left, drop_left, append_assoc, take_left, drop_left, removeLoop_eq]
    · show _ = (((front ++ [last]).map (·.truncated beg (beg + items.length))) ++ _).filter _
      have hfilter : ∀ rest, (front ++ rest).filter (!·.items.isEmpty) =
          front ++ rest.filter (!·.items.isEmpty) := by
        intro rest
        rw [filter_append,
          filter_eq_self.mpr (fun e he => by simpa using h.nonempty e (by simp [he]))]
      rw [map_append, hfrontmap, append_assoc, hfilter]
      rfl
    intro e he
    apply hrest e
    rw [hlen'] at he
    have hidx : (truncateLoop beg (beg + items.length) (front.length + 1) (front.length + 1)
        right).stop + 1 - front.length =
        ((truncateLoop beg (beg + items.length) (front.length + 1) (front.length + 1)
          right).stop - (front.length + 1)) + 2 := by omega
    rw [hidx] at he
    exact he
  · rw [append_assoc, singleton_append, map_append, sum_append, hfrontsum,
      map_cons, sum_cons, Int.zero_add]

/-- The entry that is put in, as long as nothing expires. -/
theorem newEntry_stop (s : SeriesSink α μ) (beg : Int) (items : List (Option α)) (mapping : μ) :
    (s.newEntry beg items mapping).stop = beg + items.length := rfl

variable {entry : SeriesEntry α μ}

/-- Without an entry that is split, the new index is ordered. -/
theorem ordered_inserted (h : Ordered (left ++ right))
    (hleft : ∀ e ∈ left, e.beg < entry.beg) (hright : ∀ e ∈ right, entry.beg ≤ e.beg)
    (hrange : entry.beg < entry.stop)
    (hsplit : ∀ e ∈ left ++ right, ¬ e.Splits entry.beg entry.stop) :
    Ordered (inserted left right entry) := by
  have hmap : ∀ es : List (SeriesEntry α μ), es.Pairwise SeriesEntry.Before →
      (es.map (·.truncated entry.beg entry.stop)).Pairwise SeriesEntry.Before := by
    intro es hes
    rw [pairwise_map]
    refine hes.imp ?_
    intro e f hef
    have he := e.truncated_bounds entry.beg entry.stop
    have hf := f.truncated_bounds entry.beg entry.stop
    unfold SeriesEntry.Before at hef ⊢
    omega
  -- what is left of the entries on the left ends before the new entry
  have hlo : ∀ e ∈ left, (e.truncated entry.beg entry.stop).stop ≤ entry.beg := by
    intro e he
    have hmem := mem_append_left right he
    exact truncated_stop_le (hleft e he) hrange (hsplit e hmem) (h.nonempty e hmem)
  refine ⟨fun e he => by simpa using (mem_filter.mp he).2, ?_⟩
  unfold inserted
  rw [filter_append, filter_cons, pairwise_append]
  have hne : entry.items ≠ [] := by
    rintro hnil
    unfold stop at hrange
    rw [hnil, length_nil] at hrange
    omega
  rw [if_pos (by simpa using hne)]
  refine ⟨(hmap left h.of_append_left.before).filter _,
    List.Pairwise.cons ?_ ((hmap right h.of_append_right.before).filter _), ?_⟩
  · -- and the entries on the right begin behind it
    intro f hf
    obtain ⟨hf, hfne⟩ := mem_filter.mp hf
    obtain ⟨e, he, rfl⟩ := mem_map.mp hf
    exact stop_le_truncated (hright e he) hrange (by simpa using hfne)
  intro e he f hf
  obtain ⟨e, hel, rfl⟩ := mem_map.mp (mem_filter.mp he).1
  have hstop := hlo e hel
  unfold SeriesEntry.Before
  rcases mem_cons.mp hf with rfl | hf
  · exact hstop
  obtain ⟨hf, hfne⟩ := mem_filter.mp hf
  obtain ⟨f, hfr, rfl⟩ := mem_map.mp hf
  have := stop_le_truncated (hright f hfr) hrange (by simpa using hfne)
  omega

/-- The cells of the new index. -/
theorem cellOf_inserted (hrange : entry.beg < entry.stop)
    (hsplit : ∀ e ∈ left ++ right, ¬ e.Splits entry.beg entry.stop) (p : Int) :
    cellOf (inserted left right entry) p = (entry.cell p).or (cellOf (left ++ right) p) := by
  have hcell : ∀ e ∈ left ++ right, (e.truncated entry.beg entry.stop).cell p =
      if entry.beg ≤ p ∧ p < entry.stop then none else e.cell p :=
    fun e he => cell_truncated hrange (hsplit e he) p
  unfold inserted
  rw [cellOf_filter]
  unfold cellOf
  rw [findSome?_append, findSome?_cons]
  by_cases hp : entry.beg ≤ p ∧ p < entry.stop
  · -- a position of the new entry: nothing else has a cell there
    have hnone : (left.map (·.truncated entry.beg entry.stop)).findSome? (·.cell p) = none := by
      rw [findSome?_eq_none_iff]
      intro f hf
      obtain ⟨e, he, rfl⟩ := mem_map.mp hf
      rw [hcell e (mem_append_left right he), if_pos hp]
    have hsome : entry.cell p ≠ none := by
      rw [ne_eq, cell_eq_none]
      exact fun hn => hn hp
    rw [hnone, Option.none_or]
    cases hc : entry.cell p with
    | none => exact absurd hc hsome
    | some c => rfl
  -- elsewhere the entries keep their cells
  have hnone : entry.cell p = none := cell_eq_none.mpr hp
  have hl := findSome?_cell_congr (·.truncated entry.beg entry.stop)
    fun e he => (hcell e (mem_append_left right he)).trans (if_neg hp)
  have hr := findSome?_cell_congr (·.truncated entry.beg entry.stop)
    fun e he => (hcell e (mem_append_right left he)).trans (if_neg hp)
  rw [hnone, hl, hr, findSome?_append]
  rfl

/-- **A split entry overlaps the new one**: the items behind the range have moved to its front. -/
theorem not_ordered_inserted {e : SeriesEntry α μ} (hrange : entry.beg < entry.stop)
    (he : e ∈ left) (hsplit : e.Splits entry.beg entry.stop) :
    ¬ (inserted left right entry).Pairwise SeriesEntry.Before := by
  intro hpw
  have hstop := lt_truncated_stop hrange hsplit
  have hne : (e.truncated entry.beg entry.stop).items ≠ [] := by
    intro hnil
    have hbeg := truncated_beg_of_lt hsplit.1 entry.stop
    have hlt := hsplit.1
    rw [stop, hnil, length_nil, hbeg] at hstop
    omega
  have hentry : entry.items ≠ [] := by
    rw [ne_eq, ← length_eq_zero_iff]
    unfold stop at hrange
    omega
  unfold inserted at hpw
  rw [filter_append, filter_cons, if_pos (by simpa using hentry), pairwise_append] at hpw
  have hbef := hpw.2.2 (e.truncated entry.beg entry.stop)
    (mem_filter.mpr ⟨mem_map_of_mem he, by simpa using hne⟩) entry mem_cons_self
  unfold SeriesEntry.Before at hbef
  omega

/-! ### The cache and what it is for -/

/-- The index holds what the store says, and counts it. -/
structure Inv (s : SeriesSink α μ) (st : SeriesStore α μ) : Prop where
  ordered : Ordered s.index
  count : s.count = itemCount s.index
  cells : ∀ p, cellOf s.index p = st p

theorem itemCount_append (left right : List (SeriesEntry α μ)) :
    itemCount (left ++ right) = itemCount left + itemCount right := by
  unfold itemCount
  rw [map_append, sum_append]

/-- The number of items of the new index is what `stash` counts. -/
theorem itemCount_inserted (left right : List (SeriesEntry α μ)) (entry : SeriesEntry α μ) :
    itemCount (inserted left right entry) = itemCount (left ++ right) -
      ((left ++ right).map (·.overlap entry.beg entry.stop)).sum + entry.items.length := by
  unfold inserted
  rw [itemCount_filter, itemCount_append, itemCount_truncated]
  have hcons : ∀ es, itemCount (entry :: es) = entry.items.length + itemCount es := by
    intro es
    unfold itemCount
    rw [map_cons, sum_cons]
  rw [hcons, itemCount_truncated, itemCount_append, map_append, sum_append]
  omega

/-- Nothing expires as long as the count is within the limit. -/
theorem expireLoop_of_le (h : s.count ≤ s.limit) :
    s.expireLoop s.chain = s := by
  cases hc : s.chain with
  | nil =>
    rw [expireLoop, ← hc]
  | cons ident chain =>
    rw [expireLoop, if_neg (by omega), ← hc]

variable {mapping : μ}

/-- Within the limit, `stash` truncates and puts in, and that is all. -/
theorem stash_eq (h : Ordered s.index) (hitems : items ≠ [])
    (hfits : (s.insert beg items mapping).count ≤ s.limit) :
    s.stash beg items mapping = s.insert beg items mapping := by
  obtain ⟨left, right, hindex, hleft, hright⟩ := h.exists_split beg
  have hins := (insert_index hindex (hindex ▸ h) hleft hright items mapping).1
  unfold stash
  rw [if_neg (by simpa using hitems)]
  dsimp only
  rw [expireLoop_of_le hfits, hins]
  have hdrop : (inserted left right (s.newEntry beg items mapping)).dropWhile (·.items.isEmpty) =
      inserted left right (s.newEntry beg items mapping) := by
    cases hl : inserted left right (s.newEntry beg items mapping) with
    | nil => rfl
    | cons e es =>
      have hmem : e ∈ inserted left right (s.newEntry beg items mapping) := by
        rw [hl]
        exact mem_cons_self
      have hne := (mem_filter.mp hmem).2
      rw [dropWhile_cons_of_neg (by simpa using hne)]
  rw [hdrop, ← hins]

/-- **Storing.** What is stored in place of entries is what the cache holds afterwards. -/
theorem Inv.stash {st : SeriesStore α μ} (h : s.Inv st) (hitems : items ≠ []) (hfits : (s.insert beg items mapping).count ≤ s.limit)
    (hsplit : ∀ e ∈ s.index, ¬ e.Splits beg (beg + items.length)) :
    (s.stash beg items mapping).Inv (st.write beg items mapping) := by
  obtain ⟨left, right, hindex, hleft, hright⟩ := h.ordered.exists_split beg
  have hord : Ordered (left ++ right) := hindex ▸ h.ordered
  obtain ⟨hins, hcount⟩ := insert_index hindex hord hleft hright items mapping
  have hrange : (s.newEntry beg items mapping).beg < (s.newEntry beg items mapping).stop := by
    have := length_pos_iff.mpr hitems
    rw [newEntry_stop]
    show beg < _
    omega
  rw [hindex] at hsplit
  rw [stash_eq h.ordered hitems hfits]
  constructor
  · rw [hins]
    exact ordered_inserted hord hleft hright hrange hsplit
  · rw [hcount, hins, itemCount_inserted, h.count, hindex]
    rfl
  · intro p
    rw [hins, cellOf_inserted hrange hsplit, ← hindex, h.cells]
    rfl

/-- What every call leaves alone. -/
structure SameSink (s s' : SeriesSink α μ) : Prop where
  limit : s'.limit = s.limit
  fetching : s'.fetching = s.fetching

/-- Storing leaves the logs alone. -/
theorem stash_rest (h : Ordered s.index) (hitems : items ≠ [])
    (hfits : (s.insert beg items mapping).count ≤ s.limit) :
    s.SameSink (s.stash beg items mapping) ∧ (s.stash beg items mapping).processed = s.processed ∧
    (s.stash beg items mapping).requests = s.requests := by
  rw [stash_eq h hitems hfits]
  exact ⟨⟨rfl, rfl⟩, rfl, rfl⟩

/-! ### The walk of `load` -/

/-- What is processed of an entry. -/
def chunkOf (beg stop : Int) (entry : SeriesEntry α μ) : SeriesChunk α μ :=
  ⟨max entry.beg beg, entry.slice beg stop, entry.mapping⟩

/-- The ranges from `last` on that the entries leave uncovered. -/
def uncovered (beg stop : Int) : Int → List (SeriesEntry α μ) → List (Int × Int)
  | last, [] => if last ≠ stop then [(last, stop)] else []
  | last, e :: es =>
    (if max e.beg beg > last then [(last, max e.beg beg)] else []) ++
      uncovered beg stop (min e.stop stop) es

/-- The ranges that the second phase of `load` fetches. -/
def Walk.ranges (w : Walk α μ) (stop : Int) : List (Int × Int) :=
  w.fetches ++ if w.last ≠ stop then [(w.last, stop)] else []

/-- The loop over the entries that begin in or behind the range visits those that meet it. -/
theorem loadLoop_right {right : List (SeriesEntry α μ)} {beg : Int}
    (h : Ordered right) (hright : ∀ e ∈ right, beg ≤ e.beg) (i : Nat) (hi : at_ ≤ i)
    (w : Walk α μ) :
    loadLoop beg stop at_ i right w =
      (right.filter (·.meets beg stop)).foldl (Walk.note beg stop) w := by
  induction right generalizing i w with
  | nil => rfl
  | cons e right ih =>
    have hne : e.items.isEmpty = false := by simpa using h.nonempty e mem_cons_self
    rw [loadLoop, hne, if_neg Bool.false_ne_true]
    by_cases hm : e.meets beg stop
    · rw [if_pos hm, filter_cons, if_pos hm, foldl_cons]
      exact ih h.tail (fun f hf => hright f (mem_cons_of_mem e hf)) (i + 1) (by omega) _
    have hout := h.not_meets (hright e mem_cons_self) hm
    rw [if_neg hm, if_pos hi, filter_eq_nil_iff.mpr (fun f hf => by simp [hout f hf])]
    rfl

/-- **The walk over an ordered index** visits the entries that meet the range. -/
theorem walk_eq (h : Ordered s.index) (beg stop : Int) :
    s.walk beg stop = (s.index.filter (·.meets beg stop)).foldl (Walk.note beg stop) ⟨beg, [], []⟩ := by
  obtain ⟨left, right, hindex, hleft, hright⟩ := h.exists_split beg
  rw [hindex] at h
  unfold walk
  rw [hindex]
  dsimp only
  rw [h.search_eq hleft hright]
  rcases eq_nil_or_concat left with rfl | ⟨front, last, rfl⟩
  · exact loadLoop_right h.of_append_right hright 0 (Nat.le_refl _) _
  rw [concat_eq_append] at *
  have hlen : (front ++ [last]).length = front.length + 1 := by simp
  have hlast := hleft last (by simp)
  have hlastne : last.items.isEmpty = false := by simpa using h.nonempty last (by simp)
  -- the entries in front of the last one end before the range
  have hfront : front.filter (·.meets beg stop) = [] := by
    rw [filter_eq_nil_iff]
    intro e he
    rw [append_assoc] at h
    have hbef := (pairwise_append.mp h.before).2.2 e he last (by simp)
    unfold SeriesEntry.Before at hbef
    rw [meets_iff]
    omega
  rw [hlen, Nat.add_sub_cancel, append_assoc, drop_left, filter_append, hfront,
    nil_append, singleton_append, loadLoop, hlastne, if_neg Bool.false_ne_true]
  split
  · rename_i hm
    rw [filter_cons, if_pos hm, foldl_cons]
    exact loadLoop_right h.of_append_right hright _ (Nat.le_refl _) _
  · rename_i hm
    rw [if_neg (by omega), filter_cons, if_neg hm]
    exact loadLoop_right h.of_append_right hright _ (Nat.le_refl _) _

/-- The notes of a walk: a chunk for every entry, and the ranges between the entries. -/
theorem foldl_note (beg stop : Int) (es : List (SeriesEntry α μ)) (w : Walk α μ) :
    (es.foldl (Walk.note beg stop) w).chunks = w.chunks ++ es.map (chunkOf beg stop) ∧
    (es.foldl (Walk.note beg stop) w).ranges stop =
      w.fetches ++ uncovered beg stop w.last es := by
  induction es generalizing w with
  | nil => exact ⟨by simp, rfl⟩
  | cons e es ih =>
    obtain ⟨hchunks, hranges⟩ := ih (w.note beg stop e)
    rw [foldl_cons, hchunks, hranges]
    constructor
    · show (w.chunks ++ [_]) ++ _ = _
      rw [append_assoc]
      rfl
    show (if max e.beg beg > w.last then w.fetches ++ [(w.last, max e.beg beg)]
      else w.fetches) ++ uncovered beg stop (min e.stop stop) es = _
    rw [uncovered]
    split
    · rw [append_assoc]
    · rw [nil_append]

/-- The cell of a chunk: that of its entry, in the range. -/
theorem cellAt_chunkOf {beg : Int} (hm : entry.meets beg stop) (p : Int) :
    cellAt (chunkOf beg stop entry).beg (chunkOf beg stop entry).items
      (chunkOf beg stop entry).mapping p =
      if beg ≤ p ∧ p < stop then entry.cell p else none := by
  rw [meets_iff] at hm
  unfold chunkOf slice cell cellAt
  dsimp only
  by_cases hp : max entry.beg beg ≤ p
  · have hidx : (max entry.beg beg - entry.beg).toNat + (p - max entry.beg beg).toNat =
        (p - entry.beg).toNat := by omega
    rw [if_pos hp, getElem?_take, getElem?_drop, hidx, if_pos (show entry.beg ≤ p by omega)]
    by_cases hs : p < min entry.stop stop
    · rw [if_pos (by omega), if_pos (by omega)]
    rw [if_neg (by omega)]
    split
    · rw [getElem?_eq_none (by unfold SeriesEntry.stop at *; omega)]
    · rfl
  rw [if_neg hp]
  split
  · rw [if_neg (by omega)]
  · rfl

/-- The ranges between entries that all meet the range: they are in order and not empty, they
    hold the positions that no entry has, and each one reaches as far as it can. -/
structure Uncovered (stop last : Int) (es : List (SeriesEntry α μ))
    (ranges : List (Int × Int)) : Prop where
  inside : ∀ r ∈ ranges, last ≤ r.1 ∧ r.1 < r.2 ∧ r.2 ≤ stop
  apart : ranges.Pairwise (fun r q => r.2 ≤ q.1)
  positions : ∀ p, (∃ r ∈ ranges, r.1 ≤ p ∧ p < r.2) ↔
    last ≤ p ∧ p < stop ∧ ∀ e ∈ es, ¬ (e.beg ≤ p ∧ p < e.stop)
  maximal : ∀ r ∈ ranges, (r.1 = last ∨ ∃ e ∈ es, r.1 = e.stop) ∧
    (r.2 = stop ∨ ∃ e ∈ es, r.2 = e.beg)

/-- **The noted ranges are the uncovered ones.** -/
theorem uncovered_spec {beg : Int} {es : List (SeriesEntry α μ)} (h : Ordered es)
    (hmeets : ∀ e ∈ es, e.meets beg stop) (last : Int) (hlo : beg ≤ last)
    (hhi : last ≤ stop) (hlast : ∀ e ∈ es, last ≤ max e.beg beg) :
    Uncovered stop last es (uncovered beg stop last es) := by
  induction es generalizing last with
  | nil =>
    unfold uncovered
    split
    · refine ⟨?_, by simp, ?_, ?_⟩
      · intro r hr
        rw [mem_singleton.mp hr]
        dsimp only
        omega
      · intro p
        simp
      · intro r hr
        rw [mem_singleton.mp hr]
        exact ⟨.inl rfl, .inl rfl⟩
    · exact ⟨by simp, .nil, fun p => ⟨by simp, fun hp => by omega⟩, by simp⟩
  | cons e es ih =>
    have hm := hmeets e mem_cons_self
    rw [meets_iff] at hm
    have hl := hlast e mem_cons_self
    have hbeh : ∀ f ∈ es, e.stop ≤ f.beg := fun f hf => h.stop_le hf
    obtain ⟨hinside, hapart, hpositions, hmaximal⟩ := ih h.tail
      (fun f hf => hmeets f (mem_cons_of_mem e hf)) (min e.stop stop) (by omega) (by omega)
      fun f hf => by have := hbeh f hf; omega
    unfold uncovered
    -- the range before the entry, if there is one
    have hfirst : ∀ r ∈ (if max e.beg beg > last then [(last, max e.beg beg)] else []),
        r = (last, e.beg) ∧ last < e.beg := by
      intro r hr
      split at hr
      · rename_i hgt
        have hmax : max e.beg beg = e.beg := by omega
        rw [mem_singleton.mp hr, hmax]
        exact ⟨rfl, by omega⟩
      · simp at hr
    refine ⟨?_, ?_, ?_, ?_⟩
    · intro r hr
      rcases mem_append.mp hr with hr | hr
      · obtain ⟨rfl, hlt⟩ := hfirst r hr
        dsimp only
        omega
      · have := hinside r hr
        omega
    · rw [pairwise_append]
      refine ⟨by split <;> simp, hapart, ?_⟩
      intro r hr q hq
      obtain ⟨rfl, hlt⟩ := hfirst r hr
      have := hinside q hq
      dsimp only
      omega
    · intro p
      constructor
      · rintro ⟨r, hr, hrp⟩
        rcases mem_append.mp hr with hr | hr
        · obtain ⟨rfl, hlt⟩ := hfirst r hr
          dsimp only at hrp
          refine ⟨hrp.1, by omega, ?_⟩
          intro f hf
          rcases mem_cons.mp hf with rfl | hf
          · omega
          · have := hbeh f hf
            omega
        obtain ⟨h1, h2, h3⟩ := (hpositions p).mp ⟨r, hr, hrp⟩
        refine ⟨by omega, h2, ?_⟩
        intro f hf
        rcases mem_cons.mp hf with rfl | hf
        · omega
        · exact h3 f hf
      rintro ⟨h1, h2, h3⟩
      by_cases hp : p < e.beg
      · refine ⟨(last, e.beg), mem_append_left _ ?_, h1, hp⟩
        have hmax : max e.beg beg = e.beg := by omega
        rw [hmax, if_pos (by omega)]
        exact mem_cons_self
      have he := h3 e mem_cons_self
      obtain ⟨r, hr, hrp⟩ := (hpositions p).mpr
        ⟨by omega, h2, fun f hf => h3 f (mem_cons_of_mem e hf)⟩
      exact ⟨r, mem_append_right _ hr, hrp⟩
    intro r hr
    rcases mem_append.mp hr with hr | hr
    · obtain ⟨rfl, hlt⟩ := hfirst r hr
      exact ⟨.inl rfl, .inr ⟨e, mem_cons_self, rfl⟩⟩
    obtain ⟨hr1, hr2⟩ := hmaximal r hr
    have hin := hinside r hr
    constructor
    · rcases hr1 with hr1 | ⟨f, hf, hr1⟩
      · exact .inr ⟨e, mem_cons_self, by omega⟩
      · exact .inr ⟨f, mem_cons_of_mem e hf, hr1⟩
    · rcases hr2 with hr2 | ⟨f, hf, hr2⟩
      · exact .inl hr2
      · exact .inr ⟨f, mem_cons_of_mem e hf, hr2⟩

end SeriesSink

/-! ### Fetching -/

/-- A cell of made up data: no element, and the mapping `{ }`. -/
def SeriesCell.madeUp [EmptyCollection μ] : SeriesCell α μ := (none, some {})

/-- Made up data is stored at the positions of some ranges. -/
def SeriesStore.fillRanges [EmptyCollection μ] (ranges : List (Int × Int)) :
    SeriesStore α μ :=
  fun p => if ∃ r ∈ ranges, r.1 ≤ p ∧ p < r.2 then some SeriesCell.madeUp else st p

/-- The cells of an array without elements. -/
theorem cellAt_replicate {beg : Int} {n : Nat} {mapping : Option μ} :
    cellAt beg (replicate n (none : Option α)) mapping p =
      if beg ≤ p ∧ p < beg + n then some (none, mapping) else none := by
  unfold cellAt
  by_cases hp : beg ≤ p
  · rw [if_pos hp, getElem?_replicate]
    by_cases hn : p < beg + n
    · rw [if_pos (by omega), if_pos ⟨hp, hn⟩]
      rfl
    · rw [if_neg (by omega), if_neg (by omega)]
      rfl
  · rw [if_neg hp, if_neg (by omega)]

namespace SeriesSink

variable {s : SeriesSink α μ} {st : SeriesStore α μ} {beg stop : Int}

/-- Where the cache holds nothing, no entry is in the way. -/
theorem Inv.not_meets (h : s.Inv st) (hfree : ∀ p, beg ≤ p → p < stop → st p = none) :
    ∀ e ∈ s.index, e.meets beg stop = false := by
  intro e he
  rw [← Bool.not_eq_true, meets_iff]
  rintro hm
  have hnone := (h.cells (max e.beg beg)).trans (hfree _ (by omega) (by omega))
  have hcell := cellOf_eq_none.mp hnone e he
  rw [cell_eq_none] at hcell
  omega

variable [EmptyCollection μ]

/-- **Asking for a range that is not covered.** -/
theorem Inv.fetch (h : s.Inv st) (hrange : beg < stop)
    (hfree : ∀ p, beg ≤ p → p < stop → st p = none) (walking : Bool)
    (hfits : s.fetching → walking = false → s.count + (stop - beg) ≤ s.limit) :
    (s.fetch beg stop walking).Inv
      (if s.fetching && !walking then st.fillRanges [(beg, stop)] else st) ∧
    s.SameSink (s.fetch beg stop walking) ∧ (s.fetch beg stop walking).processed = s.processed ∧
    (s.fetch beg stop walking).requests =
      s.requests ++ (if s.fetching then [⟨beg, stop, walking⟩] else []) ∧
    (s.fetch beg stop walking).count =
      s.count + if s.fetching && !walking then stop - beg else 0 := by
  unfold SeriesSink.fetch
  cases hf : s.fetching with
  | false =>
    rw [if_neg Bool.false_ne_true]
    refine ⟨by simpa using h, ⟨rfl, rfl⟩, rfl, by simp, by simp⟩
  | true =>
    rw [if_pos rfl]
    cases hw : walking with
    | true => exact ⟨⟨h.ordered, h.count, h.cells⟩, ⟨rfl, rfl⟩, rfl, by simp, by simp⟩
    | false =>
      dsimp only
      set items : List (Option α) := replicate (stop - beg).toNat none with hitemsdef
      have hlen : (items.length : Int) = stop - beg := by
        rw [hitemsdef, length_replicate]
        omega
      have hitems : items ≠ [] := by
        rw [ne_eq, ← length_eq_zero_iff]
        omega
      -- the range is free, so nothing is truncated and nothing is split
      have hout := h.not_meets hfree
      obtain ⟨-, hsum⟩ := map_truncated_of_not_meets hout
      obtain ⟨left, right, hindex, hleft, hright⟩ := h.ordered.exists_split beg
      have hcount := (insert_index hindex (hindex ▸ h.ordered) hleft hright items ({} : μ)).2
      rw [hlen, show beg + (stop - beg) = stop by omega, ← hindex, hsum] at hcount
      have hfit : (s.insert beg items {}).count ≤ s.limit := by
        have := hfits hf hw
        omega
      have hsplit : ∀ e ∈ s.index, ¬ e.Splits beg (beg + items.length) := by
        intro e he hs
        have hm := hout e he
        rw [← Bool.not_eq_true, meets_iff] at hm
        unfold SeriesEntry.Splits at hs
        omega
      have hinv := h.stash hitems hfit hsplit
      obtain ⟨hsame, hproc, hreq⟩ := stash_rest h.ordered hitems hfit
      have hstash := stash_eq h.ordered hitems hfit
      rw [if_neg Bool.false_ne_true]
      refine ⟨⟨hinv.ordered, hinv.count, ?_⟩, ⟨hsame.limit, hsame.fetching⟩, hproc, ?_, ?_⟩
      · intro p
        rw [show cellOf (s.stash beg items {}).index p = _ from hinv.cells p]
        rw [SeriesStore.write, hitemsdef, cellAt_replicate]
        simp only [Bool.not_false, Bool.and_self, if_true, SeriesStore.fillRanges,
          mem_singleton, exists_eq_left]
        by_cases hp : beg ≤ p ∧ p < stop
        · rw [if_pos (by omega), if_pos hp]
          rfl
        · rw [if_neg (by omega), if_neg hp]
          rfl
      · rw [hreq]
        simp
      · show (s.stash beg items {}).count = _
        rw [hstash]
        simpa using hcount

/-- **Asking for ranges that are not covered**, one after the other. -/
theorem Inv.fetchRanges (walking : Bool) (ranges : List (Int × Int)) (h : s.Inv st)
    (hrange : ∀ r ∈ ranges, r.1 < r.2) (hapart : ranges.Pairwise (fun r q => r.2 ≤ q.1))
    (hfree : ∀ r ∈ ranges, ∀ p, r.1 ≤ p → p < r.2 → st p = none)
    (hfits : s.fetching → walking = false →
      s.count + (ranges.map (fun r => r.2 - r.1)).sum ≤ s.limit) :
    (ranges.foldl (fun s r => s.fetch r.1 r.2 walking) s).Inv
      (if s.fetching && !walking then st.fillRanges ranges else st) ∧
    s.SameSink (ranges.foldl (fun s r => s.fetch r.1 r.2 walking) s) ∧
    (ranges.foldl (fun s r => s.fetch r.1 r.2 walking) s).processed = s.processed ∧
    (ranges.foldl (fun s r => s.fetch r.1 r.2 walking) s).requests =
      s.requests ++ if s.fetching then ranges.map (fun r => ⟨r.1, r.2, walking⟩) else [] := by
  induction ranges generalizing s st with
  | nil =>
    refine ⟨⟨h.ordered, h.count, ?_⟩, ⟨rfl, rfl⟩, rfl, by simp⟩
    intro p
    rw [foldl_nil, h.cells]
    split
    · simp [SeriesStore.fillRanges]
    · rfl
  | cons r ranges ih =>
    have hr := hrange r mem_cons_self
    -- the lengths that are still to come are not negative
    have hpos : 0 ≤ (ranges.map (fun r => r.2 - r.1)).sum := by
      apply sum_nonneg
      intro x hx
      obtain ⟨q, hq, rfl⟩ := mem_map.mp hx
      have := hrange q (mem_cons_of_mem r hq)
      omega
    obtain ⟨hinv, hsame, hproc, hreq, hcount⟩ :=
      h.fetch hr (hfree r mem_cons_self) walking (by
        intro hf hw
        have := hfits hf hw
        rw [map_cons, sum_cons] at this
        omega)
    obtain ⟨hinv', hsame', hproc', hreq'⟩ := ih hinv
      (fun q hq => hrange q (mem_cons_of_mem r hq)) hapart.tail (by
        intro q hq p hp1 hp2
        have hbef := rel_of_pairwise_cons hapart hq
        have hnone := hfree q (mem_cons_of_mem r hq) p hp1 hp2
        split
        · rw [SeriesStore.fillRanges, if_neg, hnone]
          simp only [mem_singleton, exists_eq_left]
          omega
        · exact hnone) (by
        intro hf hw
        rw [hsame.fetching] at hf
        have := hfits hf hw
        rw [map_cons, sum_cons] at this
        rw [hcount, hsame.limit, hf, hw]
        show s.count + (r.2 - r.1) + _ ≤ _
        omega)
    rw [foldl_cons]
    refine ⟨⟨hinv'.ordered, hinv'.count, ?_⟩, ⟨?_, ?_⟩, hproc'.trans hproc, ?_⟩
    · intro p
      rw [show cellOf _ p = _ from hinv'.cells p, hsame.fetching]
      split
      · unfold SeriesStore.fillRanges
        simp only [mem_singleton, exists_eq_left, exists_mem_cons_iff]
        by_cases h1 : r.1 ≤ p ∧ p < r.2
        · rw [if_pos h1, ite_self, if_pos (Or.inl h1)]
        · rw [if_neg h1]
          simp only [h1, false_or]
      · rfl
    · exact hsame'.limit.trans hsame.limit
    · exact hsame'.fetching.trans hsame.fetching
    · rw [hreq', hreq, hsame.fetching]
      cases s.fetching <;> simp

end SeriesSink

/-! ### Runs -/

/-- What a call stores. -/
def SeriesStore.call [EmptyCollection μ] (fetching : Bool) (st : SeriesStore α μ) :
    SeriesCall α μ → SeriesStore α μ
  | .input beg items mapping => st.write beg items mapping
  | .load beg stop walking =>
    if fetching && !walking then
      fun p => if beg ≤ p ∧ p < stop ∧ st p = none then some SeriesCell.madeUp else st p
    else st

/-- **What `load` owes its caller**: it processes every position of the range that is stored, once
    and with what was stored last, and asks for the ranges of the others, each one as large as
    it can be, and every position once. -/
structure LoadKept (st : SeriesStore α μ) (beg stop : Int) (chunks : List (SeriesChunk α μ))
    (ranges : List (Int × Int)) : Prop where
  processedOnce : chunks.Pairwise (fun c d : SeriesChunk α μ => c.beg + c.items.length ≤ d.beg)
  processed : ∀ p, chunks.findSome? (fun c => cellAt c.beg c.items c.mapping p) =
    if beg ≤ p ∧ p < stop then st p else none
  requestedOnce : ranges.Pairwise (fun r q => r.2 ≤ q.1)
  requested : ∀ p, (∃ r ∈ ranges, r.1 ≤ p ∧ p < r.2) ↔ beg ≤ p ∧ p < stop ∧ st p = none
  maximal : ∀ r ∈ ranges, r.1 < r.2 ∧ (r.1 = beg ∨ st (r.1 - 1) ≠ none) ∧
    (r.2 = stop ∨ st r.2 ≠ none)

namespace SeriesSink

/-- What a call owes its caller. -/
def CallKept (s s' : SeriesSink α μ) : SeriesCall α μ → Prop
  | .input .. => s'.requests = s.requests
  | .load beg stop walking => ∃ chunks ranges,
    s'.processed = s.processed ++ chunks ∧
    s'.requests = s.requests ++
      (if s.fetching then ranges.map (fun r => ⟨r.1, r.2, walking⟩) else []) ∧
    LoadKept st beg stop chunks ranges

/-- The entries with items are sorted by where they begin and have no position in common, and
    `count` is the number of their items. -/
structure IndexKept (s : SeriesSink α μ) : Prop where
  sorted : (s.index.filter (!·.items.isEmpty)).Pairwise SeriesEntry.Before
  count : s.count = itemCount (s.index.filter (!·.items.isEmpty))

/-- **The cache is kept** in a run: in every state that is reached, and by every call. -/
def RunKept [EmptyCollection μ] : SeriesSink α μ → SeriesStore α μ → List (SeriesCall α μ) → Prop
  | s, _, [] => s.IndexKept
  | s, st, call :: calls => s.IndexKept ∧ CallKept st s (s.step call) call ∧
    RunKept (s.step call) (st.call s.fetching call) calls

/-- The call keeps the total within the limit: nothing has to expire. -/
def Fits (s : SeriesSink α μ) : SeriesCall α μ → Prop
  | .input beg items mapping => items ≠ [] → (s.insert beg items mapping).count ≤ s.limit
  | .load beg stop walking => beg < stop → s.fetching → walking = false →
    s.count + (((s.walk beg stop).ranges stop).map (fun r => r.2 - r.1)).sum ≤ s.limit

/-- The call stores nothing strictly inside of an entry. -/
def Unsplit (s : SeriesSink α μ) : SeriesCall α μ → Prop
  | .input beg items _ => items ≠ [] → ∀ e ∈ s.index, ¬ e.Splits beg (beg + items.length)
  | .load .. => True

variable {s : SeriesSink α μ} {st : SeriesStore α μ}

theorem Inv.indexKept (h : s.Inv st) : s.IndexKept := by
  have hfilter : s.index.filter (!·.items.isEmpty) = s.index := by
    rw [filter_eq_self]
    intro e he
    simpa using h.ordered.nonempty e he
  exact ⟨hfilter.symm ▸ h.ordered.before, hfilter.symm ▸ h.count⟩

/-- Entries that have no cell at `p` can be left out. -/
theorem cellOf_filter_of_none {index : List (SeriesEntry α μ)} {q : SeriesEntry α μ → Bool}
    (h : ∀ e ∈ index, q e = false → e.cell p = none) : cellOf (index.filter q) p = cellOf index p := by
  unfold cellOf
  induction index with
  | nil => rfl
  | cons e index ih =>
    have ih := ih fun f hf => h f (mem_cons_of_mem e hf)
    cases hq : q e with
    | true => rw [filter_cons, if_pos hq, findSome?_cons, findSome?_cons, ih]
    | false => rw [filter_cons, if_neg (by simp [hq]), findSome?_cons,
        h e mem_cons_self hq, ih]

variable {beg stop : Int}

/-- The cells in the range are those of the entries that meet it. -/
theorem Inv.cellOf_meets (h : s.Inv st) (hp : beg ≤ p ∧ p < stop) :
    cellOf (s.index.filter (·.meets beg stop)) p = st p := by
  rw [← h.cells, cellOf_filter_of_none]
  intro e he hq
  rw [← Bool.not_eq_true, meets_iff] at hq
  rw [cell_eq_none]
  omega

/-- **The walk does what `load` owes.** -/
theorem Inv.loadKept (h : s.Inv st) (hrange : beg < stop) :
    LoadKept st beg stop (s.walk beg stop).chunks ((s.walk beg stop).ranges stop) := by
  set es := s.index.filter (·.meets beg stop) with hes
  have hord : Ordered es :=
    ⟨fun e he => h.ordered.nonempty e (mem_filter.mp he).1, h.ordered.before.filter _⟩
  have hmeets : ∀ e ∈ es, e.meets beg stop := fun e he => (mem_filter.mp he).2
  obtain ⟨hchunks, hranges⟩ := foldl_note beg stop es ⟨beg, [], []⟩
  obtain ⟨hinside, hapart, hpositions, hmaximal⟩ := uncovered_spec hord hmeets beg
    (Int.le_refl _) (by omega) fun e _ => by omega
  rw [walk_eq h.ordered, ← hes, hchunks, hranges, nil_append, nil_append]
  -- a position of an entry is stored
  have hstored : ∀ e ∈ es, ∀ p, beg ≤ p ∧ p < stop → e.beg ≤ p ∧ p < e.stop → st p ≠ none := by
    intro e he p hp hpe hnone
    rw [← h.cellOf_meets hp, ← hes, cellOf_eq_none] at hnone
    have := cell_eq_none.mp (hnone e he)
    exact this hpe
  constructor
  · rw [pairwise_map]
    refine hord.before.imp_of_mem ?_
    intro e f he hf hef
    have hm := meets_iff.mp (hmeets e he)
    have hlen : ((e.slice beg stop).length : Int) ≤ min e.stop stop - max e.beg beg := by
      unfold slice
      rw [length_take]
      omega
    unfold SeriesEntry.Before at hef
    show max e.beg beg + ((e.slice beg stop).length : Int) ≤ max f.beg beg
    omega
  · intro p
    rw [findSome?_map]
    have hcell : ∀ e ∈ es, ((fun c : SeriesChunk α μ => cellAt c.beg c.items c.mapping p) ∘
        chunkOf beg stop) e = if beg ≤ p ∧ p < stop then e.cell p else none :=
      fun e he => cellAt_chunkOf (hmeets e he) p
    by_cases hp : beg ≤ p ∧ p < stop
    · rw [if_pos hp, ← h.cellOf_meets hp, ← hes, cellOf]
      rw [← head?_filterMap, ← head?_filterMap]
      congr 1
      apply filterMap_congr
      intro e he
      rw [hcell e he, if_pos hp]
    · rw [if_neg hp, findSome?_eq_none_iff]
      intro e he
      rw [hcell e he, if_neg hp]
  · exact hapart
  · intro p
    rw [hpositions]
    constructor
    · rintro ⟨h1, h2, h3⟩
      refine ⟨h1, h2, ?_⟩
      rw [← h.cellOf_meets ⟨h1, h2⟩, cellOf_eq_none]
      exact fun e he => cell_eq_none.mpr (h3 e he)
    · rintro ⟨h1, h2, h3⟩
      exact ⟨h1, h2, fun e he hpe => hstored e he p ⟨h1, h2⟩ hpe h3⟩
  intro r hr
  have hin := hinside r hr
  obtain ⟨hr1, hr2⟩ := hmaximal r hr
  refine ⟨hin.2.1, ?_, ?_⟩
  · rcases hr1 with hr1 | ⟨e, he, hr1⟩
    · exact .inl hr1
    · have hm := meets_iff.mp (hmeets e he)
      exact .inr (hstored e he _ (by omega) (by omega))
  rcases hr2 with hr2 | ⟨e, he, hr2⟩
  · exact .inl hr2
  · have hlt := hord.beg_lt_stop he
    have hm := meets_iff.mp (hmeets e he)
    exact .inr (hstored e he _ (by omega) (by omega))

variable [EmptyCollection μ]

/-- `load` fetches the ranges of the walk. -/
theorem load_eq (hrange : beg < stop) (walking : Bool) :
    s.load beg stop walking =
      ((s.walk beg stop).ranges stop).foldl (fun s r => s.fetch r.1 r.2 walking)
        { s with processed := s.processed ++ (s.walk beg stop).chunks } := by
  unfold load Walk.ranges
  rw [if_neg (by omega), foldl_append]
  dsimp only
  split <;> rfl

/-- **A call keeps the cache**, unless it splits an entry. -/
theorem Inv.step (h : s.Inv st) {call : SeriesCall α μ} (hfits : s.Fits call)
    (hunsplit : s.Unsplit call) :
    (s.step call).Inv (st.call s.fetching call) ∧ s.SameSink (s.step call) ∧
      CallKept st s (s.step call) call := by
  cases call with
  | input beg items mapping =>
    have h' : ({ s with processed := s.processed ++ [⟨beg, items, some mapping⟩] } :
        SeriesSink α μ).Inv st := ⟨h.ordered, h.count, h.cells⟩
    by_cases hitems : items = []
    · -- nothing is stored
      have hstep : s.step (.input beg items mapping) =
          { s with processed := s.processed ++ [⟨beg, items, some mapping⟩] } := by
        show SeriesSink.stash _ _ _ _ = _
        rw [SeriesSink.stash, if_pos (by simp [hitems])]
      have hcall : st.call s.fetching (.input beg items mapping) = st := by
        funext p
        show (cellAt beg items (some mapping) p).or (st p) = st p
        rw [cellAt_eq_none.mpr (by simp [hitems]), Option.none_or]
      rw [hstep, hcall]
      exact ⟨h', ⟨rfl, rfl⟩, rfl⟩
    have hinv : (SeriesSink.stash _ beg items mapping).Inv (st.write beg items mapping) :=
      h'.stash hitems (hfits hitems) (hunsplit hitems)
    obtain ⟨hsame, -, hreq⟩ := stash_rest h'.ordered hitems (hfits hitems)
    exact ⟨hinv, ⟨hsame.limit, hsame.fetching⟩, hreq⟩
  | load beg stop walking =>
    by_cases hrange : beg < stop
    · have hkept := h.loadKept hrange
      have h' : ({ s with processed := s.processed ++ (s.walk beg stop).chunks } :
          SeriesSink α μ).Inv st := ⟨h.ordered, h.count, h.cells⟩
      obtain ⟨hinv, hsame, hproc, hreq⟩ := h'.fetchRanges walking ((s.walk beg stop).ranges stop)
        (fun r hr => (hkept.maximal r hr).1) hkept.requestedOnce
        (fun r hr p hp1 hp2 => ((hkept.requested p).mp ⟨r, hr, hp1, hp2⟩).2.2) (hfits hrange)
      rw [← load_eq hrange] at hinv hsame hproc hreq
      refine ⟨⟨hinv.ordered, hinv.count, ?_⟩, ⟨hsame.limit, hsame.fetching⟩,
        _, _, hproc, hreq, hkept⟩
      intro p
      rw [show cellOf (s.step (.load beg stop walking)).index p = _ from hinv.cells p]
      show (if s.fetching && !walking then _ else st) p = (if s.fetching && !walking then _ else st) p
      split
      · rw [SeriesStore.fillRanges]
        simp only [hkept.requested p]
      · rfl
    -- an empty range
    have hstep : s.step (.load beg stop walking) = s := if_pos (by omega)
    have hcall : st.call s.fetching (.load beg stop walking) = st := by
      funext p
      show (if s.fetching && !walking then _ else st) p = st p
      split
      · exact if_neg (by omega)
      · rfl
    rw [hstep, hcall]
    refine ⟨h, ⟨rfl, rfl⟩, [], [], by simp, by simp, .nil, ?_, .nil, ?_, by simp⟩
    · intro p
      rw [if_neg (by omega)]
      rfl
    · intro p
      simp only [not_mem_nil, false_and, exists_false, false_iff]
      omega

/-- After a call that splits an entry the index is not kept. -/
theorem Inv.not_indexKept (h : s.Inv st) {call : SeriesCall α μ} (hfits : s.Fits call)
    (hsplit : ¬ s.Unsplit call) : ¬ (s.step call).IndexKept := by
  cases call with
  | load beg stop walking => exact absurd trivial hsplit
  | input beg items mapping =>
    simp only [Unsplit, not_forall, not_not] at hsplit
    obtain ⟨hitems, e, he, hs⟩ := hsplit
    have hord : Ordered ({ s with processed := s.processed ++ [⟨beg, items, some mapping⟩] } :
        SeriesSink α μ).index := h.ordered
    obtain ⟨left, right, hindex, hleft, hright⟩ := hord.exists_split beg
    have hlen := length_pos_iff.mpr hitems
    -- the entry begins before the new one, so it stands on the left
    have hel : e ∈ left := by
      rcases mem_append.mp (hindex ▸ he) with hel | her
      · exact hel
      · have := hright e her
        unfold SeriesEntry.Splits at hs
        omega
    have hins := (insert_index hindex (hindex ▸ hord) hleft hright items mapping).1
    have hstep : (s.step (.input beg items mapping)).index = _ :=
      (congrArg index (stash_eq hord hitems (hfits hitems))).trans hins
    intro hkept
    have hsorted := hkept.sorted
    rw [hstep, inserted, filter_filter] at hsorted
    simp only [Bool.and_self] at hsorted
    exact not_ordered_inserted (by rw [newEntry_stop]; show beg < _; omega) hel hs hsorted

omit [EmptyCollection μ] in
theorem inv_new (identifier fetching : Bool) :
    (new identifier fetching : SeriesSink α μ).Inv (fun _ => none) :=
  ⟨⟨by simp [new], .nil⟩, rfl, fun _ => rfl⟩

/-- **The cache is kept exactly in the runs that split no entry.** As long as the total stays
    within the limit, the index is in order, counted and right about what was stored last in
    every state, and every `load` does what it owes, if and only if no `input` stores its items
    strictly inside of an existing entry. -/
theorem run_series (identifier fetching : Bool) (calls : List (SeriesCall α μ))
    (hfits : RunOk step Fits (new identifier fetching) calls) :
    RunKept (new identifier fetching) (fun _ => none) calls ↔
      RunOk step Unsplit (new identifier fetching) calls := by
  have key : ∀ (calls : List (SeriesCall α μ)) (s : SeriesSink α μ) (st : SeriesStore α μ),
      s.Inv st → RunOk step Fits s calls →
      (RunKept s st calls ↔ RunOk step Unsplit s calls) := by
    intro calls
    induction calls with
    | nil => exact fun s st h _ => ⟨fun _ => trivial, fun _ => h.indexKept⟩
    | cons call calls ih =>
      intro s st h hfits
      by_cases hcall : s.Unsplit call
      · obtain ⟨hinv, -, hkept⟩ := h.step hfits.1 hcall
        have := ih _ _ hinv hfits.2
        exact ⟨fun hrun => ⟨hcall, this.mp hrun.2.2⟩,
          fun hok => ⟨h.indexKept, hkept, this.mpr hok.2⟩⟩
      -- the index is broken right after the call
      refine ⟨fun hrun => ?_, fun hok => absurd hok.1 hcall⟩
      have hbroken := h.not_indexKept hfits.1 hcall
      have hnext := hrun.2.2
      cases calls with
      | nil => exact absurd hnext hbroken
      | cons _ _ => exact absurd hnext.1 hbroken
  exact key calls _ _ (inv_new identifier fetching) hfits

/-- Ten items, and then two in the middle of them. -/
def splitCalls : List (SeriesCall Nat (List String)) :=
  [.input 0 (replicate 10 (some 0)) ["a"], .input 3 [some 1, some 2] ["a"]]

/-- The second `input` leaves an entry from 0 to 8 and one from 3 to 5. -/
theorem splitCalls_not_kept :
    RunOk step Fits (new true false) splitCalls ∧
      ¬ RunKept (new true false) (fun _ => none) splitCalls := by
  refine ⟨⟨fun _ => by decide, fun _ => by decide, trivial⟩, fun hrun => ?_⟩
  have hsorted := hrun.2.2.2.2.sorted
  exact absurd hsorted (by unfold SeriesEntry.Before; decide)

/-- Two blocks one behind the other, a `load` across a gap and a block that covers all of it. -/
def keptCalls : List (SeriesCall Nat (List String)) :=
  [.input 0 [some 0, some 1] ["a"], .input 4 [some 2, none] ["b"], .load 1 6 false,
    .input 0 (replicate 6 (some 7)) ["c"], .load 0 8 true]

theorem run_series_keptCalls : RunOk step Fits (new false true) keptCalls ∧
    RunKept (new false true) (fun _ => none) keptCalls := by
  have hfits : RunOk step Fits (new false true) keptCalls :=
    ⟨fun _ => by decide, fun _ => by decide, fun _ _ _ => by decide, fun _ => by decide,
      fun _ _ _ => by decide, trivial⟩
  refine ⟨hfits, (run_series false true keptCalls hfits).mpr ?_⟩
  exact ⟨fun _ => by decide, fun _ => by decide, trivial, fun _ => by decide, trivial, trivial⟩

end SeriesSink

end Cockpit
