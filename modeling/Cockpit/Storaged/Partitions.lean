import Mathlib

namespace Cockpit.Storaged

open List Nat

/-!
# `get_partitions` of `src/pkg/storaged/utils.js`

The partitions of a device and the free space between them, on two levels.

* `lays_layout` — partitions that come one behind the other have the gaps between them;
* `getPartitions_exact` — so the result has every partition and every large gap of both levels,
  when no partition is empty.
-/

/-- What `process_level` looks at of a partition. -/
structure Partition where
  path : String
  offset : Nat
  size : Nat
  isContainer : Bool
  isContained : Bool
  deriving DecidableEq, Repr

def Partition.stop (p : Partition) : Nat := p.offset + p.size

/-- An element of the result. -/
inductive Item where
  | free (start size : Nat)
  | block (p : Partition)
  | container (p : Partition) (partitions : List Item)

/-- `append_free_space`, where a size below zero is zero. -/
def freeSpace (start size : Nat) : List Item :=
  if size ≥ 3 * 1024 * 1024 then [.free start size] else []

/-- The loop of `process_level`, where `inner` is the call for a container. -/
def levelLoop (inner : Nat → Nat → Option (List Item)) (level start size lastEnd : Nat) :
    List Partition → Option (List Item)
  | [] => some (freeSpace lastEnd (start + size - lastEnd))
  | p :: ps =>
    if level = 0 ∧ p.isContained then levelLoop inner level start size lastEnd ps
    else if level = 1 ∧ !p.isContained then levelLoop inner level start size lastEnd ps
    else if p.offset < start ∨ p.offset + p.size > start + size then
      levelLoop inner level start size lastEnd ps
    else
      (if p.isContainer then (inner p.offset p.size).map (.container p)
        else some (.block p)).bind fun item =>
      (levelLoop inner level start size (p.offset + p.size) ps).map fun rest =>
        freeSpace lastEnd (p.offset - lastEnd) ++ item :: rest

/-- `process_level`, or nothing when the calls nest deeper than `depth`. -/
def processLevel (partitions : List Partition) :
    Nat → Nat → Nat → Nat → Option (List Item)
  | 0, _, _, _ => none
  | depth + 1, level, start, size =>
    levelLoop (processLevel partitions depth (level + 1)) level start size start partitions

/-- `get_partitions` of a block device with its size. -/
def getPartitions (depth size : Nat) (partitions : List Partition) : Option (List Item) :=
  processLevel partitions depth 0 0 size

/-! ### Gaps -/

def Partition.Has (p : Partition) (x : Nat) : Prop := p.offset ≤ x ∧ x < p.stop

def Partition.Disjoint (p q : Partition) : Prop := ∀ x, ¬ (p.Has x ∧ q.Has x)

instance : Std.Symm Partition.Disjoint := ⟨fun _ _ h x hx => h x hx.symm⟩

def Partition.Inside (p c : Partition) : Prop := c.offset ≤ p.offset ∧ p.stop ≤ c.stop

instance (p c : Partition) : Decidable (p.Inside c) := inferInstanceAs (Decidable (_ ∧ _))

/-- A range between two offsets with no byte of a partition. -/
structure Gap (lo hi : Nat) (ps : List Partition) (start size : Nat) : Prop where
  pos : 0 < size
  lo_le : lo ≤ start
  le_hi : start + size ≤ hi
  unused : ∀ p ∈ ps, ∀ x, start ≤ x → x < start + size → ¬ p.Has x

/-- A gap that is part of no other one. -/
def MaximalGap (lo hi : Nat) (ps : List Partition) (start size : Nat) : Prop :=
  Gap lo hi ps start size ∧ ∀ start' size', Gap lo hi ps start' size' → start' ≤ start →
    start + size ≤ start' + size' → start' = start ∧ size' = size

variable {lo hi start size : Nat} {p : Partition} {ps : List Partition}

theorem maximalGap_nil :
    MaximalGap lo hi [] start size ↔ start = lo ∧ size = hi - lo ∧ 0 < size := by
  constructor
  · rintro ⟨hgap, hmax⟩
    have hlo := hgap.lo_le
    have hhi := hgap.le_hi
    have hpos := hgap.pos
    have hwhole : Gap lo hi [] lo (hi - lo) := ⟨by omega, le_refl lo, by omega, nofun⟩
    obtain ⟨rfl, rfl⟩ := hmax lo (hi - lo) hwhole hlo (by omega)
    exact ⟨rfl, rfl, hpos⟩
  · rintro ⟨rfl, rfl, hpos⟩
    refine ⟨⟨hpos, le_refl _, by omega, nofun⟩, fun start' size' hgap hle hge => ?_⟩
    have hlo := hgap.lo_le
    have hhi := hgap.le_hi
    omega

section

variable (hlo : lo ≤ p.offset) (hpos : 0 < p.size) (hhi : p.stop ≤ hi)
  (hps : ∀ q ∈ ps, p.stop ≤ q.offset)

include hlo hpos hhi hps

/-- A gap comes before the first partition, or behind it. -/
theorem gap_cons : Gap lo hi (p :: ps) start size ↔
    (0 < size ∧ lo ≤ start ∧ start + size ≤ p.offset) ∨ Gap p.stop hi ps start size := by
  unfold Partition.stop at *
  constructor
  · intro h
    have hsize := h.pos
    by_cases hbef : start + size ≤ p.offset
    · exact .inl ⟨hsize, h.lo_le, hbef⟩
    have hbeh : p.offset + p.size ≤ start := by
      by_contra hlt
      -- the first byte of both is in the partition
      have hfirst := h.unused p mem_cons_self (max start p.offset) (by omega) (by omega)
      exact hfirst ⟨by omega, show _ < p.offset + p.size by omega⟩
    exact .inr ⟨hsize, hbeh, h.le_hi, fun q hq => h.unused q (mem_cons_of_mem p hq)⟩
  · rintro (⟨hsize, hstart, hbef⟩ | h)
    · refine ⟨hsize, hstart, by omega, fun q hq x _ hx hhas => ?_⟩
      have hle := hhas.1
      rcases mem_cons.mp hq with rfl | hq
      · omega
      · have := hps q hq
        omega
    · have hbeh := h.lo_le
      refine ⟨h.pos, by omega, h.le_hi, fun q hq x hx hlt hhas => ?_⟩
      rcases mem_cons.mp hq with rfl | hq
      · have hstop : x < q.offset + q.size := hhas.2
        omega
      · exact h.unused q hq x hx hlt hhas

theorem maximalGap_cons : MaximalGap lo hi (p :: ps) start size ↔
    (start = lo ∧ size = p.offset - lo ∧ 0 < size) ∨ MaximalGap p.stop hi ps start size := by
  have hgap : ∀ {start size}, Gap lo hi (p :: ps) start size ↔ _ := gap_cons hlo hpos hhi hps
  have hstop : p.stop = p.offset + p.size := rfl
  constructor
  · rintro ⟨h, hmax⟩
    rcases hgap.mp h with ⟨hsize, hstart, hbef⟩ | h
    · obtain ⟨rfl, rfl⟩ := hmax lo (p.offset - lo)
        (hgap.mpr (.inl ⟨by omega, le_refl lo, by omega⟩)) hstart (by omega)
      exact .inl ⟨rfl, rfl, hsize⟩
    · exact .inr ⟨h, fun start' size' h' =>
        hmax start' size' (hgap.mpr (.inr h'))⟩
  · rintro (⟨rfl, rfl, hsize⟩ | ⟨h, hmax⟩)
    · refine ⟨hgap.mpr (.inl ⟨hsize, le_refl _, by omega⟩),
        fun start' size' h' hle hge => ?_⟩
      rcases hgap.mp h' with ⟨-, hstart, hbef⟩ | h'
      · omega
      · have := h'.lo_le
        omega
    · have hbeh := h.lo_le
      have hsize := h.pos
      refine ⟨hgap.mpr (.inr h), fun start' size' h' hle hge => ?_⟩
      rcases hgap.mp h' with ⟨-, -, hbef⟩ | h'
      · omega
      · exact hmax start' size' h' hle hge

end

/-! ### The layout of one level -/

def Item.offset : Item → Nat
  | .free start _ => start
  | .block p | .container p _ => p.offset

def Item.stop : Item → Nat
  | .free start size => start + size
  | .block p | .container p _ => p.stop

def Item.partition? : Item → Option Partition
  | .free _ _ => none
  | .block p | .container p _ => some p

/-- Containers, and only they, have contents. -/
def Item.Fits : Item → Prop
  | .free _ _ => True
  | .block p => p.isContainer = false
  | .container p _ => p.isContainer

/-- What `ps` look like between two offsets: each of them once and in order, and the large gaps. -/
structure Lays (lo hi : Nat) (ps : List Partition) (items : List Item) : Prop where
  listed : items.filterMap Item.partition? = ps
  apart : items.Pairwise fun a b => a.stop ≤ b.offset
  free : ∀ start size, .free start size ∈ items ↔
    MaximalGap lo hi ps start size ∧ 3 * 1024 * 1024 ≤ size
  kinds : ∀ item ∈ items, item.Fits

/-- The item of a partition. -/
def Partition.item (contents : Partition → List Item) (p : Partition) : Item :=
  if p.isContainer then .container p (contents p) else .block p

/-- The loop over the partitions of a level only, with the contents of each container. -/
def layout (contents : Partition → List Item) (hi lastEnd : Nat) : List Partition → List Item
  | [] => freeSpace lastEnd (hi - lastEnd)
  | p :: ps => freeSpace lastEnd (p.offset - lastEnd) ++ p.item contents ::
    layout contents hi p.stop ps

theorem mem_freeSpace {item : Item} :
    item ∈ freeSpace start size ↔ item = .free start size ∧ 3 * 1024 * 1024 ≤ size := by
  unfold freeSpace
  split
  · rename_i hlarge
    exact mem_singleton.trans (and_iff_left hlarge).symm
  · rename_i hsmall
    exact ⟨nofun, fun h => absurd h.2 hsmall⟩

variable {contents : Partition → List Item}

/-- What an item has of its partition. -/
theorem item_spec (contents : Partition → List Item) (p : Partition) :
    (p.item contents).offset = p.offset ∧ (p.item contents).stop = p.stop ∧
      (p.item contents).partition? = some p ∧ (p.item contents).Fits := by
  unfold Partition.item
  cases hkind : p.isContainer with
  | false => exact ⟨rfl, rfl, rfl, hkind⟩
  | true => exact ⟨rfl, rfl, rfl, hkind⟩

variable {items : List Item}

/-- A free range is known by its gap, and a partition by what is listed. -/
theorem Lays.le_offset (h : Lays lo hi ps items)
    (hlo : ∀ p ∈ ps, lo ≤ p.offset) : ∀ item ∈ items, lo ≤ item.offset := by
  have hlisted : ∀ item ∈ items, ∀ p, item.partition? = some p → lo ≤ p.offset :=
    fun item hitem p hp => hlo p (h.listed ▸ mem_filterMap.mpr ⟨item, hitem, hp⟩)
  intro item hitem
  cases item with
  | free start size => exact ((h.free start size).mp hitem).1.1.lo_le
  | block p | container p inner => exact hlisted _ hitem p rfl

theorem lays_freeSpace : Lays lo hi [] (freeSpace lo (hi - lo)) := by
  constructor
  · unfold freeSpace
    split <;> rfl
  · unfold freeSpace
    split
    · exact pairwise_singleton ..
    · exact .nil
  · intro start size
    rw [mem_freeSpace, maximalGap_nil, Item.free.injEq]
    omega
  · intro item hitem
    rw [(mem_freeSpace.mp hitem).1]
    trivial

/-- One partition more, in front. -/
theorem Lays.cons (h : Lays p.stop hi ps items) (hlo : lo ≤ p.offset)
    (hpos : 0 < p.size) (hhi : p.stop ≤ hi) (hps : ∀ q ∈ ps, p.stop ≤ q.offset) :
    Lays lo hi (p :: ps) (freeSpace lo (p.offset - lo) ++ p.item contents :: items) := by
  have hbeh := h.le_offset hps
  obtain ⟨hoff, hstop, hpartition, hfits⟩ := item_spec contents p
  have hle : p.offset ≤ p.stop := Nat.le_add_right ..
  constructor
  · have hnone : (freeSpace lo (p.offset - lo)).filterMap Item.partition? = [] := by
      unfold freeSpace
      split <;> rfl
    rw [filterMap_append, hnone, nil_append, filterMap_cons_some hpartition, h.listed]
  · refine pairwise_append.mpr ⟨?_, pairwise_cons.mpr ⟨?_, h.apart⟩, ?_⟩
    · have hfree : Lays lo p.offset [] (freeSpace lo (p.offset - lo)) := lays_freeSpace
      exact hfree.apart
    · rw [hstop]
      exact hbeh
    intro a ha b hb
    obtain ⟨rfl, -⟩ := mem_freeSpace.mp ha
    show lo + (p.offset - lo) ≤ b.offset
    rcases mem_cons.mp hb with rfl | hb
    · rw [hoff]
      omega
    · have := hbeh b hb
      omega
  · intro start size
    rw [mem_append, mem_cons, mem_freeSpace, maximalGap_cons hlo hpos hhi hps, h.free,
      Item.free.injEq]
    have hne : Item.free start size ≠ p.item contents := by
      intro heq
      rw [← heq] at hpartition
      cases hpartition
    simp only [hne, false_or]
    constructor
    · rintro (⟨⟨rfl, rfl⟩, hlarge⟩ | hrest)
      · exact ⟨.inl ⟨rfl, rfl, by omega⟩, hlarge⟩
      · exact ⟨.inr hrest.1, hrest.2⟩
    · rintro ⟨⟨rfl, rfl, -⟩ | hrest, hlarge⟩
      · exact .inl ⟨⟨rfl, rfl⟩, hlarge⟩
      · exact .inr ⟨hrest, hlarge⟩
  · intro item hitem
    rcases mem_append.mp hitem with hitem | hitem
    · rw [(mem_freeSpace.mp hitem).1]
      trivial
    rcases mem_cons.mp hitem with rfl | hitem
    · exact hfits
    · exact h.kinds item hitem

/-- **A level is laid out right**, when its partitions come one behind the other. -/
theorem lays_layout (hsorted : ps.Pairwise fun p q => p.stop ≤ q.offset)
    (hin : ∀ p ∈ ps, lo ≤ p.offset ∧ 0 < p.size ∧ p.stop ≤ hi) :
    Lays lo hi ps (layout contents hi lo ps) := by
  induction ps generalizing lo with
  | nil => exact lays_freeSpace
  | cons p ps ih =>
    obtain ⟨hps, hsorted⟩ := pairwise_cons.mp hsorted
    obtain ⟨⟨hlo, hpos, hhi⟩, hin⟩ := forall_mem_cons.mp hin
    exact (ih hsorted fun q hq => ⟨hps q hq, (hin q hq).2⟩).cons hlo hpos hhi hps

theorem contents_of_mem
    (h : .container p items ∈ layout contents hi lo ps) : items = contents p := by
  induction ps generalizing lo with
  | nil => exact nomatch (mem_freeSpace.mp h).1
  | cons q ps ih =>
    rcases mem_append.mp h with hfree | h
    · exact nomatch (mem_freeSpace.mp hfree).1
    rcases mem_cons.mp h with heq | h
    · unfold Partition.item at heq
      split at heq <;> cases heq
      rfl
    · exact ih h

/-! ### Both levels -/

/-- The tests of the loop. -/
def Partition.listed (level start size : Nat) (p : Partition) : Bool :=
  !(level = 0 ∧ p.isContained) && !(level = 1 ∧ !p.isContained) &&
    !(p.offset < start ∨ p.offset + p.size > start + size)

/-- The loop lays out the partitions that pass the tests. -/
theorem levelLoop_eq {inner : Nat → Nat → Option (List Item)} {level : Nat} (lastEnd : Nat)
    (hinner : ∀ p ∈ ps, p.listed level start size → p.isContainer →
      inner p.offset p.size = some (contents p)) :
    levelLoop inner level start size lastEnd ps =
      some (layout contents (start + size) lastEnd (ps.filter (·.listed level start size))) := by
  induction ps generalizing lastEnd with
  | nil => rfl
  | cons p ps ih =>
    have hrest := fun lastEnd => ih lastEnd fun q hq => hinner q (mem_cons_of_mem p hq)
    unfold levelLoop
    by_cases hcontained : level = 0 ∧ p.isContained
    · rw [if_pos hcontained, filter_cons_of_neg (by simp [Partition.listed, hcontained]), hrest]
    by_cases htop : level = 1 ∧ !p.isContained
    · rw [if_neg hcontained, if_pos htop, filter_cons_of_neg (by simp_all [Partition.listed]), hrest]
    by_cases hout : p.offset < start ∨ p.offset + p.size > start + size
    · rw [if_neg hcontained, if_neg htop, if_pos hout,
        filter_cons_of_neg (by simp [Partition.listed, hout]), hrest]
    have hlisted : p.listed level start size := by
      rw [Partition.listed, decide_eq_false hcontained, decide_eq_false htop, decide_eq_false hout]
      rfl
    have hitem : (if p.isContainer then (inner p.offset p.size).map (.container p)
        else some (.block p)) = some (p.item contents) := by
      unfold Partition.item
      split
      · rw [hinner p mem_cons_self hlisted ‹_›]
        rfl
      · rfl
    rw [if_neg hcontained, if_neg htop, if_neg hout, filter_cons_of_pos hlisted, hitem, hrest]
    rfl

/-- The partitions of a device. -/
structure Valid (size : Nat) (ps : List Partition) : Prop where
  sorted : ps.Pairwise fun p q => p.offset ≤ q.offset
  inside : ∀ p ∈ ps, p.stop ≤ size
  top : (ps.filter (!·.isContained)).Pairwise Partition.Disjoint
  contained : (ps.filter (·.isContained)).Pairwise Partition.Disjoint
  plain : ∀ p ∈ ps, p.isContained → p.isContainer = false
  within : ∀ p ∈ ps, p.isContained → ∃ c ∈ ps, c.isContainer ∧ p.Inside c

/-- The contents of a container. -/
def contentsOf (ps : List Partition) (c : Partition) : List Partition :=
  (ps.filter (·.isContained)).filter (·.Inside c)

/-- The result is exact on both levels, and calls nest two deep at most. -/
structure Exact (size : Nat) (ps : List Partition) (items : List Item) : Prop where
  terminates : ∀ depth, 2 ≤ depth → getPartitions depth size ps = some items
  top : Lays 0 size (ps.filter (!·.isContained)) items
  inner : ∀ c items', .container c items' ∈ items → Lays c.offset c.stop (contentsOf ps c) items'
  once : ∀ p ∈ ps, p.isContained → ∃! c, c ∈ ps ∧ c.isContainer ∧ p.Inside c

/-- Partitions in order that share no byte come one behind the other. -/
theorem pairwise_stop_le (hsorted : ps.Pairwise fun p q => p.offset ≤ q.offset)
    (hdisjoint : ps.Pairwise Partition.Disjoint) (hpos : ∀ p ∈ ps, 0 < p.size) :
    ps.Pairwise fun p q => p.stop ≤ q.offset := by
  refine (hsorted.and hdisjoint).imp_of_mem fun {p q} _ hq h => ?_
  by_contra hlt
  exact h.2 q.offset ⟨⟨h.1, Nat.lt_of_not_le hlt⟩, Nat.le_refl _, Nat.lt_add_of_pos_right (hpos q hq)⟩

/-- **The partition layout is exact**, when no partition is empty. -/
theorem getPartitions_exact (h : Valid size ps) (hpos : ∀ p ∈ ps, 0 < p.size) :
    ∃ items, Exact size ps items := by
  have htop := pairwise_stop_le (h.sorted.filter _) h.top fun p hp => hpos p (mem_filter.mp hp).1
  have hcontained := pairwise_stop_le (h.sorted.filter _) h.contained
    fun p hp => hpos p (mem_filter.mp hp).1
  let inner (c : Partition) := layout (fun _ => []) c.stop c.offset (contentsOf ps c)
  have hinner : ∀ depth c, processLevel ps (depth + 1) 1 c.offset c.size = some (inner c) := by
    intro depth c
    have hwithin : ps.filter (·.listed 1 c.offset c.size) = contentsOf ps c := by
      rw [contentsOf, filter_filter]
      refine filter_congr fun p _ => ?_
      cases hkind : p.isContained with
      | false => simp [Partition.listed, hkind]
      | true =>
        rw [Bool.eq_iff_iff, Partition.listed, hkind, Bool.and_true, decide_eq_true_iff]
        simp [Partition.Inside, Partition.stop]
    show levelLoop _ 1 c.offset c.size c.offset ps =
      some (layout (fun _ => []) (c.offset + c.size) c.offset (contentsOf ps c))
    rw [← hwithin]
    refine levelLoop_eq c.offset fun p hp hlisted hcontainer => ?_
    rw [h.plain p hp (by simp_all [Partition.listed])] at hcontainer
    cases hcontainer
  refine ⟨layout inner size 0 (ps.filter (!·.isContained)), fun depth hdepth => ?_, ?_, ?_, ?_⟩
  · obtain ⟨depth, rfl⟩ := Nat.exists_eq_add_of_le' hdepth
    have hlisted : ps.filter (·.listed 0 0 size) = ps.filter (!·.isContained) := by
      refine filter_congr fun p hp => ?_
      have hinside : p.offset + p.size ≤ size := h.inside p hp
      simp [Partition.listed, hinside]
    show levelLoop (processLevel ps (depth + 1) 1) 0 0 size 0 ps = _
    rw [levelLoop_eq 0 fun p _ _ _ => hinner depth p, hlisted, zero_add]
  · exact lays_layout htop fun p hp =>
      ⟨zero_le _, hpos p (mem_filter.mp hp).1, h.inside p (mem_filter.mp hp).1⟩
  · intro c items' hitem
    rw [contents_of_mem hitem]
    refine lays_layout (hcontained.filter _) fun p hp => ?_
    obtain ⟨hmem, hinside⟩ := mem_filter.mp hp
    obtain ⟨hle, hstop⟩ := of_decide_eq_true hinside
    exact ⟨hle, hpos p (mem_filter.mp hmem).1, hstop⟩
  · intro p hp hkind
    obtain ⟨c, hc, hcontainer, hinside⟩ := h.within p hp hkind
    refine ⟨c, ⟨hc, hcontainer, hinside⟩, fun c' ⟨hc', hcontainer', hinside'⟩ => ?_⟩
    by_contra hne
    have hmem : ∀ c ∈ ps, c.isContainer → c ∈ ps.filter (!·.isContained) := by
      intro c hc hcontainer
      refine mem_filter.mpr ⟨hc, ?_⟩
      cases hcontained : c.isContained with
      | false => rfl
      | true =>
        rw [h.plain c hc hcontained] at hcontainer
        cases hcontainer
    have hdisjoint : c'.Disjoint c :=
      h.top.forall (hmem c' hc' hcontainer') (hmem c hc hcontainer) hne
    have hlt : p.offset < p.stop := Nat.lt_add_of_pos_right (hpos p hp)
    exact hdisjoint p.offset ⟨⟨hinside'.1, Nat.lt_of_lt_of_le hlt hinside'.2⟩,
      hinside.1, Nat.lt_of_lt_of_le hlt hinside.2⟩

/-- A partition inside an extended one. -/
theorem getPartitions_exact_extended : ∃ items, Exact (16 * 1024 * 1024)
    [⟨"/p1", 1024 * 1024, 8 * 1024 * 1024, true, false⟩,
      ⟨"/p5", 2 * 1024 * 1024, 1024 * 1024, false, true⟩] items :=
  getPartitions_exact ⟨by decide, by decide, pairwise_singleton .., pairwise_singleton ..,
    by decide, by decide⟩ (by decide)

/-- An empty partition hides the one that is listed before it. -/
theorem not_exact : ¬ ∀ size ps, Valid size ps → ∃ items, Exact size ps items := by
  intro h
  obtain ⟨items, hexact⟩ := h (16 * 1024 * 1024)
    [⟨"/p1", 0, 10 * 1024 * 1024, false, false⟩, ⟨"/p2", 0, 0, false, false⟩]
    ⟨by decide, by decide, by
      refine pairwise_cons.mpr ⟨fun q hq x hx => ?_, pairwise_singleton ..⟩
      cases mem_singleton.mp hq
      exact not_lt_zero x hx.2.2, .nil, by decide, by decide⟩
  -- the free range is the whole device
  have hitems := Option.some.inj (hexact.terminates 2 (le_refl 2))
  have hfree : .free 0 (16 * 1024 * 1024) ∈ items := by
    rw [← hitems]
    simp [freeSpace]
  have hgap := ((hexact.top.free ..).mp hfree).1.1
  exact hgap.unused _ mem_cons_self 0 (le_refl 0) (by decide) ⟨le_refl 0, by decide⟩

end Cockpit.Storaged
