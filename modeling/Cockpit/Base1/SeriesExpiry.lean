import Cockpit.Base1.SeriesCache

namespace Cockpit

open Lib SeriesEntry List Nat SeriesSink

/-!
# What a series sink expires

The entries are numbered in the order of their insertion, and the linked list holds the numbers from
the oldest entry on that has not expired.

* `SeriesSink.Expired` — what goes is the oldest, and no more than has to;
* `SeriesSink.run_expiry` — every run of calls.
-/

variable {α μ : Type}

namespace SeriesSink

/-- The number of items is counted and within the limit, and whatever holds items can expire. -/
structure Exact (s : SeriesSink α μ) : Prop where
  count : s.count = itemCount s.index
  bounded : s.count ≤ s.limit
  /-- From `head` on, the list goes through the entries in the order of their insertion. -/
  chain : ∃ first ≤ s.created, s.chain = List.range' first (s.created - first)
  reached : ∀ e ∈ s.index, e.items ≠ [] → e.ident ∈ s.chain

/-- The entries with items that are not among the ones that expired. -/
def holding (index : List (SeriesEntry α μ)) (expired : List Nat) : List (SeriesEntry α μ) :=
  index.filter fun e => !e.items.isEmpty && !expired.contains e.ident

/-- As long as there are too many items, the oldest entry expires. -/
structure Expired (s s' : SeriesSink α μ) (n : Nat) : Prop where
  chain : s'.chain = s.chain.drop n
  index : holding s'.index [] = holding s.index (s.chain.take n)
  needed : ∀ m < n, (s.limit : Int) < itemCount (holding s.index (s.chain.take m))

/-! ### Truncation -/

/-- An entry of which `stash` takes something away. -/
structure Shrunk (e e' : SeriesEntry α μ) : Prop where
  ident : e'.ident = e.ident
  length : e'.items.length ≤ e.items.length

theorem Shrunk.refl (e : SeriesEntry α μ) : Shrunk e e := ⟨rfl, le_refl _⟩

variable {e e' : SeriesEntry α μ}

theorem Shrunk.items_ne_nil (h : Shrunk e e') (hne : e'.items ≠ []) :
    e.items ≠ [] := by
  have hpos := length_pos_iff.mpr hne
  exact length_pos_iff.mp (lt_of_lt_of_le hpos h.length)

variable {index : List (SeriesEntry α μ)}

theorem exists_shrunk {index' : List (SeriesEntry α μ)} (h : List.Forall₂ Shrunk index index') (he' : e' ∈ index') : ∃ e ∈ index, Shrunk e e' := by
  induction h with
  | nil => exact nomatch he'
  | cons hshrunk _ ih =>
    rcases mem_cons.mp he' with rfl | hmem
    · exact ⟨_, mem_cons_self, hshrunk⟩
    · obtain ⟨e, he, hshrunk⟩ := ih hmem
      exact ⟨e, mem_cons_of_mem _ he, hshrunk⟩

theorem itemCount_cons (e : SeriesEntry α μ) (index : List (SeriesEntry α μ)) :
    itemCount (e :: index) = e.items.length + itemCount index := by
  simp [itemCount]

/-- The loop takes away what it counts. -/
theorem truncateLoop_shrunk (beg stop : Int) (at_ : Nat) (i : Nat)
    (index : List (SeriesEntry α μ)) :
    List.Forall₂ Shrunk index (truncateLoop beg stop at_ i index).entries ∧
      itemCount (truncateLoop beg stop at_ i index).entries =
        itemCount index - (truncateLoop beg stop at_ i index).removed := by
  have hrefl : ∀ index : List (SeriesEntry α μ), List.Forall₂ Shrunk index index := fun index =>
    forall₂_same.mpr fun e _ => Shrunk.refl e
  induction index generalizing i with
  | nil => exact ⟨.nil, rfl⟩
  | cons e index ih =>
    obtain ⟨hshrunk, hcount⟩ := ih (i + 1)
    unfold truncateLoop
    split
    · refine ⟨.cons (.refl e) hshrunk, ?_⟩
      dsimp only
      rw [itemCount_cons, itemCount_cons, hcount]
      omega
    split
    · rename_i hmeets
      have hlen := e.length_truncated beg stop
      rw [truncated, overlap, if_pos hmeets, if_pos hmeets] at hlen
      rw [meets_iff] at hmeets
      refine ⟨.cons ⟨rfl, by omega⟩ hshrunk, ?_⟩
      dsimp only
      rw [itemCount_cons, itemCount_cons, hcount, hlen]
      omega
    split
    · exact ⟨hrefl _, by simp⟩
    refine ⟨.cons (.refl e) hshrunk, ?_⟩
    dsimp only
    rw [itemCount_cons, itemCount_cons, hcount]
    omega

/-- What is removed from the index is empty. -/
theorem holding_removeLoop (expired : List Nat) (last pos : Nat) (index : List (SeriesEntry α μ)) :
    holding (removeLoop last pos index) expired = holding index expired := by
  induction index generalizing pos with
  | nil => rfl
  | cons e index ih =>
    unfold removeLoop
    split
    · rfl
    split
    · rename_i hempty
      rw [ih]
      simp [holding, hempty]
    · unfold holding at ih ⊢
      rw [filter_cons, filter_cons, ih]

theorem itemCount_holding_nil (index : List (SeriesEntry α μ)) :
    itemCount (holding index []) = itemCount index := by
  simp [holding, itemCount_filter]

theorem mem_holding {expired : List Nat} :
    e ∈ holding index expired ↔ e ∈ index ∧ e.items ≠ [] ∧ e.ident ∉ expired := by
  simp [holding]

/-- What every call keeps. -/
structure Counted (s : SeriesSink α μ) : Prop where
  count : s.count = itemCount s.index
  chain : ∃ first ≤ s.created, s.chain = List.range' first (s.created - first)
  reached : ∀ e ∈ s.index, e.items ≠ [] → e.ident ∈ s.chain

variable {s : SeriesSink α μ}

/-- The new entry is counted, and at the end of the list. -/
theorem Counted.insert (h : s.Counted) (beg : Int)
    (items : List (Option α)) (mapping : μ) : (s.insert beg items mapping).Counted := by
  -- the index in front of the new entry, and from it on
  unfold SeriesSink.insert
  dsimp only
  generalize search s.index beg = at_
  obtain ⟨hshrunk, htruncated⟩ := truncateLoop_shrunk beg (beg + items.length) at_ (at_ - 1)
    (s.index.drop (at_ - 1))
  generalize truncateLoop beg (beg + items.length) at_ (at_ - 1) (s.index.drop (at_ - 1)) = t
    at hshrunk htruncated
  have hsplit : itemCount s.index =
      itemCount (s.index.take (at_ - 1)) + itemCount (s.index.drop (at_ - 1)) := by
    rw [← itemCount_append, take_append_drop]
  generalize hy : s.index.take (at_ - 1) ++ t.entries = y
  have hycount : itemCount y = itemCount s.index - t.removed := by
    rw [← hy, itemCount_append, htruncated, hsplit]
    omega
  have hyreached : ∀ e ∈ y, e.items ≠ [] → e.ident ∈ s.chain := by
    intro e he hne
    rw [← hy, mem_append] at he
    rcases he with hbef | hbeh
    · exact h.reached e (mem_of_mem_take hbef) hne
    · obtain ⟨old, hold, hshrunk⟩ := exists_shrunk hshrunk hbeh
      rw [hshrunk.ident]
      exact h.reached old (mem_of_mem_drop hold) (hshrunk.items_ne_nil hne)
  generalize hx : y.take at_ ++ (⟨beg, items, some mapping, s.created⟩ : SeriesEntry α μ) ::
    y.drop at_ = x
  have hxcount : itemCount x = itemCount y + items.length := by
    rw [← hx, itemCount_append, itemCount_cons]
    dsimp only
    have hsplit : itemCount y = itemCount (y.take at_) + itemCount (y.drop at_) := by
      rw [← itemCount_append, take_append_drop]
    rw [hsplit]
    omega
  have hxreached : ∀ e ∈ x, e.items ≠ [] → e.ident ∈ s.chain ++ [s.created] := by
    intro e he hne
    rw [← hx, mem_append, mem_cons] at he
    rw [mem_append, mem_singleton]
    rcases he with hbef | rfl | hbeh
    · exact .inl (hyreached e (mem_of_mem_take hbef) hne)
    · exact .inr rfl
    · exact .inl (hyreached e (mem_of_mem_drop hbeh) hne)
  -- the empty entries that are removed do not matter
  have hholding : holding (x.take (at_ - 1) ++ removeLoop t.stop (at_ - 1) (x.drop (at_ - 1))) [] =
      holding x [] := by
    have happend : ∀ a b : List (SeriesEntry α μ),
        holding (a ++ b) [] = holding a [] ++ holding b [] := fun a b => filter_append _ _
    rw [happend, holding_removeLoop, ← happend, take_append_drop]
  refine ⟨?_, ?_, fun e he hne => ?_⟩
  · dsimp only
    rw [← itemCount_holding_nil, hholding, itemCount_holding_nil, hxcount, hycount, h.count]
  · obtain ⟨first, hfirst, hchain⟩ := h.chain
    refine ⟨first, Nat.le_succ_of_le hfirst, ?_⟩
    dsimp only
    rw [hchain, succ_sub hfirst, range'_concat]
    simp [Nat.add_sub_cancel' hfirst]
  · have hmem := mem_holding.mpr ⟨he, hne, not_mem_nil⟩
    rw [hholding] at hmem
    exact hxreached e (mem_holding.mp hmem).1 hne

/-! ### Expiry -/

theorem itemCount_emptied (index : List (SeriesEntry α μ)) (ident : Nat) :
    itemCount (index.map fun e =>
        if e.ident == ident then { e with items := [], mapping := none } else e) =
      itemCount index - lengthOf index ident := by
  unfold lengthOf
  induction index with
  | nil => rfl
  | cons e index ih =>
    rw [map_cons, itemCount_cons, itemCount_cons, ih]
    by_cases he : e.ident = ident
    · simp [he]
    · simp [he]
      omega

theorem holding_emptied (index : List (SeriesEntry α μ)) (ident : Nat) (expired : List Nat) :
    holding (index.map fun e =>
        if e.ident == ident then { e with items := [], mapping := none } else e) expired =
      holding index (ident :: expired) := by
  induction index with
  | nil => rfl
  | cons e index ih =>
    unfold holding at ih ⊢
    rw [map_cons, filter_cons, filter_cons, ih]
    by_cases he : e.ident = ident <;> simp [he]

/-- The loop expires the oldest entries until the rest is within the limit. -/
theorem expireLoop_spec (chain : List Nat) : ∀ s : SeriesSink α μ, s.count = itemCount s.index →
    (s.expireLoop chain).count = itemCount (s.expireLoop chain).index ∧
      ((s.expireLoop chain).count ≤ s.limit ∨ (s.expireLoop chain).chain = []) ∧
      (s.expireLoop chain).limit = s.limit ∧ (s.expireLoop chain).created = s.created ∧
      ∃ n, (s.expireLoop chain).chain = chain.drop n ∧
        holding (s.expireLoop chain).index [] = holding s.index (chain.take n) ∧
        ∀ m < n, (s.limit : Int) < itemCount (holding s.index (chain.take m)) := by
  induction chain with
  | nil =>
    intro s hs
    exact ⟨hs, .inr rfl, rfl, rfl, 0, rfl, rfl, nofun⟩
  | cons ident chain ih =>
    intro s hs
    unfold expireLoop
    split
    · rename_i hover
      have hcount := itemCount_emptied s.index ident
      obtain ⟨h1, h2, h3, h4, n, hdrop, hindex, hneeded⟩ := ih { s with
        count := s.count - lengthOf s.index ident
        index := s.index.map
          (fun e => if e.ident == ident then { e with items := [], mapping := none } else e) }
        (by dsimp only; rw [hcount, hs])
      refine ⟨h1, h2, h3, h4, n + 1, hdrop, hindex.trans ?_, fun m hm => ?_⟩
      · exact holding_emptied _ _ _
      cases m with
      | zero =>
        rw [take_zero, itemCount_holding_nil, ← hs]
        exact hover
      | succ m =>
        have hthis := hneeded m (lt_of_succ_lt_succ hm)
        dsimp only at hthis
        rwa [holding_emptied] at hthis
    · rename_i hwithin
      exact ⟨hs, .inl (Int.not_lt.mp hwithin), rfl, rfl, 0, rfl, rfl, nofun⟩

theorem holding_dropWhile (index : List (SeriesEntry α μ)) (expired : List Nat) :
    holding (index.dropWhile (·.items.isEmpty)) expired = holding index expired := by
  induction index with
  | nil => rfl
  | cons e index ih =>
    rw [dropWhile_cons]
    split
    · rename_i hempty
      rw [ih]
      simp [holding, hempty]
    · rfl

/-- **Storing is exact**: afterwards everything is, and what expired had to. -/
theorem Counted.stash (h : s.Counted) {items : List (Option α)}
    (hitems : items ≠ []) (beg : Int) (mapping : μ) :
    (s.stash beg items mapping).Exact ∧
      ∃ n, Expired (s.insert beg items mapping) (s.stash beg items mapping) n := by
  have hinsert := h.insert beg items mapping
  have hlimit : (s.insert beg items mapping).limit = s.limit := rfl
  unfold SeriesSink.stash
  rw [if_neg (by simpa using hitems)]
  dsimp only
  generalize s.insert beg items mapping = s₁ at hinsert hlimit
  obtain ⟨hcount, hbounded, hsame, hcreat, n, hdrop, hindex, hneeded⟩ :=
    expireLoop_spec s₁.chain s₁ hinsert.count
  generalize s₁.expireLoop s₁.chain = s₂ at hcount hbounded hsame hcreat hdrop hindex
  have hreached : ∀ e ∈ s₂.index.dropWhile (·.items.isEmpty), e.items ≠ [] →
      e.ident ∈ s₂.chain := by
    intro e he hne
    have hmem := mem_holding.mpr ⟨he, hne, not_mem_nil⟩
    rw [holding_dropWhile, hindex] at hmem
    obtain ⟨hold, hne, hkept⟩ := mem_holding.mp hmem
    have hchain := hinsert.reached e hold hne
    rw [← take_append_drop n s₁.chain, mem_append] at hchain
    rw [hdrop]
    exact hchain.resolve_left hkept
  have htotal : s₂.count = itemCount (s₂.index.dropWhile (·.items.isEmpty)) := by
    rw [← itemCount_holding_nil, holding_dropWhile, itemCount_holding_nil]
    exact hcount
  refine ⟨⟨htotal, ?_, ?_, hreached⟩, n, hdrop, ?_, hneeded⟩
  · dsimp only
    rcases hbounded with hle | hempty
    · rw [hsame]
      exact hle
    -- nothing is held when the list is empty
    have hnone : holding (s₂.index.dropWhile (·.items.isEmpty)) [] = [] := by
      refine eq_nil_iff_forall_not_mem.mpr fun e he => ?_
      obtain ⟨hmem, hne, -⟩ := mem_holding.mp he
      have hchain := hreached e hmem hne
      rw [hempty] at hchain
      exact nomatch hchain
    rw [htotal, ← itemCount_holding_nil, hnone]
    exact Int.natCast_nonneg _
  · obtain ⟨first, hfirst, hchain⟩ := hinsert.chain
    dsimp only
    rw [hdrop, hchain, hcreat, drop_range']
    by_cases hn : n ≤ s₁.created - first
    · exact ⟨first + n, by omega, by rw [Nat.mul_one, Nat.sub_sub]⟩
    refine ⟨s₁.created, le_refl _, ?_⟩
    have hzero : s₁.created - first - n = 0 := by omega
    rw [hzero, Nat.sub_self]
    rfl
  · exact (holding_dropWhile _ _).trans hindex

/-! ### Runs -/

theorem Exact.counted (h : s.Exact) : s.Counted :=
  ⟨h.count, h.chain, h.reached⟩

/-- The logs do not matter. -/
theorem Exact.congr {s' : SeriesSink α μ} (h : s.Exact) (hlimit : s'.limit = s.limit)
    (hindex : s'.index = s.index) (hcount : s'.count = s.count) (hchain : s'.chain = s.chain)
    (hcreat : s'.created = s.created) : s'.Exact := by
  refine ⟨?_, ?_, ?_, ?_⟩
  · rw [hcount, hindex]
    exact h.count
  · rw [hcount, hlimit]
    exact h.bounded
  · rw [hchain, hcreat]
    exact h.chain
  · rw [hindex, hchain]
    exact h.reached

theorem Exact.stash (h : s.Exact) (beg : Int) (items : List (Option α))
    (mapping : μ) : (s.stash beg items mapping).Exact := by
  by_cases hitems : items = []
  · rw [SeriesSink.stash, if_pos (by simp [hitems])]
    exact h
  · exact (h.counted.stash hitems beg mapping).1

variable [EmptyCollection μ]

theorem Exact.fetch (h : s.Exact) (beg stop : Int) (walking : Bool) :
    (s.fetch beg stop walking).Exact := by
  unfold SeriesSink.fetch
  split
  · cases walking with
    | true => exact h.congr rfl rfl rfl rfl rfl
    | false => exact (h.stash beg _ {}).congr rfl rfl rfl rfl rfl
  · exact h

theorem Exact.step (h : s.Exact) (call : SeriesCall α μ) :
    (s.step call).Exact := by
  cases call with
  | input beg items mapping =>
    have hlogged : ({ s with processed := s.processed ++ [⟨beg, items, some mapping⟩] } :
        SeriesSink α μ).Exact := h.congr rfl rfl rfl rfl rfl
    exact hlogged.stash beg items mapping
  | load beg stop walking =>
    show (s.load beg stop walking).Exact
    have hfold : ∀ (ranges : List (Int × Int)) (s : SeriesSink α μ), s.Exact →
        (ranges.foldl (fun s r => s.fetch r.1 r.2 walking) s).Exact := by
      intro ranges
      induction ranges with
      | nil => exact fun _ h => h
      | cons range ranges ih => exact fun s h => ih _ (h.fetch range.1 range.2 walking)
    unfold load
    split
    · exact h
    dsimp only
    have hfetched := hfold (s.walk beg stop).fetches
      { s with processed := s.processed ++ (s.walk beg stop).chunks }
      (h.congr rfl rfl rfl rfl rfl)
    split
    · exact hfetched.fetch _ _ _
    · exact hfetched

/-- **The expiry is exact in every run**: the count is right and within the limit, what is held can
    expire, and an `input` lets go of the oldest entries, and of no more than it has to. -/
theorem run_expiry (identifier fetching : Bool) (calls : List (SeriesCall α μ)) :
    (run step (new identifier fetching) calls).Exact ∧
      ∀ (beg : Int) (items : List (Option α)) (mapping : μ), items ≠ [] → ∃ n, Expired
          ((run step (new identifier fetching) calls).insert beg items mapping)
          ((run step (new identifier fetching) calls).input beg items mapping) n := by
  have hnew : (new identifier fetching : SeriesSink α μ).Exact :=
    ⟨rfl, Int.natCast_nonneg _, ⟨0, le_refl _, rfl⟩, nofun⟩
  have hrun : (run step (new identifier fetching) calls : SeriesSink α μ).Exact := by
    generalize (new identifier fetching : SeriesSink α μ) = s at hnew
    induction calls generalizing s with
    | nil => exact hnew
    | cons call calls ih => exact ih _ (hnew.step call)
  refine ⟨hrun, fun beg items mapping hitems => ?_⟩
  generalize run step (new identifier fetching) calls = s at hrun
  have hlogged : ({ s with processed := s.processed ++ [⟨beg, items, some mapping⟩] } :
      SeriesSink α μ).Exact := hrun.congr rfl rfl rfl rfl rfl
  obtain ⟨-, n, hexpired⟩ := hlogged.counted.stash hitems beg mapping
  exact ⟨n, hexpired.chain, hexpired.index, hexpired.needed⟩

end SeriesSink

end Cockpit
