import Cockpit.Lib.Run
import Cockpit.Base1.MetricsChannel

namespace Cockpit

open Lib List Option CockpitMetrics MetricInfo MetaDesc Nat

/-!
# What is computed for a metrics channel and what is received

* `CockpitMetrics.metricLoop_spec` — what `build_json_data` sends, against the frame before;
* `MetricsPair.run_metrics` — the channel is lossless exactly in the runs in which no metric loses
  instances from one frame to the next, and nothing outside of the buffers is read.
-/

variable {V α : Type}

/-! ### Arrays with holes -/

/-- An array for `n` places: at each one there is what `R` allows, and behind the end of the array
    and where it was padded there is nothing. -/
structure Sparse (R : Nat → Option α → Prop) (n : Nat) (array : List α) : Prop where
  length : array.length ≤ n
  rel : ∀ k, k < n → R k array[k]?

variable {R : Nat → Option α → Prop}

theorem Sparse.nil : Sparse R 0 [] :=
  ⟨le_refl _, fun k hk => absurd hk (not_lt_zero k)⟩

variable {n : Nat} {array : List α}

theorem Sparse.imp {R' : Nat → Option α → Prop} (h : Sparse R n array)
    (himp : ∀ k, k < n → ∀ x, R k x → R' k x) : Sparse R' n array :=
  ⟨h.length, fun k hk => himp k hk _ (h.rel k hk)⟩

/-- Nothing is pushed for a place. -/
theorem Sparse.skip (h : Sparse R n array) (hnone : R n none) : Sparse R (n + 1) array := by
  refine ⟨le_succ_of_le h.length, ?_⟩
  intro k hk
  rcases Nat.lt_succ_iff_lt_or_eq.mp hk with hk | rfl
  · exact h.rel k hk
  · rw [getElem?_eq_none h.length]
    exact hnone

/-- `push_array_at` pads the array up to the place. -/
theorem Sparse.push {array : Option (List α)} {null node : α}
    (h : Sparse R n (array.getD [])) (hnull : ∀ k, k < n → R k none → R k (some null))
    (hnode : R n (some node)) :
    Sparse R (n + 1) ((pushArrayAt null array n node).getD []) := by
  have hlen := h.length
  unfold pushArrayAt
  simp only [getD_some]
  set a := array.getD [] with ha
  constructor
  · simp only [length_append, length_replicate, length_singleton]
    omega
  intro k hk
  rcases Nat.lt_succ_iff_lt_or_eq.mp hk with hk | rfl
  · rw [getElem?_append_left (by simp; omega)]
    by_cases hka : k < a.length
    · rw [getElem?_append_left hka]
      exact h.rel k hk
    -- a place that was padded
    have hnone := h.rel k hk
    rw [getElem?_eq_none (by omega)] at hnone
    rw [getElem?_append_right (by omega), getElem?_replicate, if_pos (by omega)]
    exact hnull k hk hnone
  rw [getElem?_append_right (by simp; omega)]
  have hidx : k - (a ++ replicate (k - a.length) null).length = 0 := by
    simp
    omega
  rw [hidx]
  exact hnode

/-- The first place of an array, and the others. -/
theorem Sparse.cons {R : Nat → Option α → Prop} {n : Nat} {array : List α}
    (h : Sparse R (n + 1) array) :
    R 0 array[0]? ∧ Sparse (fun k => R (k + 1)) n array.tail := by
  refine ⟨h.rel 0 (succ_pos n), ?_, ?_⟩
  · have := h.length
    rw [length_tail]
    omega
  · intro k hk
    rw [getElem?_tail]
    exact h.rel (k + 1) (succ_lt_succ hk)

/-! ### Decompression -/

/-- What may be sent for a cell: its value, or nothing where it is as in the frame before. -/
def CellRel (last full : Option (MetricCell V)) : Option (MetricCell V) → Prop
  | none | some .null => full = last
  | some cell => full = some cell

/-- An item that is neither `null` nor `undefined`. -/
def MetricItem.Proper : MetricItem V → Prop
  | .cell .null | .cell .undefined => False
  | _ => True

/-- The cells of a metric with instances. -/
def cellsOf : Option (MetricItem V) → List (MetricCell V)
  | some (.array cells) => cells
  | _ => []

/-- What may be sent for a metric. -/
def ItemRel (last : Option (MetricItem V)) (full : MetricItem V) : Option (MetricItem V) → Prop
  | none | some (.cell .null) => last = some full
  | some (.cell cell) => full = .cell cell ∧ full.Proper
  | some (.array sent) => ∃ cells, full = .array cells ∧
    Sparse (fun k => CellRel (cellsOf last)[k]? cells[k]?) cells.length sent

/-- No metric has fewer instances than before. -/
def NoneShrunk (last full : MetricFrame V) : Prop :=
  ∀ (k : Nat) (cells cells' : List (MetricCell V)), last[k]? = some (.array cells) →
    full[k]? = some (.array cells') → cells.length ≤ cells'.length

namespace MetricsReceiver

theorem length_fillCells (last data : List (MetricCell V)) :
    (fillCells last data).length = max last.length data.length := by
  fun_induction fillCells last data with
  | case1 last => simp
  | case2 data ih | case3 cell data _ ih => simp_all
  | case4 l last data ih | case5 l last cell data _ ih => simp [ih]

/-- What is in the cells after decompression. -/
theorem getElem?_fillCells (last data : List (MetricCell V)) (k : Nat) :
    (fillCells last data)[k]? =
      match data[k]? with
      | none => last[k]?
      | some .null => some (last[k]?.getD .undefined)
      | some cell => some cell := by
  fun_induction fillCells last data generalizing k with
  | case1 last => simp
  | case2 data ih => cases k <;> simp [ih]
  | case3 cell data hcell ih =>
    cases k with
    | zero => cases cell <;> simp_all
    | succ k => simp [ih]
  | case4 l last data ih => cases k <;> simp [ih]
  | case5 l last cell data hcell ih =>
    cases k with
    | zero => cases cell <;> simp_all
    | succ k => simp [ih]

variable {full : List (MetricCell V)}

/-- **Cells are lossless** exactly when the array before was not longer. -/
theorem fillCells_eq_iff {last data : List (MetricCell V)}
    (h : Sparse (fun k => CellRel last[k]? full[k]?) full.length data) :
    fillCells last data = full ↔ last.length ≤ full.length := by
  constructor
  · intro heq
    have hlen := length_fillCells last data
    rw [heq] at hlen
    omega
  intro hle
  apply ext_getElem?
  intro k
  rw [getElem?_fillCells]
  by_cases hk : k < full.length
  · have hrel := h.rel k hk
    split
    · rename_i hd
      simp only [hd] at hrel
      exact hrel.symm
    · rename_i hd
      simp only [hd] at hrel
      rw [← hrel, getElem?_eq_getElem hk, getD_some]
    rename_i cell hcell hd
    rw [hd] at hrel
    cases cell with
    | null => exact absurd rfl hcell
    | undefined | false_ | number v => exact hrel.symm
  · have hd := h.length
    rw [getElem?_eq_none (by omega), getElem?_eq_none (show full.length ≤ k by omega)]
    exact getElem?_eq_none (by omega)

/-- Against nothing, everything is sent. -/
theorem eq_of_sparse_cells {data : List (MetricCell V)}
    (h : Sparse (fun k => CellRel ([] : List (MetricCell V))[k]? full[k]?) full.length data) :
    data = full := by
  apply ext_getElem?
  intro k
  by_cases hk : k < full.length
  · have hrel := h.rel k hk
    have hget := getElem?_eq_getElem hk
    unfold CellRel at hrel
    split at hrel
    · rw [hget] at hrel
      cases hrel
    · rw [hget] at hrel
      cases hrel
    · rename_i hd
      rw [hrel, ← hd]
  · have hd := h.length
    rw [getElem?_eq_none (by omega), getElem?_eq_none (by omega)]

variable {data : MetricFrame V}

theorem eq_of_sparse_nil {full : MetricFrame V}
    (h : Sparse (fun k x => ∀ item, full[k]? = some item →
      ItemRel ([] : MetricFrame V)[k]? item x) full.length data) : data = full := by
  apply ext_getElem?
  intro k
  by_cases hk : k < full.length
  · have hget := getElem?_eq_getElem hk
    have hrel := h.rel k hk full[k] hget
    rw [hget]
    generalize full[k] = item at hrel
    generalize data[k]? = sent at hrel ⊢
    unfold ItemRel at hrel
    split at hrel
    · cases hrel
    · cases hrel
    · rw [hrel.1]
    · obtain ⟨cells, rfl, hsparse⟩ := hrel
      rw [eq_of_sparse_cells hsparse]
  · have hd := h.length
    rw [getElem?_eq_none (by omega), getElem?_eq_none (by omega)]

variable {sent : MetricItem V}

/-- What is sent for a metric is nothing or something proper. -/
theorem sent_proper {last : Option (MetricItem V)} {full : MetricItem V}
    (h : ItemRel last full (some sent)) : sent = .cell .null ∨ sent.Proper := by
  rcases sent with (_ | _ | _ | _) | sent
  · exact absurd h.2 (by rw [h.1]; exact id)
  · exact .inl rfl
  · exact .inr trivial
  · exact .inr trivial
  · exact .inr trivial

variable {last : MetricItem V}

/-- **A metric is lossless** exactly when it has not lost instances. -/
theorem fillItem_eq_iff {full : MetricItem V} (hlast : last.Proper)
    (h : ItemRel (some last) full (some sent)) :
    fillItem last sent = some full ↔
      ∀ cells cells', last = .array cells → full = .array cells' → cells.length ≤ cells'.length := by
  cases sent with
  | cell cell =>
    cases cell with
    | null =>
      have heq : last = full := some.inj h
      refine ⟨?_, fun _ => congrArg some heq⟩
      rintro - cells cells' rfl hfull
      rw [← heq, MetricItem.array.injEq] at hfull
      exact le_of_eq (congrArg length hfull)
    | undefined => exact absurd h.2 (by rw [h.1]; exact id)
    | false_ | number v =>
      refine ⟨?_, fun _ => congrArg some h.1.symm⟩
      rintro - cells cells' - hfull
      rw [h.1] at hfull
      cases hfull
  | array sent =>
    obtain ⟨full', rfl, hsparse⟩ := h
    have hiff := fillCells_eq_iff hsparse
    cases last with
    | array last =>
      show some (MetricItem.array (fillCells last sent)) = _ ↔ _
      rw [some.injEq, MetricItem.array.injEq]
      refine hiff.trans ⟨?_, fun hle => hle last full' rfl rfl⟩
      intro hle cells cells' h₁ h₂
      rw [MetricItem.array.injEq] at h₁ h₂
      rw [← h₁, ← h₂]
      exact hle
    | cell cell =>
      have heq : fillCells [] sent = full' := hiff.mpr (zero_le _)
      cases cell with
      | null | undefined => exact absurd hlast id
      | false_ | number v =>
        show some (MetricItem.array (fillCells [] sent)) = _ ↔ _
        rw [heq]
        simp

/-- **A frame is lossless** exactly when no metric has lost instances. -/
theorem fillFrame_eq_iff {last full : MetricFrame V} (hlen : last.length = full.length)
    (hlast : ∀ item ∈ last, item.Proper)
    (h : Sparse (fun k x => ∀ item, full[k]? = some item → ItemRel last[k]? item x)
      full.length data) :
    fillFrame last data = some full ↔ NoneShrunk last full := by
  induction full generalizing last data with
  | nil =>
    have hd := eq_nil_of_length_eq_zero (le_zero.mp h.length)
    have hl := eq_nil_of_length_eq_zero hlen
    rw [hd, hl]
    refine ⟨fun _ k cells cells' hk => by simp at hk, fun _ => rfl⟩
  | cons item full ih =>
    obtain ⟨l, last, rfl⟩ : ∃ l ls, last = l :: ls := by
      cases last with
      | nil => cases hlen
      | cons l ls => exact ⟨l, ls, rfl⟩
    obtain ⟨hitem, htail⟩ := h.cons
    have hitem : ItemRel (some l) item data[0]? := hitem item rfl
    have ih := ih (succ.inj hlen) (fun i hi => hlast i (mem_cons_of_mem l hi)) htail
    -- the first metric, and the others
    have hsplit : NoneShrunk (l :: last) (item :: full) ↔ (∀ cells cells', l = .array cells →
        item = .array cells' → cells.length ≤ cells'.length) ∧ NoneShrunk last full := by
      constructor
      · intro hn
        refine ⟨fun cells cells' h₁ h₂ => hn 0 cells cells' (by rw [h₁]; rfl) (by rw [h₂]; rfl), ?_⟩
        exact fun k cells cells' h₁ h₂ => hn (k + 1) cells cells' h₁ h₂
      rintro ⟨h0, hn⟩ k cells cells' h₁ h₂
      cases k with
      | zero => exact h0 cells cells' (some.inj h₁) (some.inj h₂)
      | succ k => exact hn k cells cells' h₁ h₂
    rw [hsplit]
    cases data with
    | nil =>
      have heq : l = item := some.inj hitem
      rw [tail_nil] at ih
      show (fillFrame last []).map (l :: ·) = some (item :: full) ↔ _
      rw [heq, ← ih]
      constructor
      · intro hmap
        obtain ⟨rest, hrest, hcons⟩ := map_eq_some_iff.mp hmap
        rw [cons.injEq] at hcons
        refine ⟨?_, hcons.2 ▸ hrest⟩
        intro cells cells' h₁ h₂
        rw [h₁, MetricItem.array.injEq] at h₂
        exact le_of_eq (congrArg length h₂)
      · rintro ⟨-, hrest⟩
        rw [hrest]
        rfl
    | cons d data =>
      have hfirst := fillItem_eq_iff (hlast l mem_cons_self) hitem
      rw [tail_cons] at ih
      rw [← hfirst, ← ih]
      show ((fillItem l d).bind fun x => (fillFrame last data).bind fun rest =>
        some (x :: rest)) = some (item :: full) ↔ _
      simp only [bind_eq_some_iff, some.injEq, cons.injEq]
      constructor
      · rintro ⟨x, hx, rest, hrest, rfl, rfl⟩
        exact ⟨hx, hrest⟩
      · rintro ⟨hx, hrest⟩
        exact ⟨item, hx, full, hrest, rfl, rfl⟩

theorem fillItem_proper (hlast : last.Proper)
    (hsent : sent = .cell .null ∨ sent.Proper) : ∃ out, fillItem last sent = some out ∧ out.Proper := by
  rcases hsent with rfl | hsent
  · exact ⟨last, rfl, hlast⟩
  rcases sent with (_ | _ | _ | _) | sent
  · exact absurd hsent id
  · exact absurd hsent id
  · exact ⟨_, rfl, hsent⟩
  · exact ⟨_, rfl, hsent⟩
  rcases last with (_ | _ | _ | _) | last
  · exact absurd hlast id
  · exact absurd hlast id
  · exact ⟨_, rfl, trivial⟩
  · exact ⟨_, rfl, trivial⟩
  · exact ⟨_, rfl, trivial⟩

/-- **The handler does not throw**, and the frame it makes has a proper item for every metric. -/
theorem fillFrame_proper {last : MetricFrame V} (hlast : ∀ item ∈ last, item.Proper)
    (hdata : ∀ item ∈ data, item = .cell .null ∨ item.Proper) (hlen : data.length ≤ last.length) :
    ∃ out, fillFrame last data = some out ∧ out.length = last.length ∧
      ∀ item ∈ out, item.Proper := by
  induction last generalizing data with
  | nil =>
    rw [eq_nil_of_length_eq_zero (le_zero.mp hlen)]
    exact ⟨[], rfl, rfl, nofun⟩
  | cons l last ih =>
    have hl := hlast l mem_cons_self
    have hls : ∀ item ∈ last, item.Proper := fun i hi => hlast i (mem_cons_of_mem l hi)
    cases data with
    | nil =>
      obtain ⟨out, hout, hlen', hproper⟩ := @ih [] hls
        (nofun) (zero_le _)
      refine ⟨l :: out, ?_, congrArg succ hlen', forall_mem_cons.mpr ⟨hl, hproper⟩⟩
      show (fillFrame last []).map (l :: ·) = _
      rw [hout]
      rfl
    | cons d data =>
      obtain ⟨x, hx, hxp⟩ := fillItem_proper hl (hdata d mem_cons_self)
      obtain ⟨out, hout, hlen', hproper⟩ := ih hls
        (fun i hi => hdata i (mem_cons_of_mem d hi)) (le_of_succ_le_succ hlen)
      refine ⟨x :: out, ?_, congrArg succ hlen', forall_mem_cons.mpr ⟨hxp, hproper⟩⟩
      show ((fillItem l d).bind fun x => (fillFrame last data).bind fun rest =>
        some (x :: rest)) = _
      rw [hx, hout]
      rfl

end MetricsReceiver

/-! ### What `build_json_data` sends -/

/-- The item with all the values of a metric. -/
def itemOf (info : MetricInfo) (row : List (Option V)) : MetricItem V :=
  if info.hasInstances then .array (row.map sampleCell) else .cell (sampleCell (row.head?.getD none))

theorem itemOf_proper (info : MetricInfo) (row : List (Option V)) : (itemOf info row).Proper := by
  unfold itemOf
  split
  · trivial
  · cases row.head?.getD none <;> trivial

namespace CockpitMetrics

variable [DecidableEq V] {metas : Nat → MetaDesc} {ops : SampleOps V} {s : CockpitMetrics V}
  {timing : Timing}

variable {metric next : Nat} {derive : Derive} {last : Option Nat} {sample : Option V}

/-- A value that is not pushed is the one that `derived` has. -/
theorem computeValue_spec {c : Computed V}
    (h : s.computeValue ops timing derive metric next last sample = some c) :
    c.derived = c.value ∧ (c.pushed = false → s.derivedValid ∧
      ∃ row v, s.derived[metric]? = some row ∧ row[next]? = some (some v) ∧ c.value = some v) := by
  unfold computeValue at h
  simp only [bind_eq_bind, bind_eq_some_iff, some.injEq] at h
  obtain ⟨x, -, rfl⟩ := h
  set old := (s.derived[metric]?.bind (·[next]?)).getD none with hold
  have hdiff : differs x.2 old = false → ∃ v, old = some v ∧ x.2 = some v := by
    intro hd
    unfold differs at hd
    split at hd
    · rename_i a b ha hb
      rw [bne_eq_false_iff_eq] at hd
      exact ⟨b, hb, by rw [ha, hd]⟩
    · cases hd
  have hpushed : ∀ b, (!s.compress || last != some next || !s.derivedValid || b) = false →
      s.derivedValid ∧ b = false := by
    intro b hb
    simp only [Bool.or_eq_false_iff, Bool.not_eq_false'] at hb
    exact ⟨hb.1.2, hb.2⟩
  constructor
  · dsimp only
    split
    · rfl
    · rename_i hnot
      obtain ⟨v, hv, hx⟩ := hdiff (hpushed _ (Bool.not_eq_true _ ▸ hnot)).2
      rw [hv, hx]
  intro hp
  obtain ⟨hvalid, hd⟩ := hpushed _ hp
  obtain ⟨v, hv, hx⟩ := hdiff hd
  refine ⟨hvalid, ?_⟩
  -- there is such a value in `derived` only where it was written
  cases hrow : s.derived[metric]? with
  | none =>
    rw [hold, hrow] at hv
    cases hv
  | some row =>
    rw [hold, hrow] at hv
    cases hcell : row[next]? with
    | none =>
      rw [bind_some, hcell] at hv
      cases hv
    | some cell =>
      rw [bind_some, hcell] at hv
      exact ⟨row, v, rfl, by rw [hcell]; exact congrArg some hv, hx⟩

omit [DecidableEq V] in
theorem sampleCell_ne_null (value : Option V) : sampleCell value ≠ .null := by
  cases value <;> simp [sampleCell]

variable {samples : List (Option V)}

/-- **A row** is sent against the row of the frame before. -/
theorem rowLoop_spec {array : Option (List (MetricCell V))} {res : RowResult V}
    (h : s.rowLoop metas ops timing derive metric next samples array = some res)
    (last pre : List (MetricCell V)) (hpre : pre.length = next)
    (hlast : s.derivedValid → ∀ row, s.derived[metric]? = some row → last = row.map sampleCell)
    (harray : Sparse (fun k => CellRel last[k]? pre[k]?) next (array.getD [])) :
    res.samples.length = samples.length ∧ res.values.length = samples.length ∧
    res.derived = res.values ∧
    Sparse (fun k => CellRel last[k]? (pre ++ res.values.map sampleCell)[k]?) (next + samples.length)
      (res.array.getD []) := by
  induction samples generalizing next array res pre with
  | nil =>
    rw [← some.inj h]
    refine ⟨rfl, rfl, rfl, ?_⟩
    simpa using harray
  | cons sample samples ih =>
    unfold rowLoop at h
    simp only [bind_eq_bind, bind_eq_some_iff, some.injEq] at h
    obtain ⟨c, hc, rest, hrest, rfl⟩ := h
    obtain ⟨hderived, hskip⟩ := computeValue_spec hc
    -- the places before keep their cells
    have hkeep : Sparse (fun k => CellRel last[k]? (pre ++ [sampleCell c.value])[k]?) next
        (array.getD []) := by
      apply harray.imp
      intro k hk x hx
      rw [getElem?_append_left (by omega)]
      exact hx
    have hself : (pre ++ [sampleCell c.value])[next]? = some (sampleCell c.value) := by
      rw [← hpre, getElem?_concat_length]
    have hnext : Sparse (fun k => CellRel last[k]? (pre ++ [sampleCell c.value])[k]?) (next + 1)
        ((if c.pushed then pushArrayAt .null array next (sampleCell c.value) else array).getD []) := by
      split
      · apply hkeep.push
        · exact fun k _ hk => hk
        have hne := sampleCell_ne_null c.value
        show CellRel _ _ (some (sampleCell c.value))
        rw [hself]
        cases hcell : sampleCell c.value with
        | null => exact absurd hcell hne
        | undefined | false_ | number v => rfl
      rename_i hnot
      obtain ⟨hvalid, row, v, hrow, hcell, hv⟩ := hskip (Bool.not_eq_true _ ▸ hnot)
      apply hkeep.skip
      show (pre ++ [sampleCell c.value])[next]? = last[next]?
      rw [hself, hlast hvalid row hrow, getElem?_map, hcell, hv]
      rfl
    obtain ⟨h1, h2, h3, h4⟩ := ih hrest (pre ++ [sampleCell c.value]) (by simp [hpre]) hnext
    refine ⟨congrArg succ h1, congrArg succ h2, ?_, ?_⟩
    · rw [h3, hderived]
    rw [length_cons, map_cons]
    have hassoc : pre ++ sampleCell c.value :: rest.values.map sampleCell =
        (pre ++ [sampleCell c.value]) ++ rest.values.map sampleCell := by simp
    rw [hassoc, show next + (samples.length + 1) = next + 1 + samples.length by omega]
    exact h4

/-- What a place of the frame allows to be sent. -/
abbrev Allows (last full : MetricFrame V) (k : Nat) (x : Option (MetricItem V)) : Prop :=
  ∀ item, full[k]? = some item → ItemRel last[k]? item x

omit [DecidableEq V] in
/-- A value may be sent. -/
theorem itemRel_cell (last : Option (MetricItem V)) (value : Option V) :
    ItemRel last (.cell (sampleCell value)) (some (.cell (sampleCell value))) := by
  cases value <;> exact ⟨rfl, trivial⟩

variable {pre : MetricFrame V}

omit [DecidableEq V] in
/-- One more item behind the frame so far. -/
theorem sparse_extend (item : MetricItem V) {last : MetricFrame V}
    {array : MetricFrame V} (hpre : pre.length = n) (h : Sparse (Allows last pre) n array) :
    Sparse (Allows last (pre ++ [item])) n array := by
  apply h.imp
  intro k hk x hx i hi
  rw [getElem?_append_left (by omega)] at hi
  exact hx i hi

omit [DecidableEq V] in
theorem allows_self {last : MetricFrame V} {item : MetricItem V}
    (hpre : pre.length = n) {x : Option (MetricItem V)} (h : ItemRel last[n]? item x) :
    Allows last (pre ++ [item]) n x := by
  intro i hi
  rw [← hpre, getElem?_concat_length, some.injEq] at hi
  exact hi ▸ h

variable {infos : List MetricInfo} {buffer : Nat → Nat → Option V} {output : Option (MetricFrame V)}

/-- **A frame** is sent against the frame before. -/
theorem metricLoop_spec {res : FrameResult V}
    (h : s.metricLoop metas ops timing buffer metric infos output = some res)
    (last pre : MetricFrame V) (hpre : pre.length = metric)
    (hone : ∀ info ∈ infos, info.hasInstances = false → info.nNextInstances = 1)
    (hlast : s.derivedValid → ∀ k info row, infos[k]? = some info →
      s.derived[metric + k]? = some row → last[metric + k]? = some (itemOf info row))
    (houtput : Sparse (Allows last pre) metric (output.getD [])) :
    res.frame = zipWith itemOf infos res.derived ∧
    res.samples.map length = infos.map nNextInstances ∧
    res.derived.map length = infos.map nNextInstances ∧
    Sparse (Allows last (pre ++ res.frame)) (metric + infos.length) (res.array.getD []) := by
  induction infos generalizing metric output res pre with
  | nil =>
    rw [← some.inj h]
    refine ⟨rfl, rfl, rfl, ?_⟩
    simpa using houtput
  | cons info infos ih =>
    have hnull : ∀ (item : MetricItem V) k, k < metric → Allows last (pre ++ [item]) k none →
        Allows last (pre ++ [item]) k (some (.cell .null)) := fun item k _ hk i hi => hk i hi
    have hlast' : s.derivedValid → ∀ k info row, infos[k]? = some info →
        s.derived[metric + 1 + k]? = some row → last[metric + 1 + k]? = some (itemOf info row) := by
      intro hvalid k info' row hk hrow
      have hidx : metric + 1 + k = metric + (k + 1) := by omega
      rw [hidx] at hrow ⊢
      exact hlast hvalid (k + 1) info' row hk hrow
    have hone' : ∀ info ∈ infos, info.hasInstances = false → info.nNextInstances = 1 :=
      fun i hi => hone i (mem_cons_of_mem info hi)
    unfold metricLoop at h
    split at h
    · rename_i hinst
      simp only [bind_eq_bind, bind_eq_some_iff, some.injEq] at h
      obtain ⟨row, hrow, rest, hrest, rfl⟩ := h
      set item : MetricItem V := .array (row.values.map sampleCell) with hitem
      -- the cells of the metric
      obtain ⟨h1, h2, h3, h4⟩ := rowLoop_spec hrow (cellsOf last[metric]?) [] rfl (by
        intro hvalid r hr
        have hl := hlast hvalid 0 info r rfl hr
        rw [add_zero] at hl
        rw [hl, itemOf, if_pos hinst]
        rfl) Sparse.nil
      rw [length_map, length_range] at h1 h2 h4
      rw [zero_add, nil_append] at h4
      have hnode : ItemRel last[metric]? item (some (.array (row.array.getD []))) := by
        refine ⟨row.values.map sampleCell, rfl, ?_⟩
        rw [length_map, h2]
        exact h4
      have hpush := (sparse_extend item hpre houtput).push (hnull item) (allows_self hpre hnode)
      obtain ⟨g1, g2, g3, g4⟩ := ih hrest (pre ++ [item]) (by simp [hpre]) hone' hlast' hpush
      refine ⟨?_, ?_, ?_, ?_⟩
      · rw [zipWith_cons_cons, ← g1, itemOf, if_pos hinst, h3]
      · rw [map_cons, map_cons, g2, h1]
      · rw [map_cons, map_cons, g3, h3, h2]
      · have hassoc : pre ++ item :: rest.frame = (pre ++ [item]) ++ rest.frame := by simp
        rw [hassoc, length_cons, show metric + (infos.length + 1) = metric + 1 + infos.length by omega]
        exact g4
    rename_i hinst
    simp only [bind_eq_bind, bind_eq_some_iff, some.injEq] at h
    obtain ⟨c, hc, rest, hrest, rfl⟩ := h
    obtain ⟨hderived, hskip⟩ := computeValue_spec hc
    set item : MetricItem V := .cell (sampleCell c.value) with hitem
    have hkeep := sparse_extend item hpre houtput
    have hpush : Sparse (Allows last (pre ++ [item])) (metric + 1)
        ((if c.pushed then pushArrayAt (.cell .null) output metric item else output).getD []) := by
      split
      · exact hkeep.push (hnull item) (allows_self hpre (itemRel_cell _ c.value))
      rename_i hnot
      obtain ⟨hvalid, row, v, hrow, hcell, hv⟩ := hskip (Bool.not_eq_true _ ▸ hnot)
      apply hkeep.skip
      apply allows_self hpre
      -- the value of the frame before
      have hl := hlast hvalid 0 info row rfl hrow
      rw [← head?_eq_getElem?] at hcell
      rw [add_zero] at hl
      show last[metric]? = some item
      rw [hl, itemOf, if_neg hinst, hcell, hitem, hv]
      rfl
    obtain ⟨g1, g2, g3, g4⟩ := ih hrest (pre ++ [item]) (by simp [hpre]) hone' hlast' hpush
    have h1 := hone info mem_cons_self (Bool.not_eq_true _ ▸ hinst)
    refine ⟨?_, ?_, ?_, ?_⟩
    · rw [zipWith_cons_cons, ← g1, itemOf, if_neg hinst, hderived]
      rfl
    · rw [map_cons, map_cons, g2, h1]
      rfl
    · rw [map_cons, map_cons, g3, h1]
      rfl
    · have hassoc : pre ++ item :: rest.frame = (pre ++ [item]) ++ rest.frame := by simp
      rw [hassoc, length_cons, show metric + (infos.length + 1) = metric + 1 + infos.length by omega]
      exact g4

/-- When `deriveValue` reads outside of the buffer. -/
theorem computeValue_eq_none_iff : s.computeValue ops timing derive metric next last sample = none ↔
      ∃ i, last = some i ∧ s.readLast metric i = none := by
  have hbind : s.computeValue ops timing derive metric next last sample = none ↔
      s.deriveValue ops timing derive metric last sample = none := by
    unfold computeValue
    cases s.deriveValue ops timing derive metric last sample <;> simp
  rw [hbind]
  unfold deriveValue
  cases last with
  | none => simp
  | some i =>
    cases hread : s.readLast metric i with
    | none => simp [hread]
    | some v =>
      simp only [some.injEq, exists_eq_left', hread]
      cases derive <;> simp

/-- A row is computed when the instances it looks up are in the buffer. -/
theorem rowLoop_ne_none (next : Nat)
    (array : Option (List (MetricCell V))) (hread : ∀ j i, next ≤ j → j < next + samples.length →
      s.findLastInstance metas metric j = some i → s.readLast metric i ≠ none) :
    s.rowLoop metas ops timing derive metric next samples array ≠ none := by
  induction samples generalizing next array with
  | nil => simp [rowLoop]
  | cons sample samples ih =>
    obtain ⟨c, hc⟩ : ∃ c, s.computeValue ops timing derive metric next
        (s.findLastInstance metas metric next) sample = some c := by
      rw [← ne_none_iff_exists']
      rw [Ne, computeValue_eq_none_iff]
      rintro ⟨i, hi, hnone⟩
      exact hread next i (le_refl _) (by simp) hi hnone
    unfold rowLoop
    rw [hc]
    have hrest := ih (next + 1)
      (if c.pushed then pushArrayAt .null array next (sampleCell c.value) else array) (by
        intro j i h1 h2
        exact hread j i (by omega) (by rw [length_cons]; omega))
    obtain ⟨rest, hrest⟩ := ne_none_iff_exists'.mp hrest
    simp [hrest]

/-- **What is read outside of the buffer**: the last value of a metric without instances, when there
    is nothing from there on. -/
theorem metricLoop_eq_none_iff (hread : ∀ k info j i, infos[k]? = some info → info.hasInstances →
      j < info.nNextInstances → s.findLastInstance metas (metric + k) j = some i →
      s.readLast (metric + k) i ≠ none) :
    s.metricLoop metas ops timing buffer metric infos output = none ↔
      s.metaReset = false ∧ ∃ k info, infos[k]? = some info ∧ info.hasInstances = false ∧
        (s.lastData.drop (metric + k)).flatten = [] := by
  induction infos generalizing metric output with
  | nil => simp [metricLoop]
  | cons info infos ih =>
    have hread' : ∀ k info j i, infos[k]? = some info → info.hasInstances →
        j < info.nNextInstances → s.findLastInstance metas (metric + 1 + k) j = some i →
        s.readLast (metric + 1 + k) i ≠ none := by
      intro k info' j i hk
      rw [show metric + 1 + k = metric + (k + 1) by omega]
      exact hread (k + 1) info' j i hk
    -- the first metric, and the others
    have hsplit : (∃ k info', (info :: infos)[k]? = some info' ∧ info'.hasInstances = false ∧
        (s.lastData.drop (metric + k)).flatten = []) ↔
        (info.hasInstances = false ∧ (s.lastData.drop metric).flatten = []) ∨
        ∃ k info', infos[k]? = some info' ∧ info'.hasInstances = false ∧
          (s.lastData.drop (metric + 1 + k)).flatten = [] := by
      constructor
      · rintro ⟨k, info', hk, h1, h2⟩
        cases k with
        | zero => exact .inl ⟨some.inj hk ▸ h1, h2⟩
        | succ k => exact .inr ⟨k, info', hk, h1, by rw [show metric + 1 + k = metric + (k + 1) by omega]; exact h2⟩
      · rintro (⟨h1, h2⟩ | ⟨k, info', hk, h1, h2⟩)
        · exact ⟨0, info, rfl, h1, h2⟩
        · exact ⟨k + 1, info', hk, h1, by rw [show metric + (k + 1) = metric + 1 + k by omega]; exact h2⟩
    rw [hsplit]
    unfold metricLoop
    split
    · rename_i hinst
      have hne : s.rowLoop metas ops timing info.derive metric 0
          ((range info.nNextInstances).map (buffer metric)) none ≠ none := by
        apply rowLoop_ne_none
        intro j i _ hj hi
        rw [length_map, length_range, zero_add] at hj
        exact hread 0 info j i rfl hinst hj hi
      obtain ⟨row, hrow⟩ := ne_none_iff_exists'.mp hne
      have hrest := @ih (metric + 1)
        (pushArrayAt (.cell .null) output metric (.array (row.array.getD []))) hread'
      simp only [hrow, bind_eq_bind, bind_some, bind_eq_none_iff,
        reduceCtorEq, imp_false, ← eq_none_iff_forall_ne_some, hrest, hinst,
        Bool.true_eq_false, false_and, false_or]
    rename_i hinst
    rw [Bool.not_eq_true] at hinst
    have hself : s.computeValue ops timing info.derive metric 0
        (if s.metaReset then none else some 0) (buffer metric 0) = none ↔
        s.metaReset = false ∧ (s.lastData.drop metric).flatten = [] := by
      rw [computeValue_eq_none_iff]
      unfold readLast
      cases s.metaReset with
      | true => simp
      | false =>
        simp only [Bool.false_eq_true, if_false, some.injEq, exists_eq_left', true_and]
        rw [getElem?_eq_none_iff, le_zero, length_eq_zero_iff]
    cases hc : s.computeValue ops timing info.derive metric 0
        (if s.metaReset then none else some 0) (buffer metric 0) with
    | none =>
      obtain ⟨hreset, hempty⟩ := hself.mp hc
      simp [hreset, hempty, hinst]
    | some c =>
      have hrest := @ih (metric + 1) (if c.pushed then pushArrayAt (.cell .null) output metric
        (.cell (sampleCell c.value)) else output) hread'
      have hnot : s.metaReset = false → ¬ (s.lastData.drop metric).flatten = [] := by
        intro hreset hempty
        rw [hself.mpr ⟨hreset, hempty⟩] at hc
        cases hc
      simp only [bind_eq_bind, bind_some, bind_eq_none_iff,
        reduceCtorEq, imp_false, ← eq_none_iff_forall_ne_some, hrest, hinst, true_and]
      constructor
      · exact fun h => ⟨h.1, .inr h.2⟩
      · exact fun h => ⟨h.1, h.2.resolve_left (hnot h.1)⟩

/-! ### The layout of the buffers -/

omit [DecidableEq V] in
/-- What `update_for_meta` makes of a metric. -/
theorem infoOf_spec {desc : MetricDesc} {info : MetricInfo} (h : infoOf desc = .ok info) :
    (info.hasInstances ∧ ∃ names, desc.instances = .array names ∧
      info.nNextInstances = names.length) ∨
    (info.hasInstances = false ∧ info.nNextInstances = 1 ∧ desc.instances = .absent) := by
  unfold infoOf at h
  cases hd : deriveOf desc.derive with
  | error text =>
    rw [hd] at h
    cases h
  | ok derive =>
    rw [hd] at h
    cases hi : desc.instances with
    | absent =>
      rw [hi] at h
      cases h
      exact .inr ⟨rfl, rfl, rfl⟩
    | array names =>
      rw [hi] at h
      cases h
      exact .inl ⟨rfl, names, rfl, rfl⟩
    | other =>
      rw [hi] at h
      cases h

/-- The metrics of an object that `update_for_meta` accepts. -/
def Accepted (desc : MetaDesc) (infos : List MetricInfo) : Prop :=
  desc.metrics.mapM infoOf = .ok infos

theorem accepted_forall₂ {descs : List MetricDesc} (h : descs.mapM infoOf = .ok infos) :
    List.Forall₂ (fun desc info => infoOf desc = .ok info) descs infos := by
  induction descs generalizing infos with
  | nil =>
    cases h
    exact .nil
  | cons desc descs ih =>
    rw [mapM_cons] at h
    cases hd : infoOf desc with
    | error text =>
      rw [hd] at h
      cases h
    | ok info =>
      cases hds : descs.mapM infoOf with
      | error text =>
        rw [hd, hds] at h
        cases h
      | ok rest =>
        rw [hd, hds] at h
        cases h
        exact .cons hd (ih hds)

variable {desc : MetaDesc}

theorem Accepted.length (h : Accepted desc infos) :
    infos.length = desc.metrics.length := (accepted_forall₂ h).length_eq.symm

/-- The instances of a metric, in the object and in `metric_info`. -/
theorem Accepted.info (h : Accepted desc infos) {info : MetricInfo} (hinfo : infos[metric]? = some info) :
    (info.hasInstances ∧ ∃ names, desc.instancesOf metric = some names ∧
      info.nNextInstances = names.length) ∨
    (info.hasInstances = false ∧ info.nNextInstances = 1 ∧ desc.instancesOf metric = none) := by
  have hlen := h.length
  obtain ⟨hlt, hget⟩ := List.getElem?_eq_some_iff.mp hinfo
  have hd : metric < desc.metrics.length := hlen ▸ hlt
  have hrel := (forall₂_iff_get.mp (accepted_forall₂ h)).2 metric hd hlt
  have hdesc : desc.metrics[metric]? = some desc.metrics[metric] := getElem?_eq_getElem hd
  unfold instancesOf
  rw [hdesc]
  simp only [get_eq_getElem, hget] at hrel
  generalize desc.metrics[metric] = d at hrel
  rcases infoOf_spec hrel with ⟨h1, names, h2, h3⟩ | ⟨h1, h2, h3⟩
  · refine .inl ⟨h1, names, ?_, h3⟩
    cases d
    simp only at h2
    rw [h2]
  refine .inr ⟨h1, h2, ?_⟩
  cases d
  simp only at h3
  rw [h3]

/-- **The buffers of the sender**, against the objects of the last frame and of the next one. -/
structure Inv (metas : Nat → MetaDesc) (s : CockpitMetrics V) : Prop where
  infos : ∀ infos, s.metricInfo = some infos → ∃ object, s.nextMeta = some object ∧
    Accepted (metas object) infos
  fresh : s.metricInfo = none → s.nextMeta = none ∧ s.computed = [] ∧ s.message = none
  first : s.computed = [] → s.lastMeta = none ∧ s.derivedValid = false
  last : ∀ frame, s.computed.getLast? = some frame → ∃ object infos rows,
    s.lastMeta = some object ∧ Accepted (metas object) infos ∧
    frame = zipWith itemOf infos rows ∧
    rows.map length = infos.map nNextInstances ∧
    s.lastData.map length = infos.map nNextInstances ∧
    ∀ next, s.metricInfo = some next → next.length = infos.length
  valid : s.derivedValid → s.lastMeta = s.nextMeta ∧ s.metaReset = false ∧
    ∃ infos, s.metricInfo = some infos ∧
      s.computed.getLast? = some (zipWith itemOf infos s.derived)

/-- No metric that had instances in the last frame has fewer of them now. -/
def NotShrunk (metas : Nat → MetaDesc) (s : CockpitMetrics V) : Prop :=
  ∀ last next metric names names', s.lastMeta = some last → s.nextMeta = some next →
    (metas last).instancesOf metric = some names → (metas next).instancesOf metric = some names' →
    names.length ≤ names'.length

/-- For a metric without instances there is a last value in the buffer, or behind it, unless
    there was a reset. -/
def InBounds (metas : Nat → MetaDesc) (s : CockpitMetrics V) : Prop :=
  s.metaReset = false → ∀ next metric, s.nextMeta = some next →
    metric < (metas next).metrics.length → (metas next).instancesOf metric = none →
    (s.lastData.drop metric).flatten ≠ []

variable {i : Nat}

omit [DecidableEq V] in
/-- A value in a row of the buffer. -/
theorem readLast_ne_none (n : Nat)
    (hrow : (s.lastData.map length)[metric]? = some n) (hi : i < n) :
    s.readLast metric i ≠ none := by
  rw [getElem?_map, map_eq_some_iff] at hrow
  obtain ⟨row, hrow, rfl⟩ := hrow
  obtain ⟨hlt, hget⟩ := List.getElem?_eq_some_iff.mp hrow
  unfold readLast
  rw [drop_eq_getElem_cons hlt, hget, flatten_cons, getElem?_append_left hi, getElem?_eq_getElem hi]
  simp

omit [DecidableEq V] in
/-- The instance that `find_last_instance` finds is in the buffer. -/
theorem Inv.readLast_of_find (h : s.Inv metas)
    (hinfos : s.metricInfo = some infos) {j : Nat} {info : MetricInfo}
    (hinfo : infos[metric]? = some info) (hj : j < info.nNextInstances)
    (hfind : s.findLastInstance metas metric j = some i) : s.readLast metric i ≠ none := by
  obtain ⟨next, hnext, hacc⟩ := h.infos infos hinfos
  unfold findLastInstance at hfind
  split at hfind
  · cases hfind
  -- there was a frame before
  have hlastMeta : s.lastMeta ≠ none := by
    rintro hnone
    rw [hnone, hnext] at hfind
    simp at hfind
  obtain ⟨frame, hframe⟩ : ∃ frame, s.computed.getLast? = some frame := by
    rw [← ne_none_iff_exists']
    intro hnone
    exact hlastMeta (h.first (getLast?_eq_none_iff.mp hnone)).1
  obtain ⟨object, infosL, rows, hobj, haccL, -, -, hdata, -⟩ := h.last frame hframe
  split at hfind
  · rename_i heq
    rw [hobj, hnext, some.injEq] at heq
    rw [heq] at haccL
    have hsame : infosL = infos := Except.ok.inj (haccL.symm.trans hacc)
    rw [some.injEq] at hfind
    apply readLast_ne_none info.nNextInstances
    · rw [hdata, hsame, getElem?_map, hinfo]
      rfl
    · omega
  rw [hobj, hnext] at hfind
  simp only at hfind
  split at hfind
  · rename_i lastNames nextNames hl _
    split at hfind
    · rename_i name _
      obtain ⟨hlt, -⟩ := findIdx?_eq_some_iff_getElem.mp hfind
      -- the metric had instances then
      have hmetric : metric < (metas object).metrics.length := by
        by_contra hge
        unfold instancesOf at hl
        rw [getElem?_eq_none (Nat.le_of_not_lt hge)] at hl
        cases hl
      rw [← haccL.length] at hmetric
      have hget := getElem?_eq_getElem hmetric
      rcases haccL.info hget with ⟨-, names, hnames, hn⟩ | ⟨-, -, hnone⟩
      · rw [hnames, some.injEq] at hl
        apply readLast_ne_none infosL[metric].nNextInstances
        · rw [hdata, getElem?_map, hget]
          rfl
        · rw [hn, hl]
          exact hlt
      · rw [hnone] at hl
        cases hl
    · cases hfind
  · cases hfind

variable {rows : List (List (Option V))}

omit [DecidableEq V] in
/-- The arrays of a frame are those of the metrics with instances. -/
theorem getElem?_zipWith_itemOf (hrows : rows.map length = infos.map nNextInstances)
    {info : MetricInfo} (hinfo : infos[metric]? = some info) :
    ∃ row, rows[metric]? = some row ∧ row.length = info.nNextInstances ∧
      (zipWith itemOf infos rows)[metric]? = some (itemOf info row) := by
  have hlen := congrArg (fun l : List Nat => l[metric]?) hrows
  simp only [getElem?_map, hinfo, map_some] at hlen
  obtain ⟨row, hrow, hn⟩ := map_eq_some_iff.mp hlen
  refine ⟨row, hrow, hn, ?_⟩
  rw [getElem?_zipWith, hinfo, hrow]

omit [DecidableEq V] in
/-- **Losing instances**, seen from the frames and from the meta messages. -/
theorem noneShrunk_iff {descL : MetaDesc} {infosL : List MetricInfo}
    {rowsL : List (List (Option V))} (hL : Accepted descL infosL) (h : Accepted desc infos)
    (hrowsL : rowsL.map length = infosL.map nNextInstances)
    (hrows : rows.map length = infos.map nNextInstances) :
    NoneShrunk (zipWith itemOf infosL rowsL) (zipWith itemOf infos rows) ↔
      ∀ metric names names', descL.instancesOf metric = some names →
        desc.instancesOf metric = some names' → names.length ≤ names'.length := by
  -- a metric that has instances is in the list
  have hin : ∀ {d is}, Accepted d is → ∀ {metric names},
      d.instancesOf metric = some names → ∃ info, is[metric]? = some info ∧
        info.hasInstances ∧ info.nNextInstances = names.length := by
    intro d is hacc metric names hnames
    have hlt : metric < is.length := by
      rw [hacc.length]
      by_contra hge
      unfold instancesOf at hnames
      rw [getElem?_eq_none (Nat.le_of_not_lt hge)] at hnames
      cases hnames
    have hget := getElem?_eq_getElem hlt
    rcases hacc.info hget with ⟨h1, names', h2, h3⟩ | ⟨-, -, hnone⟩
    · rw [h2, some.injEq] at hnames
      exact ⟨_, hget, h1, hnames ▸ h3⟩
    · rw [hnone] at hnames
      cases hnames
  constructor
  · intro hshrunk metric names names' hn hn'
    obtain ⟨infoL, hgetL, hinstL, hlenL⟩ := hin hL hn
    obtain ⟨info, hget, hinst, hlen⟩ := hin h hn'
    obtain ⟨rowL, -, hrowL, hitemL⟩ := getElem?_zipWith_itemOf hrowsL hgetL
    obtain ⟨row, -, hrow, hitem⟩ := getElem?_zipWith_itemOf hrows hget
    rw [itemOf, if_pos hinstL] at hitemL
    rw [itemOf, if_pos hinst] at hitem
    have hle := hshrunk metric _ _ hitemL hitem
    rw [length_map, length_map] at hle
    omega
  intro hle metric cells cells' hc hc'
  have harray : ∀ {d : MetaDesc} {is : List MetricInfo} {rs : List (List (Option V))}
      {cs : List (MetricCell V)}, Accepted d is →
      rs.map length = is.map nNextInstances →
      (zipWith itemOf is rs)[metric]? = some (.array cs) →
      ∃ names, d.instancesOf metric = some names ∧ cs.length = names.length := by
    intro d is rs cs hacc hrs hget
    have hlt : metric < is.length := by
      have := (List.getElem?_eq_some_iff.mp hget).1
      rw [length_zipWith] at this
      omega
    have hinfo := getElem?_eq_getElem hlt
    obtain ⟨row, -, hrow, hitem⟩ := getElem?_zipWith_itemOf hrs hinfo
    rw [hget, some.injEq] at hitem
    rcases hacc.info hinfo with ⟨h1, names, h2, h3⟩ | ⟨h1, -, -⟩
    · rw [itemOf, if_pos h1, MetricItem.array.injEq] at hitem
      exact ⟨names, h2, by rw [hitem, length_map, hrow, h3]⟩
    · rw [itemOf, if_neg (by simp [h1])] at hitem
      cases hitem
  obtain ⟨names, hnames, hlen⟩ := harray hL hrowsL hc
  obtain ⟨names', hnames', hlen'⟩ := harray h hrows hc'
  have := hle metric names names' hnames hnames'
  omega

/-- What `cockpit_metrics_send_data` adds to the message and to the history. -/
structure Sent (s s' : CockpitMetrics V) (infos : List MetricInfo) (full data : MetricFrame V) :
    Prop where
  message : s'.message = some (s.message.getD [] ++ [data])
  computed : s'.computed = s.computed ++ [full]
  metricInfo : s'.metricInfo = s.metricInfo
  failed : s'.failed = s.failed
  overrun : s'.overrun = s.overrun
  proper : ∀ item ∈ full, item.Proper
  length : full.length = infos.length
  /-- The frame is sent against the one before, or as it is. -/
  sparse : ∀ last, (s.derivedValid → s.computed.getLast? = some last) →
    Sparse (Allows last full) infos.length data

omit [DecidableEq V] in
theorem zipWith_itemOf_proper (infos : List MetricInfo) (rows : List (List (Option V))) :
    ∀ item ∈ zipWith itemOf infos rows, item.Proper := by
  intro item hitem
  obtain ⟨k, hk⟩ := mem_iff_getElem?.mp hitem
  rw [getElem?_zipWith] at hk
  split at hk
  · exact some.inj hk ▸ itemOf_proper _ _
  · cases hk

/-- **`cockpit_metrics_send_data`** reads outside of the buffers, or sends a frame. -/
theorem Inv.sendData (ops : SampleOps V) (h : s.Inv metas)
    (hinfos : s.metricInfo = some infos) (buffer : Nat → Nat → Option V) (timestamp : Int) :
    (¬ InBounds metas s ∧ (s.sendData metas ops buffer timestamp).overrun) ∨
    (InBounds metas s ∧ (s.sendData metas ops buffer timestamp).Inv metas ∧
      ∃ full data, Sent s (s.sendData metas ops buffer timestamp) infos full data ∧
        (NotShrunk metas s ↔ ∀ last, s.computed.getLast? = some last → NoneShrunk last full)) := by
  obtain ⟨object, hobj, hacc⟩ := h.infos infos hinfos
  have hnone : s.metricLoop metas ops (s.timing timestamp) buffer 0 infos none = none ↔ _ :=
    metricLoop_eq_none_iff (by
      intro k info j i hinfo _ hj hfind
      rw [zero_add] at hfind ⊢
      exact h.readLast_of_find hinfos hinfo hj hfind)
  simp only [zero_add] at hnone
  -- the condition, for the metrics of the object
  have hbounds : InBounds metas s ↔ ¬ (s.metaReset = false ∧ ∃ k info, infos[k]? = some info ∧
      info.hasInstances = false ∧ (s.lastData.drop k).flatten = []) := by
    constructor
    · rintro hin ⟨hreset, k, info, hinfo, hinst, hempty⟩
      refine hin hreset object k hobj ?_ ?_ hempty
      · rw [← hacc.length]
        exact (List.getElem?_eq_some_iff.mp hinfo).1
      rcases hacc.info hinfo with ⟨h1, -⟩ | ⟨-, -, h3⟩
      · rw [hinst] at h1
        cases h1
      · exact h3
    intro hnot hreset next k hnext hk hinst hempty
    rw [hobj, some.injEq] at hnext
    rw [← hnext] at hk hinst
    rw [← hacc.length] at hk
    have hinfo := getElem?_eq_getElem hk
    refine hnot ⟨hreset, k, _, hinfo, ?_, hempty⟩
    rcases hacc.info hinfo with ⟨-, names, h2, -⟩ | ⟨h1, -, -⟩
    · rw [hinst] at h2
      cases h2
    · exact h1
  cases hloop : s.metricLoop metas ops (s.timing timestamp) buffer 0 infos none with
  | none =>
    refine .inl ⟨fun hin => hbounds.mp hin (hnone.mp hloop), ?_⟩
    simp [CockpitMetrics.sendData, hinfos, hloop]
  | some result =>
    have hin : InBounds metas s := by
      rw [hbounds]
      intro hbad
      rw [hnone.mpr hbad] at hloop
      cases hloop
    refine .inr ⟨hin, ?_⟩
    have hone : ∀ info ∈ infos, info.hasInstances = false → info.nNextInstances = 1 := by
      intro info hmem hinst
      obtain ⟨k, hk⟩ := mem_iff_getElem?.mp hmem
      rcases hacc.info hk with ⟨h1, -⟩ | ⟨-, h2, -⟩
      · rw [hinst] at h1
        cases h1
      · exact h2
    -- against any frame before, but the last one where values may be left out
    have hspec : ∀ last : MetricFrame V, (s.derivedValid → s.computed.getLast? = some last) →
        result.frame = zipWith itemOf infos result.derived ∧
        result.samples.map length = infos.map nNextInstances ∧
        result.derived.map length = infos.map nNextInstances ∧
        Sparse (Allows last result.frame) infos.length (result.array.getD []) := by
      intro last hl
      have hloopSpec := metricLoop_spec hloop last [] rfl hone (by
        intro hvalid k info row hinfo hrow
        obtain ⟨-, -, infos', hinfos', hframe⟩ := h.valid hvalid
        rw [hinfos, some.injEq] at hinfos'
        rw [hl hvalid, some.injEq] at hframe
        rw [zero_add] at hrow ⊢
        rw [hframe, ← hinfos', getElem?_zipWith, hinfo, hrow]) Sparse.nil
      rw [zero_add, nil_append] at hloopSpec
      exact hloopSpec
    obtain ⟨hframe, hsamples, hderived, -⟩ := hspec (s.computed.getLast?.getD []) (by
      intro hvalid
      obtain ⟨-, -, infos', -, hlast⟩ := h.valid hvalid
      rw [hlast]
      rfl)
    have hsend : s.sendData metas ops buffer timestamp =
        { s with
          message := some (s.message.getD [] ++ [result.array.getD []])
          lastData := result.samples
          derived := result.derived
          derivedValid := true
          lastMeta := s.nextMeta
          lastTimestamp := (s.timing timestamp).timestamp
          metaReset := false
          computed := s.computed ++ [result.frame] } := by
      simp only [CockpitMetrics.sendData, hinfos, getD_some, hloop]
    have hlen : result.derived.length = infos.length := by
      have := congrArg length hderived
      rwa [length_map, length_map] at this
    rw [hsend]
    refine ⟨⟨h.infos, ?_, ?_, ?_, ?_⟩, result.frame, result.array.getD [],
      ⟨rfl, rfl, rfl, rfl, rfl, ?_, ?_, fun last hl => (hspec last hl).2.2.2⟩, ?_⟩
    · intro hno
      rw [show s.metricInfo = none from hno] at hinfos
      cases hinfos
    · intro hempty
      exact absurd hempty (by simp)
    · intro frame hlast
      rw [getLast?_concat, some.injEq] at hlast
      refine ⟨object, infos, result.derived, hobj, hacc, hlast ▸ hframe, hderived, hsamples, ?_⟩
      intro next hnext
      rw [show s.metricInfo = some next from hnext, some.injEq] at hinfos
      rw [hinfos]
    · intro _
      exact ⟨rfl, rfl, infos, hinfos, by rw [getLast?_concat, hframe]⟩
    · rw [hframe]
      exact zipWith_itemOf_proper infos result.derived
    · rw [hframe, length_zipWith, hlen, min_self]
    constructor
    · intro hshrunk last hlast
      obtain ⟨objectL, infosL, rows, hobjectL, haccL, rfl, hrows, -, -⟩ := h.last last hlast
      rw [hframe, noneShrunk_iff haccL hacc hrows hderived]
      exact fun metric names names' => hshrunk objectL object metric names names' hobjectL hobj
    intro hshrunk last next metric names names' hl hn
    obtain ⟨frame, hlast⟩ : ∃ frame, s.computed.getLast? = some frame := by
      rw [← ne_none_iff_exists']
      intro hno
      rw [(h.first (getLast?_eq_none_iff.mp hno)).1] at hl
      cases hl
    obtain ⟨objectL, infosL, rows, hobjectL, haccL, rfl, hrows, -, -⟩ := h.last frame hlast
    have hnone := hshrunk _ hlast
    rw [hframe, noneShrunk_iff haccL hacc hrows hderived] at hnone
    rw [hobjectL, some.injEq] at hl
    rw [hobj, some.injEq] at hn
    rw [← hl, ← hn]
    exact hnone metric names names'

omit [DecidableEq V] in
/-- The end of `update_for_meta`. -/
theorem Inv.applyMeta (h : s.Inv metas) {object : Nat} (reset : Bool)
    (hlen : ∀ infos, s.metricInfo = some infos → infos.length = (metas object).metrics.length) :
    let s' := ({ s with nextMeta := some object } : CockpitMetrics V).applyMeta (metas object) reset
    s'.message = s.message ∧ s'.computed = s.computed ∧ s'.overrun = s.overrun ∧
      (s'.failed ≠ none ∨ s'.failed = s.failed ∧ s'.Inv metas ∧ s'.metricInfo ≠ none ∧
        ∀ infos infos', s.metricInfo = some infos → s'.metricInfo = some infos' →
          infos'.length = infos.length) := by
  intro s'
  cases hinfos : (metas object).metrics.mapM infoOf with
  | error text =>
    have hs' : s' = ({ s with nextMeta := some object } : CockpitMetrics V).fail text := by
      show CockpitMetrics.applyMeta _ _ _ = _
      unfold CockpitMetrics.applyMeta
      rw [hinfos]
    rw [hs']
    exact ⟨rfl, rfl, rfl, .inl (by simp [fail])⟩
  | ok infos =>
    have hs' : s' = { s with
        nextMeta := some object
        metricInfo := some infos
        derived := []
        derivedValid := false
        metaInterval := (metas object).interval.getD 1000
        metaReset := reset } := by
      show CockpitMetrics.applyMeta _ _ _ = _
      unfold CockpitMetrics.applyMeta
      rw [hinfos]
    have hacc : Accepted (metas object) infos := hinfos
    rw [hs']
    refine ⟨rfl, rfl, rfl, .inr ⟨rfl, ⟨?_, ?_, ?_, ?_, ?_⟩, by simp, ?_⟩⟩
    · intro infos' heq
      exact ⟨object, rfl, some.inj heq ▸ hacc⟩
    · intro hno
      cases hno
    · intro hempty
      exact ⟨(h.first hempty).1, rfl⟩
    · intro frame hlast
      obtain ⟨objectL, infosL, rows, h1, h2, h3, h4, h5, h6⟩ := h.last frame hlast
      refine ⟨objectL, infosL, rows, h1, h2, h3, h4, h5, ?_⟩
      intro next hnext
      rw [← some.inj hnext, hacc.length]
      cases hold : s.metricInfo with
      | none =>
        -- no frame was sent before the first meta message
        have hlast' : s.computed.getLast? = some frame := hlast
        rw [(h.fresh hold).2.1] at hlast'
        cases hlast'
      | some old => rw [← h6 old hold, hlen old hold]
    · intro hvalid
      cases hvalid
    · intro old infos' hold hnew
      rw [← some.inj hnew, hacc.length, hlen old hold]

omit [DecidableEq V] in
/-- **A meta message** is accepted, or the channel fails; without metrics nothing works. -/
theorem Inv.updateForMeta (h : s.Inv metas) (object : Nat) (reset : Bool) :
    let s' := ({ s with nextMeta := some object } : CockpitMetrics V).updateForMeta
      (metas object) reset
    s'.message = s.message ∧ s'.computed = s.computed ∧
    ((s'.overrun ∧ s.metricInfo = none ∧ (metas object).metrics = []) ∨
      (s.metricInfo = none → (metas object).metrics ≠ []) ∧ s'.overrun = s.overrun ∧
      (s'.failed ≠ none ∨ s'.failed = s.failed ∧ s'.Inv metas ∧ s'.metricInfo ≠ none ∧
        ∀ infos infos', s.metricInfo = some infos → s'.metricInfo = some infos' →
          infos'.length = infos.length)) := by
  intro s'
  rcases eq_none_or_eq_some s.metricInfo with hinfo | ⟨infos, hinfo⟩
  · by_cases hempty : (metas object).metrics = []
    · have hs' : s' = { s with nextMeta := some object, overrun := true } := by
        show CockpitMetrics.updateForMeta _ _ _ = _
        unfold CockpitMetrics.updateForMeta
        simp only [hinfo, if_pos hempty]
      rw [hs']
      exact ⟨rfl, rfl, .inl ⟨rfl, hinfo, hempty⟩⟩
    have hs' : s' = ({ s with nextMeta := some object } : CockpitMetrics V).applyMeta
        (metas object) true := by
      show CockpitMetrics.updateForMeta _ _ _ = _
      unfold CockpitMetrics.updateForMeta
      simp only [hinfo, if_neg hempty]
    rw [hs']
    obtain ⟨h1, h2, h3, h4⟩ := h.applyMeta true (by
      intro infos hsome
      rw [hinfo] at hsome
      cases hsome)
    exact ⟨h1, h2, .inr ⟨fun _ => hempty, h3, h4⟩⟩
  by_cases hlen : infos.length = (metas object).metrics.length
  · have hs' : s' = ({ s with nextMeta := some object } : CockpitMetrics V).applyMeta
        (metas object) reset := by
      show CockpitMetrics.updateForMeta _ _ _ = _
      unfold CockpitMetrics.updateForMeta
      simp only [hinfo, hlen, ne_eq, not_true_eq_false, if_false]
    rw [hs']
    obtain ⟨h1, h2, h3, h4⟩ := h.applyMeta reset (by
      intro infos' hsome
      rw [hinfo] at hsome
      rw [← some.inj hsome, hlen])
    exact ⟨h1, h2, .inr ⟨fun hno => (by rw [hinfo] at hno; cases hno), h3, h4⟩⟩
  have hs' : s' = ({ s with nextMeta := some object } : CockpitMetrics V).fail
      "number of metrics must not change" := by
    show CockpitMetrics.updateForMeta _ _ _ = _
    unfold CockpitMetrics.updateForMeta
    simp only [hinfo, ne_eq, hlen, not_false_eq_true, if_true]
  rw [hs']
  exact ⟨rfl, rfl, .inr ⟨fun hno => (by rw [hinfo] at hno; cases hno), rfl, .inl (by simp [fail])⟩⟩

end CockpitMetrics

/-! ### The two ends -/

namespace MetricsReceiver

theorem decompressAll_append {last mid : Option (MetricFrame V)} {message out : List (MetricFrame V)}
    (h : decompressAll last message = (mid, some out)) {data frame : MetricFrame V}
    (hframe : decompress mid data = some frame) :
    decompressAll last (message ++ [data]) = (some frame, some (out ++ [frame])) := by
  induction message generalizing last out with
  | nil =>
    rw [decompressAll, Prod.mk.injEq, some.injEq] at h
    obtain ⟨rfl, rfl⟩ := h
    show decompressAll last [data] = _
    unfold decompressAll
    rw [hframe]
    rfl
  | cons d message ih =>
    rw [cons_append]
    unfold decompressAll at h ⊢
    cases hd : decompress last d with
    | none =>
      rw [hd] at h
      cases h
    | some x =>
      rw [hd] at h
      simp only [Prod.mk.injEq, map_eq_some_iff] at h ⊢
      obtain ⟨h1, rest, h2, rfl⟩ := h
      have hrest := @ih (some x) rest (by rw [← h1, ← h2])
      rw [hrest]
      exact ⟨rfl, rest ++ [frame], rfl, rfl⟩

end MetricsReceiver

namespace MetricsPair

open MetricsReceiver

variable [DecidableEq V] {metas : Nat → MetaDesc} {ops : SampleOps V} {p : MetricsPair V}

/-- What the receiver will have passed on once the message that is collected arrives. -/
def view (p : MetricsPair V) : List (MetricFrame V) :=
  p.receiver.received ++ (decompressAll p.receiver.last (p.sender.message.getD [])).2.getD []

/-- **The two ends** while the channel is open. -/
structure Inv (metas : Nat → MetaDesc) (p : MetricsPair V) : Prop where
  sender : p.sender.Inv metas
  notFailed : p.sender.failed = none
  notOverrun : p.sender.overrun = false
  gotMeta : p.sender.metricInfo ≠ none → p.receiver.gotMeta
  decompressed : ∃ out,
    decompressAll p.receiver.last (p.sender.message.getD []) = (p.view.getLast?, some out)
  length : p.view.length = p.sender.computed.length
  shape : ∀ infos frame, p.sender.metricInfo = some infos → p.view.getLast? = some frame →
    frame.length = infos.length ∧ ∀ item ∈ frame, item.Proper

omit [DecidableEq V] in
/-- **Flushing** changes nothing about what the receiver will have. -/
theorem Inv.flush (h : p.Inv metas) :
    p.sender.flushData.1 = { p.sender with message := none } ∧
    (p.sender.flushData.2.foldl receive p.receiver).received = p.view ∧
    (MetricsPair.mk p.sender.flushData.1 (p.sender.flushData.2.foldl receive p.receiver)).view =
      p.view ∧
    (MetricsPair.mk p.sender.flushData.1
      (p.sender.flushData.2.foldl receive p.receiver)).Inv metas := by
  obtain ⟨out, hout⟩ := h.decompressed
  cases hmsg : p.sender.message with
  | none =>
    have hflush : p.sender.flushData = (p.sender, []) := by
      unfold flushData
      rw [hmsg]
    have hsame : ({ p.sender with message := none } : CockpitMetrics V) = p.sender := by
      rw [← hmsg]
    rw [hflush]
    refine ⟨hsame.symm, ?_, rfl, h⟩
    show p.receiver.received = _
    unfold view
    rw [hmsg]
    simp [decompressAll]
  | some frames =>
    have hgot : p.receiver.gotMeta := by
      apply h.gotMeta
      intro hno
      rw [(h.sender.fresh hno).2.2] at hmsg
      cases hmsg
    have hflush : p.sender.flushData = ({ p.sender with message := none }, [.data frames]) := by
      unfold flushData
      rw [hmsg]
    rw [hmsg, getD_some] at hout
    have hview : p.view = p.receiver.received ++ out := by
      unfold view
      rw [hmsg, getD_some, hout]
      rfl
    have hreceive : [MetricsMessage.data frames].foldl receive p.receiver =
        { p.receiver with last := p.view.getLast?, received := p.view } := by
      show receive p.receiver (.data frames) = _
      simp only [receive, hgot, if_true, hout, hview, getD_some]
    rw [hflush]
    simp only [hreceive]
    have hview' : (MetricsPair.mk { p.sender with message := none }
        { p.receiver with last := p.view.getLast?, received := p.view }).view = p.view := by
      unfold view
      simp [decompressAll]
    refine ⟨trivial, trivial, hview', ?_⟩
    refine ⟨⟨h.sender.infos, ?_, h.sender.first, h.sender.last, h.sender.valid⟩, h.notFailed,
      h.notOverrun, h.gotMeta, ?_, ?_, ?_⟩
    · exact fun hno => ⟨(h.sender.fresh hno).1, (h.sender.fresh hno).2.1, rfl⟩
    · rw [hview']
      exact ⟨[], rfl⟩
    · rw [hview']
      exact h.length
    · rw [hview']
      exact h.shape

/-- The condition on a call: every meta message has metrics, and a data frame neither reads
    outside of the buffers nor has fewer instances of a metric than the one before. -/
def CallOk (metas : Nat → MetaDesc) (p : MetricsPair V) : MetricsCall V → Prop
  | .sendMeta object _ =>
    p.sender.failed = none → p.sender.metricInfo = none → (metas object).metrics ≠ []
  | .sendData .. =>
    p.sender.failed = none → p.sender.InBounds metas ∧ p.sender.NotShrunk metas
  | .flush | .setInterpolate _ | .setCompress _ => True

/-- What a call does to an open channel. -/
inductive Outcome (metas : Nat → MetaDesc) (p p' : MetricsPair V) (call : MetricsCall V) : Prop
  /-- It stays open, and in step if it was and the call is all right. -/
  | open_ (inv : p'.Inv metas)
      (info : p.sender.metricInfo ≠ none ∨ (∃ object reset, call = .sendMeta object reset) →
        p'.sender.metricInfo ≠ none)
      (view : p'.view = p'.sender.computed ↔
        p.view = p.sender.computed ∧ CallOk metas p call) : Outcome metas p p' call
  /-- The channel fails, with all that was sent so far at the receiver. -/
  | failed (failed : p'.sender.failed ≠ none) (overrun : p'.sender.overrun = false)
      (received : p'.receiver.received = p.view) (computed : p'.sender.computed = p.sender.computed)
      (ok : CallOk metas p call) : Outcome metas p p' call
  /-- Memory outside of a buffer is read. -/
  | overrun (overrun : p'.sender.overrun) (bad : ¬ CallOk metas p call) :
      Outcome metas p p' call

/-- **A frame** that is sent is decompressed as it is, or the receiver gets out of step. -/
theorem Inv.sendData (h : p.Inv metas) {infos : List MetricInfo}
    (hinfos : p.sender.metricInfo = some infos) (buffer : Nat → Nat → Option V) (timestamp : Int) :
    Outcome metas p ⟨p.sender.sendData metas ops buffer timestamp, p.receiver⟩
      (.sendData buffer timestamp) := by
  rcases CockpitMetrics.Inv.sendData ops h.sender hinfos buffer timestamp with
    ⟨hbad, hover⟩ | ⟨hin, hinv, full, data, hsent, hshrunk⟩
  · exact .overrun hover fun hok => hbad (hok h.notFailed).1
  set s' := p.sender.sendData metas ops buffer timestamp with hs'
  obtain ⟨out, hout⟩ := h.decompressed
  -- the frame that the receiver makes of the data
  have hframe : ∃ frame, decompress p.view.getLast? data = some frame ∧
      frame.length = infos.length ∧ (∀ item ∈ frame, item.Proper) ∧
      (p.view = p.sender.computed → (frame = full ↔ p.sender.NotShrunk metas)) := by
    have hfull := hsent.length
    cases hlast : p.view.getLast? with
    | none =>
      -- the first frame is complete
      have hempty : p.sender.computed = [] := by
        have hlen := h.length
        rw [getLast?_eq_none_iff.mp hlast] at hlen
        exact eq_nil_of_length_eq_zero hlen.symm
      have heq : data = full := by
        apply eq_of_sparse_nil
        rw [hfull]
        apply hsent.sparse []
        intro hvalid
        rw [(h.sender.first hempty).2] at hvalid
        cases hvalid
      refine ⟨data, rfl, by rw [heq, hfull], by rw [heq]; exact hsent.proper, ?_⟩
      intro _
      rw [hshrunk, hempty]
      exact ⟨fun _ last hl => by simp at hl, fun _ => heq⟩
    | some last =>
      obtain ⟨hlen, hproper⟩ := h.shape infos last hinfos hlast
      have hany := hsent.sparse (p.sender.computed.getLast?.getD []) (by
        intro hvalid
        obtain ⟨-, -, infos', -, hl⟩ := h.sender.valid hvalid
        rw [hl]
        rfl)
      have hdata : ∀ item ∈ data, item = .cell .null ∨ item.Proper := by
        intro item hitem
        obtain ⟨k, hk⟩ := mem_iff_getElem?.mp hitem
        have hlt : k < infos.length :=
          lt_of_lt_of_le (List.getElem?_eq_some_iff.mp hk).1 hany.length
        have hrel := hany.rel k hlt full[k] (getElem?_eq_getElem (hfull ▸ hlt))
        rw [hk] at hrel
        exact sent_proper hrel
      obtain ⟨frame, hframe, hframeLen, hframeProper⟩ :=
        fillFrame_proper hproper hdata (by rw [hlen]; exact hany.length)
      refine ⟨frame, hframe, hframeLen.trans hlen, hframeProper, ?_⟩
      intro hinStep
      rw [hinStep] at hlast
      have hsparse := hsent.sparse last fun _ => hlast
      rw [← hfull] at hsparse
      have hiff := fillFrame_eq_iff (by rw [hlen, hfull]) hproper hsparse
      rw [hframe, some.injEq] at hiff
      rw [hiff, hshrunk, hlast]
      simp
  obtain ⟨frame, hframe, hlen, hproper, hiff⟩ := hframe
  have hall : decompressAll p.receiver.last (s'.message.getD []) =
      (some frame, some (out ++ [frame])) := by
    rw [hsent.message, getD_some]
    exact decompressAll_append hout hframe
  have hview : (MetricsPair.mk s' p.receiver).view = p.view ++ [frame] := by
    unfold view
    simp only [hall, hout, getD_some, append_assoc]
  refine .open_ ⟨hinv, hsent.failed.trans h.notFailed, hsent.overrun.trans h.notOverrun, ?_, ?_, ?_, ?_⟩ ?_ ?_
  · intro hinfo
    rw [show (MetricsPair.mk s' p.receiver).sender.metricInfo = p.sender.metricInfo from
      hsent.metricInfo] at hinfo
    exact h.gotMeta hinfo
  · rw [hview, getLast?_concat]
    exact ⟨out ++ [frame], hall⟩
  · rw [hview]
    show _ = s'.computed.length
    rw [hsent.computed, length_append, length_append, h.length]
    rfl
  · intro infos' frame' hinfos' hlast
    rw [hview, getLast?_concat, some.injEq] at hlast
    rw [show (MetricsPair.mk s' p.receiver).sender.metricInfo = p.sender.metricInfo from
      hsent.metricInfo, hinfos, some.injEq] at hinfos'
    rw [← hlast, ← hinfos']
    exact ⟨hlen, hproper⟩
  · intro _
    rw [show (MetricsPair.mk s' p.receiver).sender.metricInfo = p.sender.metricInfo from
      hsent.metricInfo, hinfos]
    simp
  rw [hview]
  show _ = s'.computed ↔ _
  rw [hsent.computed]
  constructor
  · intro heq
    obtain ⟨h1, h2⟩ := append_inj heq h.length
    rw [cons.injEq] at h2
    exact ⟨h1, fun _ => ⟨hin, (hiff h1).mp h2.1⟩⟩
  · rintro ⟨h1, hok⟩
    rw [h1, (hiff h1).mpr (hok h.notFailed).2]

/-- An open channel takes a call. -/
theorem Inv.step_eq (ops : SampleOps V) (h : p.Inv metas) (call : MetricsCall V) : p.step metas ops call =
    match call with
    | .sendMeta object reset =>
      ⟨(p.sender.sendMeta metas object reset).1,
        (p.sender.sendMeta metas object reset).2.foldl receive p.receiver⟩
    | .sendData buffer timestamp => ⟨p.sender.sendData metas ops buffer timestamp, p.receiver⟩
    | .flush => ⟨p.sender.flushData.1, p.sender.flushData.2.foldl receive p.receiver⟩
    | .setInterpolate interpolate => ⟨{ p.sender with interpolate := interpolate }, p.receiver⟩
    | .setCompress compress => ⟨{ p.sender with compress := compress }, p.receiver⟩ := by
  unfold step CockpitMetrics.call
  rw [if_neg (by rw [h.notFailed, h.notOverrun]; decide)]
  cases call <;> rfl

omit [DecidableEq V] in
/-- **A meta message.** -/
theorem Inv.sendMeta (h : p.Inv metas) (object : Nat) (reset : Bool) :
    Outcome metas p ⟨(p.sender.sendMeta metas object reset).1,
      (p.sender.sendMeta metas object reset).2.foldl receive p.receiver⟩
      (.sendMeta object reset) := by
  obtain ⟨hflush, hreceived, hview, hinv⟩ := h.flush
  set r := p.sender.flushData.2.foldl receive p.receiver with hr
  set s₁ := p.sender.flushData.1 with hs₁
  have hlast : r.last = p.view.getLast? := by
    obtain ⟨out, hout⟩ := hinv.decompressed
    rw [hview] at hout
    have hmsg : s₁.message = none := by rw [hflush]
    simp only [hmsg, getD_none, decompressAll, Prod.mk.injEq] at hout
    exact hout.1
  -- the sender after the update
  set s₂ := ({ s₁ with nextMeta := some object } : CockpitMetrics V).updateForMeta
    (metas object) reset with hs₂
  obtain ⟨hmsg, hcomp, hcases⟩ := hinv.sender.updateForMeta object reset
  rw [← hs₂] at hmsg hcomp hcases
  have hmsg : s₂.message = none := by rw [hmsg, hflush]
  have hcomp : s₂.computed = p.sender.computed := by rw [hcomp, hflush]
  have hinfo : s₁.metricInfo = p.sender.metricInfo := by rw [hflush]
  have hsend : p.sender.sendMeta metas object reset =
      (s₂, if s₂.failed.isNone && !s₂.overrun then
        p.sender.flushData.2 ++ [.metaObject object] else p.sender.flushData.2) := rfl
  rw [hsend]
  rcases hcases with ⟨hover, hnone, hempty⟩ | ⟨hok, hover, hcases⟩
  · refine .overrun hover fun hcall => hcall h.notFailed ?_ hempty
    rw [← hinfo]
    exact hnone
  have hover : s₂.overrun = false := hover.trans hinv.notOverrun
  have hcall : CallOk metas p (.sendMeta object reset) := fun _ hnone => hok (hinfo.trans hnone)
  rcases hcases with hfail | ⟨hfail, hsender, hsome, hlen⟩
  · refine .failed hfail hover ?_ hcomp hcall
    rw [if_neg (by simp [hfail])]
    exact hreceived
  have hfail : s₂.failed = none := hfail.trans hinv.notFailed
  rw [if_pos (by simp [hfail, hover]), foldl_append, ← hr]
  have hview₂ : (MetricsPair.mk s₂ (receive r (.metaObject object))).view = p.view := by
    unfold view
    rw [show (MetricsPair.mk s₂ (receive r (.metaObject object))).sender.message = none from
      hmsg]
    show r.received ++ [] = _
    rw [append_nil, hreceived]
    rfl
  show Outcome metas p ⟨s₂, receive r (.metaObject object)⟩ _
  refine .open_ ⟨hsender, hfail, hover, fun _ => rfl, ?_, ?_, ?_⟩ (fun _ => hsome) ?_
  · rw [hview₂, ← hlast, show (MetricsPair.mk s₂ (receive r (.metaObject object))).sender.message =
      none from hmsg]
    exact ⟨[], rfl⟩
  · rw [hview₂]
    show _ = s₂.computed.length
    rw [hcomp]
    exact h.length
  · intro infos frame hinfos hframe
    rw [hview₂] at hframe
    rcases eq_none_or_eq_some p.sender.metricInfo with hno | ⟨old, hold⟩
    · -- there was no frame yet
      have hlength := h.length
      rw [(h.sender.fresh hno).2.1] at hlength
      rw [eq_nil_of_length_eq_zero hlength] at hframe
      cases hframe
    · obtain ⟨h1, h2⟩ := h.shape old frame hold hframe
      exact ⟨h1.trans (hlen old infos (hinfo.trans hold) hinfos).symm, h2⟩
  rw [hview₂]
  show _ = s₂.computed ↔ _
  rw [hcomp]
  exact ⟨fun heq => ⟨heq, hcall⟩, fun heq => heq.1⟩

/-- **Every call** to an open channel; a data frame needs a meta message before it. -/
theorem Inv.step (ops : SampleOps V) (h : p.Inv metas) (call : MetricsCall V)
    (hmeta : p.sender.metricInfo = none → ∀ buffer timestamp, call ≠ .sendData buffer timestamp) :
    Outcome metas p (p.step metas ops call) call := by
  rw [Inv.step_eq ops h]
  cases call with
  | sendMeta object reset => exact h.sendMeta object reset
  | sendData buffer timestamp =>
    obtain ⟨infos, hinfos⟩ : ∃ infos, p.sender.metricInfo = some infos := by
      rw [← ne_none_iff_exists']
      exact fun hno => hmeta hno buffer timestamp rfl
    exact h.sendData hinfos buffer timestamp
  | flush =>
    obtain ⟨hflush, -, hview, hinv⟩ := h.flush
    refine .open_ hinv ?_ ?_
    · rintro (hinfo | ⟨_, _, hcall⟩)
      · show p.sender.flushData.1.metricInfo ≠ none
        rw [hflush]
        exact hinfo
      · cases hcall
    rw [hview]
    show _ = p.sender.flushData.1.computed ↔ _
    rw [hflush]
    exact ⟨fun heq => ⟨heq, trivial⟩, fun heq => heq.1⟩
  | setInterpolate interpolate | setCompress compress =>
    exact .open_ { h with sender := ⟨h.sender.infos, h.sender.fresh, h.sender.first,
        h.sender.last, h.sender.valid⟩ }
      (fun hor => hor.resolve_right fun ⟨_, _, hcall⟩ => by cases hcall)
      ⟨fun heq => ⟨heq, trivial⟩, fun heq => heq.1⟩

/-! ### Runs -/

/-- Whether a meta message comes before the first data frame. -/
def metaFirst : List (MetricsCall V) → Bool
  | [] | .sendMeta .. :: _ => true
  | .sendData .. :: _ => false
  | _ :: calls => metaFirst calls

/-- **The channel is lossless** from a state on: what is sent by the end, once it is flushed, is
    decompressed to the frames that were computed. -/
def Lossless (metas : Nat → MetaDesc) (ops : SampleOps V) (p : MetricsPair V)
    (calls : List (MetricsCall V)) : Prop :=
  let p' := run (step metas ops) p (calls ++ [.flush])
  p'.sender.overrun = false ∧ p'.receiver.received = p'.sender.computed

/-- A closed channel does nothing. -/
theorem run_closed (hclos : p.sender.failed ≠ none ∨ p.sender.overrun)
    (calls : List (MetricsCall V)) : run (step metas ops) p calls = p := by
  have hstep : ∀ call, p.step metas ops call = p := by
    intro call
    unfold step CockpitMetrics.call
    rw [if_pos]
    · rfl
    · rcases hclos with hfail | hover
      · simp [isSome_iff_ne_none.mpr hfail]
      · simp [hover]
  induction calls with
  | nil => rfl
  | cons call calls ih => rw [run_cons, hstep, ih]

theorem runOk_closed (hfail : p.sender.failed ≠ none) (calls : List (MetricsCall V)) :
    RunOk (step metas ops) (CallOk metas) p calls := by
  induction calls with
  | nil => trivial
  | cons call calls ih =>
    have hstep : p.step metas ops call = p := run_closed (.inl hfail) [call]
    refine ⟨?_, hstep.symm ▸ ih⟩
    cases call with
    | sendMeta object reset | sendData buffer timestamp => exact fun hno => absurd hno hfail
    | flush | setInterpolate interpolate | setCompress compress => trivial

/-- **Losslessness, from an open channel on.** -/
theorem Inv.lossless_iff (h : p.Inv metas) {calls : List (MetricsCall V)}
    (hmeta : p.sender.metricInfo = none → metaFirst calls) :
    Lossless metas ops p calls ↔ p.view = p.sender.computed ∧
      RunOk (MetricsPair.step metas ops) (CallOk metas) p calls := by
  induction calls generalizing p with
  | nil =>
    obtain ⟨hflush, hreceived, -, -⟩ := h.flush
    have hstep := Inv.step_eq ops h .flush
    unfold Lossless
    simp only [nil_append, run_cons, run_nil, hstep, hreceived, RunOk, and_true]
    rw [hflush]
    exact ⟨fun hl => hl.2, fun heq => ⟨h.notOverrun, heq⟩⟩
  | cons call calls ih =>
    have hout := Inv.step ops h call (by
      rintro hno buffer timestamp rfl
      cases hmeta hno)
    have hcons : Lossless metas ops p (call :: calls) ↔
        Lossless metas ops (p.step metas ops call) calls := by
      unfold Lossless
      rw [cons_append, run_cons]
    rw [hcons]
    rcases hout with ⟨hinv, hinfo, hview⟩ | ⟨hfail, hover, hreceived, hcomp, hok⟩ | ⟨hover, hbad⟩
    · rw [ih hinv, hview, and_assoc]
      · exact Iff.rfl
      intro hno
      have hno' : p.sender.metricInfo = none := by
        by_contra hne
        exact hinfo (.inl hne) hno
      have hfirst := hmeta hno'
      cases call with
      | sendMeta object reset => exact absurd hno (hinfo (.inr ⟨object, reset, rfl⟩))
      | sendData buffer timestamp => cases hfirst
      | flush | setInterpolate _ | setCompress _ => exact hfirst
    · have hclos : run (MetricsPair.step metas ops) (p.step metas ops call) (calls ++ [.flush]) =
          p.step metas ops call := run_closed (.inl hfail) _
      unfold Lossless
      rw [hclos]
      simp only [hover, hreceived, hcomp, true_and]
      exact ⟨fun heq => ⟨heq, hok, runOk_closed hfail calls⟩, fun heq => heq.1⟩
    have hclos : run (MetricsPair.step metas ops) (p.step metas ops call) (calls ++ [.flush]) =
        p.step metas ops call := run_closed (.inr hover) _
    unfold Lossless
    rw [hclos]
    simp only [hover, Bool.true_eq_false, false_and, false_iff]
    exact fun hright => hbad hright.2.1

omit [DecidableEq V] in
theorem inv_new : (new : MetricsPair V).Inv metas := by
  refine ⟨⟨?_, ?_, ?_, ?_, ?_⟩, rfl, rfl, ?_, ⟨[], rfl⟩, rfl, ?_⟩
  · intro infos hinfos
    cases hinfos
  · exact fun _ => ⟨rfl, rfl, rfl⟩
  · exact fun _ => ⟨rfl, rfl⟩
  · intro frame hframe
    cases hframe
  · intro hvalid
    cases hvalid
  · exact fun hne => absurd rfl hne
  · intro infos frame hinfos
    cases hinfos

/-- **The metrics channel is lossless exactly in these runs**: every meta message before the first
    data frame has metrics, and no data frame has fewer instances of a metric than the frame
    before, or needs a last value that is not in the buffer. -/
theorem run_metrics (metas : Nat → MetaDesc) (ops : SampleOps V) (calls : List (MetricsCall V))
    (hfirst : metaFirst calls = true) :
    Lossless metas ops new calls ↔ RunOk (MetricsPair.step metas ops) (CallOk metas) new calls := by
  rw [inv_new.lossless_iff fun _ => hfirst]
  exact ⟨fun h => h.2, fun h => ⟨rfl, h⟩⟩

/-- Whole numbers as samples. -/
def wholeOps : SampleOps Int where
  interpolate r last val := val.map fun v => (last * (r.2 - r.1) + v * r.1) / r.2
  delta val last := do some ((← val) - (← last))
  rate val last ms := do some (((← val) - (← last)) / ms * 1000)

/-- A metric with the instances a and b, then with a only; and one without instances. -/
def twoMetas (object : Nat) : MetaDesc :=
  ⟨[⟨.absent, .array (if object = 0 then [some "a", some "b"] else [some "a"])⟩,
    ⟨.string "delta", .absent⟩], none⟩

/-- The instance b disappears between two frames. -/
def shrinkingCalls : List (MetricsCall Int) :=
  [.sendMeta 0 false, .sendData (fun _ j => some (j + 1)) 0, .sendMeta 1 false,
    .sendData (fun _ j => some (j + 1)) 1000]

/-- The receiver still has a value of b in the second frame. -/
theorem shrinkingCalls_not_lossless :
    metaFirst shrinkingCalls = true ∧ ¬ Lossless twoMetas wholeOps new shrinkingCalls := by
  refine ⟨rfl, ?_⟩
  unfold Lossless
  decide

/-- The instance b comes along, and later nothing changes. -/
def growingCalls : List (MetricsCall Int) :=
  [.sendMeta 1 false, .sendData (fun _ j => some (j + 1)) 0, .sendData (fun _ j => some (j + 1)) 1000,
    .flush, .sendMeta 0 true, .sendData (fun i j => some (i + j)) 2000,
    .sendData (fun i j => some (i + 2 * j)) 3000]

/-- In frames of the same metrics, or where a metric has no fewer names than before. -/
theorem twoMetas_instancesOf (object metric : Nat) : (twoMetas object).instancesOf metric =
    if metric = 0 then some (if object = 0 then [some "a", some "b"] else [some "a"]) else none := by
  rcases metric with _ | _ | metric <;> rfl

theorem run_metrics_growingCalls : Lossless twoMetas wholeOps new growingCalls := by
  have hgrow : ∀ {s : CockpitMetrics Int} {l n : Nat}, s.lastMeta = some l → s.nextMeta = some n →
      (n = 0 ∨ n = l) → s.NotShrunk twoMetas := by
    intro s l n hl hn hln last next metric names names' h1 h2 h3 h4
    rw [hl, some.injEq] at h1
    rw [hn, some.injEq] at h2
    rw [← h1, twoMetas_instancesOf] at h3
    rw [← h2, twoMetas_instancesOf] at h4
    split at h3
    · rename_i h0
      rw [if_pos h0] at h4
      rw [← some.inj h3, ← some.inj h4]
      rcases hln with rfl | rfl
      · rw [if_pos rfl]
        split <;> decide
      · exact le_refl _
    · cases h3
  have hbounds : ∀ {s : CockpitMetrics Int}, (s.lastData.drop 1).flatten ≠ [] →
      s.InBounds twoMetas := by
    intro s hdata _ next metric _ hlt hnone
    have hmetric : metric = 1 := by
      rw [twoMetas_instancesOf] at hnone
      split at hnone
      · cases hnone
      · have : (twoMetas next).metrics.length = 2 := rfl
        omega
    rw [hmetric]
    exact hdata
  apply (run_metrics twoMetas wholeOps growingCalls rfl).mpr
  refine ⟨fun _ _ => by simp [twoMetas], fun _ => ⟨fun hreset => (by cases hreset), ?_⟩,
    fun _ => ⟨hbounds (by decide), hgrow rfl rfl (by decide)⟩, trivial, fun _ hno => (by cases hno),
    fun _ => ⟨hbounds (by decide), hgrow rfl rfl (by decide)⟩,
    fun _ => ⟨hbounds (by decide), hgrow rfl rfl (by decide)⟩, trivial⟩
  intro last next metric names names' h1
  cases h1

end MetricsPair

end Cockpit
