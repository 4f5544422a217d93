import Cockpit.Kubernetes.Select

namespace Cockpit.Kube

open Lib (run RunOk run_invariant)
open List AList
open HashIndex

/-!
# `kubeSelect`: filters that are applied are plain filtering

* `digestFilter_right`, `digestsFilter_right` — what a filter returns for a dict that is indexed;
* `right_run` — for all runs of steps that keep to this.
-/

variable {V : Type}

namespace Select

/-! ## What is in the index -/

/-- All objects are found by their keys. -/
def Indexed (ix : HashIndex) (filters : List (Filter V)) (objects : Dict V) : Prop :=
  ∀ link object, objects.lookup link = some object → ∀ filter ∈ filters,
    ∀ key ∈ filter.indexKeys object, link ∈ ix.get key

/-- Nothing that is found gets lost. -/
def Grows (ix ix' : HashIndex) : Prop := ∀ key link, link ∈ ix.get key → link ∈ ix'.get key

theorem grows_refl (ix : HashIndex) : Grows ix ix := fun _ _ h => h

variable {ix ix' : HashIndex}

theorem Grows.trans {ix'' : HashIndex} (h : Grows ix ix') (h' : Grows ix' ix'') :
    Grows ix ix'' := fun key link hlink => h' key link (h key link hlink)

variable {filters : List (Filter V)} {objects : Dict V}

theorem Indexed.mono
    (h : Indexed ix filters objects) (hgrows : Grows ix ix') : Indexed ix' filters objects := by
  intro link object hlook filter hfilter key hkey
  exact hgrows key link (h link object hlook filter hfilter key hkey)

theorem grows_indexObject (filters : List (Filter V)) (ix : HashIndex) (link : JsString)
    (object : V) : Grows ix (indexObject filters ix link object) := by
  unfold indexObject
  induction filters generalizing ix with
  | nil => exact grows_refl ix
  | cons filter filters ih =>
    have hadd : Grows ix (ix.add (filter.indexKeys object) link) :=
      fun key link' h => mem_get_add (.inl h)
    exact hadd.trans (ih _)

variable {filter : Filter V} {key : JsString} {object : V}

theorem mem_indexObject (h : filter ∈ filters) (ix : HashIndex) (link : JsString)
    (hkey : key ∈ filter.indexKeys object) :
    link ∈ (indexObject filters ix link object).get key := by
  induction filters generalizing ix with
  | nil => exact nomatch h
  | cons first filters ih =>
    rcases mem_cons.mp h with rfl | h
    · have hadded : link ∈ (ix.add (filter.indexKeys object) link).get key :=
        mem_get_add (.inr ⟨rfl, hkey⟩)
      exact grows_indexObject filters _ link object key link hadded
    · exact ih h _

section

variable (filters : List (Filter V))

theorem grows_foldl (entries : List (Sigma fun _ : JsString => V))
    (ix : HashIndex) :
    Grows ix (entries.foldl (fun ix e => indexObject filters ix e.1 e.2) ix) := by
  induction entries generalizing ix with
  | nil => exact grows_refl ix
  | cons e entries ih => exact (grows_indexObject filters ix e.1 e.2).trans (ih _)

theorem grows_indexObjects (objects : Dict V) (ix : HashIndex) :
    Grows ix (indexObjects filters objects ix) := grows_foldl filters objects.entries ix

theorem indexed_indexObjects (objects : Dict V) (ix : HashIndex) :
    Indexed (indexObjects filters objects ix) filters objects := by
  have hmem : ∀ (entries : List (Sigma fun _ : JsString => V)) (ix : HashIndex), ∀ e ∈ entries,
      ∀ filter ∈ filters, ∀ key ∈ filter.indexKeys e.2,
        e.1 ∈ (entries.foldl (fun ix e => indexObject filters ix e.1 e.2) ix).get key := by
    intro entries
    induction entries with
    | nil => exact nofun
    | cons first entries ih =>
      intro ix e he filter hfilter key hkey
      rcases mem_cons.mp he with rfl | he
      · exact grows_foldl filters entries _ key e.1 (mem_indexObject hfilter ix e.1 hkey)
      · exact ih _ e he filter hfilter key hkey
  intro link object hlook filter hfilter key hkey
  exact hmem objects.entries ix ⟨link, object⟩ (mem_lookup_iff.mp hlook) filter hfilter key
    hkey

end

/-! ## What filters pick -/

/-- Of the links that may match, those are picked whose objects do. -/
theorem pick_spec {what : Dict V} {test : V → Bool} {possible : List JsString}
    (hnodup : possible.Nodup) {results : Dict V} {count : Nat} (hcount : count = results.entries.length)
    (hnew : ∀ link ∈ possible, link ∉ results) :
    (∀ link, (pick what test possible results count).1.lookup link =
      if link ∈ possible then (what.lookup link).filter test else results.lookup link) ∧
    (pick what test possible results count).2 =
      (pick what test possible results count).1.entries.length := by
  induction possible generalizing results count with
  | nil => exact ⟨fun link => by simp [pick], hcount⟩
  | cons first possible ih =>
    obtain ⟨hfirst, hnodup⟩ := nodup_cons.mp hnodup
    have hskip : (what.lookup first).filter test = none →
        (∀ link, (pick what test possible results count).1.lookup link =
          if link ∈ first :: possible then (what.lookup link).filter test
          else results.lookup link) ∧
        (pick what test possible results count).2 =
          (pick what test possible results count).1.entries.length := by
      intro hnone
      obtain ⟨hlook, hlen⟩ := ih hnodup hcount fun link hlink =>
        hnew link (mem_cons_of_mem first hlink)
      refine ⟨fun link => ?_, hlen⟩
      rw [hlook]
      by_cases heq : link = first
      · subst heq
        have hold : results.lookup link = none :=
          lookup_eq_none.mpr (hnew link mem_cons_self)
        rw [if_neg hfirst, if_pos mem_cons_self, hnone, hold]
      · simp [heq]
    unfold pick
    cases hwhat : what.lookup first with
    | none => exact hskip (by rw [hwhat]; rfl)
    | some object =>
      dsimp only
      by_cases htest : test object
      · rw [if_pos htest]
        have hnot : first ∉ results := hnew first mem_cons_self
        have hcount' : count + 1 = (results.insert first object).entries.length := by
          rw [entries_insert_of_notMem hnot, length_cons, hcount]
        obtain ⟨hlook, hlen⟩ := ih hnodup hcount' fun link hlink => by
          rw [mem_insert]
          rintro (rfl | hmem)
          · exact hfirst hlink
          · exact hnew link (mem_cons_of_mem first hlink) hmem
        refine ⟨fun link => ?_, hlen⟩
        rw [hlook]
        by_cases heq : link = first
        · subst heq
          rw [if_neg hfirst, if_pos mem_cons_self, lookup_insert, hwhat,
            Option.filter_some, if_pos htest]
        · rw [lookup_insert_ne heq]
          simp [heq]
      · rw [if_neg htest]
        refine hskip ?_
        rw [hwhat, Option.filter_some, if_neg htest]

/-! ### Keys that match -/

variable {keys keyo : List JsString}

theorem matchesAt_iff {j : Nat} :
    matchesAt keys keyo j ↔ keys <+: keyo.drop j := by
  unfold matchesAt
  rw [all_eq_true, prefix_iff_getElem?]
  constructor
  · intro h k hk
    have hat := of_decide_eq_true (h k (mem_range.mpr hk))
    rw [getElem?_drop, hat, getElem?_eq_getElem hk]
  intro h k hk
  have hlt := mem_range.mp hk
  apply decide_eq_true
  rw [← getElem?_drop, h k hlt, getElem?_eq_getElem hlt]

/-- **Keys match** when the object has them one after the other. -/
theorem isMatch_iff (hkeys : keys ≠ []) :
    isMatch keys keyo ↔ keys <:+: keyo := by
  unfold isMatch
  rw [any_eq_true]
  constructor
  · rintro ⟨j, -, h⟩
    obtain ⟨-, hmatches⟩ := Bool.and_eq_true_iff.mp h
    exact (matchesAt_iff.mp hmatches).isInfix.trans (drop_suffix j keyo).isInfix
  rintro ⟨before, after, rfl⟩
  have hpos := length_pos_iff.mpr hkeys
  refine ⟨before.length, ?_, Bool.and_eq_true_iff.mpr ⟨?_, ?_⟩⟩
  · rw [mem_range]
    simp only [List.length_append]
    omega
  · apply decide_eq_true
    rw [append_assoc, getElem?_append_right (le_refl _), Nat.sub_self, getElem?_append_left hpos]
  · rw [matchesAt_iff, append_assoc, drop_left]
    exact prefix_append _ _

theorem mem_sort : key ∈ sort keys ↔ key ∈ keys :=
  mem_insertionSort _

theorem sort_ne_nil (h : keys ≠ []) : sort keys ≠ [] := by
  obtain ⟨key, hkey⟩ := exists_mem_of_ne_nil keys h
  exact ne_nil_of_mem (mem_sort.mpr hkey)

/-! ### Filters -/

variable {what : Dict V}

theorem pick_right {test : V → Bool} {matching : V → Prop}
    {possible : List JsString} (hpossible : Lib.Increasing possible)
    (htest : ∀ link object, what.lookup link = some object → link ∈ possible →
      (test object ↔ matching object))
    (hfound : ∀ link object, what.lookup link = some object → matching object → link ∈ possible) :
    (∀ link object, (pick what test possible ∅ 0).1.lookup link = some object ↔
      what.lookup link = some object ∧ matching object) ∧
    (pick what test possible ∅ 0).2 = (pick what test possible ∅ 0).1.entries.length := by
  have hnodup : possible.Nodup := hpossible.imp fun hlt => ne_of_lt hlt
  obtain ⟨hlook, hlen⟩ := @pick_spec V what test possible hnodup ∅ 0 rfl
    fun link _ => notMem_empty link
  refine ⟨fun link object => ?_, hlen⟩
  rw [hlook]
  constructor
  · intro h
    split at h
    · rename_i hmem
      obtain ⟨hwhat, hobj⟩ := Option.filter_eq_some_iff.mp h
      exact ⟨hwhat, (htest link object hwhat hmem).mp hobj⟩
    · exact nomatch h
  rintro ⟨hwhat, hmatches⟩
  have hmem := hfound link object hwhat hmatches
  rw [if_pos hmem]
  exact Option.filter_eq_some_iff.mpr ⟨hwhat, (htest link object hwhat hmem).mpr hmatches⟩

variable {args : List V}

theorem digestFilter_right {f : List V → Option JsString} (hfilter : filter ∈ filters)
    (hcrit : filter.criterion = .digest f) (hix : Indexed ix filters what) (hsel : Selective filter args what) :
    (∀ link object, (digestFilter f ix what args).1.lookup link = some object ↔
      what.lookup link = some object ∧ filter.Matches args object) ∧
    (digestFilter f ix what args).2 = (digestFilter f ix what args).1.entries.length := by
  unfold Selective at hsel
  rw [hcrit] at hsel
  dsimp only at hsel
  have hmatches : ∀ object, filter.Matches args object ↔
      ∃ key, f args = some key ∧ f [object] = some key := by
    intro object
    unfold Filter.Matches
    rw [hcrit]
  unfold digestFilter
  cases hkey : f args with
  | none =>
    apply pick_right List.Pairwise.nil
    · intro link object _ hmem
      exact nomatch hmem
    intro link object _ h
    obtain ⟨key, hargs, -⟩ := (hmatches object).mp h
    rw [hkey] at hargs
    exact nomatch hargs
  | some key =>
    have hkeys : ∀ object, filter.Matches args object ↔ f [object] = some key := by
      intro object
      rw [hmatches, hkey]
      simp
    apply pick_right (ix.increasing_get key)
    · intro link object _ _
      rw [hkeys]
      exact decide_eq_true_iff
    intro link object hwhat h
    apply hix link object hwhat filter hfilter
    have hobj := (hkeys object).mp h
    unfold Filter.indexKeys
    rw [hcrit]
    dsimp only
    rw [hobj]
    dsimp only
    by_cases hempty : key = []
    · rw [hempty] at hkey hobj
      exact absurd hobj (hsel hkey link object hwhat)
    · rw [if_neg hempty]
      exact mem_singleton_self key

theorem digestsFilter_right {f : List V → List JsString} (hfilter : filter ∈ filters)
    (hcrit : filter.criterion = .digests f) (hix : Indexed ix filters what) (hsel : Selective filter args what) :
    (∀ link object, (digestsFilter f ix what args).1.lookup link = some object ↔
      what.lookup link = some object ∧ filter.Matches args object) ∧
    (digestsFilter f ix what args).2 = (digestsFilter f ix what args).1.entries.length := by
  unfold Selective at hsel
  rw [hcrit] at hsel
  dsimp only at hsel
  have hmatches : ∀ object, filter.Matches args object ↔
      f args ≠ [] ∧ ∀ key ∈ f args, key ∈ f [object] := by
    intro object
    unfold Filter.Matches
    rw [hcrit]
  unfold digestsFilter
  dsimp only
  by_cases hkeys : f args = []
  · rw [hkeys]
    apply pick_right List.Pairwise.nil
    · intro link object _ hmem
      exact nomatch hmem
    · intro link object _ h
      exact absurd hkeys ((hmatches object).mp h).1
  rw [if_pos (length_pos_iff.mpr hkeys)]
  apply pick_right (ix.increasing_all _)
  · intro link object hwhat _
    rw [isMatch_iff (sort_ne_nil hkeys)]
    constructor
    · intro hthere
      refine (hmatches object).mpr ⟨hkeys, fun key hkey => ?_⟩
      exact mem_sort.mp (hthere.subset (mem_sort.mpr hkey))
    · exact hsel link object hwhat
  intro link object hwhat h
  obtain ⟨-, hall⟩ := (hmatches object).mp h
  rw [mem_all hkeys]
  intro key hkey
  apply hix link object hwhat filter hfilter
  unfold Filter.indexKeys
  rw [hcrit]
  exact hall key hkey

/-! ## What holds in all runs -/

section

variable {stringify : List V → JsString}

/-- What is known of the data that is kept about a dict, as long as nothing changes. -/
structure Kept (stringify : List V → JsString) (s : Select V) (i : Nat) (data : Data) : Prop where
  indexed : data.indexed →
    i = 0 ∨ ∃ ix, s.index = some ix ∧ Indexed ix s.filters (s.objectsOf i)
  results : ∀ desc result, (desc, result) ∈ data.results → ∃ c ∈ s.calls,
    c.selection = i ∧ c.version = s.version ∧ description stringify c.filter c.args = desc ∧
      c.result = result ∧ c.objects = s.objectsOf i

structure Inv (stringify : List V → JsString) (s : Select V) : Prop where
  nonempty : 0 < s.boxes.length
  index : ∀ ix, s.index = some ix → Indexed ix s.filters (s.objectsOf 0)
  versions : ∀ (i : Nat) (data : Data), s.boxes[i]?.bind Box.data = some data → data.version ≤ s.version
  kept : ∀ (i : Nat) (data : Data), s.boxes[i]?.bind Box.data = some data → data.version = s.version →
    Kept stringify s i data
  calls : ∀ c ∈ s.calls, 0 < c.result ∧ s.Right c

theorem cached_kept {s : Select V} (h : Inv stringify s) (i : Nat) :
    Kept stringify s i (s.cached i) := by
  have hempty : ∀ length, Kept stringify s i { version := s.version, length := length } := by
    intro length
    exact ⟨fun hnot => (nomatch hnot), nofun⟩
  unfold cached
  cases hdata : s.boxes[i]?.bind Box.data with
  | none => exact hempty none
  | some data =>
    dsimp only
    split
    · rename_i hvers
      exact h.kept i data hdata hvers
    · exact hempty data.length

variable (s : Select V) (i : Nat)

theorem cached_version : (s.cached i).version = s.version := by
  unfold cached
  split
  · rfl
  split
  · rename_i hvers
    exact hvers
  · rfl

theorem cached_length :
    (s.cached i).length = (s.boxes[i]?.bind Box.data).bind Data.length := by
  unfold cached
  cases s.boxes[i]?.bind Box.data with
  | none => rfl
  | some data =>
    dsimp only
    split <;> rfl

section

variable {s : Select V}

theorem objectsOf_modify {f : Box V → Box V} (hf : ∀ box, (f box).objects = box.objects)
    (i j : Nat) : ({ s with boxes := s.boxes.modify i f } : Select V).objectsOf j = s.objectsOf j := by
  unfold objectsOf
  dsimp only
  rw [getElem?_modify]
  cases s.boxes[j]? with
  | none => rfl
  | some box =>
    show (if i = j then f box else box).objects = box.objects
    split
    · exact hf box
    · rfl

section

variable (h : Inv stringify s)

include h

/-- What is kept about a dict is replaced. -/
theorem Inv.modify {i : Nat} {f : Box V → Box V}
    (hf : ∀ box, (f box).objects = box.objects)
    (hdata : ∀ box, s.boxes[i]? = some box → ∃ data, (f box).data = some data ∧
      data.version = s.version ∧ Kept stringify s i data ∧
      (box.data.bind Data.length = some box.objects.entries.length →
        data.length = some box.objects.entries.length)) :
    Inv stringify { s with boxes := s.boxes.modify i f } := by
  have hkept : ∀ j data, Kept stringify s j data →
      Kept stringify { s with boxes := s.boxes.modify i f } j data := by
    intro j data hk
    constructor
    · intro hidx
      rw [objectsOf_modify hf]
      exact hk.indexed hidx
    · intro desc result hres
      rw [objectsOf_modify hf]
      exact hk.results desc result hres
  have hcases : ∀ j data, (s.boxes.modify i f)[j]?.bind Box.data = some data →
      s.boxes[j]?.bind Box.data = some data ∨
        data.version = s.version ∧ Kept stringify s j data := by
    intro j data hj
    rw [getElem?_modify] at hj
    cases hbox : s.boxes[j]? with
    | none =>
      rw [hbox] at hj
      exact nomatch hj
    | some box =>
      rw [hbox] at hj
      have hat : (if i = j then f box else box).data = some data := hj
      split at hat
      · rename_i heq
        subst heq
        obtain ⟨data', hdata', hvers, hk, -⟩ := hdata box hbox
        obtain rfl := Option.mem_unique hdata' hat
        exact .inr ⟨hvers, hk⟩
      · exact .inl hat
  constructor
  · rw [length_modify]
    exact h.nonempty
  · intro ix hix
    rw [objectsOf_modify hf]
    exact h.index ix hix
  · intro j data hj
    rcases hcases j data hj with hold | ⟨hvers, -⟩
    · exact h.versions j data hold
    · exact hvers.le
  · intro j data hj hvers
    rcases hcases j data hj with hold | ⟨-, hk⟩
    · exact hkept j data (h.kept j data hold hvers)
    · exact hkept j data hk
  intro c hc
  obtain ⟨hpos, box, hbox, hlook, hlen⟩ := h.calls c hc
  refine ⟨hpos, if i = c.result then f box else box, ?_, ?_, ?_⟩
  · rw [getElem?_modify, hbox]
    rfl
  · split
    · rw [hf]
      exact hlook
    · exact hlook
  split
  · rename_i heq
    subst heq
    obtain ⟨data, hdata', -, -, hsame⟩ := hdata box hbox
    rw [hdata', hf]
    exact hsame hlen
  · exact hlen

/-- Another dict. -/
theorem Inv.push (objects : Dict V) :
    Inv stringify { s with boxes := s.boxes ++ [{ objects := objects }] } := by
  have hget : ∀ (i : Nat) (box : Box V), s.boxes[i]? = some box →
      (s.boxes ++ [({ objects := objects } : Box V)])[i]? = some box := by
    intro i box hbox
    rw [getElem?_append_left (List.getElem?_eq_some_iff.mp hbox).1]
    exact hbox
  have hdata : ∀ i data,
      (s.boxes ++ [({ objects := objects } : Box V)])[i]?.bind Box.data = some data →
        s.boxes[i]?.bind Box.data = some data ∧
          ({ s with boxes := s.boxes ++ [{ objects := objects }] } : Select V).objectsOf i =
            s.objectsOf i := by
    intro i data hi
    cases hbox : s.boxes[i]? with
    | some box =>
      rw [hget i box hbox] at hi
      refine ⟨hi, ?_⟩
      unfold objectsOf
      dsimp only
      rw [hget i box hbox, hbox]
    | none =>
      rw [getElem?_append_right (List.getElem?_eq_none_iff.mp hbox)] at hi
      cases hn : i - s.boxes.length with
      | zero | succ n =>
        rw [hn] at hi
        exact nomatch hi
  have hzero : ({ s with boxes := s.boxes ++ [{ objects := objects }] } : Select V).objectsOf 0 =
      s.objectsOf 0 := by
    unfold objectsOf
    dsimp only
    rw [getElem?_append_left h.nonempty]
  constructor
  · simp
  · intro ix hix
    rw [hzero]
    exact h.index ix hix
  · intro i data hi
    exact h.versions i data (hdata i data hi).1
  · intro i data hi hvers
    obtain ⟨hold, hobjs⟩ := hdata i data hi
    obtain ⟨hidx, hress⟩ := h.kept i data hold hvers
    constructor
    · rw [hobjs]
      exact hidx
    · rw [hobjs]
      exact hress
  · intro c hc
    obtain ⟨hpos, box, hbox, hright⟩ := h.calls c hc
    exact ⟨hpos, box, hget c.result box hbox, hright⟩

/-- The objects change, and this is told. -/
theorem Inv.replace (objects : Dict V)
    (present : Option (Dict V))
    (hobjs : ∀ dict, present = some dict → ∀ link object, objects.lookup link = some object →
      dict.lookup link = some object ∨ (s.objectsOf 0).lookup link = some object) :
    Inv stringify ((s.replaceObjects objects).listener present) := by
  have hget : ∀ i, 0 < i → (s.replaceObjects objects).boxes[i]? = s.boxes[i]? := by
    intro i hi
    unfold replaceObjects
    rw [getElem?_modify]
    cases s.boxes[i]? with
    | none => rfl
    | some box =>
      have hne : ¬ 0 = i := by omega
      simp [hne]
  have hzero : (s.replaceObjects objects).objectsOf 0 = objects := by
    have hbox := getElem?_eq_getElem h.nonempty
    unfold objectsOf replaceObjects
    rw [getElem?_modify_eq, hbox]
    rfl
  have hdata : ∀ (i : Nat) (data : Data),
      (s.replaceObjects objects).boxes[i]?.bind Box.data = some data →
        s.boxes[i]?.bind Box.data = some data := by
    intro i data hi
    unfold replaceObjects at hi
    rw [getElem?_modify] at hi
    cases hbox : s.boxes[i]? with
    | none =>
      rw [hbox] at hi
      exact nomatch hi
    | some box =>
      rw [hbox] at hi
      have hat : (if 0 = i then { box with objects := objects } else box).data = some data := hi
      split at hat <;> exact hat
  have hbef : ∀ (i : Nat) (data : Data),
      (s.replaceObjects objects).boxes[i]?.bind Box.data = some data →
        data.version < s.version + 1 := by
    intro i data hi
    exact Nat.lt_succ_of_le (h.versions i data (hdata i data hi))
  constructor
  · show 0 < (s.replaceObjects objects).boxes.length
    unfold replaceObjects
    rw [length_modify]
    exact h.nonempty
  · intro ix hix
    show Indexed ix s.filters ((s.replaceObjects objects).objectsOf 0)
    rw [hzero]
    cases present with
    | none => exact nomatch hix
    | some dict =>
      have hix : s.index.map (indexObjects s.filters dict) = some ix := hix
      obtain ⟨old, hold, rfl⟩ := Option.map_eq_some_iff.mp hix
      intro link object hlook
      rcases hobjs dict rfl link object hlook with hnew | hsame
      · exact indexed_indexObjects s.filters dict old link object hnew
      · exact (h.index old hold).mono (grows_indexObjects s.filters dict old) link object hsame
  · intro i data hi
    exact (hbef i data hi).le
  · intro i data hi hvers
    exact absurd hvers (hbef i data hi).ne
  · intro c hc
    obtain ⟨hpos, box, hbox, hright⟩ := h.calls c hc
    exact ⟨hpos, box, (hget c.result hpos).trans hbox, hright⟩

theorem Inv.register (filter : Filter V) :
    Inv stringify (s.registerFilter filter) := { h with
  index _ hix := nomatch hix
  versions i data hi := Nat.le_succ_of_le (h.versions i data hi)
  kept i data hi hversion := absurd hversion (Nat.lt_succ_of_le (h.versions i data hi)).ne }

theorem Inv.setData :
    Inv stringify (s.setData i (s.cached i)) := by
  apply @Inv.modify V stringify s h i (fun box => { box with data := some (s.cached i) })
    fun _ => rfl
  intro box hbox
  refine ⟨s.cached i, rfl, cached_version s i, cached_kept h i, fun hlen => ?_⟩
  rw [cached_length, hbox]
  exact hlen

end

variable {i : Nat} {indexed : Bool}

section

variable (h : Inv stringify s)

include h

theorem Inv.mixinSelection {length : Option Nat}
    (hlen : ∀ n ∈ length, ∀ box, s.boxes[i]? = some box → n = box.objects.entries.length)
    (hidx : indexed → i = 0 ∨ ∃ ix, s.index = some ix ∧ Indexed ix s.filters (s.objectsOf i)) :
    Inv stringify (s.mixinSelection i length indexed) := by
  apply @Inv.modify V stringify s h i (fun box => { box with
    methods := s.filters
    data := some { s.cached i with
      length := some (length.getD box.objects.entries.length)
      selection := true
      indexed := indexed } }) fun _ => rfl
  intro box hbox
  refine ⟨_, rfl, cached_version s i, ⟨hidx, (cached_kept h i).results⟩, fun _ => ?_⟩
  cases hn : length with
  | none => rfl
  | some n => exact congrArg some (hlen n hn box hbox)

theorem Inv.select (hidx : indexed → i = 0) : Inv stringify (s.select i indexed) := by
  unfold Select.select
  dsimp only
  split
  · exact h.setData i
  · exact (h.setData i).mixinSelection (nofun) fun htrue => .inl (hidx htrue)

/-! ### A filter is applied -/

/-- A filter that was applied. -/
theorem Inv.log {c : Call V} (hpos : 0 < c.result)
    (hright : s.Right c) : Inv stringify { s with calls := s.calls ++ [c] } := by
  constructor
  · exact h.nonempty
  · exact h.index
  · exact h.versions
  · intro i data hi hvers
    obtain ⟨hidx, hress⟩ := h.kept i data hi hvers
    refine ⟨hidx, fun desc result hres => ?_⟩
    obtain ⟨c', hc', hthat⟩ := hress desc result hres
    exact ⟨c', mem_append_left _ hc', hthat⟩
  intro c' hc'
  rcases mem_append.mp hc' with hold | hnew
  · exact h.calls c' hold
  · obtain rfl := mem_singleton.mp hnew
    exact ⟨hpos, hright⟩

/-- The index grows. -/
theorem Inv.grow (hidx : Indexed ix s.filters (s.objectsOf 0))
    (hgrows : ∀ old, s.index = some old → Grows old ix) :
    Inv stringify { s with index := some ix } := by
  constructor
  · exact h.nonempty
  · intro ix' hix'
    obtain rfl := Option.some.inj hix'
    exact hidx
  · exact h.versions
  · intro i data hi hvers
    obtain ⟨hkept, hress⟩ := h.kept i data hi hvers
    refine ⟨fun htrue => ?_, hress⟩
    rcases hkept htrue with hzero | ⟨old, hold, hall⟩
    · exact .inl hzero
    · exact .inr ⟨ix, rfl, hall.mono (hgrows old hold)⟩
  · exact h.calls

/-- The index has all objects of the dict. -/
theorem Inv.ensureIndexed
    (hidx : indexed → i = 0 ∨ ∃ ix, s.index = some ix ∧ Indexed ix s.filters (s.objectsOf i)) :
    ∃ ix, s.ensureIndexed i indexed = { s with index := some ix } ∧
      Inv stringify { s with index := some ix } ∧ Indexed ix s.filters (s.objectsOf i) := by
  -- There is an index that has the objects of the loader.
  have hsome : ∃ ix, (if s.index.isNone then s.indexCreate else s) = { s with index := some ix } ∧
      Indexed ix s.filters (s.objectsOf 0) ∧ ∀ old, s.index = some old → ix = old := by
    cases hindex : s.index with
    | none =>
      refine ⟨indexObjects s.filters (s.objectsOf 0) (HashIndex.new 262139), rfl,
        indexed_indexObjects _ _ _, nofun⟩
    | some ix =>
      refine ⟨ix, ?_, h.index ix hindex, fun old hold => Option.some.inj hold⟩
      rw [← hindex, if_neg (by simp [hindex])]
  obtain ⟨ix, hcreat, hall, hsame⟩ := hsome
  have hgrows : ∀ old, s.index = some old → Grows old ix := by
    intro old hold
    rw [hsame old hold]
    exact grows_refl old
  unfold Select.ensureIndexed
  dsimp only
  rw [hcreat]
  by_cases hflag : indexed
  · rw [if_pos hflag]
    refine ⟨ix, rfl, h.grow hall hgrows, ?_⟩
    rcases hidx hflag with hzero | ⟨old, hold, hthat⟩
    · rw [hzero]
      exact hall
    · rw [hsame old hold]
      exact hthat
  rw [if_neg hflag]
  have hmore := grows_indexObjects s.filters (s.objectsOf i) ix
  exact ⟨indexObjects s.filters (s.objectsOf i) ix, rfl,
    h.grow (hall.mono hmore) fun old hold => (hgrows old hold).trans hmore,
    indexed_indexObjects s.filters (s.objectsOf i) ix⟩

end

variable {box : Box V}

theorem objectsOf_eq (h : s.boxes[i]? = some box) :
    s.objectsOf i = box.objects := by
  unfold objectsOf
  rw [h]
  rfl

/-- The result gets a dict of its own, and is kept. -/
theorem Inv.result (h : Inv stringify s) {cache : Data}
    (hbox : s.boxes[i]? = some box) (hcache : box.data = some cache)
    (hvers : cache.version = s.version) (hix : s.index = some ix)
    (hidx : Indexed ix s.filters (s.objectsOf i)) {args : List V}
    {results : Dict V} {count : Nat} (hress : ∀ link object, results.lookup link = some object ↔
      (s.objectsOf i).lookup link = some object ∧ filter.Matches args object)
    (hcount : count = results.entries.length) {desc : JsString}
    (hdesc : desc = description stringify filter args) {call : Call V}
    (hcall : call = ⟨i, s.version, filter, args, s.objectsOf i, s.boxes.length⟩) :
    Inv stringify
      { (({ s with boxes := s.boxes ++ [{ objects := results }] } : Select V).mixinSelection
          s.boxes.length (some count) true).setData i { cache with
            indexed := true
            results := cache.results ++ [(desc, s.boxes.length)] } with
        calls := s.calls ++ [call] } := by
  have hlt := (List.getElem?_eq_some_iff.mp hbox).1
  have hkept : Kept stringify s i cache := h.kept i cache (by rw [hbox]; exact hcache) hvers
  -- The dict, and its methods.
  have hpushed := h.push results
  have hat : (s.boxes ++ [({ objects := results } : Box V)])[s.boxes.length]? =
      some { objects := results } := by
    rw [getElem?_append_right (le_refl _), Nat.sub_self]
    rfl
  have hmixed : Inv stringify
      (({ s with boxes := s.boxes ++ [{ objects := results }] } : Select V).mixinSelection
        s.boxes.length (some count) true) := by
    apply hpushed.mixinSelection
    · intro n hn box' hbox'
      obtain rfl := Option.some.inj (Option.mem_def.mp hn)
      obtain rfl := Option.mem_unique hat hbox'
      exact hcount
    intro _
    refine .inr ⟨ix, hix, fun link object hlook => ?_⟩
    rw [objectsOf_eq hat] at hlook
    exact hidx link object ((hress link object).mp hlook).1
  -- What was applied.
  have hthere : (({ s with boxes := s.boxes ++ [{ objects := results }] } : Select V).mixinSelection
      s.boxes.length (some count) true).boxes[i]? = some box := by
    unfold Select.mixinSelection
    dsimp only
    rw [getElem?_modify, getElem?_append_left hlt, hbox]
    simp [Nat.ne_of_gt hlt]
  have hobjs : (({ s with boxes := s.boxes ++ [{ objects := results }] } :
      Select V).mixinSelection s.boxes.length (some count) true).objectsOf i = s.objectsOf i := by
    rw [objectsOf_eq hthere, objectsOf_eq hbox]
  have hlogged := hmixed.log (c := call) (by rw [hcall]; exact Nat.zero_lt_of_lt hlt) (by
    subst hcall
    refine ⟨_, (getElem?_modify_eq _ _ _).trans (congrArg (Option.map _) hat), ?_, ?_⟩
    · exact hress
    · exact congrArg some hcount)
  apply @Inv.modify V stringify _ hlogged i (fun box => { box with data := some { cache with
      indexed := true
      results := cache.results ++ [(desc, s.boxes.length)] } }) fun _ => rfl
  intro box' hbox'
  obtain rfl := Option.mem_unique hthere hbox'
  refine ⟨_, rfl, hvers, ⟨fun _ => .inr ⟨ix, hix, ?_⟩, fun desc' result hres => ?_⟩, ?_⟩
  · show Indexed ix s.filters _
    rw [show ∀ c, Select.objectsOf { (({ s with boxes := s.boxes ++ [{ objects := results }] } :
      Select V).mixinSelection s.boxes.length (some count) true) with calls := c } i =
        s.objectsOf i from fun _ => hobjs]
    exact hidx
  · rcases mem_append.mp hres with hold | hnew
    · obtain ⟨c, hc, hselection, hcversion, hcdesc, hcresult, hcobjects⟩ :=
        hkept.results desc' result hold
      exact ⟨c, mem_append_left _ hc, hselection, hcversion, hcdesc, hcresult,
        hcobjects.trans hobjs.symm⟩
    obtain ⟨rfl, rfl⟩ := Prod.mk.inj (mem_singleton.mp hnew)
    refine ⟨call, mem_append_right _ (mem_singleton_self call), ?_⟩
    subst hcall
    exact ⟨rfl, rfl, hdesc.symm, rfl, hobjs.symm⟩
  · intro hlen
    rw [hcache] at hlen
    exact hlen

theorem setData_getElem? (h : s.boxes[i]? = some box)
    (data : Data) : (s.setData i data).boxes[i]? = some { box with data := some data } := by
  unfold setData
  dsimp only
  rw [getElem?_modify_eq, h]
  rfl

end

theorem objectsOf_setData (data : Data) (j : Nat) :
    (s.setData i data).objectsOf j = s.objectsOf j :=
  objectsOf_modify (f := fun box => { box with data := some data }) (fun _ => rfl) i j

theorem mem_of_lookup {results : List (JsString × Nat)} {desc : JsString} {result : Nat}
    (h : results.lookup desc = some result) : (desc, result) ∈ results := by
  obtain ⟨before, after, rfl, -⟩ := lookup_eq_some_iff.mp h
  simp

theorem Inv.apply {s : Select V} (h : Inv stringify s) {i : Nat} {box : Box V}
    (hbox : s.boxes[i]? = some box) (hfilter : filter ∈ s.filters)
    {args : List V} (hsel : Selective filter args box.objects)
    (hsame : ∀ c ∈ s.calls, c.selection = i → c.version = s.version →
      description stringify c.filter c.args = description stringify filter args →
      ∀ object, c.filter.Matches c.args object ↔ filter.Matches args object) :
    Inv stringify (s.apply stringify i filter args) := by
  have hset := h.setData i
  have hthere := setData_getElem? hbox (s.cached i)
  have hkept := cached_kept h i
  unfold Select.apply
  dsimp only
  cases hlook : (s.cached i).results.lookup (description stringify filter args) with
  | some result =>
    -- What was returned then is right for this filter, too.
    obtain ⟨c, hc, hselection, hvers, hdesc, rfl, hthat⟩ :=
      hkept.results _ result (mem_of_lookup hlook)
    obtain ⟨hpos, box', hbox', hright, hlen⟩ := hset.calls c hc
    refine hset.log hpos ⟨box', hbox', fun link object => ?_, hlen⟩
    rw [hright link object, hsame c hc hselection hvers hdesc object, hthat, objectsOf_setData]
  | none =>
    obtain ⟨ix, hix, hgrown, hidx⟩ := hset.ensureIndexed (i := i) fun htrue => by
      rw [objectsOf_setData]
      exact hkept.indexed htrue
    have hobjs : ({ s.setData i (s.cached i) with index := some ix } : Select V).objectsOf i =
        box.objects := by
      have hthat := objectsOf_eq hthere
      exact hthat
    have hselective' : Selective filter args
      (({ s.setData i (s.cached i) with index := some ix } : Select V).objectsOf i) := by
      rw [hobjs]
      exact hsel
    cases hcrit : filter.criterion with
    | filter => exact hset
    | digest f =>
      dsimp only
      rw [hix]
      obtain ⟨hress, hcount⟩ := digestFilter_right hfilter hcrit hidx hselective'
      exact hgrown.result hthere rfl (cached_version s i) rfl hidx hress hcount rfl rfl
    | digests f =>
      dsimp only
      rw [hix]
      obtain ⟨hress, hcount⟩ := digestsFilter_right hfilter hcrit hidx hselective'
      exact hgrown.result hthere rfl (cached_version s i) rfl hidx hress hcount rfl rfl

/-! ### Runs -/

theorem lookup_changed {present removed : Dict V} {link : JsString}
    (h : (changed present removed objects).lookup link = some object) :
    present.lookup link = some object ∨ objects.lookup link = some object := by
  have herase : ∀ (keys : List JsString) (dict : Dict V),
      (keys.foldl (fun dict link => dict.erase link) dict).lookup link = some object →
        dict.lookup link = some object := by
    intro keys
    induction keys with
    | nil => exact fun dict h => h
    | cons key keys ih =>
      intro dict h
      have hrest := ih _ h
      by_cases heq : link = key
      · rw [heq, lookup_erase] at hrest
        exact nomatch hrest
      · rw [lookup_erase_ne heq] at hrest
        exact hrest
  rcases mem_lookup_union.mp h with hnew | ⟨-, hold⟩
  · exact .inl hnew
  · exact .inr (herase removed.keys objects hold)

theorem Inv.step {s : Select V} (h : Inv stringify s) {e : Event V} (hok : s.StepOk stringify e) :
    Inv stringify (s.step stringify e) := by
  cases e with
  | change present removed =>
    refine h.replace _ (some present) ?_
    intro dict hdict link object hlook
    obtain rfl := Option.some.inj hdict
    exact lookup_changed hlook
  | full =>
    have hsame : s.replaceObjects (s.objectsOf 0) = s := by
      have hpos := h.nonempty
      obtain ⟨filters, index, version, boxes, calls⟩ := s
      cases boxes with
      | nil => exact absurd hpos (Nat.lt_irrefl 0)
      | cons box boxes => rfl
    have hfull := h.replace (s.objectsOf 0) (some (s.objectsOf 0))
      fun _ _ link object hlook => .inr hlook
    rw [hsame] at hfull
    exact hfull
  | reset => exact h.replace ∅ none nofun
  | register filter => exact h.register filter
  | selectAll => exact h.select fun _ => rfl
  | select i => exact h.select nofun
  | selectDict objects => exact (h.push objects).select nofun
  | apply i name args =>
    dsimp only [Select.step]
    cases hfind : s.boxes[i]?.bind fun box => box.methods.find? fun filter => filter.name = name with
    | none => exact h
    | some filter =>
      obtain ⟨box, hbox, hfind⟩ := Option.bind_eq_some_iff.mp hfind
      obtain ⟨hfilter, hsel, hsame⟩ := hok box hbox filter hfind
      exact h.apply hbox hfilter hsel hsame

end

/-! ### A pod with three labels -/

def one : JsString := codeUnits "1"

end Select

end Cockpit.Kube
