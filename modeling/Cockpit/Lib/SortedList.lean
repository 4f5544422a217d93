import Mathlib

namespace Cockpit.Lib

open List Nat

/-!
# Sorted lists without duplicates

* `insertSorted` — a value is put there if it is not there yet;
* `intersect` — what two of them have in common, by one loop over both.
-/

variable {α : Type} [LinearOrder α]

/-- No value comes twice. -/
abbrev Increasing (arr : List α) : Prop := arr.Pairwise (· < ·)

variable {arr : List α}

theorem Increasing.lt_of_getElem? (h : Increasing arr) {i j : Nat} {a b : α}
    (hij : i < j) (ha : arr[i]? = some a) (hb : arr[j]? = some b) : a < b := by
  obtain ⟨hi, rfl⟩ := List.getElem?_eq_some_iff.mp ha
  obtain ⟨hj, rfl⟩ := List.getElem?_eq_some_iff.mp hb
  exact pairwise_iff_getElem.mp h i j hi hj hij

/-! ### Bisection -/

/-- The loop, from `low` to before `high`. -/
def bisectLoop (arr : List α) (val : α) : Nat → Nat → Nat → Nat
  | 0, low, _ => low
  | fuel + 1, low, high =>
    if low < high then
      let mid := (low + (high - 1)) / 2
      match arr[mid]? with
      | none => low
      | some v =>
        if v < val then bisectLoop arr val fuel (mid + 1) high
        else if val < v then bisectLoop arr val fuel low mid
        else mid
    else low

def bisect (arr : List α) (val : α) : Nat := bisectLoop arr val arr.length 0 arr.length

/-- All before it is less, and what comes from there on is not. -/
structure Divides (arr : List α) (val : α) (x : Nat) : Prop where
  before : ∀ i v, i < x → arr[i]? = some v → v < val
  after : ∀ i v, x ≤ i → arr[i]? = some v → val ≤ v
  le : x ≤ arr.length

theorem divides_bisectLoop (h : Increasing arr) {val : α} {fuel low high : Nat}
    (hfuel : high - low ≤ fuel) (hlow : low ≤ high) (hhigh : high ≤ arr.length)
    (hbef : ∀ i v, i < low → arr[i]? = some v → v < val)
    (hafter : ∀ i v, high ≤ i → arr[i]? = some v → val ≤ v) :
    Divides arr val (bisectLoop arr val fuel low high) := by
  induction fuel generalizing low high with
  | zero =>
    obtain rfl : low = high := by omega
    exact ⟨hbef, hafter, hhigh⟩
  | succ fuel ih =>
    unfold bisectLoop
    by_cases hlt : low < high
    · rw [if_pos hlt]
      have hmid : (low + (high - 1)) / 2 < high := by omega
      have hlen : (low + (high - 1)) / 2 < arr.length := by omega
      have hget := getElem?_eq_getElem hlen
      dsimp only
      rw [hget]
      dsimp only
      split
      · rename_i hless
        refine ih (by omega) (by omega) hhigh (fun i v hi hv => ?_) hafter
        rcases Nat.lt_or_eq_of_le (Nat.lt_succ_iff.mp hi) with hi | rfl
        · exact (h.lt_of_getElem? hi hv hget).trans hless
        · rw [hget] at hv
          exact Option.some.inj hv ▸ hless
      split
      · rename_i hmore
        refine ih (by omega) (by omega) (by omega) hbef fun i v hi hv => ?_
        rcases lt_or_eq_of_le hi with hi | rfl
        · exact (hmore.trans (h.lt_of_getElem? hi hget hv)).le
        · rw [hget] at hv
          exact Option.some.inj hv ▸ hmore.le
      rename_i hless hmore
      have heq : arr[(low + (high - 1)) / 2] = val :=
        le_antisymm (not_lt.mp hmore) (not_lt.mp hless)
      refine ⟨fun i v hi hv => ?_, fun i v hi hv => ?_, by omega⟩
      · exact heq ▸ h.lt_of_getElem? hi hv hget
      rcases lt_or_eq_of_le hi with hi | rfl
      · exact (heq ▸ h.lt_of_getElem? hi hget hv).le
      · rw [hget] at hv
        exact (heq ▸ Option.some.inj hv).le
    · rw [if_neg hlt]
      obtain rfl : low = high := by omega
      exact ⟨hbef, hafter, hhigh⟩

theorem divides_bisect (h : Increasing arr) (val : α) :
    Divides arr val (bisect arr val) := by
  apply divides_bisectLoop h (by omega) (zero_le _) (le_refl _)
  · intro i v hi
    exact absurd hi (not_lt_zero i)
  · intro i v hi hv
    rw [getElem?_eq_none hi] at hv
    exact nomatch hv

/-! ### Insertion -/

def insertSorted (arr : List α) (val : α) : List α :=
  let x := bisect arr val
  if arr[x]? = some val then arr else arr.take x ++ val :: arr.drop x

theorem mem_insertSorted (arr : List α) (val a : α) :
    a ∈ insertSorted arr val ↔ a = val ∨ a ∈ arr := by
  unfold insertSorted
  dsimp only
  split
  · rename_i hfound
    have hmem : val ∈ arr := mem_of_getElem? hfound
    constructor
    · exact Or.inr
    · rintro (rfl | ha)
      · exact hmem
      · exact ha
  · conv_rhs => rw [← take_append_drop (bisect arr val) arr]
    simp only [mem_append, mem_cons]
    tauto

theorem increasing_insertSorted (h : Increasing arr) (val : α) :
    Increasing (insertSorted arr val) := by
  obtain ⟨hbef, hafter, hle⟩ := divides_bisect h val
  unfold insertSorted
  dsimp only
  split
  · exact h
  rename_i hnot
  have htake : ∀ a ∈ arr.take (bisect arr val), a < val := by
    intro a ha
    obtain ⟨i, hi⟩ := getElem?_of_mem ha
    rw [getElem?_take] at hi
    split at hi
    · rename_i hlt
      exact hbef i a hlt hi
    · exact nomatch hi
  have hdrop : ∀ a ∈ arr.drop (bisect arr val), val < a := by
    intro a ha
    obtain ⟨i, hi⟩ := getElem?_of_mem ha
    rw [getElem?_drop] at hi
    have hval := hafter _ a (le_add_right _ i) hi
    rcases hval.lt_or_eq with hlt | rfl
    · exact hlt
    -- it is not the first one, so that this one is less
    have hpos : 0 < i := by
      rcases Nat.eq_zero_or_pos i with rfl | hpos
      · exact absurd hi hnot
      · exact hpos
    have hlen : bisect arr val < arr.length := by
      have := (List.getElem?_eq_some_iff.mp hi).1
      omega
    have hfirst := getElem?_eq_getElem hlen
    have hless := h.lt_of_getElem? (Nat.lt_add_of_pos_right hpos) hfirst hi
    exact absurd hless (not_lt.mpr (hafter _ _ (le_refl _) hfirst))
  apply pairwise_append.mpr
  refine ⟨h.sublist (take_sublist _ _), ?_, ?_⟩
  · exact pairwise_cons.mpr ⟨hdrop, h.sublist (drop_sublist _ _)⟩
  intro a ha b hb
  rcases mem_cons.mp hb with rfl | hb
  · exact htake a ha
  · exact (htake a ha).trans (hdrop b hb)

/-! ### Intersection -/

/-- The loop over `result`, with `p` looked at `px` places further on. -/
def intersectLoop (p : List α) : Nat → List α → Nat → Nat → List α
  | 0, result, _, _ => result
  | fuel + 1, result, ri, px =>
    match result[ri]? with
    | none => result
    | some rv =>
      match p[ri + px]? with
      | none => intersectLoop p fuel (result.eraseIdx ri) ri px
      | some pv =>
        if pv < rv then intersectLoop p fuel result ri (px + 1)
        else if rv ≠ pv then intersectLoop p fuel (result.eraseIdx ri) ri px
        else intersectLoop p fuel result (ri + 1) px

def intersect (result p : List α) : List α :=
  intersectLoop p (result.length + p.length) result 0 0

/-- What is done is right, and what is left is compared with what is left. -/
theorem intersectLoop_eq {p : List α} (hp : Increasing p) {fuel px : Nat} {done rest : List α}
    (hrest : Increasing rest) (hpx : done.length + px ≤ p.length)
    (hfuel : rest.length + (p.length - (done.length + px)) ≤ fuel) :
    intersectLoop p fuel (done ++ rest) done.length px =
      done ++ rest.filter (· ∈ p.drop (done.length + px)) := by
  induction fuel generalizing px done rest with
  | zero =>
    obtain rfl : rest = [] := length_eq_zero_iff.mp (by omega)
    rfl
  | succ fuel ih =>
    cases rest with
    | nil =>
      unfold intersectLoop
      simp
    | cons rv rest =>
      obtain ⟨hrv, hrest'⟩ := pairwise_cons.mp hrest
      have hget : (done ++ rv :: rest)[done.length]? = some rv := by simp
      have herase : (done ++ rv :: rest).eraseIdx done.length = done ++ rest := by
        rw [eraseIdx_append_of_length_le (le_refl _)]
        simp
      unfold intersectLoop
      rw [hget]
      dsimp only
      cases hpv : p[done.length + px]? with
      | none =>
        have hdrop : p.drop (done.length + px) = [] :=
          drop_eq_nil_of_le (List.getElem?_eq_none_iff.mp hpv)
        dsimp only
        rw [herase, ih hrest' hpx (by simp at hfuel; omega), hdrop]
        simp
      | some pv =>
        obtain ⟨hlt, hpv⟩ := List.getElem?_eq_some_iff.mp hpv
        have hdrop : p.drop (done.length + px) = pv :: p.drop (done.length + px + 1) := by
          rw [drop_eq_getElem_cons hlt, hpv]
        have hafter : ∀ a ∈ p.drop (done.length + px + 1), pv < a := by
          have hsorted := hp.sublist (drop_sublist (done.length + px) p)
          rw [hdrop] at hsorted
          exact (pairwise_cons.mp hsorted).1
        have hlen : (rv :: rest).length = rest.length + 1 := rfl
        dsimp only
        split
        · -- it is less than all that is left
          rename_i hless
          rw [ih hrest (by omega) (by omega)]
          congr 1
          apply filter_congr
          intro a ha
          have hne : a ≠ pv := by
            rintro rfl
            rcases mem_cons.mp ha with rfl | ha
            · exact lt_irrefl _ hless
            · exact lt_asymm hless (hrv _ ha)
          rw [hdrop, ← add_assoc]
          simp [hne]
        rename_i hnot
        split
        · rename_i hne
          have hmore : rv < pv := lt_of_le_of_ne (not_lt.mp hnot) hne
          have hmem : rv ∉ p.drop (done.length + px) := by
            rw [hdrop]
            intro hmem
            rcases mem_cons.mp hmem with rfl | hmem
            · exact hne rfl
            · exact lt_asymm hmore (hafter rv hmem)
          rw [herase, ih hrest' hpx (by omega), filter_cons_of_neg (by simpa using hmem)]
        rename_i heq
        obtain rfl : rv = pv := not_not.mp heq
        have hdone : (done ++ [rv]).length = done.length + 1 := by simp
        have hnext := @ih px (done ++ [rv]) rest hrest' (by omega) (by omega)
        have hplace : done.length + 1 + px = done.length + px + 1 := by omega
        rw [hdone, append_assoc, append_assoc, hplace] at hnext
        refine hnext.trans ?_
        have hmem : rv ∈ p.drop (done.length + px) := by
          rw [hdrop]
          exact mem_cons_self
        rw [filter_cons_of_pos (by simpa using hmem), singleton_append]
        congr 2
        apply filter_congr
        intro a ha
        have hne : a ≠ rv := (hrv a ha).ne'
        rw [hdrop]
        simp [hne]

section

variable {result p : List α} (hresult : Increasing result) (hp : Increasing p)

include hresult hp

theorem intersect_eq :
    intersect result p = result.filter (· ∈ p) := by
  have h := @intersectLoop_eq _ _ p hp (result.length + p.length) 0 [] result hresult
    (zero_le _) (by simp)
  simpa [intersect] using h

theorem mem_intersect (a : α) : a ∈ intersect result p ↔ a ∈ result ∧ a ∈ p := by
  rw [intersect_eq hresult hp]
  simp

theorem increasing_intersect : Increasing (intersect result p) := by
  rw [intersect_eq hresult hp]
  exact hresult.filter _

end

end Cockpit.Lib
