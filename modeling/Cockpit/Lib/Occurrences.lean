import Mathlib

namespace Cockpit.Lib

open List Option Nat

/-!
# Occurrences of a word

Where a word begins in a list, and the leftmost occurrences of it that do not overlap.

* `ends_eq_iff_of_le` — where the search begins matters just when an occurrence is in between;
* `insertAll_inj` — where something is inserted can be seen from the result, if it may be anything.
-/

variable {α : Type} [DecidableEq α] {w s t : List α} {i j k n : Nat}

/-- The word begins at a place. -/
def OccursAt (w s : List α) (i : Nat) : Prop := w <+: s.drop i

instance (w s : List α) (i : Nat) : Decidable (OccursAt w s i) :=
  inferInstanceAs (Decidable (w <+: s.drop i))

/-- The first place where the word begins. -/
def search (w : List α) : List α → Option Nat
  | [] => if w.isPrefixOf [] then some 0 else none
  | a :: s => if w.isPrefixOf (a :: s) then some 0 else (search w s).map (· + 1)

/-- The first place where the word begins, from `i` on. -/
def next (w s : List α) (i : Nat) : Option Nat := (search w (s.drop i)).map (i + ·)

/-- Where the first `n` occurrences end that do not overlap, from `i` on. -/
def ends (w s : List α) : Nat → Nat → List Nat
  | 0, _ => []
  | n + 1, i =>
    match next w s i with
    | none => []
    | some j => (j + w.length) :: ends w s n (j + w.length)

/-- `x` is put into a list at some of its places, in order; the list begins at the place `i`. -/
def insertAll (x : List α) : Nat → List Nat → List α → List α
  | _, [], s => s
  | i, p :: ps, s => s.take (p - i) ++ x ++ insertAll x p ps (s.drop (p - i))

/-! ### The first occurrence -/

omit [DecidableEq α] in
theorem OccursAt.le (hw : w ≠ []) (h : OccursAt w s i) : i + w.length ≤ s.length := by
  have hpos := length_pos_iff.mpr hw
  have hle := h.length_le
  rw [length_drop] at hle
  omega

omit [DecidableEq α] in
theorem OccursAt.append (h : OccursAt w s i) (t : List α) : OccursAt w (s ++ t) i := by
  unfold OccursAt at h ⊢
  rw [drop_append]
  exact h.trans (prefix_append _ _)

omit [DecidableEq α] in
/-- An occurrence that ends in the first part is one there. -/
theorem occursAt_append_iff (h : i + w.length ≤ s.length) :
    OccursAt w (s ++ t) i ↔ OccursAt w s i := by
  refine ⟨fun hocc => ?_, fun hocc => hocc.append t⟩
  unfold OccursAt at hocc ⊢
  rw [drop_append_of_le_length (by omega)] at hocc
  apply prefix_of_prefix_length_le hocc (prefix_append _ _)
  rw [length_drop]
  omega

omit [DecidableEq α] in
/-- An occurrence in the second part. -/
theorem occursAt_append_right : OccursAt w (s ++ t) (s.length + i) ↔ OccursAt w t i := by
  unfold OccursAt
  rw [drop_append, drop_eq_nil_of_le (by omega), nil_append, Nat.add_sub_cancel_left]

omit [DecidableEq α] in
/-- An occurrence that begins in the first part and reaches into the second one. -/
theorem occursAt_append_cross (hi : i ≤ s.length) (hle : s.length ≤ i + w.length) :
    OccursAt w (s ++ t) i ↔
      w.take (s.length - i) = s.drop i ∧ w.drop (s.length - i) <+: t := by
  have hlen : (w.take (s.length - i)).length = (s.drop i).length := by
    rw [length_take, length_drop]
    omega
  unfold OccursAt
  rw [drop_append_of_le_length hi]
  constructor
  · rintro ⟨u, hu⟩
    rw [← take_append_drop (s.length - i) w, append_assoc] at hu
    obtain ⟨hfirst, hrest⟩ := append_inj hu hlen
    exact ⟨hfirst, u, hrest⟩
  · rintro ⟨hfirst, u, hu⟩
    refine ⟨u, ?_⟩
    rw [← hu, ← hfirst, ← append_assoc, take_append_drop]

theorem search_eq_some_iff :
    search w s = some j ↔ OccursAt w s j ∧ j ≤ s.length ∧ ∀ k < j, ¬ OccursAt w s k := by
  induction s generalizing j with
  | nil =>
    unfold search OccursAt
    simp only [drop_nil, isPrefixOf_iff_prefix, length_nil]
    by_cases h : w <+: []
    · rw [if_pos h]
      constructor
      · rintro ⟨⟩
        exact ⟨h, le_refl 0, fun k hk => absurd hk (not_lt_zero k)⟩
      · rintro ⟨-, hle, -⟩
        rw [le_zero.mp hle]
    · rw [if_neg h]
      exact ⟨fun hn => (nomatch hn), fun hn => absurd hn.1 h⟩
  | cons a s ih =>
    unfold search
    simp only [List.isPrefixOf_iff_prefix]
    by_cases h : w <+: a :: s
    · rw [if_pos h]
      constructor
      · rintro ⟨⟩
        exact ⟨h, zero_le _, fun k hk => absurd hk (not_lt_zero k)⟩
      rintro ⟨-, -, hfirst⟩
      cases j with
      | zero => rfl
      | succ j => exact absurd h (hfirst 0 (succ_pos j))
    rw [if_neg h, map_eq_some_iff]
    constructor
    · rintro ⟨j', hj', rfl⟩
      obtain ⟨hocc, hle, hfirst⟩ := ih.mp hj'
      refine ⟨hocc, succ_le_succ hle, fun k hk => ?_⟩
      cases k with
      | zero => exact h
      | succ k => exact hfirst k (by omega)
    rintro ⟨hocc, hle, hfirst⟩
    cases j with
    | zero => exact absurd hocc h
    | succ j =>
      refine ⟨j, ih.mpr ⟨hocc, by simpa using hle, fun k hk => ?_⟩, rfl⟩
      exact hfirst (k + 1) (by omega)

theorem search_eq_none_iff : search w s = none ↔ ∀ k ≤ s.length, ¬ OccursAt w s k := by
  constructor
  · intro h k
    induction k using Nat.strongRecOn with
    | ind k ih =>
      intro hk hocc
      rw [search_eq_some_iff.mpr ⟨hocc, hk, fun l hl => ih l hl (by omega)⟩] at h
      exact nomatch h
  intro h
  cases hs : search w s with
  | none => rfl
  | some j =>
    obtain ⟨hocc, hle, -⟩ := search_eq_some_iff.mp hs
    exact absurd hocc (h j hle)

/-- The first occurrence stays the first when the list grows. -/
theorem search_append (hw : w ≠ []) (h : search w s = some j) (t : List α) :
    search w (s ++ t) = some j := by
  obtain ⟨hocc, hj, hfirst⟩ := search_eq_some_iff.mp h
  have hle := hocc.le hw
  refine search_eq_some_iff.mpr ⟨hocc.append t, ?_, fun k hk hocc' => ?_⟩
  · rw [List.length_append]
    omega
  · exact hfirst k hk ((occursAt_append_iff (by omega)).mp hocc')

/-- No occurrence reaches over a symbol that is not in the word. -/
theorem search_append_of_notMem {x : α} (hx : x ∉ w) (hw : w ≠ []) (h : search w s = none)
    (h' : search w (s ++ x :: t) = some j) : s.length < j := by
  obtain ⟨hocc, -, -⟩ := search_eq_some_iff.mp h'
  by_contra hle
  by_cases hin : j + w.length ≤ s.length
  · exact search_eq_none_iff.mp h j (by omega) ((occursAt_append_iff hin).mp hocc)
  obtain ⟨-, hrest⟩ := (occursAt_append_cross (by omega) (by omega)).mp hocc
  cases hd : w.drop (s.length - j) with
  | nil =>
    have hlen := drop_eq_nil_iff.mp hd
    have hpos := length_pos_iff.mpr hw
    omega
  | cons y ys =>
    rw [hd] at hrest
    obtain ⟨rfl, -⟩ := cons_prefix_cons.mp hrest
    exact hx (mem_of_mem_drop (by rw [hd]; exact mem_cons_self))

omit [DecidableEq α] in
theorem occursAt_drop : OccursAt w (s.drop i) k ↔ OccursAt w s (i + k) := by
  unfold OccursAt
  rw [drop_drop]

/-- The first occurrence from `i` on. -/
theorem next_eq_some_iff (hw : w ≠ []) :
    next w s i = some j ↔ i ≤ j ∧ OccursAt w s j ∧ ∀ k, i ≤ k → k < j → ¬ OccursAt w s k := by
  unfold next
  simp only [map_eq_some_iff, search_eq_some_iff, occursAt_drop]
  constructor
  · rintro ⟨l, ⟨hocc, -, hfirst⟩, rfl⟩
    refine ⟨le_add_right i l, hocc, fun k hik hk hocc' => ?_⟩
    apply hfirst (k - i) (by omega)
    rwa [Nat.add_sub_cancel' hik]
  rintro ⟨hij, hocc, hfirst⟩
  have hle := hocc.le hw
  refine ⟨j - i, ⟨?_, ?_, fun k hk => hfirst (i + k) (by omega) (by omega)⟩, by omega⟩
  · rwa [Nat.add_sub_cancel' hij]
  · rw [length_drop]
    omega

/-- There is none. -/
theorem next_eq_none_iff (hw : w ≠ []) :
    next w s i = none ↔ ∀ k, i ≤ k → ¬ OccursAt w s k := by
  unfold next
  simp only [map_eq_none_iff, search_eq_none_iff, occursAt_drop]
  constructor
  · intro h k hik hocc
    have hle := hocc.le hw
    refine h (k - i) ?_ (by rwa [Nat.add_sub_cancel' hik])
    rw [length_drop]
    omega
  · exact fun h k _ => h (i + k) (le_add_right i k)

/-- The search may begin later where nothing is missed. -/
theorem next_congr (hw : w ≠ []) (hij : i ≤ j) (h : ∀ k, i ≤ k → k < j → ¬ OccursAt w s k) :
    next w s i = next w s j := by
  cases hn : next w s j with
  | none =>
    rw [next_eq_none_iff hw] at hn ⊢
    intro k hk
    by_cases hkj : k < j
    · exact h k hk hkj
    · exact hn k (by omega)
  | some l =>
    rw [next_eq_some_iff hw] at hn ⊢
    obtain ⟨hjl, hocc, hfirst⟩ := hn
    refine ⟨by omega, hocc, fun k hik hkl => ?_⟩
    by_cases hkj : k < j
    · exact h k hik hkj
    · exact hfirst k (by omega) hkl

/-! ### Occurrences one after the other -/

theorem ends_zero : ends w s 0 i = [] := rfl

theorem ends_succ : ends w s (n + 1) i = match next w s i with
    | none => []
    | some j => (j + w.length) :: ends w s n (j + w.length) := rfl

theorem ends_of_none (h : next w s i = none) : ends w s n i = [] := by
  cases n with
  | zero => rfl
  | succ n => rw [ends_succ, h]

theorem ends_of_some (h : next w s i = some j) :
    ends w s (n + 1) i = (j + w.length) :: ends w s n (j + w.length) := by
  rw [ends_succ, h]

theorem ends_congr (hw : w ≠ []) (hij : i ≤ j) (h : ∀ k, i ≤ k → k < j → ¬ OccursAt w s k) :
    ends w s n i = ends w s n j := by
  cases n with
  | zero => rfl
  | succ n => rw [ends_succ, ends_succ, next_congr hw hij h]

/-- Where occurrences end. -/
theorem mem_ends (hw : w ≠ []) {e : Nat} (h : e ∈ ends w s n i) :
    i + w.length ≤ e ∧ e ≤ s.length := by
  induction n generalizing i with
  | zero => exact nomatch h
  | succ n ih =>
    cases hn : next w s i with
    | none =>
      rw [ends_of_none hn] at h
      exact nomatch h
    | some j =>
      obtain ⟨hij, hocc, -⟩ := (next_eq_some_iff hw).mp hn
      have hle := hocc.le hw
      rw [ends_of_some hn] at h
      rcases mem_cons.mp h with rfl | h
      · omega
      · have := ih h
        omega

/-- They do not overlap. -/
theorem pairwise_ends (hw : w ≠ []) : (ends w s n i).Pairwise fun a b => a + w.length ≤ b := by
  induction n generalizing i with
  | zero => exact List.Pairwise.nil
  | succ n ih =>
    cases hn : next w s i with
    | none =>
      rw [ends_of_none hn]
      exact List.Pairwise.nil
    | some j =>
      rw [ends_of_some hn]
      exact pairwise_cons.mpr ⟨fun e he => (mem_ends hw he).1, ih⟩

theorem length_ends_le : (ends w s n i).length ≤ n := by
  induction n generalizing i with
  | zero => exact le_refl 0
  | succ n ih =>
    cases hn : next w s i with
    | none =>
      rw [ends_of_none hn]
      exact zero_le _
    | some j =>
      rw [ends_of_some hn]
      exact succ_le_succ ih

/-- **Where the search begins matters** just when an occurrence begins in between. -/
theorem ends_eq_iff_of_le (hw : w ≠ []) (hij : i ≤ j) (hn : 0 < n) :
    ends w s n i = ends w s n j ↔ ∀ k, i ≤ k → k < j → ¬ OccursAt w s k := by
  refine ⟨fun heq k hik hkj hocc => ?_, ends_congr hw hij⟩
  obtain ⟨n, rfl⟩ : ∃ m, n = m + 1 := ⟨n - 1, by omega⟩
  cases hi : next w s i with
  | none => exact (next_eq_none_iff hw).mp hi k hik hocc
  | some l =>
    obtain ⟨-, -, hfirst⟩ := (next_eq_some_iff hw).mp hi
    have hlk : l ≤ k := by
      by_contra hlt
      exact hfirst k hik (by omega) hocc
    -- the first one ends before any that begins from `j` on
    have hmem : l + w.length ∈ ends w s (n + 1) j := by
      rw [← heq, ends_of_some hi]
      exact mem_cons_self
    have := (mem_ends hw hmem).1
    omega

/-- The second part has occurrences of its own. -/
theorem ends_append_right (hw : w ≠ []) :
    ends w (s ++ t) n (s.length + i) = (ends w t n i).map (s.length + ·) := by
  induction n generalizing i with
  | zero => rfl
  | succ n ih =>
    have hnext : next w (s ++ t) (s.length + i) = (next w t i).map (s.length + ·) := by
      cases hn : next w t i with
      | none =>
        rw [next_eq_none_iff hw] at hn
        rw [map_none, next_eq_none_iff hw]
        intro k hk hocc
        apply hn (k - s.length) (by omega)
        rwa [← occursAt_append_right, Nat.add_sub_cancel' (by omega)]
      | some j =>
        rw [next_eq_some_iff hw] at hn
        obtain ⟨hij, hocc, hfirst⟩ := hn
        rw [map_some, next_eq_some_iff hw]
        refine ⟨by omega, occursAt_append_right.mpr hocc, fun k hik hkj hocc' => ?_⟩
        apply hfirst (k - s.length) (by omega) (by omega)
        rwa [← occursAt_append_right, Nat.add_sub_cancel' (by omega)]
    rw [ends_succ, ends_succ, hnext]
    cases next w t i with
    | none => rfl
    | some j =>
      simp only [map_some, map_cons]
      rw [add_assoc, ih]

/-- **Occurrences in a list that grows**: those that were there, and then those that reach into
    what came after. -/
theorem ends_append (hw : w ≠ []) (t : List α) :
    ends w (s ++ t) n i = ends w s n i ++ ends w (s ++ t) (n - (ends w s n i).length)
      (max ((ends w s n i).getLast?.getD i) (s.length + 1 - w.length)) := by
  induction n generalizing i with
  | zero => rfl
  | succ n ih =>
    cases hn : next w s i with
    | none =>
      rw [ends_of_none hn, getLast?_nil, getD_none]
      -- an occurrence that is new ends behind the first part
      refine ends_congr hw (le_max_left _ _) fun k hik hk hocc => ?_
      have hle : k + w.length ≤ s.length := by omega
      exact (next_eq_none_iff hw).mp hn k hik ((occursAt_append_iff hle).mp hocc)
    | some j =>
      have hfirst : next w (s ++ t) i = some j := by
        rw [next_eq_some_iff hw] at hn ⊢
        obtain ⟨hij, hocc, hbef⟩ := hn
        have hle := hocc.le hw
        refine ⟨hij, hocc.append t, fun k hik hkj hocc' => hbef k hik hkj ?_⟩
        exact (occursAt_append_iff (by omega)).mp hocc'
      rw [ends_of_some hn, ends_of_some hfirst, cons_append, length_cons,
        Nat.add_sub_add_right, getLast?_cons, getD_some]
      exact congrArg _ ih

/-! ### Insertions -/

omit [DecidableEq α] in
theorem length_insertAll (x : List α) (i : Nat) (ps : List Nat) (s : List α) :
    (insertAll x i ps s).length = s.length + ps.length * x.length := by
  induction ps generalizing i s with
  | nil => simp [insertAll]
  | cons p ps ih =>
    rw [insertAll, List.length_append, List.length_append, ih, length_take, length_drop,
      length_cons, add_mul]
    omega

variable {ps qs : List Nat}

omit [DecidableEq α] in
/-- Nothing is inserted at first. -/
theorem insertAll_skip (x : List α) (hij : i ≤ j) (h : ∀ p ∈ ps, j ≤ p) :
    insertAll x i ps s = s.take (j - i) ++ insertAll x j ps (s.drop (j - i)) := by
  cases ps with
  | nil => simp [insertAll]
  | cons p ps =>
    have hjp := h p mem_cons_self
    have hsum : p - i = (j - i) + (p - j) := by omega
    rw [insertAll, insertAll, drop_drop, ← hsum, ← append_assoc, ← append_assoc, hsum, take_add]

omit [DecidableEq α] in
/-- Insertions into the first part, and then into the second one. -/
theorem insertAll_append (x : List α) (hps : (i :: ps).Pairwise (· ≤ ·))
    (hle : ∀ p ∈ ps, p ≤ i + s.length) (hqs : ∀ q ∈ qs, i + s.length ≤ q) :
    insertAll x i (ps ++ qs) (s ++ t) = insertAll x i ps s ++ insertAll x (i + s.length) qs t := by
  induction ps generalizing i s with
  | nil =>
    rw [nil_append, insertAll_skip x (Nat.le_add_right i s.length) hqs, Nat.add_sub_cancel_left,
      take_left, drop_left]
    rfl
  | cons p ps ih =>
    obtain ⟨hi, hrest⟩ := pairwise_cons.mp hps
    have hip := hi p mem_cons_self
    have hp := hle p mem_cons_self
    have hlen : p + (s.drop (p - i)).length = i + s.length := by
      rw [length_drop]
      omega
    rw [cons_append, insertAll, insertAll, take_append_of_le_length (by omega),
      drop_append_of_le_length (by omega), ih hrest, hlen]
    · simp only [append_assoc]
    · rw [hlen]
      exact fun r hr => hle r (mem_cons_of_mem _ hr)
    · rw [hlen]
      exact hqs

omit [DecidableEq α] in
theorem insertAll_map (x : List α) (c i : Nat) (ps : List Nat) (s : List α) :
    insertAll x (c + i) (ps.map (c + ·)) s = insertAll x i ps s := by
  induction ps generalizing i s with
  | nil => rfl
  | cons p ps ih =>
    rw [map_cons, insertAll, insertAll, ih, Nat.add_sub_add_left]

omit [DecidableEq α] in
/-- What is inserted first can be seen. -/
theorem insertAll_ne [Nontrivial α] {p q : Nat} {ps qs : List Nat} (hip : i ≤ p) (hpq : p < q)
    (hq : q ≤ i + s.length) : ∃ x, insertAll x i (p :: ps) s ≠ insertAll x i (q :: qs) s := by
  have hlt : p - i < s.length := by omega
  obtain ⟨b, hb⟩ := exists_ne s[p - i]
  refine ⟨[b], fun heq => hb ?_⟩
  -- one has the new symbol where the other has what was there
  have hnew : (insertAll [b] i (p :: ps) s)[p - i]? = some b := by
    rw [insertAll, append_assoc, getElem?_append_right (by rw [length_take]; omega),
      length_take, Nat.min_eq_left (by omega), Nat.sub_self]
    rfl
  have hold : (insertAll [b] i (q :: qs) s)[p - i]? = some s[p - i] := by
    rw [insertAll, append_assoc, getElem?_append_left (by rw [length_take]; omega),
      getElem?_take_of_lt (by omega), getElem?_eq_getElem hlt]
  rw [heq, hold] at hnew
  exact (some.inj hnew).symm

omit [DecidableEq α] in
/-- **Where something is inserted can be seen from the result**, if it may be anything. -/
theorem insertAll_inj [Nontrivial α] (hps : (i :: ps).Pairwise (· < ·))
    (hqs : (i :: qs).Pairwise (· < ·)) (hp : ∀ p ∈ ps, p ≤ i + s.length)
    (hq : ∀ q ∈ qs, q ≤ i + s.length) :
    (∀ x, insertAll x i ps s = insertAll x i qs s) ↔ ps = qs := by
  refine ⟨fun h => ?_, fun h x => by rw [h]⟩
  obtain ⟨a⟩ : Nonempty α := inferInstance
  induction ps generalizing i qs s with
  | nil =>
    cases qs with
    | nil => rfl
    | cons q qs =>
      have hlen := congrArg List.length (h [a])
      simp [length_insertAll] at hlen
  | cons p ps ih =>
    cases qs with
    | nil =>
      have hlen := congrArg List.length (h [a])
      simp [length_insertAll] at hlen
    | cons q qs =>
      have hip := rel_of_pairwise_cons hps mem_cons_self
      have hiq := rel_of_pairwise_cons hqs mem_cons_self
      rcases lt_trichotomy p q with hlt | rfl | hlt
      · obtain ⟨x, hx⟩ := @insertAll_ne α s i _ p q ps qs (le_of_lt hip) hlt
          (hq q mem_cons_self)
        exact absurd (h x) hx
      · -- the first place is the same, and so are the others
        have hrest : p + (s.drop (p - i)).length = i + s.length := by
          have := hp p mem_cons_self
          rw [length_drop]
          omega
        congr 1
        refine @ih (s.drop (p - i)) p qs (pairwise_cons.mp hps).2 (pairwise_cons.mp hqs).2
          ?_ ?_ ?_
        · exact fun r hr => hrest ▸ hp r (mem_cons_of_mem _ hr)
        · exact fun r hr => hrest ▸ hq r (mem_cons_of_mem _ hr)
        intro x
        have hx := h x
        rw [insertAll, insertAll] at hx
        exact append_cancel_left hx
      · obtain ⟨x, hx⟩ := @insertAll_ne α s i _ q p qs ps (le_of_lt hiq) hlt
          (hp p mem_cons_self)
        exact absurd (h x).symm hx

end Cockpit.Lib
