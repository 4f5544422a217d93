import Cockpit.Lib.SearchTree
import Cockpit.Bridge.Paths

namespace Cockpit

open Lib List Nat

/-!
# The tree behind `src/bridge/cockpitpaths.c`

A `GTree` of D-Bus paths in the order of `tree_path_cmp`, of any shape, and the two ways to look
something up in it: `g_tree_lookup` compares as the tree does, and `g_tree_search` asks
`tree_prefix_search`, for which a whole range of paths is as good as the one looked for.

* `Paths.find?_treePathCmp` — a lookup finds the paths that are there, so that a list will do;
* `Paths.containOrDescendant_iff` — a search finds the path or one below it, if all of them are
  object paths.  No character of an object path sorts before `/`, so nothing comes between a path
  and those below it.
-/

/-- `memcmp`, of the first `n` bytes -/
def memcmp : Nat → Bytes → Bytes → Int
  | n + 1, a :: as, b :: bs => if a = b then memcmp n as bs else (a.toNat : Int) - b.toNat
  | _, _, _ => 0

namespace Paths

/-- `tree_path_cmp`; a `PathData` is the bytes that it has the length of. -/
def treePathCmp (a b : Bytes) : Int :=
  let ret := memcmp (min a.length b.length) a b
  if ret = 0 ∧ a.length ≠ b.length then if a.length < b.length then -1 else 1
  else ret

/-- `tree_prefix_search`, for a key `a` of the tree -/
def treePrefixSearch (a b : Bytes) : Int :=
  let ret := memcmp (min a.length b.length) b a
  if ret = 0 ∧ a.length ≠ b.length then
    if a.length > b.length then
      if b = [slash] ∨ a[b.length]? = some slash then 0 else -1
    else 1
  else ret

/-- `cockpit_paths_contain_or_descendant`, with `g_tree_search` -/
def containOrDescendant (tree : SearchTree CStr) (path : CStr) : Bool :=
  (tree.find? fun key => treePrefixSearch key.bytes path.bytes).isSome

/-- The tree is in the order of `tree_path_cmp`. -/
def Sorted (tree : SearchTree CStr) : Prop :=
  tree.Ordered fun a b => treePathCmp a.bytes b.bytes < 0

/-! ### The order of the tree -/

instance transLt : Trans (α := UInt8) (· < ·) (· < ·) (· < ·) := ⟨UInt8.lt_trans⟩

variable {a b : Bytes}

/-- Nothing differs where one of them begins with the other. -/
theorem memcmp_eq_zero :
    memcmp (min a.length b.length) a b = 0 ↔ a <+: b ∨ b <+: a := by
  induction a generalizing b with
  | nil => simp [memcmp]
  | cons x a ih =>
    cases b with
    | nil => simp [memcmp]
    | cons y b =>
      rw [length_cons, length_cons, Nat.add_min_add_right, memcmp]
      split
      · rename_i heq
        subst heq
        simp [ih]
      rename_i hne
      have hnat : x.toNat ≠ y.toNat := fun h => hne (UInt8.toNat_inj.mp h)
      simp only [cons_prefix_cons, hne, Ne.symm hne, false_and, or_self, iff_false]
      omega

/-- Otherwise the first difference decides. -/
theorem memcmp_neg (h : memcmp (min a.length b.length) a b < 0) : a < b := by
  induction a generalizing b with
  | nil => simp [memcmp] at h
  | cons x a ih =>
    cases b with
    | nil => simp [memcmp] at h
    | cons y b =>
      rw [length_cons, length_cons, Nat.add_min_add_right, memcmp] at h
      rw [cons_lt_cons_iff]
      split at h
      · rename_i heq
        exact .inr ⟨heq, ih h⟩
      · exact .inl (UInt8.lt_iff_toNat_lt.mpr (by omega))

theorem memcmp_comm (n : Nat) (a b : Bytes) : memcmp n b a = -memcmp n a b := by
  induction n generalizing a b with
  | zero => simp [memcmp]
  | succ n ih =>
    cases a with
    | nil => cases b <;> simp [memcmp]
    | cons x a =>
      cases b with
      | nil => simp [memcmp]
      | cons y b =>
        rw [memcmp, memcmp]
        by_cases heq : x = y
        · rw [if_pos heq, if_pos heq.symm, ih]
        · rw [if_neg heq, if_neg (Ne.symm heq)]
          omega

theorem memcmp_pos (h : 0 < memcmp (min a.length b.length) a b) : b < a := by
  apply memcmp_neg
  rw [min_comm, memcmp_comm]
  omega

/-- What begins with something comes after it. -/
theorem prefix_lt (h : a <+: b) (hne : a.length ≠ b.length) : a < b := by
  obtain ⟨t, rfl⟩ := h
  cases t with
  | nil => exact absurd (by simp) hne
  | cons x t =>
    induction a with
    | nil => exact nil_lt_cons x t
    | cons y a ih => exact cons_lt_cons_iff.mpr (.inr ⟨rfl, ih (by simp)⟩)

theorem lt_irrefl (a : Bytes) : ¬ a < a := List.lt_irrefl a

theorem lt_asymm (h : a < b) : ¬ b < a := fun h' => lt_irrefl a (List.lt_trans h h')

/-- The tree is in lexicographic order. -/
theorem treePathCmp_neg : treePathCmp a b < 0 ↔ a < b := by
  have hsplit := Int.lt_trichotomy (memcmp (min a.length b.length) a b) 0
  unfold treePathCmp
  dsimp only
  rcases hsplit with hneg | hzero | hpos
  · rw [if_neg (by omega)]
    exact ⟨memcmp_neg, fun _ => hneg⟩
  · by_cases hlen : a.length = b.length
    · -- of one length, they are equal
      have heq : a = b := by
        rcases memcmp_eq_zero.mp hzero with h | h
        · exact h.eq_of_length hlen
        · exact (h.eq_of_length hlen.symm).symm
      rw [if_neg (fun h => h.2 hlen), hzero, heq]
      exact ⟨fun h => absurd h (by omega), fun h => absurd h (lt_irrefl b)⟩
    rw [if_pos ⟨hzero, hlen⟩]
    rcases memcmp_eq_zero.mp hzero with h | h
    · rw [if_pos (lt_of_le_of_ne h.length_le hlen)]
      exact ⟨fun _ => prefix_lt h hlen, fun _ => by omega⟩
    · rw [if_neg (not_lt.mpr h.length_le)]
      exact ⟨fun h => absurd h (by omega),
        fun hlt => absurd (prefix_lt h (Ne.symm hlen)) (lt_asymm hlt)⟩
  · rw [if_neg (by omega)]
    exact ⟨fun h => absurd h (by omega), fun h => absurd (memcmp_pos hpos) (lt_asymm h)⟩

/-! ### The search -/

/-- The bytes of elements are `/` or behind it. -/
theorem slash_le_of_isObjectPathLoop {prev : UInt8} {rest : Bytes}
    (h : isObjectPathLoop prev rest) : ∀ b ∈ rest, slash ≤ b := by
  induction rest generalizing prev with
  | nil => exact nofun
  | cons c rest ih =>
    rw [isObjectPathLoop, Bool.and_eq_true, Bool.or_eq_true] at h
    obtain ⟨hc, hrest⟩ := h
    intro b hb
    rcases mem_cons.mp hb with rfl | hb
    · rcases hc with hc | hc
      · simp only [isPathByte, Bool.or_eq_true, Bool.and_eq_true, decide_eq_true_eq,
          beq_iff_eq] at hc
        unfold slash
        grind
      · simp only [Bool.and_eq_true, beq_iff_eq] at hc
        exact hc.1 ▸ UInt8.le_refl _
    · exact ih hrest b hb

variable {path : CStr}

theorem slash_le_of_isObjectPath (h : isObjectPath path) :
    ∀ b ∈ path.bytes, slash ≤ b := by
  unfold isObjectPath at h
  split at h
  · exact nomatch h
  rename_i c rest hbytes
  simp only [Bool.and_eq_true, Bool.or_eq_true, beq_iff_eq, List.isEmpty_iff] at h
  obtain ⟨rfl, hrest⟩ := h
  rw [hbytes]
  intro b hb
  rcases mem_cons.mp hb with rfl | hb
  · exact UInt8.le_refl _
  · rcases hrest with rfl | hrest
    · exact nomatch hb
    · exact slash_le_of_isObjectPathLoop hrest b hb

/-- Every object path begins with a `/`. -/
theorem root_prefix_of_isObjectPath (h : isObjectPath path) : [slash] <+: path.bytes := by
  unfold isObjectPath at h
  split at h
  · exact nomatch h
  rename_i c rest hbytes
  rw [Bool.and_eq_true, beq_iff_eq] at h
  rw [hbytes, h.1]
  exact ⟨rest, rfl⟩

/-- What comes between a path and one below it is below it as well. -/
theorem below_of_between {p x t : Bytes} (hx : ∀ b ∈ x, slash ≤ b) (hlo : p < x)
    (hhi : x < p ++ slash :: t) : p ++ [slash] <+: x := by
  induction p generalizing x with
  | nil =>
    cases x with
    | nil => exact absurd hlo (lt_irrefl [])
    | cons c x =>
      rw [nil_append, cons_lt_cons_iff] at hhi
      rcases hhi with hlt | ⟨rfl, -⟩
      · exact absurd hlt (UInt8.not_lt.mpr (hx c mem_cons_self))
      · exact ⟨x, rfl⟩
  | cons a p ih =>
    cases x with
    | nil => exact absurd hlo (not_lt_nil _)
    | cons c x =>
      rw [cons_lt_cons_iff] at hlo
      rw [cons_append, cons_lt_cons_iff] at hhi
      -- both bounds begin alike, so the path does too
      have heq : a = c := by
        rcases hlo with hac | ⟨heq, -⟩
        · rcases hhi with hca | ⟨heq, -⟩
          · exact absurd (UInt8.lt_trans hac hca) (UInt8.lt_irrefl a)
          · exact heq.symm
        · exact heq
      subst heq
      rw [cons_append, cons_prefix_cons]
      exact ⟨rfl, ih (fun b hb => hx b (mem_cons_of_mem _ hb))
        (hlo.resolve_left (UInt8.lt_irrefl a)).2 (hhi.resolve_left (UInt8.lt_irrefl a)).2⟩

/-- How a key and the path that is looked for stand to each other. -/
theorem treePrefixSearch_cases (a b : Bytes) :
    a = b ∧ treePrefixSearch a b = 0 ∨ (b <+: a ∧ b < a ∧ treePrefixSearch a b =
        if b = [slash] ∨ a[b.length]? = some slash then 0 else -1) ∨
      (a < b ∧ 0 < treePrefixSearch a b) ∨
      (b < a ∧ ¬ b <+: a ∧ treePrefixSearch a b < 0) := by
  have hmin : min a.length b.length = min b.length a.length := min_comm _ _
  have hsplit := Int.lt_trichotomy (memcmp (min b.length a.length) b a) 0
  unfold treePrefixSearch
  dsimp only
  rw [hmin]
  rcases hsplit with hneg | hzero | hpos
  · rw [if_neg (by omega)]
    refine .inr (.inr (.inr ⟨memcmp_neg hneg, fun hpre => ?_, hneg⟩))
    have := memcmp_eq_zero.mpr (.inl hpre)
    omega
  · by_cases hlen : a.length = b.length
    · rw [if_neg (fun h => h.2 hlen)]
      refine .inl ⟨?_, hzero⟩
      rcases memcmp_eq_zero.mp hzero with h | h
      · exact (h.eq_of_length hlen.symm).symm
      · exact h.eq_of_length hlen
    rw [if_pos ⟨hzero, hlen⟩]
    rcases memcmp_eq_zero.mp hzero with h | h
    · rw [if_pos (lt_of_le_of_ne h.length_le (Ne.symm hlen))]
      exact .inr (.inl ⟨h, prefix_lt h (Ne.symm hlen), rfl⟩)
    · rw [if_neg (not_lt.mpr h.length_le)]
      exact .inr (.inr (.inl ⟨prefix_lt h hlen, by omega⟩))
  · rw [if_neg (by omega)]
    exact .inr (.inr (.inl ⟨memcmp_pos hpos, hpos⟩))

/-- A key is passed on the right just when it is before the path. -/
theorem treePrefixSearch_pos : 0 < treePrefixSearch a b ↔ a < b := by
  rcases treePrefixSearch_cases a b with ⟨rfl, hzero⟩ | ⟨-, hlt, heq⟩ | ⟨hlt, hpos⟩ | ⟨hlt, -, hneg⟩
  · exact ⟨fun h => absurd h (by omega), fun h => absurd h (lt_irrefl a)⟩
  · refine ⟨fun h => absurd h ?_, fun h => absurd h (lt_asymm hlt)⟩
    rw [heq]
    split <;> omega
  · exact ⟨fun _ => hlt, fun _ => hpos⟩
  · exact ⟨fun h => absurd h (by omega), fun h => absurd h (lt_asymm hlt)⟩

/-- The path is at the root of what is below it. -/
theorem below_iff :
    b <+: a ∧ a[b.length]? = some slash ↔ b ++ [slash] <+: a := by
  constructor
  · rintro ⟨⟨t, rfl⟩, hslash⟩
    rw [getElem?_append_right (Nat.le_refl _), Nat.sub_self] at hslash
    cases t with
    | nil => exact nomatch hslash
    | cons c t =>
      obtain rfl : c = slash := by simpa using hslash
      exact ⟨t, by simp⟩
  rintro ⟨t, rfl⟩
  refine ⟨⟨slash :: t, by simp⟩, ?_⟩
  rw [append_assoc, getElem?_append_right (Nat.le_refl _), Nat.sub_self]
  rfl

/-- A key is taken just when it is the path, or below it. -/
theorem treePrefixSearch_eq_zero :
    treePrefixSearch a b = 0 ↔
      a = b ∨ b = [slash] ∧ b <+: a ∨ b ++ [slash] <+: a := by
  rcases treePrefixSearch_cases a b with ⟨rfl, hzero⟩ | ⟨hpre, hlt, heq⟩ | ⟨hlt, hpos⟩ | ⟨hlt, hpre, hneg⟩
  · exact ⟨fun _ => .inl rfl, fun _ => hzero⟩
  · have hne : a ≠ b := fun h => lt_irrefl b (h ▸ hlt)
    rw [heq, ← below_iff]
    simp only [hne, false_or, hpre, true_and, and_true]
    split <;> simp_all
  · refine ⟨fun h => absurd h (by omega), ?_⟩
    have hnot : ∀ c : Bytes, b <+: c → a ≠ c := by
      rintro c hpre rfl
      by_cases hlen : b.length = a.length
      · exact lt_irrefl a (hpre.eq_of_length hlen ▸ hlt)
      · exact lt_asymm hlt (prefix_lt hpre hlen)
    rintro (rfl | ⟨-, hpre⟩ | hpre)
    · exact absurd hlt (lt_irrefl a)
    · exact absurd rfl (hnot a hpre)
    · exact absurd rfl (hnot a ((prefix_append b [slash]).trans hpre))
  refine ⟨fun h => absurd h (by omega), ?_⟩
  rintro (rfl | ⟨-, h⟩ | h)
  · exact absurd hlt (lt_irrefl a)
  · exact absurd h hpre
  · exact absurd ((prefix_append b [slash]).trans h) hpre

/-- Object paths are passed on the left only behind everything below the path. -/
theorem descends_treePrefixSearch {keys : List CStr} (hkeys : ∀ key ∈ keys, isObjectPath key) :
    SearchTree.Descends (fun a b : CStr => treePathCmp a.bytes b.bytes < 0)
      (fun key => treePrefixSearch key.bytes path.bytes) keys := by
  intro x hx y hy hlt
  rw [treePathCmp_neg] at hlt
  dsimp only
  constructor
  · intro hneg
    by_contra hnneg
    -- then `y` is taken, or before the path
    have hbeh : path.bytes < x.bytes := by
      rcases treePrefixSearch_cases x.bytes path.bytes with
        ⟨-, h⟩ | ⟨-, h, -⟩ | ⟨-, h⟩ | ⟨h, -⟩
      · omega
      · exact h
      · omega
      · exact h
    rcases Int.lt_or_eq_of_le (Int.not_lt.mp hnneg) with hpos | hzero
    · exact lt_asymm (List.lt_trans hbeh hlt) (treePrefixSearch_pos.mp hpos)
    have hx0 : treePrefixSearch x.bytes path.bytes ≠ 0 := by omega
    rcases treePrefixSearch_eq_zero.mp hzero.symm with heq | ⟨hroot, -⟩ | ⟨t, ht⟩
    · exact lt_asymm hlt (heq ▸ hbeh)
    · apply hx0
      rw [treePrefixSearch_eq_zero]
      exact .inr (.inl ⟨hroot, hroot ▸ root_prefix_of_isObjectPath (hkeys x hx)⟩)
    -- what is between the path and `y` is below the path
    apply hx0
    rw [treePrefixSearch_eq_zero]
    refine .inr (.inr (below_of_between (t := t)
      (slash_le_of_isObjectPath (hkeys x hx)) hbeh ?_))
    rw [append_cons, ht]
    exact hlt
  · intro hpos
    rw [treePrefixSearch_pos] at hpos ⊢
    exact List.lt_trans hlt hpos

/-- **The search agrees with a look at every path**, whatever the shape of the tree. -/
theorem containOrDescendant_iff {tree : SearchTree CStr} (hsorted : Sorted tree)
    (hkeys : ∀ key ∈ tree.keys, isObjectPath key = true) (path : CStr) :
    containOrDescendant tree path = true ↔
      ∃ key ∈ tree.keys, key = path ∨ hasAncestor key path = true := by
  unfold containOrDescendant
  rw [SearchTree.find?_isSome_iff hsorted (descends_treePrefixSearch hkeys)]
  apply exists_congr
  intro key
  rw [and_congr_right_iff]
  intro hkey
  rw [treePrefixSearch_eq_zero]
  unfold hasAncestor
  by_cases hroot : path = rootPath
  · subst hroot
    simp only [if_pos, or_true, iff_true]
    exact .inr (.inl ⟨rfl, root_prefix_of_isObjectPath (hkeys key hkey)⟩)
  have hbytes : path.bytes ≠ [slash] := fun h => hroot (CStr.ext h)
  rw [if_neg hroot, Bool.and_eq_true, beq_iff_eq, isPrefixOf_iff_prefix, below_iff]
  simp only [hbytes, false_and, false_or]
  exact or_congr ⟨fun h => CStr.ext h, fun h => h ▸ rfl⟩ Iff.rfl

/-- `/a` is found by way of `/a/b`, although `/a_` is asked first. -/
theorem containOrDescendant_below :
    containOrDescendant (.node (.node .nil ⟨[47, 97, 47, 98], by decide⟩ .nil)
      ⟨[47, 97, 95], by decide⟩ .nil) ⟨[47, 97], by decide⟩ = true :=
  (containOrDescendant_iff (by unfold Sorted SearchTree.Ordered; decide) (by decide) _).mpr
    ⟨⟨[47, 97, 47, 98], by decide⟩, by decide, .inr (by decide)⟩

end Paths

end Cockpit
