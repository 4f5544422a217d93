import Cockpit.Base1.Location

namespace Cockpit.Page

open List

/-!
# `src/base1/cockpit.js`: `StorageHelper`

The pages of an application keep what they store behind its name.  A storage keeps its keys in an
order that the removal of a key does not change.

* `Storage.clearLoop_eq` — the loop ends, and what it leaves;
* `Storage.clear_confined_iff` — when clearing leaves the other applications alone.
-/

/-! ### Applications -/

/-- `calculate_application` -/
def calculateApplication (urlRoot pathname : List Nat) : Option (List Nat) :=
  let path := if pathname = [] then [Location.slash] else pathname
  let path :=
    if urlRoot ≠ [] ∧ Location.slash :: urlRoot <+: path then
      let rest := path.drop (urlRoot.length + 1)
      if rest = [] then [Location.slash] else rest
    else path
  let path :=
    if ¬ units "/cockpit/" <+: path ∧ ¬ units "/cockpit+" <+: path then
      if units "/=" <+: path then units "/cockpit+" ++ ((path.splitOn Location.slash)[1]?).getD []
      else units "/cockpit"
    else path
  (path.splitOn Location.slash)[1]?

/-- The name of an application, which is that of a page. -/
structure Application where
  name : List Nat
  page : ∃ urlRoot pathname, calculateApplication urlRoot pathname = some name

theorem splitOn_head (xs : List Nat) :
    (xs.splitOn Location.slash)[0]? = some (xs.takeWhile (· ≠ Location.slash)) := by
  induction xs with
  | nil => rfl
  | cons x xs ih =>
    rw [splitOn_cons_eq_if_modifyHead]
    by_cases hx : x = Location.slash
    · simp [hx]
    rw [if_neg (by simpa using hx), takeWhile_cons_of_pos (by simpa using hx)]
    cases hsplit : xs.splitOn Location.slash with
    | nil => exact absurd hsplit (splitOn_ne_nil Location.slash xs)
    | cons part parts =>
      rw [hsplit] at ih
      simpa using ih

/-- The first part behind a slash. -/
theorem splitOn_second (xs : List Nat) :
    ((Location.slash :: xs).splitOn Location.slash)[1]? =
      some (xs.takeWhile (· ≠ Location.slash)) := by
  rw [splitOn_cons_eq_if_modifyHead, if_pos (by simp), getElem?_cons_succ, splitOn_head]

variable (application : Application)

/-- **Every application begins with "cockpit"**. -/
theorem Application.cockpit : units "cockpit" <+: application.name := by
  have hname : ∀ {path name : List Nat}, units "/cockpit" <+: path →
      (path.splitOn Location.slash)[1]? = some name → units "cockpit" <+: name := by
    rintro _ name ⟨rest, rfl⟩ h
    rw [show units "/cockpit" ++ rest = Location.slash :: (units "cockpit" ++ rest) from rfl,
      splitOn_second, takeWhile_append_of_pos (all_eq_true.mp (by decide))] at h
    cases h
    exact prefix_append _ _
  -- all that is not such a path already is made one
  have hpath : ∀ path : List Nat, units "/cockpit" <+:
      (if ¬ units "/cockpit/" <+: path ∧ ¬ units "/cockpit+" <+: path then
        if units "/=" <+: path then
          units "/cockpit+" ++ ((path.splitOn Location.slash)[1]?).getD []
        else units "/cockpit"
      else path) := by
    intro path
    have hplus : units "/cockpit" <+: units "/cockpit+" := ⟨units "+", rfl⟩
    have hslash : units "/cockpit" <+: units "/cockpit/" := ⟨units "/", rfl⟩
    split
    · split
      · exact hplus.trans (prefix_append _ _)
      · exact prefix_rfl
    · rename_i hpage
      rcases not_and_or.mp hpage with hpage | hpage
      · exact hslash.trans (not_not.mp hpage)
      · exact hplus.trans (not_not.mp hpage)
  obtain ⟨name, urlRoot, pathname, h⟩ := application
  unfold calculateApplication at h
  exact hname (hpath _) h

/-! ### Storage -/

/-- What a browser stores: keys with their values. -/
structure Storage where
  entries : List (List Nat × List Nat)
  nodup : (entries.map Prod.fst).Nodup

namespace Storage

def keys (s : Storage) : List (List Nat) := s.entries.map Prod.fst

def getItem (s : Storage) (key : List Nat) : Option (List Nat) := s.entries.lookup key

def removeItem (s : Storage) (key : List Nat) : Storage where
  entries := s.entries.filter (·.1 != key)
  nodup := s.nodup.sublist (filter_sublist.map Prod.fst)

/-- `prefixedKey` -/
def prefixedKey (key : List Nat) : List Nat :=
  application.name ++ units ":" ++ key

theorem begins_prefixedKey (key : List Nat) :
    application.name <+: prefixedKey application key :=
  (prefix_append _ _).trans (prefix_append _ _)

/-- Whether `clear` removes a key. -/
def clears (full : Bool) (key : List Nat) : Bool :=
  (full && !(units "cockpit").isPrefixOf key) || application.name.isPrefixOf key

/-- The loop of `clear`, for so many turns. -/
def clearLoop (application : Application) (full : Bool) : Nat → Storage → Nat → Option Storage
  | 0, s, i => if i < s.entries.length then none else some s
  | turns + 1, s, i =>
    match s.entries[i]? with
    | none => some s
    | some (k, _) =>
      if full ∧ ¬ units "cockpit" <+: k then clearLoop application full turns (s.removeItem k) i
      else if application.name <+: k then clearLoop application full turns (s.removeItem k) i
      else clearLoop application full turns s (i + 1)

/-- `clear`, once its loop has ended. -/
def cleared (full : Bool) (s : Storage) : Storage where
  entries := s.entries.filter fun entry => !clears application full entry.1
  nodup := s.nodup.sublist (filter_sublist.map Prod.fst)

variable {s : Storage}

@[ext] theorem ext {s' : Storage} (h : s.entries = s'.entries) : s = s' := by
  cases s
  cases s'
  cases h
  rfl

variable {key : List Nat} {application : Application} {full : Bool}

theorem clears_iff :
    clears application full key ↔
      (full ∧ ¬ units "cockpit" <+: key) ∨ application.name <+: key := by
  simp [clears, ← isPrefixOf_iff_prefix]

/-- A key that matches is taken out of the storage; what is behind it moves up. -/
theorem entries_removeItem {before after : List (List Nat × List Nat)}
    {entry : List Nat × List Nat} (h : s.entries = before ++ entry :: after) :
    (s.removeItem entry.1).entries = before ++ after := by
  have hnodup := s.nodup
  rw [h, map_append, map_cons, nodup_append, nodup_cons] at hnodup
  obtain ⟨-, ⟨hafter, -⟩, hbef⟩ := hnodup
  have hkeep : ∀ es : List (List Nat × List Nat), entry.1 ∉ es.map Prod.fst →
      es.filter (·.1 != entry.1) = es := by
    intro es hes
    refine filter_eq_self.mpr fun other hother => ?_
    rw [bne_iff_ne]
    exact fun heq => hes (heq ▸ mem_map_of_mem hother)
  show s.entries.filter (·.1 != entry.1) = before ++ after
  rw [h, filter_append, filter_cons_of_neg (by simp), hkeep after hafter,
    hkeep before fun hmem => hbef _ hmem _ mem_cons_self rfl]

/-- **The loop ends**, and leaves what does not match.  The invariant is that nothing in front of
    `i` matches. -/
theorem clearLoop_eq (application : Application) (full : Bool) (turns : Nat) :
    ∀ (s : Storage) (before after : List (List Nat × List Nat)), s.entries = before ++ after →
      (∀ entry ∈ before, clears application full entry.1 = false) → after.length ≤ turns →
        clearLoop application full turns s before.length = some (s.cleared application full) := by
  have hkept : ∀ (s : Storage) (before : List (List Nat × List Nat)), s.entries = before →
      (∀ entry ∈ before, clears application full entry.1 = false) →
        s.cleared application full = s := by
    intro s before hs hbef
    refine ext (filter_eq_self.mpr fun entry hentry => ?_)
    rw [hbef entry (hs ▸ hentry)]
    rfl
  induction turns with
  | zero =>
    intro s before after hs hbef hturns
    have hafter : after = [] := eq_nil_of_length_eq_zero (Nat.le_zero.mp hturns)
    rw [hafter, append_nil] at hs
    rw [clearLoop, hkept s before hs hbef, hs, if_neg (Nat.lt_irrefl _)]
  | succ turns ih =>
    intro s before after hs hbef hturns
    cases after with
    | nil =>
      rw [append_nil] at hs
      rw [clearLoop, hkept s before hs hbef, hs, getElem?_eq_none (Nat.le_refl _)]
    | cons entry after =>
      have hget : s.entries[before.length]? = some entry := by simp [hs]
      have hturns : after.length ≤ turns := Nat.le_of_succ_le_succ hturns
      have hrem : clears application full entry.1 →
          clearLoop application full turns (s.removeItem entry.1) before.length =
            some (s.cleared application full) := by
        intro hclears
        have hentries := entries_removeItem hs
        rw [ih _ before after hentries hbef hturns]
        refine congrArg some (ext ?_)
        show (s.removeItem entry.1).entries.filter _ = s.entries.filter _
        rw [hentries, hs, filter_append, filter_append, filter_cons_of_neg (by simp [hclears])]
      rw [clearLoop, hget]
      dsimp only
      split
      · rename_i hfull
        exact hrem (clears_iff.mpr (.inl hfull))
      rename_i hfull
      split
      · rename_i hname
        exact hrem (clears_iff.mpr (.inr hname))
      -- the entry stays
      rename_i hname
      have hstays : clears application full entry.1 = false := by
        rw [← Bool.not_eq_true, clears_iff]
        exact fun h => h.elim hfull hname
      have hnext := ih s (before ++ [entry]) after (by rw [hs, append_assoc]; rfl)
        (fun other hother => (mem_append.mp hother).elim (hbef other) fun hlast =>
          mem_singleton.mp hlast ▸ hstays) hturns
      rwa [List.length_append] at hnext

theorem lookup_filter (keep : List Nat → Bool) (entries : List (List Nat × List Nat))
    (key : List Nat) :
    (entries.filter fun entry => keep entry.1).lookup key =
      if keep key then entries.lookup key else none := by
  induction entries with
  | nil => simp
  | cons entry entries ih =>
    obtain ⟨k, value⟩ := entry
    by_cases hk : key = k
    · subst hk
      cases hkeep : keep key with
      | true => simp [hkeep]
      | false => simp [hkeep, ih]
    have hne : (key == k) = false := by simpa using hk
    cases hkeep : keep k with
    | true | false => simp [hkeep, lookup_cons, hne, ih]

theorem getItem_cleared (application : Application) (full : Bool) (s : Storage) (key : List Nat) :
    (s.cleared application full).getItem key =
      if clears application full key then none else s.getItem key := by
  unfold getItem cleared
  rw [lookup_filter (fun key => !clears application full key)]
  cases clears application full key with
  | true | false => rfl

theorem mem_keys_cleared :
    key ∈ (s.cleared application full).keys ↔
      key ∈ s.keys ∧ clears application full key = false := by
  unfold keys cleared
  simp only [mem_map, mem_filter, Bool.not_eq_true']
  constructor
  · rintro ⟨entry, ⟨hentry, hstays⟩, rfl⟩
    exact ⟨⟨entry, hentry, rfl⟩, hstays⟩
  · rintro ⟨⟨entry, hentry, rfl⟩, hstays⟩
    exact ⟨entry, ⟨hentry, hstays⟩, rfl⟩

theorem getItem_isSome_iff : (s.getItem key).isSome ↔ key ∈ s.keys := by
  unfold getItem keys
  induction s.entries with
  | nil => simp
  | cons entry entries ih =>
    rw [lookup_cons, map_cons, mem_cons, ← ih]
    by_cases hkey : key = entry.1
    · simp [hkey]
    · have hne : (key == entry.1) = false := by simpa using hkey
      simp [hne, hkey]

/-- **Clearing is confined** to an application when no key of another one begins with its name. -/
theorem clear_confined_iff (application : Application) (full : Bool) (s : Storage) :
    (∃ s', (∀ turns, s.entries.length ≤ turns → clearLoop application full turns s 0 = some s') ∧
      (∀ key, prefixedKey application key ∉ s'.keys) ∧
      (full = true → ∀ key ∈ s'.keys, units "cockpit" <+: key) ∧
      ∀ other : Application, other.name ≠ application.name →
        ∀ key, s'.getItem (prefixedKey other key) = s.getItem (prefixedKey other key)) ↔
      ∀ other : Application, other.name ≠ application.name →
        ∀ key, prefixedKey other key ∈ s.keys → ¬ application.name <+: prefixedKey other key := by
  have hloop : ∀ turns, s.entries.length ≤ turns →
      clearLoop application full turns s 0 = some (s.cleared application full) :=
    fun turns hturns => clearLoop_eq application full turns s [] s.entries rfl nofun hturns
  constructor
  · rintro ⟨s', hs', _, _, huntouched⟩ other hother key hmem hname
    have heq := (hs' _ (Nat.le_refl _)).symm.trans (hloop _ (Nat.le_refl _))
    have hget := huntouched other hother key
    rw [Option.some.inj heq, getItem_cleared, if_pos (clears_iff.mpr (.inr hname))] at hget
    have hsome := getItem_isSome_iff.mpr hmem
    rw [← hget] at hsome
    exact nomatch hsome
  intro hconfined
  refine ⟨s.cleared application full, hloop, fun key hmem => ?_, fun hfull key hmem => ?_,
    fun other hother key => ?_⟩
  · have hstays := (mem_keys_cleared.mp hmem).2
    rw [clears_iff.mpr (.inr (begins_prefixedKey application key))] at hstays
    exact nomatch hstays
  · by_contra hcockpit
    have hstays := (mem_keys_cleared.mp hmem).2
    rw [clears_iff.mpr (.inl ⟨hfull, hcockpit⟩)] at hstays
    exact nomatch hstays
  rw [getItem_cleared]
  split
  · -- what is cleared was not there
    rename_i hclears
    cases hget : s.getItem (prefixedKey other key) with
    | none => rfl
    | some value =>
      have hmem : prefixedKey other key ∈ s.keys := getItem_isSome_iff.mp (by rw [hget]; rfl)
      have hcockpit : units "cockpit" <+: prefixedKey other key :=
        other.cockpit.trans (begins_prefixedKey other key)
      rcases clears_iff.mp hclears with ⟨_, hnot⟩ | hname
      · exact absurd hcockpit hnot
      · exact absurd hname (hconfined other hother key hmem)
  · rfl

/-- The application of a page on this machine. -/
def cockpitApplication : Application := ⟨units "cockpit", [], units "/", by decide⟩

/-- The application of a page on another machine. -/
def remoteApplication : Application := ⟨units "cockpit+=a", [], units "/=a", by decide⟩

/-- Something that a page on another machine has stored. -/
def remoteStorage : Storage := ⟨[(units "cockpit+=a:x", units "1")], by simp⟩

/-- Clearing for this machine takes it away. -/
theorem not_clear_confined_remote :
    ¬ ∀ application full s, ∃ s',
      (∀ turns, s.entries.length ≤ turns → clearLoop application full turns s 0 = some s') ∧
        ∀ other : Application, other.name ≠ application.name →
          ∀ key, s'.getItem (prefixedKey other key) = s.getItem (prefixedKey other key) := by
  intro h
  obtain ⟨s', hs', huntouched⟩ := h cockpitApplication false remoteStorage
  have heq := (hs' 1 (Nat.le_refl 1)).symm.trans
    (clearLoop_eq cockpitApplication false 1 remoteStorage [] _ rfl nofun (Nat.le_refl 1))
  have hget := huntouched remoteApplication (by decide) (units "x")
  rw [Option.some.inj heq, getItem_cleared, if_pos (by decide)] at hget
  exact nomatch hget

end Storage

end Cockpit.Page
