import Mathlib

namespace Cockpit.Storaged

open List Nat

/-!
# `teardown_active_usage` of `src/pkg/storaged/utils.js`

The calls are asynchronous: each one gives a promise, and how it ends is up to the daemon.

* `tearsDown_iff` — `pvol_remove` returns nothing, so the promise of the whole doesn't wait for
  what is done to volume groups;
* `volumes_teardown` — that is what it should be.
-/

/-- One entry of `usage.raw`, with the parts of the proxies that the teardown looks at. -/
inductive Usage where
  | mounted (fsys : String) (mountPoints : List String)
  | mdraidMember (block mdraid : String)
  | pvol (block vgroup : String)
  | vdoBacking (block : String)
  deriving DecidableEq, Repr

/-- A call of a method. -/
inductive Call where
  | unmount (fsys : String)
  | mdraidRemoveDevice (mdraid block : String)
  | vgroupDelete (vgroup : String)
  | vgroupRemoveDevice (vgroup block : String)
  deriving DecidableEq, Repr

/-- A promise: that of the call with a number, one that is resolved, or `cockpit.all` of some. -/
inductive Promise where
  | call (number : Nat)
  | resolved
  | all (promises : List Promise)

/-- How a promise stands. -/
inductive Status where
  | pending
  | resolved
  | rejected
  deriving DecidableEq, Repr

/-- `cockpit.all` rejects with the first one that is rejected and resolves when all are resolved,
    at once if there are none. -/
def Status.all (statuses : List Status) : Status :=
  if .rejected ∈ statuses then .rejected
  else if ∀ status ∈ statuses, status = .resolved then .resolved
  else .pending

mutual

/-- How a promise stands when the calls do as `outcome` says: true where one has succeeded and
    false where it has failed. -/
def Promise.status (outcome : Nat → Option Bool) : Promise → Status
  | .call number =>
    match outcome number with
    | none => .pending
    | some true => .resolved
    | some false => .rejected
  | .resolved => .resolved
  | .all promises => .all (statuses outcome promises)

def statuses (outcome : Nat → Option Bool) : List Promise → List Status
  | [] => []
  | promise :: promises => promise.status outcome :: statuses outcome promises

end

/-- Call a method, behind the calls that were made. -/
def invoke (call : Call) (calls : List Call) : Promise × List Call :=
  (.call calls.length, calls ++ [call])

/-- `xs.map(f)` for a function that calls methods. -/
def mapCalls {α : Type} (f : α → List Call → Promise × List Call) :
    List α → List Call → List Promise × List Call
  | [], calls => ([], calls)
  | x :: xs, calls =>
    let (promise, calls) := f x calls
    let (promises, calls) := mapCalls f xs calls
    (promise :: promises, calls)

/-- `unmount` -/
def unmount : Usage → List Call → Promise × List Call
  | .mounted fsys mountPoints, calls =>
    if mountPoints.length > 0 then invoke (.unmount fsys) calls else (.resolved, calls)
  | _, calls => (.resolved, calls)

/-- `mdraid_remove` -/
def mdraidRemove : Usage → List Call → Promise × List Call
  | .mdraidMember block mdraid, calls => invoke (.mdraidRemoveDevice mdraid block) calls
  | _, calls => (.resolved, calls)

/-- The volume group and the block of a physical volume. -/
def Usage.pvol? : Usage → Option (String × String)
  | .pvol block vgroup => some (vgroup, block)
  | _ => none

/-- `by_vgroup[path]` -/
def byVgroup (raw : List Usage) (vgroup : String) : List String :=
  (raw.filterMap Usage.pvol?).filterMap fun p => if p.1 = vgroup then some p.2 else none

variable (pvols : String → Nat) (raw : List Usage)

/-- `handle_vg`, where `pvols` is the length of `client.vgroups_pvols[path]`. -/
def handleVg (vgroup : String) (calls : List Call) :
    Promise × List Call :=
  if (byVgroup raw vgroup).length = pvols vgroup then invoke (.vgroupDelete vgroup) calls
  else
    let (promises, calls) :=
      mapCalls (fun pv => invoke (.vgroupRemoveDevice vgroup pv)) (byVgroup raw vgroup) calls
    (.all promises, calls)

/-- `pvol_remove`, which handles the volume groups in the order in which they come first.  It
    drops their promises and returns `undefined`, which counts as resolved. -/
def pvolRemove (calls : List Call) :
    Promise × List Call :=
  (.resolved, (mapCalls (handleVg pvols raw)
    ((raw.filterMap Usage.pvol?).map Prod.fst).eraseDups calls).2)

/-- The entries of `usage.raw` of one kind. -/
def Usage.isMounted : Usage → Bool
  | .mounted .. => true
  | _ => false

def Usage.isMember : Usage → Bool
  | .mdraidMember .. => true
  | _ => false

/-- `teardown_active_usage`: the promise and the calls that were made. -/
def teardownActiveUsage : Promise × List Call :=
  let (unmounts, calls) := mapCalls unmount (raw.filter (·.isMounted)) []
  let (removes, calls) := mapCalls mdraidRemove (raw.filter (·.isMember)) calls
  let (volumes, calls) := pvolRemove pvols raw calls
  (.all [.all unmounts, .all removes, volumes], calls)

/-- The volume group that a call is about. -/
def Call.vgroup? : Call → Option String
  | .vgroupDelete vgroup | .vgroupRemoveDevice vgroup _ => some vgroup
  | _ => none

/-- What a teardown has to do and to wait for. -/
structure TearsDown (pvols : String → List String) (raw : List Usage) : Prop where
  /-- The promise resolves only after every call has succeeded. -/
  waits : ∀ outcome, let t := teardownActiveUsage (fun vg => (pvols vg).length) raw
    t.1.status outcome = .resolved → ∀ k < t.2.length, outcome k = some true
  /-- It rejects if one of them fails. -/
  rejects : ∀ outcome, let t := teardownActiveUsage (fun vg => (pvols vg).length) raw
    ∀ k < t.2.length, outcome k = some false → t.1.status outcome = .rejected
  mounts : ∀ fsys mountPoints, .mounted fsys mountPoints ∈ raw → mountPoints ≠ [] →
    .unmount fsys ∈ (teardownActiveUsage (fun vg => (pvols vg).length) raw).2
  members : ∀ block mdraid, .mdraidMember block mdraid ∈ raw →
    .mdraidRemoveDevice mdraid block ∈ (teardownActiveUsage (fun vg => (pvols vg).length) raw).2
  /-- A volume group of which all volumes are listed is deleted, and from the others the listed
      ones are removed. -/
  volumes : ∀ vgroup, byVgroup raw vgroup ≠ [] →
    (teardownActiveUsage (fun vg => (pvols vg).length) raw).2.filter (·.vgroup? = some vgroup) =
      if ∀ pv ∈ pvols vgroup, pv ∈ byVgroup raw vgroup then [.vgroupDelete vgroup]
      else (byVgroup raw vgroup).map (.vgroupRemoveDevice vgroup)

/-! ### The calls that a promise waits for -/

variable {α : Type} {f : α → List Call → Promise × List Call} {calls : List Call}

/-- A promise that stands for the calls with the numbers from `a` up to `b`. -/
structure Awaits (promise : Promise) (a b : Nat) : Prop where
  resolved : ∀ outcome, promise.status outcome = .resolved ↔
    ∀ k, a ≤ k → k < b → outcome k = some true
  rejected : ∀ outcome, promise.status outcome = .rejected ↔
    ∃ k, a ≤ k ∧ k < b ∧ outcome k = some false

theorem statuses_eq_map (outcome : Nat → Option Bool) (promises : List Promise) :
    statuses outcome promises = promises.map (·.status outcome) := by
  induction promises with
  | nil => rfl
  | cons promise promises ih => exact congrArg (_ :: ·) ih

variable {outcome : Nat → Option Bool} {promises : List Promise}

theorem status_all_resolved : (Promise.all promises).status outcome = .resolved ↔
      ∀ promise ∈ promises, promise.status outcome = .resolved := by
  rw [Promise.status, Status.all, statuses_eq_map]
  refine Iff.trans ?_ (forall_mem_map (P := fun status => status = Status.resolved))
  split
  · exact ⟨nofun, fun h => nomatch h .rejected ‹_›⟩
  · split
    · exact ⟨fun _ => ‹_›, fun _ => rfl⟩
    · exact ⟨nofun, fun h => absurd h ‹_›⟩

theorem status_all_rejected : (Promise.all promises).status outcome = .rejected ↔
      ∃ promise ∈ promises, promise.status outcome = .rejected := by
  rw [Promise.status, Status.all, statuses_eq_map, ← mem_map]
  split
  · exact ⟨fun _ => ‹_›, fun _ => rfl⟩
  · split <;> exact ⟨nofun, fun h => absurd h ‹_›⟩

theorem Awaits.none {promise : Promise} (h : ∀ outcome, promise.status outcome = .resolved)
    (a : Nat) : Awaits promise a a := by
  constructor
  all_goals intro outcome
  all_goals rw [h]
  · exact ⟨fun _ k hle hlt => absurd hlt (by omega), fun _ => rfl⟩
  · exact ⟨nofun, fun ⟨k, hle, hlt, _⟩ => absurd hlt (by omega)⟩

/-- A promise for some calls, and one for those that come next. -/
theorem Awaits.cons {promise : Promise} {promises : List Promise} {a b c : Nat} (hab : a ≤ b)
    (hbc : b ≤ c) (h : Awaits promise a b) (hs : Awaits (.all promises) b c) :
    Awaits (.all (promise :: promises)) a c := by
  constructor
  all_goals intro outcome
  · rw [status_all_resolved, forall_mem_cons, h.resolved, ← status_all_resolved, hs.resolved]
    constructor
    · rintro ⟨h1, h2⟩ k hle hlt
      by_cases hk : k < b
      · exact h1 k hle hk
      · exact h2 k (by omega) hlt
    · exact fun h => ⟨fun k hle hlt => h k hle (by omega), fun k hle hlt => h k (by omega) hlt⟩
  · rw [status_all_rejected, exists_mem_cons_iff, h.rejected, ← status_all_rejected, hs.rejected]
    constructor
    · rintro (⟨k, hle, hlt, hk⟩ | ⟨k, hle, hlt, hk⟩)
      · exact ⟨k, hle, by omega, hk⟩
      · exact ⟨k, by omega, hlt, hk⟩
    · rintro ⟨k, hle, hlt, hk⟩
      by_cases hkb : k < b
      · exact .inl ⟨k, hle, hkb, hk⟩
      · exact .inr ⟨k, by omega, hlt, hk⟩

/-- A function whose promise stands for the calls that it makes. -/
def Waiting (f : α → List Call → Promise × List Call) : Prop :=
  ∀ x calls, calls <+: (f x calls).2 ∧ Awaits (f x calls).1 calls.length (f x calls).2.length

/-- **`cockpit.all` waits for everything** that the function it is mapped with waits for. -/
theorem waiting_mapCalls (hf : Waiting f) (xs : List α) (calls : List Call) :
    calls <+: (mapCalls f xs calls).2 ∧
      Awaits (.all (mapCalls f xs calls).1) calls.length (mapCalls f xs calls).2.length := by
  induction xs generalizing calls with
  | nil => exact ⟨prefix_rfl, .none (fun _ => rfl) _⟩
  | cons x xs ih =>
    obtain ⟨hcalls, hfirst⟩ := hf x calls
    obtain ⟨hmore, hrest⟩ := ih (f x calls).2
    exact ⟨hcalls.trans hmore, hfirst.cons hcalls.length_le hmore.length_le hrest⟩

theorem awaits_invoke (call : Call) (calls : List Call) : calls <+: (invoke call calls).2 ∧
    Awaits (invoke call calls).1 calls.length (invoke call calls).2.length := by
  refine ⟨prefix_append calls [call], ?_⟩
  have hlen : (invoke call calls).2.length = calls.length + 1 := length_append
  rw [hlen]
  constructor
  all_goals
    intro outcome
    have honly : ∀ k, calls.length ≤ k → k < calls.length + 1 → k = calls.length := by omega
    rw [invoke, Promise.status]
  · constructor
    · intro h k hle hlt
      rw [honly k hle hlt]
      split at h
      · cases h
      · assumption
      · cases h
    · intro h
      rw [h _ (le_refl _) (lt_succ_self _)]
  · constructor
    · intro h
      refine ⟨calls.length, le_refl _, lt_succ_self _, ?_⟩
      split at h
      · cases h
      · cases h
      · assumption
    · rintro ⟨k, hle, hlt, hk⟩
      rw [honly k hle hlt] at hk
      rw [hk]

/-- The promise of `unmount` stands for its call, if it makes one, -/
theorem waiting_unmount : Waiting unmount := by
  intro use calls
  cases use with
  | mounted fsys mountPoints =>
    rw [unmount]
    split
    · exact awaits_invoke _ calls
    · exact ⟨prefix_rfl, .none (fun _ => rfl) _⟩
  | _ => exact ⟨prefix_rfl, .none (fun _ => rfl) _⟩

/-- and so do that of `mdraid_remove` -/
theorem waiting_mdraidRemove : Waiting mdraidRemove := by
  intro use calls
  cases use with
  | mdraidMember block mdraid => exact awaits_invoke _ calls
  | _ => exact ⟨prefix_rfl, .none (fun _ => rfl) _⟩

/-- and that of `handle_vg`, which is dropped. -/
theorem waiting_handleVg : Waiting (handleVg pvols raw) := by
  intro vgroup calls
  rw [handleVg]
  split
  · exact awaits_invoke _ calls
  · exact waiting_mapCalls (fun pv calls => awaits_invoke _ calls) _ calls

/-! ### The calls that are made -/

/-- A function whose calls come behind those that were made. -/
def Appends (f : α → List Call → Promise × List Call) : Prop :=
  ∀ x calls, (f x calls).2 = calls ++ (f x []).2

theorem calls_mapCalls (hf : Appends f) (xs : List α) (calls : List Call) :
    (mapCalls f xs calls).2 = calls ++ xs.flatMap fun x => (f x []).2 := by
  induction xs generalizing calls with
  | nil => exact (append_nil calls).symm
  | cons x xs ih => rw [mapCalls, ih, hf, append_assoc, flatMap_cons]

theorem appends_unmount : Appends unmount := by
  intro use calls
  cases use with
  | mounted fsys mountPoints =>
    simp only [unmount]
    split
    · rfl
    · exact (append_nil calls).symm
  | _ => exact (append_nil calls).symm

theorem appends_mdraidRemove : Appends mdraidRemove := by
  intro use calls
  cases use with
  | mdraidMember block mdraid => rfl
  | _ => exact (append_nil calls).symm

variable {use : Usage} {call : Call}

theorem vgroup_of_unmount (h : call ∈ (unmount use []).2) : call.vgroup? = none := by
  unfold unmount at h
  split at h
  · split at h
    · rw [mem_singleton.mp h]
      rfl
    · cases h
  · cases h

theorem vgroup_of_mdraidRemove (h : call ∈ (mdraidRemove use []).2) : call.vgroup? = none := by
  unfold mdraidRemove at h
  split at h
  · rw [mem_singleton.mp h]
    rfl
  · cases h

theorem calls_handleVg (count : String → Nat) (vgroup : String) (calls : List Call) :
    (handleVg count raw vgroup calls).2 = calls ++
      if (byVgroup raw vgroup).length = count vgroup then [.vgroupDelete vgroup]
      else (byVgroup raw vgroup).map (.vgroupRemoveDevice vgroup) := by
  rw [handleVg]
  split
  · rfl
  · refine (calls_mapCalls (fun pv calls => rfl) _ calls).trans (congrArg (calls ++ ·) ?_)
    exact map_eq_flatMap.symm

theorem vgroup_of_mem {count : String → Nat} {group : String}
    (h : call ∈ (handleVg count raw group []).2) : call.vgroup? = some group := by
  rw [calls_handleVg, nil_append] at h
  split at h
  · rw [mem_singleton.mp h]
    rfl
  · obtain ⟨pv, -, rfl⟩ := mem_map.mp h
    rfl

theorem appends_handleVg (count : String → Nat) : Appends (handleVg count raw) := by
  intro vg calls
  rw [calls_handleVg, calls_handleVg _ _ _ [], nil_append]

/-! ### The teardown -/

variable (pvols : String → List String) (raw : List Usage)

/-- The calls that the promise waits for. -/
def awaited : List Call :=
  (mapCalls mdraidRemove (raw.filter (·.isMember))
    (mapCalls unmount (raw.filter (·.isMounted)) []).2).2

theorem awaited_eq : awaited raw =
    ((raw.filter (·.isMounted)).flatMap fun use => (unmount use []).2) ++
      (raw.filter (·.isMember)).flatMap fun use => (mdraidRemove use []).2 := by
  rw [awaited, calls_mapCalls appends_mdraidRemove, calls_mapCalls appends_unmount, nil_append]

theorem awaits_teardown :
    Awaits (teardownActiveUsage (fun vg => (pvols vg).length) raw).1 0 (awaited raw).length := by
  obtain ⟨-, hunmount⟩ := waiting_mapCalls waiting_unmount (raw.filter (·.isMounted)) []
  obtain ⟨hcalls, hremove⟩ := waiting_mapCalls waiting_mdraidRemove (raw.filter (·.isMember))
    (mapCalls unmount (raw.filter (·.isMounted)) []).2
  have hvolumes : Awaits (.all [.resolved]) (awaited raw).length (awaited raw).length :=
    .none (fun _ => rfl) _
  exact hunmount.cons (zero_le _) hcalls.length_le
    (hremove.cons hcalls.length_le (le_refl _) hvolumes)

theorem calls_teardown : (teardownActiveUsage (fun vg => (pvols vg).length) raw).2 =
    (pvolRemove (fun vg => (pvols vg).length) raw (awaited raw)).2 := rfl

variable {block vgroup : String}

/-- **What is done to volume groups isn't waited for.** -/
theorem lt_pvolRemove (h : .pvol block vgroup ∈ raw) (count : String → Nat) (calls : List Call) :
    calls.length < (pvolRemove count raw calls).2.length := by
  have hpvol : (vgroup, block) ∈ raw.filterMap Usage.pvol? := mem_filterMap.mpr ⟨_, h, rfl⟩
  rw [pvolRemove, calls_mapCalls (appends_handleVg raw count), length_append]
  refine Nat.lt_add_of_pos_right (length_pos_iff.mpr fun hnil => ?_)
  -- something is called for the group
  have hgroup := flatMap_eq_nil_iff.mp hnil vgroup
    (mem_eraseDups.mpr (mem_map.mpr ⟨_, hpvol, rfl⟩))
  rw [calls_handleVg, nil_append] at hgroup
  split at hgroup
  · cases hgroup
  · have hmem : block ∈ byVgroup raw vgroup := mem_filterMap.mpr ⟨_, hpvol, if_pos rfl⟩
    rw [map_eq_nil_iff.mp hgroup] at hmem
    cases hmem

/-- The calls of one group, of groups without duplicates. -/
theorem flatMap_eraseDups {g : String → List Call} (hg : ∀ group, group ≠ vgroup → g group = [])
    (groups : List String) (hmem : vgroup ∈ groups) :
    groups.eraseDups.flatMap g = g vgroup := by
  match groups with
  | group :: groups =>
    rw [eraseDups_cons, flatMap_cons]
    by_cases heq : group = vgroup
    · have hrest : (groups.filter fun other => !other == group).eraseDups.flatMap g = [] := by
        refine flatMap_eq_nil_iff.mpr fun other hother => hg other ?_
        rintro rfl
        simp [heq] at hother
      rw [hrest, append_nil, heq]
    · rw [hg group heq, nil_append]
      apply flatMap_eraseDups hg
      simpa [Ne.symm heq] using hmem
termination_by groups.length
decreasing_by exact lt_succ_of_le (length_filter_le _ _)

/-- **A volume group is deleted when all its volumes are listed**, and else the listed ones are
    removed from it, if each is listed once. -/
theorem volumes_teardown (hpvols : (pvols vgroup).Nodup) (hraw : (byVgroup raw vgroup).Nodup)
    (hown : byVgroup raw vgroup ⊆ pvols vgroup) (hne : byVgroup raw vgroup ≠ []) :
    (teardownActiveUsage (fun vg => (pvols vg).length) raw).2.filter (·.vgroup? = some vgroup) =
      if ∀ pv ∈ pvols vgroup, pv ∈ byVgroup raw vgroup then [.vgroupDelete vgroup]
      else (byVgroup raw vgroup).map (.vgroupRemoveDevice vgroup) := by
  have hawaited : (awaited raw).filter (·.vgroup? = some vgroup) = [] := by
    refine filter_eq_nil_iff.mpr fun call hcall => ?_
    simp only [awaited_eq, mem_append, mem_flatMap] at hcall
    obtain ⟨use, -, hcall⟩ | ⟨use, -, hcall⟩ := hcall
    · simp [vgroup_of_unmount hcall]
    · simp [vgroup_of_mdraidRemove hcall]
  have hmem : vgroup ∈ (raw.filterMap Usage.pvol?).map Prod.fst := by
    obtain ⟨pv, hpv⟩ := exists_mem_of_ne_nil _ hne
    obtain ⟨p, hp, hsome⟩ := mem_filterMap.mp hpv
    exact mem_map.mpr ⟨p, hp, by_contra fun h => by simp [h] at hsome⟩
  have hall : (byVgroup raw vgroup).length = (pvols vgroup).length ↔
      ∀ pv ∈ pvols vgroup, pv ∈ byVgroup raw vgroup := by
    have hsub := hraw.subperm hown
    exact ⟨fun h pv hpv => (hsub.perm_of_length_le h.ge).mem_iff.mpr hpv,
      fun h => le_antisymm hsub.length_le (hpvols.subperm h).length_le⟩
  rw [calls_teardown, pvolRemove, calls_mapCalls (appends_handleVg raw _), filter_append, hawaited, nil_append,
    filter_flatMap, flatMap_eraseDups (fun group hother => ?_) _ hmem, filter_eq_self.mpr,
    calls_handleVg, nil_append]
  · simp only [hall]
  · exact fun call hcall => decide_eq_true (vgroup_of_mem raw hcall)
  · refine filter_eq_nil_iff.mpr fun call hcall => ?_
    simpa [vgroup_of_mem raw hcall] using hother

/-- **The teardown is right exactly when no physical volume is to be removed.** -/
theorem tearsDown_iff : TearsDown pvols raw ↔ ∀ use ∈ raw, use.pvol? = none := by
  have hawaits := awaits_teardown pvols raw
  constructor
  · intro h use hmem
    by_contra hsome
    cases use with
    | pvol block vgroup =>
      have hlt := lt_pvolRemove raw hmem (fun vg => (pvols vg).length) (awaited raw)
      -- the calls that are waited for succeed, and the others are pending
      have hresolved := (hawaits.resolved fun k =>
        if k < (awaited raw).length then some true else none).mpr fun k _ hk => if_pos hk
      have hpending := h.waits _ hresolved _ hlt
      rw [if_neg (lt_irrefl _)] at hpending
      cases hpending
    | _ => exact hsome rfl
  · intro h
    have hnone : raw.filterMap Usage.pvol? = [] := filterMap_eq_nil_iff.mpr h
    have hcalls : (teardownActiveUsage (fun vg => (pvols vg).length) raw).2 = awaited raw := by
      rw [calls_teardown, pvolRemove, hnone]
      rfl
    constructor
    · intro outcome t hresolved k hk
      exact (hawaits.resolved outcome).mp hresolved k (zero_le k) (hcalls ▸ hk)
    · intro outcome t k hk hfailed
      exact (hawaits.rejected outcome).mpr ⟨k, zero_le k, hcalls ▸ hk, hfailed⟩
    · intro fsys mountPoints hmem hne
      rw [hcalls, awaited_eq]
      refine mem_append_left _ (mem_flatMap.mpr ⟨_, mem_filter.mpr ⟨hmem, rfl⟩, ?_⟩)
      rw [unmount, if_pos (length_pos_iff.mpr hne)]
      exact mem_singleton_self _
    · intro block mdraid hmem
      rw [hcalls, awaited_eq]
      exact mem_append_right _
        (mem_flatMap.mpr ⟨_, mem_filter.mpr ⟨hmem, rfl⟩, mem_singleton_self _⟩)
    · intro vgroup hne
      rw [byVgroup, hnone] at hne
      exact absurd rfl hne

/-- The only volume of a group: the group is being deleted when the promise is resolved. -/
theorem not_tearsDown : ¬ TearsDown (fun _ => ["/block/sda"]) [.pvol "/block/sda" "/vgroup/vg"] :=
  fun h => nomatch h.waits (fun _ => none) rfl 0 (by decide)

end Cockpit.Storaged
