import Cockpit.Common.JsonEqual

namespace Cockpit

open List JsonObject

/-!
# `cockpit_json_patch`

The members of one object override those of another, and members that are `null` remove others.

* `JsonObject.patch_of_kept` — what an override does not change;
* `JsonObject.patched_iff` — for which objects this is a patch at every depth.
-/

namespace JsonObject

mutual

/-- `cockpit_json_patch`, from a member of `override` on -/
def patch (target : JsonObject) (override : JsonObject) : JsonObject :=
  match override with
  | [] => target
  | (name, node) :: members => patch (patchMember target name node) members
  termination_by sizeOf override

/-- One turn of the loop in `cockpit_json_patch`. -/
def patchMember (target : JsonObject) (name : String) (node : Json) : JsonObject :=
  match node with
  | .null => target.removeMember name
  | .object members =>
    match target.getMember name with
    | some (.object other) => target.setMember name (.object (patch other members))
    | _ => target.setMember name (.object members)
  | node => target.setMember name node
  termination_by sizeOf node

end

end JsonObject

namespace Json

/-- What is behind a path of member names. -/
def descend : Json → List String → Option Json
  | json, [] => some json
  | .object members, name :: path => (getMember members name).bind fun json => json.descend path
  | _, _ :: _ => none

/-- The names of an object are different, as they are in a hash table, and so at every depth. -/
def Unique (json : Json) : Prop :=
  ∀ path members, json.descend path = some (.object members) → (members.map Prod.fst).Nodup

theorem descend_cons (members : JsonObject) (name : String) (path : List String) :
    (object members).descend (name :: path) =
      (getMember members name).bind fun json => json.descend path := by
  rw [descend]

variable {members : JsonObject}

theorem Unique.member (h : Unique (.object members)) {name : String}
    {json : Json} (hname : members.getMember name = some json) : Unique json := by
  intro path inner hinner
  apply h (name :: path) inner
  rw [descend_cons, hname]
  exact hinner

/-- Different names, and no less different behind them. -/
theorem unique_object (hnames : (members.map Prod.fst).Nodup)
    (h : ∀ name json, members.getMember name = some json → Unique json) :
    Unique (.object members) := by
  intro path inner hinner
  cases path with
  | nil =>
    obtain rfl : members = inner := by simpa [descend] using hinner
    exact hnames
  | cons name path =>
    rw [descend_cons] at hinner
    obtain ⟨json, hjson, hrest⟩ := Option.bind_eq_some_iff.mp hinner
    exact h name json hjson path inner hrest

theorem Unique.names (h : Unique (.object members)) :
    (members.map Prod.fst).Nodup := h [] members rfl

end Json

namespace JsonObject

open Json (descend descend_cons Unique unique_object)

/-! ### Members -/

theorem getMember_nil (name : String) : getMember [] name = none := rfl

theorem getMember_cons (first : String) (node : Json) (members : JsonObject) (name : String) :
    getMember ((first, node) :: members) name =
      if first = name then some node else getMember members name := by
  unfold getMember
  by_cases h : first = name <;> simp [h]

variable {name : String} {members : JsonObject}

theorem getMember_eq_none (h : name ∉ members.map Prod.fst) : members.getMember name = none := by
  unfold getMember
  rw [Option.map_eq_none_iff, find?_eq_none]
  intro member hmemb hname
  exact h (mem_map.mpr ⟨member, hmemb, beq_iff_eq.mp hname⟩)

/-- What an override makes of a member. -/
def overridden (target : Option Json) : Json → Option Json
  | .null => none
  | .object members =>
    match target with
    | some (.object other) => some (.object (patch other members))
    | _ => some (.object members)
  | node => some node

/-- A member is removed or set. -/
theorem patchMember_eq (target : JsonObject) (name : String) (node : Json) :
    patchMember target name node =
      match overridden (target.getMember name) node with
      | none => target.removeMember name
      | some value => target.setMember name value := by
  cases node with
  | null => simp only [patchMember, overridden]
  | object members =>
    cases h : target.getMember name with
    | none => simp only [patchMember, overridden, h]
    | some value =>
      cases value <;> simp only [patchMember, overridden, h]
  | _ => simp only [patchMember, overridden]

theorem getMember_patchMember_self (target : JsonObject) (name : String) (node : Json) :
    (patchMember target name node).getMember name = overridden (target.getMember name) node := by
  rw [patchMember_eq]
  cases overridden (target.getMember name) node with
  | none => exact getMember_removeMember_self target name
  | some value => exact getMember_setMember_self target name value

theorem getMember_patchMember_ne {other : String} (h : name ≠ other) (target : JsonObject)
    (node : Json) : (patchMember target name node).getMember other = target.getMember other := by
  rw [patchMember_eq]
  cases overridden (target.getMember name) node with
  | none => exact getMember_removeMember_ne h
  | some value => exact getMember_setMember_ne h value

variable {override object target : JsonObject}

/-- **What is behind a name** after a patch. -/
theorem getMember_patch (hnames : (override.map Prod.fst).Nodup)
    (target : JsonObject) (name : String) : (patch target override).getMember name =
      match override.getMember name with
      | none => target.getMember name
      | some node => overridden (target.getMember name) node := by
  induction override generalizing target with
  | nil =>
    rw [patch, getMember_nil]
  | cons member members ih =>
    obtain ⟨first, node⟩ := member
    obtain ⟨hfirst, hnames⟩ := nodup_cons.mp hnames
    rw [patch, ih hnames, getMember_cons]
    by_cases h : first = name
    · -- the other members have other names
      subst h
      rw [getMember_eq_none hfirst, if_pos rfl]
      exact getMember_patchMember_self target first node
    · rw [if_neg h, getMember_patchMember_ne h]

/-! ### Names -/

theorem names_setMember (object : JsonObject) (name : String) (value : Json) :
    (object.setMember name value).map Prod.fst =
      if name ∈ object.map Prod.fst then object.map Prod.fst else object.map Prod.fst ++ [name] := by
  have hhas : object.hasMember name ↔ name ∈ object.map Prod.fst := by
    simp [hasMember]
  unfold setMember
  by_cases h : object.hasMember name
  · rw [if_pos h, if_pos (hhas.mp h), map_map]
    apply map_congr_left
    intro member _
    by_cases hname : member.1 = name <;> simp [hname]
  · rw [if_neg h, if_neg (fun hmem => h (hhas.mpr hmem))]
    simp

theorem nodup_setMember (h : (object.map Prod.fst).Nodup) (name : String)
    (value : Json) : ((object.setMember name value).map Prod.fst).Nodup := by
  rw [names_setMember]
  split
  · exact h
  rename_i hnot
  exact nodup_append.mpr ⟨h, by simp, by
    intro a ha b hb
    rw [mem_singleton.mp hb]
    rintro rfl
    exact hnot ha⟩

theorem nodup_patchMember (h : (target.map Prod.fst).Nodup) (name : String)
    (node : Json) : ((patchMember target name node).map Prod.fst).Nodup := by
  rw [patchMember_eq]
  cases overridden (target.getMember name) node with
  | none => exact h.sublist (filter_sublist.map Prod.fst)
  | some value => exact nodup_setMember h name value

theorem nodup_patch (h : (target.map Prod.fst).Nodup)
    (override : JsonObject) : ((patch target override).map Prod.fst).Nodup := by
  induction override generalizing target with
  | nil =>
    rw [patch]
    exact h
  | cons member members ih =>
    rw [patch]
    exact ih (nodup_patchMember h member.1 member.2)

/-! ### Paths -/

variable {path : List String} {json v node : Json}

/-- Only objects have something behind a name. -/
theorem object_of_descend
    (h : json.descend (path ++ [name]) = some v) : ∃ members, json = .object members := by
  cases json with
  | object members => exact ⟨members, rfl⟩
  | _ =>
    cases path <;> simp [descend] at h

/-- What an override does not patch, it replaces. -/
theorem overridden_object {target : Option Json} (h : ∀ other, target ≠ some (.object other)) :
    overridden target (.object members) = some (.object members) := by
  cases target with
  | none => simp only [overridden]
  | some value =>
    cases value with
    | object other => exact absurd rfl (h other)
    | _ => simp only [overridden]

/-- Nothing is behind a path through what is no object. -/
theorem not_object_of_bind {target : Option Json} (h : ∀ other, target ≠ some (.object other))
    (path : List String) (other : JsonObject) :
    (target.bind fun json => json.descend path) ≠ some (.object other) := by
  cases target with
  | none => exact nofun
  | some value =>
    rw [Option.bind_some]
    cases path with
    | nil =>
      intro hvalue
      have hvalue : some value = some (Json.object other) := hvalue
      exact h other hvalue
    | cons name path =>
      cases value with
      | object members => exact absurd rfl (h members)
      | _ => simp [descend]

/-- **What is behind a path of the override**: where the target has an object for the member, it is
    overridden there; where it has none, the override is inserted as it is. -/
theorem descend_patch {target override : JsonObject} (ho : Unique (.object override))
    {path : List String} {name : String} {v : Json}
    (h : (Json.object override).descend (path ++ [name]) = some v) :
    (∃ other, (Json.object target).descend path = some (.object other) ∧
      (Json.object (patch target override)).descend (path ++ [name]) =
        overridden (getMember other name) v) ∨
    (∀ other, (Json.object target).descend path ≠ some (.object other)) ∧
      (Json.object (patch target override)).descend (path ++ [name]) = some v := by
  induction path generalizing target override with
  | nil =>
    left
    refine ⟨target, by simp [descend], ?_⟩
    rw [nil_append, descend_cons] at h ⊢
    obtain ⟨node, hnode, hv⟩ := Option.bind_eq_some_iff.mp h
    obtain rfl : node = v := by simpa [descend] using hv
    rw [getMember_patch ho.names, hnode]
    dsimp only
    cases overridden (target.getMember name) node with
    | none => rfl
    | some value => simp [descend]
  | cons first path ih =>
    rw [cons_append, descend_cons] at h ⊢
    obtain ⟨node, hnode, hv⟩ := Option.bind_eq_some_iff.mp h
    obtain ⟨members, rfl⟩ := object_of_descend hv
    rw [descend_cons, getMember_patch ho.names, hnode]
    dsimp only
    by_cases hother : ∃ other, target.getMember first = some (.object other)
    · -- an object for an object
      obtain ⟨other, hother⟩ := hother
      rw [hother]
      simp only [overridden, Option.bind_some]
      exact ih (ho.member hnode) hv
    have hnot : ∀ other, target.getMember first ≠ some (.object other) :=
      fun other hhas => hother ⟨other, hhas⟩
    right
    rw [overridden_object hnot]
    exact ⟨not_object_of_bind hnot path, hv⟩

/-- A path that leaves the override: at a name that one of its objects does not have. -/
def Off : JsonObject → List String → Prop
  | _, [] => False
  | override, name :: path =>
    match override.getMember name with
    | none => True
    | some (.object members) => Off members path
    | some _ => False

theorem descend_of_off (h : Off override path) : (Json.object override).descend path = none := by
  induction path generalizing override with
  | nil => exact absurd h id
  | cons name path ih =>
    rw [descend_cons]
    unfold Off at h
    cases hname : override.getMember name with
    | none => rfl
    | some value =>
      rw [hname] at h
      cases value with
      | object members => exact ih h
      | _ => exact absurd h id

/-- **Other paths stay as they are.** -/
theorem descend_patch_off (ho : Unique (.object override)) (h : Off override path) :
    (Json.object (patch target override)).descend path = (Json.object target).descend path := by
  induction path generalizing target override with
  | nil => exact absurd h id
  | cons name path ih =>
    rw [descend_cons, descend_cons, getMember_patch ho.names]
    unfold Off at h
    cases hname : override.getMember name with
    | none => rfl
    | some value =>
      rw [hname] at h
      cases value with
      | object members =>
        by_cases hother : ∃ other, target.getMember name = some (.object other)
        · obtain ⟨other, hother⟩ := hother
          rw [hother]
          simp only [overridden, Option.bind_some]
          exact ih (ho.member hname) h
        -- the path ends on both sides
        have hnot : ∀ other, target.getMember name ≠ some (.object other) :=
          fun other hhas => hother ⟨other, hhas⟩
        have hnone := descend_of_off h
        dsimp only
        rw [overridden_object hnot, Option.bind_some, hnone]
        cases htarget : target.getMember name with
        | none => rfl
        | some value =>
          cases path with
          | nil => exact absurd h id
          | cons next path =>
            cases value with
            | object other => exact absurd htarget (hnot other)
            | _ => simp [descend]
      | _ => exact absurd h id

/-- The names stay different at every depth. -/
theorem unique_patch (ht : Unique (.object target))
    (ho : Unique (.object override)) : Unique (.object (patch target override)) := by
  intro path
  induction path generalizing target override with
  | nil =>
    intro members hmems
    obtain rfl : patch target override = members := by simpa [descend] using hmems
    exact nodup_patch ht.names override
  | cons name path ih =>
    intro members hmems
    rw [descend_cons, getMember_patch ho.names] at hmems
    obtain ⟨json, hjson, hrest⟩ := Option.bind_eq_some_iff.mp hmems
    cases hname : override.getMember name with
    | none =>
      rw [hname] at hjson
      exact ht.member hjson path members hrest
    | some node =>
      rw [hname] at hjson
      dsimp only at hjson
      cases node with
      | null => simp [overridden] at hjson
      | object inner =>
        by_cases hother : ∃ other, target.getMember name = some (.object other)
        · obtain ⟨other, hother⟩ := hother
          rw [hother] at hjson
          obtain rfl : Json.object (patch other inner) = json := by simpa [overridden] using hjson
          exact ih (ht.member hother) (ho.member hname) members hrest
        · rw [overridden_object fun other hhas => hother ⟨other, hhas⟩] at hjson
          obtain rfl := Option.some.inj hjson
          exact ho.member hname path members hrest
      | _ =>
        obtain rfl := by simpa [overridden] using hjson
        exact ho.member hname path members hrest

/-! ### Patching again -/

/-- What the override asks of the value behind one of its paths. -/
def Kept : Json → Option Json → Prop
  | .null, value => value = none
  | .object _, value => ∃ members, value = some (.object members)
  | node, value => value = some node

theorem kept_overridden (target : Option Json) (node : Json) :
    Kept node (overridden target node) := by
  cases node with
  | null => simp only [overridden, Kept]
  | object members =>
    by_cases h : ∃ other, target = some (.object other)
    · obtain ⟨other, rfl⟩ := h
      simp only [overridden]
      exact ⟨_, rfl⟩
    · rw [overridden_object fun other hother => h ⟨other, hother⟩]
      exact ⟨members, rfl⟩
  | _ => simp only [overridden, Kept]

theorem kept_some (h : node ≠ .null) : Kept node (some node) := by
  cases node with
  | null => exact absurd rfl h
  | object members => exact ⟨members, rfl⟩
  | _ => rfl

/-- Setting what is there changes nothing. -/
theorem setMember_of_getMember (hnames : (object.map Prod.fst).Nodup) {value : Json} (h : object.getMember name = some value) :
    object.setMember name value = object := by
  have hhas : object.hasMember name := by rw [hasMember_eq, h]; rfl
  rw [setMember, if_pos hhas]
  clear hhas
  induction object with
  | nil => rfl
  | cons member members ih =>
    obtain ⟨first, node⟩ := member
    obtain ⟨hfirst, hnames⟩ := nodup_cons.mp hnames
    rw [getMember_cons] at h
    rw [map_cons]
    by_cases hname : first = name
    · subst hname
      rw [if_pos rfl] at h
      obtain rfl := Option.some.inj h
      -- no other member has this name
      have hrest : members.map (fun p => if p.1 == first then (first, node) else p) = members := by
        conv_rhs => rw [← map_id members]
        apply map_congr_left
        intro p hp
        have hne : p.1 ≠ first := by
          rintro rfl
          exact hfirst (mem_map.mpr ⟨p, hp, rfl⟩)
        simp [hne]
      rw [hrest]
      simp
    · rw [if_neg hname] at h
      rw [ih hnames h]
      simp [hname]

theorem getMember_of_mem (hnames : (object.map Prod.fst).Nodup)
    {member : String × Json} (h : member ∈ object) :
    object.getMember member.1 = some member.2 := by
  induction object with
  | nil => exact nomatch h
  | cons first members ih =>
    obtain ⟨hfirst, hnames⟩ := nodup_cons.mp hnames
    rw [getMember_cons first.1 first.2]
    rcases mem_cons.mp h with rfl | hmem
    · exact if_pos rfl
    · have hne : first.1 ≠ member.1 := fun heq => hfirst (heq ▸ mem_map_of_mem hmem)
      rw [if_neg hne]
      exact ih hnames hmem

/-- Members that change nothing one by one change nothing together. -/
theorem patch_of_members (h : ∀ member ∈ override, patchMember target member.1 member.2 = target) :
    patch target override = target := by
  induction override with
  | nil => rw [patch]
  | cons member members ih =>
    rw [patch, h member mem_cons_self]
    exact ih fun other hother => h other (mem_cons_of_mem member hother)

/-- **What already keeps an override is not changed by it.** -/
theorem patch_of_kept (ht : Unique (.object target)) (ho : Unique (.object override))
    (h : ∀ path name v, (Json.object override).descend (path ++ [name]) = some v →
      Kept v ((Json.object target).descend (path ++ [name]))) :
    patch target override = target := by
  induction hsize : sizeOf override using Nat.strongRecOn generalizing target override with
  | ind n ih =>
    subst hsize
    apply patch_of_members
    rintro ⟨name, node⟩ hmem
    have hnode : override.getMember name = some node := getMember_of_mem ho.names hmem
    -- the path that is only this name
    have hkept : Kept node (target.getMember name) := by
      have hpath := h [] name node (by simp [descend, hnode])
      simpa [descend] using hpath
    rw [patchMember_eq]
    cases node with
    | null =>
      have hnone : target.getMember name = none := hkept
      simp only [overridden]
      exact removeMember_of_none hnone
    | object members =>
      obtain ⟨other, hother⟩ := hkept
      rw [hother]
      simp only [overridden]
      have hrest : patch other members = other := by
        have hlt : sizeOf members < sizeOf override := by
          have := Json.sizeOf_getMember hnode
          simp only [Json.object.sizeOf_spec] at this
          omega
        refine ih _ hlt (ht.member hother) (ho.member hnode) ?_ rfl
        intro path last v hv
        have hpath := h (name :: path) last v (by
          rw [cons_append, descend_cons, hnode]
          exact hv)
        rwa [cons_append, descend_cons, hother] at hpath
      rw [hrest]
      exact setMember_of_getMember ht.names hother
    | _ =>
      simp only [overridden]
      exact setMember_of_getMember ht.names hkept

/-! ### Patches -/

/-- A member that is not an object and does not remove. -/
def Leaf : Json → Prop
  | .null | .object _ => False
  | _ => True

/-- What a patch is for. -/
structure Patched (target override : JsonObject) : Prop where
  /-- The same override changes nothing more. -/
  again : patch (patch target override) override = patch target override
  /-- What the override sets to `null` is gone. -/
  removed : ∀ path name, (Json.object override).descend (path ++ [name]) = some .null →
    (Json.object (patch target override)).descend (path ++ [name]) = none
  /-- What the override sets is there. -/
  present : ∀ path name v, Leaf v → (Json.object override).descend (path ++ [name]) = some v →
    (Json.object (patch target override)).descend (path ++ [name]) = some v
  /-- The rest is as it was. -/
  others : ∀ path, Off override path →
    (Json.object (patch target override)).descend path = (Json.object target).descend path

/-- Wherever the override removes a member, the target has the object it is removed from. -/
def Removable (target override : JsonObject) : Prop :=
  ∀ path name, (Json.object override).descend (path ++ [name]) = some .null →
    ∃ members, (Json.object target).descend path = some (.object members)

theorem kept_patch (ho : Unique (.object override)) (h : Removable target override)
    (hv : (Json.object override).descend (path ++ [name]) = some v) :
    Kept v ((Json.object (patch target override)).descend (path ++ [name])) := by
  obtain ⟨other, -, hpath⟩ | ⟨hnot, hpath⟩ := @descend_patch target override ho path name v hv
  · rw [hpath]
    exact kept_overridden _ v
  rw [hpath]
  apply kept_some
  rintro rfl
  obtain ⟨members, hmems⟩ := h path name hv
  exact hnot members hmems

/-- **`cockpit_json_patch` patches** exactly the objects that have an object wherever a member is
    to be removed: where they do not, the override's own object is inserted with its `null`s. -/
theorem patched_iff {target override : JsonObject} (ht : Unique (.object target))
    (ho : Unique (.object override)) : Patched target override ↔ Removable target override := by
  constructor
  · intro h path name hnull
    obtain ⟨other, htarget, -⟩ | ⟨-, hpath⟩ := @descend_patch target override ho path name _ hnull
    · exact ⟨other, htarget⟩
    · rw [h.removed path name hnull] at hpath
      cases hpath
  intro h
  refine ⟨?_, ?_, ?_, ?_⟩
  · exact patch_of_kept (unique_patch ht ho) ho fun path name v hv => kept_patch ho h hv
  · exact fun path name hnull => kept_patch ho h hnull
  · intro path name v hleaf hv
    have hkept := kept_patch ho h hv
    cases v with
    | null | object members => exact absurd hleaf id
    | _ => exact hkept
  · exact fun path hoff => descend_patch_off ho hoff

/-- An object with one member. -/
theorem getMember_single {first : String}
    (h : getMember [(first, node)] name = some json) : first = name ∧ node = json := by
  rw [getMember_cons, getMember_nil] at h
  split at h
  · rename_i hname
    exact ⟨hname, Option.some.inj h⟩
  · cases h

/-- A member that is removed inside an object. -/
theorem patched_inside :
    Patched [("a", .object [("b", .int 1)])] [("a", .object [("b", .null)])] := by
  have hleaf : ∀ (json : Json), json = .int 1 ∨ json = .null → Unique json := by
    rintro json (rfl | rfl) path members hmembers <;> (cases path <;> simp [descend] at hmembers)
  have hunique : ∀ json : Json, json = .int 1 ∨ json = .null →
      Unique (.object [("a", .object [("b", json)])]) := by
    intro json hjson
    apply unique_object (by simp)
    intro name inner hinner
    obtain ⟨-, rfl⟩ := getMember_single hinner
    apply unique_object (by simp)
    intro name inner hinner
    obtain ⟨-, rfl⟩ := getMember_single hinner
    exact hleaf json hjson
  refine (patched_iff (hunique _ (.inl rfl)) (hunique _ (.inr rfl))).mpr ?_
  intro path name hnull
  cases path with
  | nil => exact ⟨_, rfl⟩
  | cons first path =>
    rw [cons_append, descend_cons] at hnull
    obtain ⟨json, hjson, hrest⟩ := Option.bind_eq_some_iff.mp hnull
    obtain ⟨rfl, rfl⟩ := getMember_single hjson
    cases path with
    | nil => exact ⟨[("b", .int 1)], rfl⟩
    | cons second path =>
      -- nothing is inside the `null`
      rw [cons_append, descend_cons] at hrest
      obtain ⟨json, hjson, hrest⟩ := Option.bind_eq_some_iff.mp hrest
      obtain ⟨rfl, rfl⟩ := getMember_single hjson
      obtain ⟨members, hmembers⟩ := object_of_descend hrest
      cases hmembers

/-- Without the object in the target, the override's `null` ends up in it. -/
theorem not_patched_new : ¬ Patched [] [("a", .object [("b", .null)])] := by
  intro h
  have hremoved := h.removed ["a"] "b" rfl
  have hpatch : patch [] [("a", .object [("b", .null)])] = [("a", .object [("b", .null)])] := by
    simp [patch, patchMember, getMember_nil, setMember, hasMember]
  rw [hpatch] at hremoved
  exact absurd hremoved (by simp [descend, getMember_cons])

end JsonObject

end Cockpit
