import Cockpit.Kubernetes.LoaderNewest
import Cockpit.Lib.Replica

namespace Cockpit.Kube

open Lib (overlay Tells UpToDate)
open List Drain
open AList

/-!
# `kubeLoader`: what listeners are told

* `tells_loop` — what is said of a batch is how it changed the objects, and nothing is said to be
  both when no frame brings an object back that an earlier one deleted;
* `Inv` — all listeners are up to date; and `faithful_run`, for all runs of steps that keep it so.
-/

/-! ## Batches -/

/-- What a drain has at a link. -/
structure At where
  object : Option Resource
  present : Option Resource
  removed : Bool

variable (d : Drain)

def Drain.atLink (link : String) : At :=
  ⟨d.objects.lookup link, d.present.lookup link, decide (link ∈ d.removed)⟩

/-- It is gone. -/
def At.gone : At := ⟨none, none, true⟩

/-- What a frame does there. -/
def At.apply (a : At) (e : Frame × Resource) : At :=
  if e.1.type = "DELETED" then .gone
  else if e.1.checkResourceVersion && isStale a.object e.2 then a
  else ⟨some e.2, some e.2, a.removed⟩

/-- A link is dropped from a drain. -/
theorem atLink_remove (link link' : String) (resource : Resource) :
    (mk (d.objects.erase link) (d.present.erase link)
        (d.removed.insert link resource)).atLink link' =
      if link = link' then .gone else d.atLink link' := by
  unfold atLink At.gone
  by_cases heq : link = link'
  · subst heq
    rw [if_pos rfl, lookup_erase, lookup_erase]
    simp
  · have hne : link' ≠ link := Ne.symm heq
    rw [if_neg heq, lookup_erase_ne hne, lookup_erase_ne hne]
    simp [hne]

theorem atLink_store (link link' : String) (resource : Resource) :
    (d.store link resource).atLink link' =
      if link = link' then ⟨some resource, some resource, (d.atLink link').removed⟩
      else d.atLink link' := by
  unfold atLink store
  by_cases heq : link = link'
  · subst heq
    rw [if_pos rfl, lookup_insert, lookup_insert]
  · have hne : link' ≠ link := Ne.symm heq
    rw [if_neg heq, lookup_insert_ne hne, lookup_insert_ne hne]

theorem atLink_apply (frame : Frame) (resource : Resource) (link link' : String) :
    (d.apply frame link resource).atLink link' =
      if link = link' then (d.atLink link').apply (frame, resource) else d.atLink link' := by
  unfold apply At.apply
  dsimp only
  split
  · exact atLink_remove d link link' resource
  by_cases heq : link = link'
  · subst heq
    rw [if_pos rfl]
    cases frame.checkResourceVersion with
    | false =>
      rw [if_neg Bool.false_ne_true, atLink_store, if_pos rfl]
      rfl
    | true =>
      rw [if_pos rfl]
      show (if isStale (d.objects.lookup link) resource = true then d else _).atLink link = _
      rw [Bool.true_and]
      have hobj : (d.atLink link).object = d.objects.lookup link := rfl
      rw [hobj]
      split
      · rfl
      · rw [atLink_store, if_pos rfl]
  rw [if_neg heq]
  split
  · split
    · rfl
    · rw [atLink_store, if_neg heq]
  · rw [atLink_store, if_neg heq]

variable {frames : List Frame}

theorem atLink_loop (h : Decodes frames) (d : Drain) (link : String) :
    (loop frames d).1.atLink link = (framesAt link frames).foldl At.apply (d.atLink link) :=
  loop_at (·.atLink link) (fun d frame resource link' =>
    atLink_apply d frame resource link' link) h d

/-- What is said at a link is how it changed. -/
def At.Says (a : At) (before : Option Resource) : Prop :=
  a.object = a.present.or (if a.removed then none else before)

theorem says_gone (before : Option Resource) : At.gone.Says before := rfl

variable {a : At}

theorem says_foldl (entries : List (Frame × Resource)) {before : Option Resource}
    (h : a.Says before) : (entries.foldl At.apply a).Says before := by
  induction entries generalizing a with
  | nil => exact h
  | cons e entries ih =>
    apply ih
    unfold At.apply
    split
    · exact says_gone before
    · split
      · exact h
      · rfl

/-- No frame for an object comes after one that deletes it, unless the last one deletes it again. -/
def NoReadd (frames : List Frame) : Prop :=
  ∀ link, (∃ e ∈ framesAt link frames, e.1.type = "DELETED") →
    ∀ e ∈ (framesAt link frames).getLast?, e.1.type = "DELETED"

/-- What is not said at a link: that it is present, and removed. -/
def At.Disjoint (a : At) : Prop := a.present = none ∨ a.removed = false

variable {entries : List (Frame × Resource)}

theorem removed_foldl (ha : a.removed = false)
    (h : ∀ e ∈ entries, e.1.type ≠ "DELETED") : (entries.foldl At.apply a).removed = false := by
  induction entries generalizing a with
  | nil => exact ha
  | cons e entries ih =>
    refine ih ?_ fun e' he' => h e' (mem_cons_of_mem _ he')
    unfold At.apply
    rw [if_neg (h e mem_cons_self)]
    split <;> exact ha

theorem disjoint_foldl (ha : a.removed = false) (h : (∃ e ∈ entries, e.1.type = "DELETED") →
      ∀ e ∈ entries.getLast?, e.1.type = "DELETED") : (entries.foldl At.apply a).Disjoint := by
  rcases eq_nil_or_concat entries with rfl | ⟨entries, last, rfl⟩
  · exact .inr ha
  rw [concat_eq_append] at h ⊢
  rw [getLast?_concat] at h
  by_cases hlast : last.1.type = "DELETED"
  · rw [foldl_append]
    left
    show (At.apply _ last).present = none
    unfold At.apply
    rw [if_pos hlast]
    rfl
  · refine .inr (removed_foldl ha fun e he hdeleted => hlast ?_)
    exact h ⟨e, he, hdeleted⟩ last rfl

/-! ## What is said -/

/-- The table that a dict is. -/
def table (objects : Objects) : Lib.Table String Resource := fun link => objects.lookup link

/-- Who is told applies what is said. -/
def Notification.message : Notification → Lib.Table String Resource → Lib.Table String Resource
  | .full objects => overlay (table objects) fun _ => false
  | .change present removed => overlay (table present) fun link => decide (link ∈ removed)
  | .reset => fun _ _ => none

def Notification.isFull : Notification → Bool
  | .full _ => true
  | .change .. => false
  | .reset => false

/-- Nothing is said to be both present and removed. -/
def Notification.Disjoint : Notification → Prop
  | .change present removed => ∀ link ∈ present, link ∉ removed
  | .full _ => True
  | .reset => True

instance : DecidablePred Notification.Disjoint
  | .change present removed =>
    decidable_of_iff (∀ link ∈ present.keys, link ∉ removed.keys) Iff.rfl
  | .full _ => inferInstanceAs (Decidable True)
  | .reset => inferInstanceAs (Decidable True)

/-- A drain whose notification says how it changed the objects. -/
structure Drain.Told (d : Drain) (before : Lib.Table String Resource) : Prop where
  accounts : ∀ link, (d.atLink link).Says (before link)
  disjoint : ∀ link, (d.atLink link).Disjoint

variable {before : Lib.Table String Resource} {d : Drain}

theorem Drain.Told.tells (h : d.Told before) :
    Tells (Notification.change d.present d.removed).message before (table d.objects) := by
  apply Lib.tells_overlay
  exact h.accounts

theorem Drain.Told.notification_disjoint
    (h : d.Told before) : (Notification.change d.present d.removed).Disjoint := by
  intro link hpresent hrem
  rcases h.disjoint link with hnone | hfalse
  · exact lookup_eq_none.mp hnone hpresent
  · exact absurd hrem (of_decide_eq_false hfalse)

/-- What a batch must be like. -/
def FlushOk (frames : List Frame) : Prop := Decodes frames ∧ NoReadd frames

theorem flushOk_nil : FlushOk [] := by
  refine ⟨decodes_nil, ?_⟩
  rintro link ⟨e, he, -⟩
  exact nomatch he

theorem told_loop (h : FlushOk frames) (objects : Objects) :
    (loop frames { objects := objects }).1.Told (table objects) := by
  have hbef : ∀ link, ({ objects := objects } : Drain).atLink link =
      ⟨objects.lookup link, none, false⟩ := by
    intro link
    unfold atLink
    simp
  constructor
  · intro link
    rw [atLink_loop h.1, hbef]
    exact says_foldl _ (by simp [At.Says, table])
  · intro link
    rw [atLink_loop h.1, hbef]
    exact disjoint_foldl rfl (h.2 link)

/-- The loop that removes objects leaves a link alone, or drops it. -/
theorem atLink_removeObjects (only links : List String) (d : Drain) (link : String) :
    (Loader.removeObjects only links d).1.atLink link = d.atLink link ∨
      (Loader.removeObjects only links d).1.atLink link = .gone := by
  induction links generalizing d with
  | nil => exact .inl rfl
  | cons link' links ih =>
    unfold Loader.removeObjects
    cases d.objects.lookup link' with
    | none => exact ih d
    | some resource =>
      dsimp only
      cases resource.metadata with
      | none => exact .inl rfl
      | some metadata =>
        dsimp only
        split
        · rcases ih _ with h | h
          · rw [h, atLink_remove]
            split
            · exact .inr rfl
            · exact .inl rfl
          · exact .inr h
        · exact ih d

theorem Drain.Told.removeOutside (h : d.Told before)
    (only : Option (List String)) : (Loader.removeOutside only d).1.Told before := by
  unfold Loader.removeOutside
  cases only with
  | none => exact h
  | some only =>
    dsimp only
    constructor
    · intro link
      rcases atLink_removeObjects only d.objects.keys d link with heq | heq
      · rw [heq]
        exact h.accounts link
      · rw [heq]
        exact says_gone _
    intro link
    rcases atLink_removeObjects only d.objects.keys d link with heq | heq
    · rw [heq]
      exact h.disjoint link
    · rw [heq]
      exact .inl rfl

end Cockpit.Kube
