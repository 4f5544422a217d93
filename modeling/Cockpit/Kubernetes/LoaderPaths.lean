import Cockpit.Kubernetes.Loader

namespace Cockpit.Kube

open List Loader

/-!
# The paths of watches, and what leaves them alone

* `schemaOf_eq_of_watchPath` — the path of a watch tells which type of resources it is for;
* `Loader.watchPart` — what a loader knows of its watches, and the steps that have nothing to do
  with it: all the handling of frames and objects.
-/

/-! ## Paths -/

/-- All the schemas that there are. -/
def schemas : List Schema :=
  SCHEMA.map Prod.snd ++ [⟨"undefined", "undefined", false⟩, DEFAULT]

theorem schemaOf_mem (what : String) : schemaOf what ∈ schemas := by
  unfold schemaOf schemas
  split
  · rename_i item hfind
    exact mem_append_left _ (mem_map_of_mem (mem_of_find?_eq_some hfind))
  · split
    · exact mem_append_right _ mem_cons_self
    · exact mem_append_right _ (mem_cons_of_mem _ mem_cons_self)

/-- No type has a slash. -/
theorem slash_notMem_type : ∀ s ∈ schemas, '/' ∉ s.type.toList := by decide

/-- A schema is known by its type and the first letter of its api. -/
theorem eq_of_type_of_api :
    ∀ s ∈ schemas, ∀ s' ∈ schemas, s.type = s'.type → s.api.toList.head? = s'.api.toList.head? →
      s = s' := by
  decide

theorem api_ne_nil : ∀ s ∈ schemas, s.api.toList ≠ [] := by decide

/-- What follows the last slash. -/
theorem append_slash_inj {as as' bs bs' : List Char} (hb : '/' ∉ bs) (hb' : '/' ∉ bs')
    (h : as ++ '/' :: bs = as' ++ '/' :: bs') : as = as' ∧ bs = bs' := by
  have hrev := congrArg List.reverse h
  simp only [reverse_append, reverse_cons, append_assoc, singleton_append] at hrev
  have htake : ∀ {cs ds : List Char}, '/' ∉ cs →
      (cs.reverse ++ '/' :: ds).takeWhile (· ≠ '/') = cs.reverse := by
    intro cs ds hcs
    rw [takeWhile_append_of_pos, takeWhile_cons_of_neg (by simp), append_nil]
    intro c hc
    have : c ≠ '/' := fun heq => hcs (heq ▸ mem_reverse.mp hc)
    simpa using this
  have hbs : bs.reverse = bs'.reverse := by
    rw [← @htake bs as.reverse hb, hrev, htake hb']
  have heq : bs = bs' := reverse_injective hbs
  subst heq
  exact ⟨append_cancel_right h, rfl⟩

/-- What a path has of its namespace. -/
def inNamespace (schema : Schema) (nameSpace : Option String) : String :=
  if !schema.global && truthy nameSpace then "/namespaces/" ++ nameSpace.getD "" else ""

theorem toList_watchPath (what : String) (nameSpace : Option String) :
    (watchPath what nameSpace).toList =
      ((schemaOf what).api.toList ++ (inNamespace (schemaOf what) nameSpace).toList) ++
        '/' :: (schemaOf what).type.toList := by
  unfold watchPath inNamespace
  simp only [String.toList_append]
  rw [append_assoc]
  rfl

variable {what what' : String} {nameSpace nameSpace' : Option String}

/-- **A path is watched for one type.** -/
theorem schemaOf_eq_of_watchPath
    (h : watchPath what nameSpace = watchPath what' nameSpace') :
    schemaOf what = schemaOf what' := by
  have hlist := congrArg String.toList h
  rw [toList_watchPath, toList_watchPath] at hlist
  obtain ⟨hfirst, htype⟩ := append_slash_inj (slash_notMem_type _ (schemaOf_mem what))
    (slash_notMem_type _ (schemaOf_mem what')) hlist
  apply eq_of_type_of_api _ (schemaOf_mem what) _ (schemaOf_mem what')
  · exact String.toList_injective htype
  · have hhead := congrArg List.head? hfirst
    rwa [head?_append_of_ne_nil _ (api_ne_nil _ (schemaOf_mem what)),
      head?_append_of_ne_nil _ (api_ne_nil _ (schemaOf_mem what'))] at hhead

/-- The path of a type depends on its schema only. -/
theorem watchPath_congr (h : schemaOf what = schemaOf what') (nameSpace : Option String) :
    watchPath what nameSpace = watchPath what' nameSpace := by
  unfold watchPath
  rw [h]

/-- The path of a global type. -/
theorem watchPath_of_global (h : (schemaOf what).global) (nameSpace : Option String) :
    watchPath what nameSpace = watchPath what none := by
  unfold watchPath
  simp [h]

/-- An empty namespace is none. -/
def norm (nameSpace : Option String) : Option String := if truthy nameSpace then nameSpace else none

theorem watchPath_norm (what : String) (nameSpace : Option String) :
    watchPath what (norm nameSpace) = watchPath what nameSpace := by
  unfold norm
  split
  · rfl
  rename_i h
  have hnone : truthy none = false := rfl
  unfold watchPath
  rw [Bool.not_eq_true] at h
  simp only [h, hnone, Bool.and_false, Bool.false_eq_true, if_false]

theorem watchPath_of_norm (h : norm nameSpace = norm nameSpace')
    (what : String) : watchPath what nameSpace = watchPath what nameSpace' := by
  rw [← watchPath_norm, h, watchPath_norm]

/-- The namespaces of a limit. -/
def Limit.nameSpaces : Limit → List (Option String)
  | .all => [none]
  | .one nameSpace => [some nameSpace]
  | .many nameSpaces => nameSpaces.map some

variable {limit : Limit}

theorem Limit.nameSpaces_ne_nil (h : limit ≠ .many []) : limit.nameSpaces ≠ [] := by
  cases limit with
  | all | one nameSpace => simp [nameSpaces]
  | many nameSpaces =>
    intro hnil
    exact h (congrArg Limit.many (map_eq_nil_iff.mp hnil))

/-- The paths at which a type is to be watched. -/
def paths (what : String) (limit : Limit) : List String :=
  if (schemaOf what).global then [watchPath what none]
  else limit.nameSpaces.map (watchPath what)

theorem paths_congr (h : schemaOf what = schemaOf what') (limit : Limit) :
    paths what limit = paths what' limit := by
  unfold paths
  rw [h, watchPath_congr h]
  congr 2
  exact funext (watchPath_congr h)

theorem schemaOf_eq_of_mem_paths
    (h : watchPath what nameSpace ∈ paths what' limit) : schemaOf what = schemaOf what' := by
  unfold paths at h
  split at h
  · exact schemaOf_eq_of_watchPath (mem_singleton.mp h)
  · obtain ⟨nameSpace', -, heq⟩ := mem_map.mp h
    exact (schemaOf_eq_of_watchPath heq).symm

/-! ## What has nothing to do with watches -/

namespace Loader

variable {K : KubeWatch} {l : Loader K}

/-- What a loader knows of its watches. -/
def watchPart (l : Loader K) :
    AList (fun _ : String => Nat) × List (Watch K) × Limit × List Handle × Nat :=
  (l.watching, l.watches, l.nameSpace, l.handles, l.handlesReset)

theorem settle_bind {α : Type} (P : Loader K → α) (x : Except (Loader K) (Loader K))
    {f : Loader K → Except (Loader K) (Loader K)} (hf : ∀ l, P (settle (f l)) = P l) :
    P (settle (x >>= f)) = P (settle x) := by
  cases x with
  | error l => rfl
  | ok l => exact hf l

section

variable (l : Loader K)

/-- A flush, as one. -/
theorem handleFlush_eq :
    l.handleFlush = match l.batch with
      | none => .ok l
      | some drain =>
        let d := Drain.loop drain { objects := l.objects }
        let l := { l with batch := none, objects := d.1.objects }
        if d.2 then .ok (l.invokeCallbacks (.change d.1.present d.1.removed)) else .error l := by
  unfold handleFlush flush
  cases l.batch with
  | none => rfl
  | some drain =>
    dsimp only
    split <;> rfl

theorem watchPart_handleFlush : (settle l.handleFlush).watchPart = l.watchPart := by
  rw [handleFlush_eq]
  cases l.batch with
  | none => rfl
  | some drain =>
    dsimp only
    split <;> rfl

theorem watchPart_handleFrames (frames : List Frame) :
    (settle (l.handleFrames frames)).watchPart = l.watchPart := by
  unfold handleFrames
  dsimp only
  split
  · rfl
  · exact watchPart_handleFlush _

theorem watchPart_handleObjects (objects : List Resource) (removed : Bool)
    (kind : Option String) :
    (settle (l.handleObjects objects removed kind)).watchPart = l.watchPart := by
  unfold handleObjects
  rw [settle_bind watchPart _ watchPart_handleFlush, watchPart_handleFrames]

theorem watchPart_loaded (response : Response) :
    (settle (l.loaded response)).watchPart = l.watchPart := by
  unfold loaded
  split
  · rfl
  split
  · rfl
  split
  · split
    · rfl
    · exact watchPart_handleObjects _ _ _ _
  · exact watchPart_handleObjects _ _ _ _

end

theorem watchPart_passFrames (passed : List (List Frame)) (l : Loader K) :
    (settle (passFrames passed l)).watchPart = l.watchPart := by
  induction passed generalizing l with
  | nil => rfl
  | cons frames passed ih =>
    unfold passFrames
    rw [settle_bind watchPart _ ih, watchPart_handleFrames]

end Loader

end Cockpit.Kube
