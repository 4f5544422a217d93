import Cockpit.Bridge.DBusCache

namespace Cockpit

open Lib Relation List Option Contents Paths

/-!
# What the functions of the cache do with references

Every function between two calls of `batch_unref` is a sequence of a few moves: it makes a
batch, takes a reference, hands one over to a queued introspection, a call in flight or a
function that it will call, or edits the contents.  The references that it still has to hand
over are a list next to the state, and none is left at its end.

* `DBusCache.Move` — the moves;
* `DBusCache.exec_moves`, `DBusCache.barrierFunc_moves`, `DBusCache.handle_moves` — the moves
  of the tasks, of the barrier callbacks and of the events.
-/

variable {V : Type}

/-! ### Who holds what -/

/-- The reference of a callback. -/
def IntrospectFunc.held : IntrospectFunc V → List Nat
  | .processPropertiesChanged batch _ => [batch]
  | .processInterface batch _ _ => [batch]
  | .processPoke batch _ => [batch]
  | .introspectReady _ => []

/-- The signal whose values a callback puts into the cache. -/
def IntrospectFunc.signals : IntrospectFunc V → List Nat
  | .processPropertiesChanged _ pcd => [pcd.seq]
  | _ => []

/-- The call that a callback lets go on. -/
def IntrospectFunc.readies : IntrospectFunc V → List Nat
  | .introspectReady seq => [seq]
  | _ => []

variable (id : IntrospectData V)

/-- The callback that an introspection ends with. -/
def IntrospectData.func : Option (IntrospectFunc V) :=
  match id.interface with
  | none => none
  | some _ => id.callback

/-- The references of a queued introspection and of its callback. -/
def IntrospectData.held : List Nat :=
  id.batch :: (id.func.map IntrospectFunc.held).getD []

/-- The signal that an introspection is for. -/
def IntrospectData.signals : List Nat :=
  (id.func.map IntrospectFunc.signals).getD []

/-- The call that an introspection is for. -/
def IntrospectData.readies : List Nat :=
  (id.func.map IntrospectFunc.readies).getD []

/-- The reference of a call in flight. -/
def BusCall.batch : BusCall → Nat
  | .get batch _ _ _ _ => batch
  | .getAll batch _ _ => batch
  | .getManagedObjects batch _ => batch

/-- The signal that a call is for. -/
def BusCall.signals : BusCall → List Nat
  | .get _ _ _ _ seq => [seq]
  | _ => []

/-- The events that a barrier callback was made for. -/
def BarrierFunc.seqs : BarrierFunc V → List Nat
  | .waitComplete seq => [seq]
  | .processPropertiesBarrier pcd => [pcd.seq]
  | _ => []

/-- The signal behind a barrier. -/
def BarrierFunc.signals : BarrierFunc V → List Nat
  | .processPropertiesBarrier pcd => [pcd.seq]
  | _ => []

namespace DBusTask

/-- The references that a function has to drop or to hand over. -/
def held : DBusTask V → List Nat
  | .batchUnref batch => [batch]
  | .introspectComplete id => id.held
  | .processInterfaces batch _ _ _ => batch.toList
  | _ => []

/-- The batches that a function was called with, whose references its caller has. -/
def borrows : DBusTask V → List Nat
  | .introspectQueue batch _ => [batch]
  | .scrapeVariant batch _ => batch.toList
  | .processInterfaces _ leftover _ _ => (leftover.map Prod.fst).toList
  | .processLeftover batch _ _ => [batch]
  | .processPaths batch _ _ => [batch]
  | .ensureChange batch _ _ => [batch]
  | _ => []

/-- The signals whose values a function puts into the cache. -/
def signals : DBusTask V → List Nat
  | .introspectComplete id => id.signals
  | _ => []

/-- The calls that a function lets go on. -/
def readies : DBusTask V → List Nat
  | .introspectComplete id => id.readies
  | _ => []

/-- The functions that others call for a batch. -/
def inner : DBusTask V → Bool
  | .batchProgress | .barrierProgress | .barrierRounds | .barrierLoop _ => false
  | .poke _ _ | .barrier _ => false
  | _ => true

/-- The functions that neither drop a reference nor touch barriers. -/
def plain : DBusTask V → Bool
  | .batchUnref _ | .batchProgress | .barrierProgress | .barrierRounds | .barrierLoop _ => false
  | .barrier _ => false
  | _ => true

end DBusTask

namespace DBusCache

/-- The references of the innermost function that waits. -/
def topHeld (s : DBusCache V) : List Nat := (s.tasks.head?.map DBusTask.held).getD []

/-- A condition for `batch_create`: on `number`, and on which batches and barriers there are. -/
abbrev Room (V : Type) := UInt32 → List Nat → List (Barrier V) → Prop

/-- No condition. -/
def anyRoom : Room V := fun _ _ _ => True

/-- A move of a function that was given the batches `scope` and works for `signals` and for the
    calls `readies`; next to the state are the references that it has. -/
inductive Move (room : Room V) (scope signals readies : List Nat) :
    DBusCache V × List Nat → DBusCache V × List Nat → Prop
  | create {s : DBusCache V} {ex : List Nat} (h : room s.number s.batches.idents s.barriers) :
      Move room scope signals readies (s, ex) (s.batchCreate, s.batches.next :: ex)
  | ref {s : DBusCache V} {ex : List Nat} {b : Nat} (h : b ∈ ex ∨ b ∈ scope) :
      Move room scope signals readies (s, ex) (s.batchRef b, b :: ex)
  | introspect {s : DBusCache V} {ex : List Nat} {i : IntrospectData V}
      (hi : i.introspecting = false) (h : i.signals ⊆ signals) (hr : i.readies ⊆ readies) :
      Move room scope signals readies (s, i.held ++ ex)
        (({ s with introspects := s.introspects ++ [i] } : DBusCache V).introspectNext, ex)
  | call {s : DBusCache V} {ex : List Nat} {c : BusCall} (h : c.signals ⊆ signals) :
      Move room scope signals readies (s, c.batch :: ex) ({ s with calls := s.calls ++ [c] }, ex)
  | push {s : DBusCache V} {ex : List Nat} {t : DBusTask V} (ht : t.inner)
      (hb : ∀ b ∈ t.borrows, b ∈ scope ∨ b ∈ s.topHeld) (h : t.signals ⊆ signals)
      (hr : t.readies ⊆ readies) :
      Move room scope signals readies (s, t.held ++ ex) (s.push [t], ex)
  | edit {s : DBusCache V} {ex : List Nat} {f : Contents V → Contents V}
      (hf : s.contents.Edits signals (f s.contents)) (hne : ex ≠ [] ∨ scope ≠ []) :
      Move room scope signals readies (s, ex) (s.edit f, ex)
  | ready {s : DBusCache V} {ex : List Nat} {seq : Nat} (h : seq ∈ readies) :
      Move room scope signals readies (s, ex) (s.edit (·.say (.ready seq)), ex)
  | learn {s : DBusCache V} {ex : List Nat} (introspected managed : List CStr) :
      Move room scope signals readies (s, ex)
        ({ s with introspected := introspected, managed := managed }, ex)
  | next {s : DBusCache V} {ex : List Nat} : Move room scope signals readies (s, ex) (s.introspectNext, ex)
  | perm {s : DBusCache V} {ex ex' : List Nat} (h : ex.Perm ex') :
      Move room scope signals readies (s, ex) (s, ex')

/-- Any number of moves. -/
abbrev Moves (room : Room V) (scope signals readies : List Nat) :
    DBusCache V × List Nat → DBusCache V × List Nat → Prop :=
  ReflTransGen (Move room scope signals readies)

variable {room : Room V} {scope signals readies ex : List Nat} {s : DBusCache V}

/-! ### The moves of the functions -/

theorem moves_edit {f : Contents V → Contents V} (hf : ∀ c : Contents V, c.Edits signals (f c))
    (h : ex ≠ [] ∨ scope ≠ []) : Moves room scope signals readies (s, ex) (s.edit f, ex) :=
  .single (.edit (hf _) h)

theorem moves_push {t : DBusTask V} (ht : t.inner)
    (hb : ∀ b ∈ t.borrows, b ∈ scope ∨ b ∈ s.topHeld) (h : t.signals ⊆ signals)
    (hr : t.readies ⊆ readies := by exact nil_subset _) :
    Moves room scope signals readies (s, t.held ++ ex) (s.push [t], ex) :=
  .single (.push ht hb h hr)

/-- The call of `batch_unref` at the end of a function. -/
theorem moves_unref (b : Nat) :
    Moves room scope signals readies (s, b :: ex) (s.push [.batchUnref b], ex) :=
  moves_push (t := .batchUnref b) rfl (by simp [DBusTask.borrows]) (by simp [DBusTask.signals])

theorem moves_unref_toList (batch : Option Nat) :
    Moves room scope signals readies (s, batch.toList ++ ex)
      (match batch with
        | none => s
        | some batch => s.push [.batchUnref batch], ex) := by
  cases batch with
  | none => exact .refl
  | some b => exact moves_unref b

theorem moves_interfaceInfoPush (name : CStr) :
    Moves room scope signals readies (s, ex) (s.interfaceInfoPush name, ex) := by
  unfold interfaceInfoPush
  split
  · exact .refl
  · exact .single (.learn _ _)

variable {b : Nat}

section

variable (hb : b ∈ ex ∨ b ∈ scope)

include hb

theorem moves_busCall {c : BusCall} (hc : c.batch = b)
    (hsig : c.signals ⊆ signals) :
    Moves room scope signals readies (s, ex) (s.busCall b c, ex) := by
  subst hc
  exact .tail (.single (.ref hb)) (.call hsig)

theorem moves_retrieveProperties (path iface : CStr) :
    Moves room scope signals readies (s, ex) (s.retrieveProperties b path iface, ex) := by
  unfold retrieveProperties
  split
  · exact .refl
  · exact moves_busCall hb rfl (nil_subset _)

theorem moves_retrieveManagedObjects (path : CStr) :
    Moves room scope signals readies (s, ex) (s.retrieveManagedObjects path b, ex) :=
  moves_busCall hb rfl (nil_subset _)

/-- A queued introspection of a path. -/
theorem moves_introspectPath (path : CStr) :
    Moves room scope signals readies (s, ex) (s.introspectQueue b path none none, ex) :=
  .tail (.single (.ref hb)) (.introspect (i := ⟨none, path, none, b, false⟩) rfl
    (nil_subset _) (nil_subset _))

end

/-- A queued introspection of an interface, whose callback gets the reference it comes with. -/
theorem moves_introspectInterface {f : IntrospectFunc V} (hb : b ∈ f.held ++ ex ∨ b ∈ scope)
    (hsig : f.signals ⊆ signals) (hr : f.readies ⊆ readies) (path iface : CStr) :
    Moves room scope signals readies (s, f.held ++ ex)
      (s.introspectQueue b path (some iface) (some f), ex) :=
  .tail (.single (.ref hb)) (.introspect (i := ⟨some iface, path, some f, b, false⟩) rfl hsig hr)

/-- A loop moves when its body does. -/
theorem moves_foldl {α : Type} {f : DBusCache V → α → DBusCache V}
    (hf : ∀ s a, Moves room scope signals readies (s, ex) (f s a, ex)) (as : List α) (s : DBusCache V) :
    Moves room scope signals readies (s, ex) (as.foldl f s, ex) := by
  induction as generalizing s with
  | nil => exact .refl
  | cons a as ih => exact (hf s a).trans (ih _)

section

variable [Variant V] {f : IntrospectFunc V}

theorem moves_introspectFunc (hsig : f.signals ⊆ signals)
    (hr : f.readies ⊆ readies) (iface : CStr) :
    Moves room scope signals readies (s, f.held ++ ex) (s.introspectFunc iface f, ex) := by
  cases f with
  | processPropertiesChanged batch pcd =>
    refine .trans (moves_edit (fun c => ?_) (.inl (cons_ne_nil _ _)))
      (.trans (moves_foldl (fun s property => ?_) _ _) (moves_unref batch))
    · exact edits_processProperties hsig c pcd.path iface pcd.changed
    · exact moves_busCall (.inl mem_cons_self) rfl hsig
  | processInterface batch path dict =>
    refine .trans (moves_edit (fun c => ?_) (.inl (cons_ne_nil _ _))) (moves_unref batch)
    exact edits_processProperties (nil_subset _) c path iface dict
  | processPoke batch path =>
    exact .trans (moves_retrieveProperties (.inl mem_cons_self) path iface) (moves_unref batch)
  | introspectReady seq => exact .single (.ready (hr mem_cons_self))

/-- `introspect_maybe` with a batch. -/
theorem moves_introspectMaybe (hb : b ∈ f.held ++ ex ∨ b ∈ scope)
    (hsig : f.signals ⊆ signals) (hr : f.readies ⊆ readies) (path iface : CStr) :
    Moves room scope signals readies (s, f.held ++ ex) (s.introspectMaybe (some b) path iface f, ex) := by
  unfold introspectMaybe
  split
  · exact moves_introspectFunc hsig hr iface
  refine .trans (.single (.ref hb)) ?_
  -- the references of the callback come first
  refine .trans (.single (.perm (perm_middle.symm : List.Perm _ (f.held ++ b :: ex)))) ?_
  have hin : b ∈ f.held ++ b :: ex := mem_append_right _ mem_cons_self
  exact .trans (moves_introspectInterface (.inl hin) hsig hr path iface) (moves_unref b)

/-- `introspect_maybe` without a batch. -/
theorem moves_introspectMaybe_none {iface : CStr}
    (hroom : iface ∉ s.introspected → room s.number s.batches.idents s.barriers)
    (hsig : f.signals ⊆ signals) (hr : f.readies ⊆ readies) (path : CStr) :
    Moves room scope signals readies (s, f.held ++ ex) (s.introspectMaybe none path iface f, ex) := by
  unfold introspectMaybe
  split
  · exact moves_introspectFunc hsig hr iface
  rename_i hknown
  refine .trans (.single (.create (hroom hknown))) ?_
  refine .trans (.single (.perm (perm_middle.symm : List.Perm _ (f.held ++ s.batches.next :: ex)))) ?_
  have hin : s.batches.next ∈ f.held ++ s.batches.next :: ex :=
    mem_append_right _ mem_cons_self
  exact .trans (moves_introspectInterface (.inl hin) hsig hr path iface) (moves_unref _)

theorem moves_introspectComplete (hsig : id.signals ⊆ signals)
    (hr : id.readies ⊆ readies) :
    Moves room scope signals readies (s, id.held ++ ex) (s.introspectComplete id, ex) := by
  unfold introspectComplete IntrospectData.held
  rw [cons_append]
  refine .trans (moves_unref id.batch) ?_
  cases hiface : id.interface with
  | none =>
    simp only [IntrospectData.func, hiface, map_none, getD_none, nil_append]
    exact .refl
  | some iface =>
    cases hcall : id.callback with
    | none =>
      simp only [IntrospectData.func, hiface, hcall, map_none, getD_none, nil_append]
      exact moves_interfaceInfoPush iface
    | some f =>
      simp only [IntrospectData.signals, IntrospectData.readies, IntrospectData.func, hiface,
        hcall, map_some, getD_some] at hsig hr ⊢
      exact (moves_interfaceInfoPush iface).trans (moves_introspectFunc hsig hr iface)

end

/-! ### Introspection data -/

theorem moves_introspectInterfaces (hb : b ∈ ex ∨ b ∈ scope) (path : CStr)
    (recursive : Bool) (ifaces : List (Option CStr)) (st : DBusCache V × List CStr) :
    Moves room scope signals readies (st.1, ex)
      ((ifaces.foldl (introspectInterface b path recursive) st).1, ex) := by
  have hne : ex ≠ [] ∨ scope ≠ [] := hb.imp ne_nil_of_mem ne_nil_of_mem
  induction ifaces generalizing st with
  | nil => exact .refl
  | cons iface ifaces ih =>
    refine .trans ?_ (ih _)
    unfold introspectInterface
    cases iface with
    | none => exact .refl
    | some name =>
      dsimp only
      refine .trans (moves_interfaceInfoPush name) ?_
      split
      · exact moves_edit (edits_ensureInterfaces · path) hne
      dsimp only
      split
      · exact moves_retrieveProperties hb path name
      · exact .refl

mutual

theorem moves_processIntrospectNode {b : Nat} (hb : b ∈ ex ∨ b ∈ scope) (path : CStr)
    (recursive : Bool) (node : Node) (s : DBusCache V) :
    Moves room scope signals readies (s, ex) (processIntrospectNode b path recursive node s, ex) := by
  have hne : ex ≠ [] ∨ scope ≠ [] := hb.imp ne_nil_of_mem ne_nil_of_mem
  cases node with
  | mk interfaces nodes =>
    rw [processIntrospectNode]
    dsimp only
    generalize (recursive && !containOrAncestor s.managed path) = recursive
    refine .trans (moves_introspectInterfaces hb path recursive interfaces
      (s, (s.contents.interfaces path).keys)) ?_
    generalize interfaces.foldl _ _ = st
    refine .trans (moves_edit (.foldl (edits_processRemoved path) st.2) hne) ?_
    generalize st.1.edit _ = s
    split
    · refine .trans (moves_processIntrospectChildren hb path nodes
        (s, s.contents.cache.keys.filter (hasParent · path))) ?_
      generalize processIntrospectChildren b path nodes _ = st
      exact moves_edit (.foldl edits_processRemovedPath st.2) hne
    · exact .refl

theorem moves_processIntrospectChildren {b : Nat} (hb : b ∈ ex ∨ b ∈ scope) (parentPath : CStr)
    (nodes : Nodes) (st : DBusCache V × List CStr) :
    Moves room scope signals readies (st.1, ex) ((processIntrospectChildren b parentPath nodes st).1, ex) := by
  cases nodes with
  | nil =>
    exact .refl
  | cons path child rest =>
    cases path with
    | none =>
      rw [processIntrospectChildren]
      exact moves_processIntrospectChildren hb parentPath rest st
    | some name =>
      rw [processIntrospectChildren]
      refine .trans ?_ (moves_processIntrospectChildren hb parentPath rest (_, _))
      split
      · split
        · exact moves_introspectPath hb _
        · exact moves_processIntrospectNode hb _ _ child st.1
      · exact .refl

end

/-! ### Objects and barriers -/

/-- Whether `scrape_variant` makes a batch. -/
def scrapeVariantCreates (s : DBusCache V) (batch : Option Nat) (paths : List CStr) : Bool :=
  batch.isNone && paths.any s.scrapes

/-- The loop of `scrape_variant` with a batch. -/
theorem moves_scrapePaths (hb : b ∈ ex) (paths : List CStr) (s : DBusCache V) :
    ∃ s', paths.foldl scrapePath (s, some b) = (s', some b) ∧
      Moves room scope signals readies (s, ex) (s', ex) := by
  induction paths generalizing s with
  | nil => exact ⟨s, rfl, .refl⟩
  | cons path paths ih =>
    rw [foldl_cons, scrapePath]
    dsimp only
    split
    · obtain ⟨s', heq, hmoves⟩ := ih (s.introspectQueue b path none none)
      exact ⟨s', heq, .trans (moves_introspectPath (.inl hb) path) hmoves⟩
    · exact ih s

theorem moves_scrapeVariant {batch : Option Nat} {paths : List CStr}
    (hroom : s.scrapeVariantCreates batch paths → room s.number s.batches.idents s.barriers)
    (hb : ∀ b ∈ batch, b ∈ ex ∨ b ∈ scope) :
    Moves room scope signals readies (s, ex) (s.scrapeVariant batch paths, ex) := by
  unfold scrapeVariant
  cases batch with
  | some b =>
    obtain ⟨s', heq, hmoves⟩ := @moves_scrapePaths V room scope signals readies (b :: ex) b
      mem_cons_self paths (s.batchRef b)
    dsimp only
    rw [heq]
    exact .trans (.single (.ref (hb b rfl))) (hmoves.trans (moves_unref b))
  | none =>
    dsimp only
    induction paths with
    | nil => exact .refl
    | cons path paths ih =>
      rw [foldl_cons, scrapePath]
      dsimp only
      by_cases hscrape : s.scrapes path
      · rw [if_pos hscrape]
        obtain ⟨s', heq, hmoves⟩ := @moves_scrapePaths V room scope signals readies
          (s.batches.next :: ex) s.batches.next mem_cons_self paths
          (s.batchCreate.introspectQueue s.batches.next path none none)
        rw [heq]
        refine .trans (.single (.create (hroom ?_))) (.trans ?_ (hmoves.trans (moves_unref _)))
        · simp [scrapeVariantCreates, hscrape]
        · exact moves_introspectPath (.inl mem_cons_self) path
      rw [if_neg hscrape]
      refine ih fun h => hroom ?_
      rw [scrapeVariantCreates, any_cons]
      simpa [scrapeVariantCreates, hscrape] using h

section

variable [Variant V]

/-- Whether the body of `process_interfaces` makes a batch. -/
def processInterfacesCreates (s : DBusCache V) (batch : Option Nat) (path : CStr)
    (dict : List (CStr × Dict V)) : Bool :=
  match dict.dropWhile (fun entry => !s.watchesInterface path entry.1) with
  | [] => false
  | (iface, _) :: _ => batch.isNone || !decide (iface ∈ s.introspected)

variable {path : CStr}

theorem moves_processInterfaces {batch : Option Nat} {leftover : Option (Nat × List CStr)} {dict : List (CStr × Dict V)}
    (hroom : s.processInterfacesCreates batch path dict → room s.number s.batches.idents s.barriers)
    (hscope : ∀ b ∈ (leftover.map Prod.fst).toList, b ∈ scope) :
    Moves room scope signals readies (s, batch.toList ++ ex)
      (s.processInterfaces batch leftover path dict, ex) := by
  unfold processInterfacesCreates at hroom
  unfold processInterfaces
  split
  · -- no interface is left
    clear hroom
    cases leftover with
    | none => exact moves_unref_toList batch
    | some l =>
      refine .trans (moves_push (t := .processLeftover l.1 path l.2) rfl (fun b hb => .inl ?_)
        (nil_subset _)) (moves_unref_toList batch)
      obtain rfl : b = l.1 := by simpa [DBusTask.borrows] using hb
      exact hscope l.1 (by simp)
  rename_i iface inner rest heq
  rw [heq] at hroom
  cases batch with
  | none =>
    refine .trans (.single (.create (hroom rfl))) ?_
    exact moves_push (t := .processInterfaces (some s.batches.next) leftover path
      ((iface, inner) :: rest)) rfl (fun b hb => .inl (hscope b hb)) (nil_subset _)
  | some b =>
    dsimp only at hroom ⊢
    refine .trans (.single (.ref (.inl mem_cons_self))) ?_
    -- the loop keeps one reference, and borrows it to `scrape_variant`
    refine .trans (moves_push (t := .processInterfaces (some b)
      (leftover.map fun l => (l.1, l.2.erase iface)) path rest) rfl
      (fun b' hb' => .inl (hscope b' ?_)) (nil_subset _)) ?_
    · simpa [DBusTask.borrows] using hb'
    refine .trans (moves_push (t := .scrapeVariant (some b) (dictPaths inner)) rfl
      (fun b' hb' => .inr ?_) (nil_subset _)) ?_
    · obtain rfl : b' = b := by simpa [DBusTask.borrows] using hb'
      exact mem_cons_self
    have hnew : iface ∉ s.introspected → room s.number s.batches.idents s.barriers :=
      fun hknown => hroom (by simp [hknown])
    refine moves_introspectMaybe_none (f := .processInterface b path inner) (fun hknown => ?_)
      (nil_subset _) (nil_subset _) path
    show room s.number (s.batches.ref b).idents s.barriers
    rw [CountedQueue.idents_ref]
    exact hnew hknown

omit [Variant V] in
theorem moves_processPaths (hb : b ∈ scope) (snapshot : List CStr)
    (dict : List (CStr × List (CStr × Dict V))) :
    Moves room scope signals readies (s, ex) (s.processPaths b snapshot dict, ex) := by
  unfold processPaths
  cases dict with
  | nil =>
    exact moves_edit (.foldl edits_processRemovedPath _) (.inr (ne_nil_of_mem hb))
  | cons entry rest =>
    refine .trans (.single (.ref (.inr hb))) ?_
    refine .trans (b := (_, b :: ex)) (moves_push (t := .processPaths b (snapshot.erase entry.1)
      rest) rfl (fun b' hb' => .inl ?_) (nil_subset _)) (moves_push (t := .processInterfaces
      (some b) (some (b, (s.contents.interfaces entry.1).keys)) entry.1 entry.2) rfl
      (fun b' hb' => .inl ?_) (nil_subset _))
    all_goals
      obtain rfl : b' = b := by simpa [DBusTask.borrows] using hb'
      exact hb

/-- Whether a barrier callback makes a batch. -/
def barrierFuncCreates : BarrierFunc V → Bool
  | .waitComplete _ => false
  | .processPropertiesBarrier _ => true
  | .processInterfacesAdded managerAdded _ _ => managerAdded.isSome
  | .processInterfacesRemoved _ _ _ => true

/-- The barrier callbacks of the cache itself. -/
theorem moves_barrierFunc {f : BarrierFunc V} (hwait : ∀ seq, f ≠ .waitComplete seq)
    (hroom : barrierFuncCreates f → room s.number s.batches.idents s.barriers)
    (hsig : f.signals ⊆ signals) : Moves room [] signals readies (s, []) (s.barrierFunc f, []) := by
  cases f with
  | waitComplete seq => exact absurd rfl (hwait seq)
  | processPropertiesBarrier pcd =>
    refine .trans (.single (.create (hroom rfl))) ?_
    refine .trans (.single (.ref (.inl mem_cons_self))) ?_
    refine .trans (moves_unref s.batches.next) ?_
    refine .trans (moves_push (t := .scrapeVariant (some s.batches.next) (dictPaths pcd.changed))
      rfl (fun b hb => .inr ?_) (nil_subset _)) ?_
    · obtain rfl : b = s.batches.next := by simpa [DBusTask.borrows] using hb
      exact mem_cons_self
    exact moves_introspectMaybe (f := .processPropertiesChanged s.batches.next pcd)
      (.inl mem_cons_self) hsig (nil_subset _) pcd.path pcd.interface
  | processInterfacesAdded managerAdded path interfaces =>
    cases managerAdded with
    | none =>
      exact moves_push (t := .processInterfaces none none path interfaces) rfl
        (by simp [DBusTask.borrows]) (nil_subset _)
    | some manager =>
      refine .trans (.single (.create (hroom rfl))) ?_
      refine .trans (moves_retrieveManagedObjects (.inl mem_cons_self) manager) ?_
      refine .trans (.single (.ref (.inl mem_cons_self))) ?_
      refine .trans (moves_unref s.batches.next) ?_
      exact moves_push (t := .processInterfaces (some s.batches.next) none path interfaces) rfl
        (by simp [DBusTask.borrows]) (nil_subset _)
  | processInterfacesRemoved managerAdded path interfaces =>
    refine .trans (.single (.create (hroom rfl))) ?_
    have hend : ∀ s' : DBusCache V, Moves room [] signals readies (s', [s.batches.next])
        ((s'.edit (interfaces.foldl (processRemoved path))).push
          [.batchUnref s.batches.next], []) := fun s' =>
      .trans (moves_edit (.foldl (edits_processRemoved path) interfaces)
        (.inl (cons_ne_nil _ _))) (moves_unref s.batches.next)
    cases managerAdded with
    | none => exact hend _
    | some manager =>
      exact .trans (moves_retrieveManagedObjects (.inl mem_cons_self) manager) (hend _)

variable {interface : Option CStr}

theorem moves_poke (hroom : s.pokes path interface → room s.number s.batches.idents s.barriers) :
    Moves room [] signals readies (s, []) (s.poke path interface, []) := by
  unfold poke
  split
  · rename_i hpoke
    refine .trans (.single (.create (hroom hpoke))) ?_
    cases interface with
    | none =>
      exact .trans (moves_introspectPath (.inl mem_cons_self) path)
        (moves_unref s.batches.next)
    | some interface =>
      refine .trans (.single (.ref (.inl mem_cons_self))) ?_
      refine .trans (moves_unref s.batches.next) ?_
      exact moves_introspectMaybe (f := .processPoke s.batches.next path)
        (.inl mem_cons_self) (nil_subset _) (nil_subset _) path interface
  · exact .refl

/-- Whether a task makes a batch. -/
def execCreates (s : DBusCache V) (stale : UInt32) : DBusTask V → Bool
  | .barrierLoop batch =>
    match s.barriers with
    | [] => false
    | barrier :: _ => !s.blocks batch stale barrier.number && barrierFuncCreates barrier.callback
  | .scrapeVariant batch paths => s.scrapeVariantCreates batch paths
  | .processInterfaces batch _ path dict => s.processInterfacesCreates batch path dict
  | .poke path interface => s.pokes path interface
  | .barrier callback => s.batches.items.isEmpty && barrierFuncCreates callback
  | _ => false

/-- **The moves of a task** that neither drops a reference nor touches barriers. -/
theorem moves_exec {t : DBusTask V} (ht : t.plain) {stale : UInt32}
    (hroom : s.execCreates stale t → room s.number s.batches.idents s.barriers) :
    Moves room t.borrows t.signals t.readies (s, t.held) (s.exec stale t, []) := by
  cases t with
  | batchUnref | batchProgress | barrierProgress | barrierRounds | barrierLoop | barrier =>
    exact nomatch ht
  | introspectComplete id =>
    show Moves room [] id.signals id.readies (s, id.held) (s.introspectComplete id, [])
    rw [← append_nil id.held]
    exact moves_introspectComplete id (List.Subset.refl _) (List.Subset.refl _)
  | introspectNext => exact .single .next
  | introspectQueue b path => exact moves_introspectPath (.inr mem_cons_self) path
  | scrapeVariant batch paths =>
    exact moves_scrapeVariant hroom fun b hb => .inr (by simpa [DBusTask.borrows] using hb)
  | processInterfaces batch leftover path dict =>
    show Moves room _ [] _ (s, batch.toList) (s.processInterfaces batch leftover path dict, [])
    rw [← append_nil batch.toList]
    exact moves_processInterfaces hroom fun b hb => hb
  | processLeftover b path snap =>
    exact moves_edit (edits_processLeftover · path snap) (.inr (cons_ne_nil _ _))
  | processPaths b snapshot dict => exact moves_processPaths mem_cons_self snapshot dict
  | ensureChange b path iface =>
    have hedit : ∀ c : Contents V, c.Edits [] ((c.ensureProperties path iface).emitChange path
        iface none) := fun c => (edits_ensureProperties c path iface).tail
      (.change (properties_ensureProperties_self c path iface))
    exact moves_edit hedit (.inr (cons_ne_nil _ _))
  | poke path interface => exact moves_poke hroom

/-! ### Events -/

/-- The functions that an event starts with nothing in their hands. -/
def opens : DBusTask V → Bool
  | .poke _ _ | .scrapeVariant none _ => true
  | _ => false

/-- What an event does first, and the `scope` and `signals` that its moves begin with.  A
    barrier is always the last thing that an event asks for. -/
inductive Start (s : DBusCache V) : DBusCache V → List Nat → List Nat → Prop
  | plain (rules : DBusRules) (managed : List CStr) (watches : List (Nat × Nat))
      {t : List (DBusTask V)} (ht : ∀ u ∈ t, opens u) (f : Option (BarrierFunc V))
      (hf : ∀ g ∈ f, g.seqs ⊆ [s.arrived]) :
      Start s (({ s with rules := rules, managed := managed, watches := watches } :
        DBusCache V).push (t ++ f.toList.map .barrier)) [] []
  | introspect {i : IntrospectData V} {rest : List (IntrospectData V)}
      (h : s.introspects = i :: rest) (hi : i.introspecting) :
      Start s (({ s with introspects := rest } : DBusCache V).push
        [.introspectComplete i, .introspectNext]) [i.batch] i.signals
  | call {k : Nat} {c : BusCall} (h : s.calls[k]? = some c) :
      Start s ((s.takeCall k).push [.batchUnref c.batch]) [c.batch] c.signals

/-- Whether an event makes a batch. -/
def handleCreates (s : DBusCache V) : DBusEvent V → Bool
  | .watch path isNamespace interface _ => s.addsRule path isNamespace interface
  | .call _ interface => !decide (interface ∈ s.introspected)
  | _ => false

omit [Variant V] in
theorem moves_watch {path : Option CStr} {isNamespace : Bool}
    (hroom : s.addsRule path isNamespace interface → room s.number s.batches.idents s.barriers) :
    Moves room [] signals readies
      ({ s with rules := (s.rules.add path isNamespace interface none none).1 }, [])
      (s.watch path isNamespace interface, []) := by
  unfold addsRule at hroom
  unfold watch
  split
  · rename_i rules heq
    rw [heq]
  rename_i rules heq
  rw [heq] at hroom ⊢
  refine .trans (.single (.create (hroom rfl))) (.trans ?_ (moves_unref s.batches.next))
  split
  · exact moves_retrieveManagedObjects (.inl mem_cons_self) _
  · exact moves_introspectPath (.inl mem_cons_self) _

/-- The call that an event begins. -/
def handleReadies (s : DBusCache V) : DBusEvent V → List Nat
  | .call _ _ => [s.arrived]
  | _ => []

/-- **The moves of an event.** -/
theorem moves_handle {e : DBusEvent V}
    (hroom : s.handleCreates e → room s.number s.batches.idents s.barriers) :
    ∃ s' scope signals, Start s s' scope signals ∧
      Moves room scope signals (s.handleReadies e) (s', []) (s.handle e, []) := by
  -- most events only start functions
  have hplain : ∀ (rules : DBusRules) (managed : List CStr) (ts : List (DBusTask V))
      (f : Option (BarrierFunc V)), (∀ t ∈ ts, opens t) → (∀ g ∈ f, g.seqs ⊆ [s.arrived]) →
      s.handle e = ({ s with rules := rules, managed := managed } : DBusCache V).push
        (ts ++ f.toList.map .barrier) →
      ∃ s' scope signals, Start s s' scope signals ∧
        Moves room scope signals (s.handleReadies e) (s', []) (s.handle e, []) := by
    intro rules managed ts f hts hf heq
    exact ⟨_, [], [], .plain rules managed s.watches hts f hf, by rw [heq]⟩
  have hidle : Start s s [] [] :=
    .plain s.rules s.managed s.watches (t := []) (by simp) none (by simp)
  cases e with
  | run stale => exact hplain s.rules s.managed [] none (by simp) (by simp) rfl
  | unwatch path isNamespace interface =>
    exact hplain (s.rules.remove path isNamespace interface none none).1 s.managed [] none
      (by simp) (by simp) rfl
  | methodReply path interface body =>
    cases body with
    | none =>
      exact hplain s.rules s.managed [.poke path (some interface)] (some (.waitComplete s.arrived))
        (by simp [opens]) (by simp [BarrierFunc.seqs]) rfl
    | some body =>
      exact hplain s.rules s.managed
        [.poke path (some interface), .scrapeVariant none (variantPaths body)]
        (some (.waitComplete s.arrived)) (by simp [opens]) (by simp [BarrierFunc.seqs]) rfl
  | signal path interface =>
    exact hplain s.rules s.managed [.poke path (some interface)] (some (.waitComplete s.arrived))
      (by simp [opens]) (by simp [BarrierFunc.seqs]) rfl
  | propertiesSignal path interface changed invalidated =>
    by_cases hwatch : s.watchesInterface path interface
    · exact hplain s.rules s.managed [] (some (.processPropertiesBarrier
        ⟨path, interface, changed, invalidated, s.arrived⟩)) (by simp) (by simp [BarrierFunc.seqs])
        (if_pos hwatch)
    · exact hplain s.rules s.managed [] none (by simp) (by simp) (if_neg hwatch)
  | managerSignal path body =>
    cases body with
    | none => exact hplain s.rules (Paths.add s.managed path) [] none (by simp) (by simp) rfl
    | some body =>
      cases body with
      | interfacesAdded opath interfaces =>
        exact hplain s.rules (Paths.add s.managed path) [] (some (.processInterfacesAdded
          (if path ∈ s.managed then none else some path) opath interfaces)) (by simp)
          (by simp [BarrierFunc.seqs]) rfl
      | interfacesRemoved opath interfaces =>
        exact hplain s.rules (Paths.add s.managed path) [] (some (.processInterfacesRemoved
          (if path ∈ s.managed then none else some path) opath interfaces)) (by simp)
          (by simp [BarrierFunc.seqs]) rfl
  | interfaceInfo name => exact ⟨s, [], [], hidle, moves_interfaceInfoPush name⟩
  | call path interface =>
    exact ⟨s, [], [], hidle, moves_introspectMaybe_none (f := .introspectReady s.arrived)
      (fun h => hroom (by simpa [handleCreates] using h)) (nil_subset _)
      (List.Subset.refl _) path⟩
  | watch path isNamespace interface reply =>
    obtain ⟨watches, hwatch⟩ : ∃ watches, (if s.addsRule path isNamespace interface = true then
        { s with watches := (s.arrived, s.batches.next) :: s.watches } else s) =
        { s with watches := watches } := by
      split
      · exact ⟨_, rfl⟩
      · exact ⟨s.watches, rfl⟩
    show ∃ s' scope signals, Start s s' scope signals ∧
      Moves room scope signals [] (s', []) (s.handleWatch path isNamespace interface reply, [])
    unfold handleWatch
    rw [hwatch]
    cases reply with
    | true =>
      exact ⟨_, [], [], .plain (s.rules.add path isNamespace interface none none).1 s.managed
        watches (t := [.poke (path.getD rootPath) none]) (by simp [opens])
        (some (.waitComplete s.arrived)) (by simp [BarrierFunc.seqs]),
        moves_watch (s := ({ s with watches := watches } : DBusCache V).push
          [.poke (path.getD rootPath) none, .barrier (.waitComplete s.arrived)]) hroom⟩
    | false =>
      exact ⟨_, [], [], .plain (s.rules.add path isNamespace interface none none).1 s.managed
        watches (t := []) (by simp) none (by simp),
        moves_watch (s := { s with watches := watches }) hroom⟩
  | introspectReply node =>
    show ∃ s' scope signals, Start s s' scope signals ∧
      Moves room scope signals [] (s', []) (s.onIntrospectReply node, [])
    unfold onIntrospectReply
    split
    · exact ⟨s, [], [], hidle, .refl⟩
    rename_i id rest heq
    split
    · rename_i hid
      refine ⟨_, _, _, .introspect heq hid, ?_⟩
      cases node with
      | none => exact .refl
      | some node => exact moves_processIntrospectNode (.inr mem_cons_self) _ _ node _
    · exact ⟨s, [], [], hidle, .refl⟩
  | getReply k value =>
    show ∃ s' scope signals, Start s s' scope signals ∧
      Moves room scope signals [] (s', []) (s.onGetReply k value, [])
    unfold onGetReply
    split
    · rename_i batch path iface property seq heq
      refine ⟨_, _, _, .call heq, ?_⟩
      cases value with
      | none => exact .refl
      | some value =>
        have hedit : ∀ c : Contents V, c.Edits [seq] (processValue (some seq) path iface
            (c.ensureProperties path iface) (property, value)) := by
          intro c
          refine (edits_ensureProperties c path iface).trans ?_
          exact (edits_processValue (List.Subset.refl [seq])
            (properties_ensureProperties_self c path iface) (property, value)).1
        exact .trans (moves_edit hedit (.inr (cons_ne_nil _ _))) (moves_push
          (t := .scrapeVariant none (variantPaths value)) rfl (by simp [DBusTask.borrows])
          (nil_subset _))
    · exact ⟨s, [], [], hidle, .refl⟩
  | getAllReply k dict =>
    show ∃ s' scope signals, Start s s' scope signals ∧
      Moves room scope signals [] (s', []) (s.onGetAllReply k dict, [])
    unfold onGetAllReply
    split
    · rename_i batch path iface heq
      have hborrow : ∀ {t : DBusTask V}, t.borrows = [batch] → ∀ b ∈ t.borrows, b ∈ [batch] :=
        fun h b hb => h ▸ hb
      refine ⟨_, _, _, .call heq, ?_⟩
      refine .trans (moves_push (t := .ensureChange batch path iface) rfl
        (fun b hb => .inl (hborrow rfl b hb)) (nil_subset _)) ?_
      cases dict with
      | none => exact .refl
      | some dict =>
        have hedit : ∀ c : Contents V, c.Edits [] (c.processProperties none path iface dict) :=
          fun c => edits_processProperties (nil_subset _) c path iface dict
        exact .trans (moves_edit hedit (.inr (cons_ne_nil _ _))) (moves_push
          (t := .scrapeVariant (some batch) (dictPaths dict)) rfl
          (fun b hb => .inl (hborrow rfl b hb)) (nil_subset _))
    · exact ⟨s, [], [], hidle, .refl⟩
  | managedReply k objects =>
    show ∃ s' scope signals, Start s s' scope signals ∧
      Moves room scope signals [] (s', []) (s.onManagedReply k objects, [])
    unfold onManagedReply
    split
    · rename_i batch path heq
      have hborrow : ∀ {t : DBusTask V}, t.borrows = [batch] → ∀ b ∈ t.borrows, b ∈ [batch] :=
        fun h b hb => h ▸ hb
      refine ⟨_, _, _, .call heq, ?_⟩
      refine .trans (moves_push (t := .introspectQueue batch path) rfl
        (fun b hb => .inl (hborrow rfl b hb)) (nil_subset _)) ?_
      cases objects with
      | none => exact .refl
      | some objects =>
        exact .trans (.single (.learn s.introspected (Paths.add s.managed path))) (moves_push
          (t := .processPaths batch (s.contents.cache.keys.filter (hasAncestor · path)) objects)
          rfl (fun b hb => .inl (hborrow rfl b hb)) (nil_subset _))
    · exact ⟨s, [], [], hidle, .refl⟩

end

end DBusCache

end Cockpit
