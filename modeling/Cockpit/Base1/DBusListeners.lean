import Cockpit.Common.Json
import Cockpit.Lib.Run

namespace Cockpit.Page.DBusCache

open Lib DBusCache

/-!
# `src/base1/cockpit.js`: the callbacks of a `DBusCache`

`connect` puts an array of a path, an interface and a callback into a list, and what it returns
looks for such an array to remove it.  An emission runs through a copy of the list, and its
callbacks may do anything with the cache: they connect, remove and emit while it goes on.
`Listeners` is what the list stands for: the connections that there are.

* `DBusCache.right_iff` — when the loop of an emission comes to the call that is next for it;
* `DBusCache.run_calls` — and when the loops of all emissions of a run do.
-/

/-! ### The list -/

/-- A path or an interface that a caller gives. -/
inductive Field where
  | undefined
  | null
  | text (s : String)
  deriving DecidableEq

/-- `!field || field === s` -/
def Field.admits : Field → String → Bool
  | .text t, s => t == "" || t == s
  | _, _ => true

/-- What `connect` is called with; a callback is known by a number. -/
@[ext] structure Connection where
  path : Field
  iface : Field
  callback : Nat
  deriving DecidableEq

/-- An array in `callbacks`, and the connection that it was made for. -/
structure Entry where
  id : Nat
  made : Connection
  path : Field
  iface : Field
  callback : Option Nat
  deriving DecidableEq

/-- `[path, iface, callback]` -/
def Entry.new (id : Nat) (made : Connection) : Entry :=
  ⟨id, made, made.path, made.iface, some made.callback⟩

variable (entry : Entry)

/-- What never changes of an array. -/
def Entry.origin : Nat × Connection := (entry.id, entry.made)

/-- `delete cb[i]` -/
def Entry.delete : Nat → Entry
  | 0 => { entry with path := .undefined }
  | 1 => { entry with iface := .undefined }
  | 2 => { entry with callback := none }
  | _ => entry

/-- Whether `remove` takes the array for that of a connection. -/
def Entry.isFor (c : Connection) : Bool :=
  entry.path == c.path && entry.iface == c.iface && entry.callback == some c.callback

/-- The filter of `emit`. -/
def Entry.fits (path iface : String) : Bool :=
  entry.path.admits path && entry.iface.admits iface

/-- The filter of a connection. -/
def Connection.fits (c : Connection) (path iface : String) : Bool :=
  c.path.admits path && c.iface.admits iface

/-- The call of a connection's callback; an object of properties is known by a number. -/
structure Call where
  connection : Nat
  callback : Nat
  props : Option Nat
  path : String

/-- What `emit` is called with. -/
structure Emission where
  path : String
  iface : String
  props : Option Nat

end DBusCache

/-! ### The cache -/

/-- `DBusCache`, with the connections that it has returned. -/
structure DBusCache where
  callbacks : List DBusCache.Entry := []
  connections : List DBusCache.Connection := []
  /-- The interfaces of the paths of `self.data`, and the objects that they are. -/
  data : List (String × List (String × Nat)) := []
  objects : List JsonObject := []

namespace DBusCache

open Lib

/-- What is done to a cache. -/
inductive Op where
  /-- `connect` -/
  | connect (c : Connection) (first : Bool)
  /-- `remove` of a connection that was returned -/
  | disconnect (id : Nat)
  | update (path iface : String) (props : JsonObject)
  | remove (path iface : String)

variable (s : DBusCache)

/-- `self.data[path]` -/
def ifacesOf (path : String) : Option (List (String × Nat)) :=
  s.data.lookup path

def setIfaces (path : String) (ifaces : List (String × Nat)) : DBusCache :=
  { s with data := (path, ifaces) :: s.data.filter fun d => d.1 != path }

/-- `extend`, for values of JSON -/
def extend (target fields : JsonObject) : JsonObject :=
  fields.foldl (fun target field => target.setMember field.1 field.2) target

/-- `self.connect` -/
def connect (c : Connection) (first : Bool) : DBusCache :=
  let cb := Entry.new s.connections.length c
  { s with
    callbacks := if first then cb :: s.callbacks else s.callbacks ++ [cb]
    connections := s.connections ++ [c] }

/-- The `remove` of what `connect` returned. -/
def disconnect (id : Nat) : DBusCache :=
  match s.connections[id]? with
  | none => s
  | some c =>
    match s.callbacks.findIdx? fun cb => cb.isFor c with
    | none => s
    | some i => { s with callbacks := s.callbacks.modify i fun cb => cb.delete i }

/-- `self.update`, without its emission, and the object that it emits -/
def update (path iface : String) (props : JsonObject) : DBusCache × Nat :=
  let ifaces := (s.ifacesOf path).getD []
  match ifaces.lookup iface with
  | none =>
    ({ s.setIfaces path ((iface, s.objects.length) :: ifaces) with
      objects := s.objects ++ [props] }, s.objects.length)
  | some object =>
    ({ s with objects := s.objects.modify object fun old => extend old props }, object)

/-- `self.remove`, without its emission -/
def remove (path iface : String) : DBusCache :=
  match s.ifacesOf path with
  | none => s
  | some ifaces => s.setIfaces path (ifaces.filter fun d => d.1 != iface)

def step : Op → DBusCache
  | .connect c first => s.connect c first
  | .disconnect id => s.disconnect id
  | .update path iface props => (s.update path iface props).1
  | .remove path iface => s.remove path iface

/-- The call of `emit` that there is. -/
def emission : Op → Option Emission
  | .update path iface props => some ⟨path, iface, some (s.update path iface props).2⟩
  | .remove path iface => (s.ifacesOf path).map fun _ => ⟨path, iface, none⟩
  | _ => none

/-- The array that is now of an origin. -/
def array (origin : Nat × Connection) : Option Entry :=
  s.callbacks.find? fun cb => cb.origin == origin

/-- The next array of a copy that fits an emission, and what comes behind it. -/
def nextFit (s : DBusCache) (e : Emission) :
    List (Nat × Connection) → Option (Entry × List (Nat × Connection))
  | [] => none
  | origin :: copy =>
    match (s.array origin).filter fun cb => cb.fits e.path e.iface with
    | some cb => some (cb, copy)
    | none => nextFit s e copy

/-! ### What the list stands for -/

/-- The connections that there are, in the order of their calls, and how many were made. -/
structure Listeners where
  connected : List (Nat × Connection) := []
  made : Nat := 0

variable (l : Listeners)

def Listeners.step : Op → Listeners
  | .connect c first =>
    { connected := if first then (l.made, c) :: l.connected else l.connected ++ [(l.made, c)]
      made := l.made + 1 }
  | .disconnect id => { l with connected := l.connected.filter fun p => p.1 != id }
  | _ => l

variable (e : Emission)

/-- The call of a connection for an emission. -/
def callOf (p : Nat × Connection) : Call := ⟨p.1, p.2.callback, e.props, e.path⟩

/-- Whether a connection is there. -/
def Listeners.has (id : Nat) : Bool := l.connected.any fun p => p.1 == id

/-- Whether an emission is for a connection. -/
def Listeners.expects (p : Nat × Connection) : Bool :=
  l.has p.1 && p.2.fits e.path e.iface

/-- The calls for an emission: each connection whose filters match, in order. -/
def Listeners.calls : List Call :=
  (l.connected.filter fun p => p.2.fits e.path e.iface).map (callOf e)

/-! ### Emissions that run -/

/-- A call of `emit` that has not returned, with the connections that there were before it. -/
structure Running where
  emission : Emission
  before : Listeners
  /-- The arrays of the copy that the loop has not come to, by what never changes of them. -/
  copy : List (Nat × Connection)
  calls : List Call := []

/-- What the loop of an emission comes to. -/
inductive Loop where
  /-- It calls a callback. -/
  | called (f : Running)
  | returned
  /-- There is no callback: `cb[2]` is undefined. -/
  | threw

/-- `emit`, from where its loop is to the next call -/
def loop (f : Running) : Loop :=
  match s.nextFit f.emission f.copy with
  | none => .returned
  | some (cb, copy) =>
    match cb.callback with
    | none => .threw
    | some callback =>
      .called { f with
        copy := copy
        calls := f.calls ++ [⟨cb.id, callback, f.emission.props, f.emission.path⟩] }

/-- A cache, the connections that there are, and the emissions that run, the innermost first: the
    code that runs is a callback of that one. -/
structure World where
  cache : DBusCache := {}
  listeners : Listeners := {}
  running : List Running := []

/-- What happens: the code that runs does something to the cache, returns from the callback, or
    throws, be it an exception of its own or one that it has not caught. -/
inductive Event where
  | op (op : Op)
  | returned
  | threw

variable (w : World)

/-- The emission whose loop goes on. -/
def World.goesOn : Event → Option Running
  | .op op => (w.cache.emission op).map fun e => ⟨e, w.listeners, w.cache.callbacks.map Entry.origin, []⟩
  | .returned => w.running.head?
  | .threw => none

/-- What the code that runs does itself. -/
def World.act : Event → World
  | .op op => { w with cache := w.cache.step op, listeners := w.listeners.step op }
  | .returned | .threw => { w with running := w.running.tail }

def World.step (ev : Event) : World :=
  let w' := w.act ev
  match w.goesOn ev with
  | none => w'
  | some f =>
    match w'.cache.loop f with
    | .called f' => { w' with running := f' :: w'.running }
    | .returned | .threw => w'

/-- What the loop comes to is right: the next call of those for the emission, or its end after the
    last of them, and no exception. -/
def Right (f : Running) : Prop :=
  match s.loop f with
  | .called f' => f'.calls <+: f.before.calls f.emission
  | .returned => f.calls = f.before.calls f.emission
  | .threw => False

/-- What happens makes no emission go wrong. -/
def Calls (ev : Event) : Prop :=
  (∀ f ∈ w.goesOn ev, Right (w.act ev).cache f) ∧ (ev = .threw → w.running = [])

/-- The next array that the emission fits still has its callback, and belongs to a connection that
    was there before the emission and was made for it. -/
def ClearOf (f : Running) : Prop :=
  ∀ cb copy, s.nextFit f.emission f.copy = some (cb, copy) →
    f.before.expects f.emission cb.origin ∧ cb.callback.isSome

/-- An emission that goes on is clear, and no callback throws. -/
def Clear (ev : Event) : Prop :=
  (∀ f ∈ w.goesOn ev, ClearOf (w.act ev).cache f) ∧ (ev = .threw → w.running = [])

/-- What is left of the arrays. -/
structure Sound (s : DBusCache) (l : Listeners) : Prop where
  made : l.made = s.connections.length
  connected : l.connected = (s.callbacks.map Entry.origin).filter fun p => l.has p.1
  id : ∀ cb ∈ s.callbacks, cb.id < s.connections.length
  nodup : ((s.callbacks.map Entry.origin).map Prod.fst).Nodup
  path : ∀ cb ∈ s.callbacks, cb.path = cb.made.path ∨ cb.path = .undefined
  iface : ∀ cb ∈ s.callbacks, cb.iface = cb.made.iface ∨ cb.iface = .undefined
  callback : ∀ cb ∈ s.callbacks, cb.callback = some cb.made.callback ∨ cb.callback = none

/-! ### Keeping it -/

@[simp] theorem origin_delete (cb : Entry) (i : Nat) : (cb.delete i).origin = cb.origin := by
  unfold Entry.delete
  split <;> rfl

variable {cb : Entry}

/-- One array has been changed. -/
theorem mem_modify {l : List Entry} {i j : Nat} (h : cb ∈ l.modify i fun cb => cb.delete j) :
    cb ∈ l ∨ ∃ old ∈ l, cb = old.delete j := by
  obtain ⟨k, hk⟩ := List.mem_iff_getElem?.mp h
  rw [List.getElem?_modify] at hk
  obtain ⟨old, hold, rfl⟩ := Option.map_eq_some_iff.mp hk
  have hmem := List.mem_of_getElem? hold
  split
  · exact .inr ⟨old, hmem, rfl⟩
  · exact .inl hmem

theorem origin_modify (l : List Entry) (i j : Nat) :
    (l.modify i fun cb => cb.delete j).map Entry.origin = l.map Entry.origin := by
  apply List.ext_getElem?
  intro k
  rw [List.getElem?_map, List.getElem?_modify, List.getElem?_map]
  cases l[k]? with
  | none => rfl
  | some cb => by_cases h : i = k <;> simp [h]

theorem has_iff {l : Listeners} {id : Nat} : l.has id ↔ ∃ c, (id, c) ∈ l.connected := by
  simp [Listeners.has]

theorem has_connect (c : Connection) (first : Bool) (id : Nat) :
    (l.step (.connect c first)).has id = (l.has id || l.made == id) := by
  cases first <;> simp [Listeners.step, Listeners.has, Bool.or_comm]

theorem has_disconnect (gone id : Nat) :
    (l.step (.disconnect gone)).has id = (l.has id && id != gone) := by
  rw [Bool.eq_iff_iff, has_iff, Bool.and_eq_true, has_iff]
  simp [Listeners.step]

variable {s : DBusCache} {l : Listeners}

theorem Sound.connect (h : Sound s l) (c : Connection) (first : Bool) :
    Sound (s.connect c first) (l.step (.connect c first)) := by
  have hne : ∀ cb ∈ s.callbacks, ¬ l.made = cb.id := by
    intro cb hcb
    have := h.id cb hcb
    have := h.made
    omega
  have hmem : ∀ cb, cb ∈ (s.connect c first).callbacks ↔
      cb = Entry.new s.connections.length c ∨ cb ∈ s.callbacks := by
    intro cb
    cases first <;> simp [DBusCache.connect, or_comm]
  have hold : (s.callbacks.map Entry.origin).filter
      (fun p => (l.step (.connect c first)).has p.1) = l.connected := by
    rw [h.connected]
    refine List.filter_congr fun p hp => ?_
    obtain ⟨cb, hcb, rfl⟩ := List.mem_map.mp hp
    simp [has_connect, Entry.origin, hne cb hcb]
  have hnew : (l.step (.connect c first)).has (Entry.new s.connections.length c).origin.1 := by
    simp [has_connect, h.made, Entry.origin, Entry.new]
  refine ⟨?_, ?_, ?_, ?_, ?_, ?_, ?_⟩
  · simp [Listeners.step, DBusCache.connect, h.made]
  · cases first with
    | true =>
      simp only [DBusCache.connect, if_true, List.map_cons]
      rw [List.filter_cons, hold, if_pos hnew]
      simp [Listeners.step, h.made, Entry.origin, Entry.new]
    | false =>
      simp only [DBusCache.connect, Bool.false_eq_true, if_false, List.map_append, List.filter_append,
        hold]
      rw [List.map_singleton, List.filter_cons, if_pos hnew]
      simp [Listeners.step, h.made, Entry.origin, Entry.new]
  · intro cb hcb
    simp only [DBusCache.connect, List.length_append, List.length_singleton]
    rcases (hmem cb).mp hcb with rfl | hcb
    · exact Nat.lt_succ_self _
    · exact Nat.lt_succ_of_lt (h.id cb hcb)
  · have hfresh : (Entry.new s.connections.length c).origin.1 ∉
        (s.callbacks.map Entry.origin).map Prod.fst := by
      simp only [List.map_map, List.mem_map, not_exists, not_and]
      exact fun cb hcb hid => (h.id cb hcb).ne hid
    cases first with
    | true => exact List.nodup_cons.mpr ⟨hfresh, h.nodup⟩
    | false =>
      simp only [DBusCache.connect, Bool.false_eq_true, if_false, List.map_append]
      exact (List.nodup_append_comm.mp (List.nodup_cons.mpr ⟨hfresh, h.nodup⟩))
  · intro cb hcb
    rcases (hmem cb).mp hcb with rfl | hcb
    · exact .inl rfl
    · exact h.path cb hcb
  · intro cb hcb
    rcases (hmem cb).mp hcb with rfl | hcb
    · exact .inl rfl
    · exact h.iface cb hcb
  · intro cb hcb
    rcases (hmem cb).mp hcb with rfl | hcb
    · exact .inl rfl
    · exact h.callback cb hcb

/-- A removal takes something from one array at most. -/
theorem disconnect_cases (s : DBusCache) (id : Nat) :
    s.disconnect id = s ∨ ∃ i, s.disconnect id =
      { s with callbacks := s.callbacks.modify i fun cb => cb.delete i } := by
  unfold disconnect
  split
  · exact .inl rfl
  split
  · exact .inl rfl
  · exact .inr ⟨_, rfl⟩

/-- What an array loses keeps it sound. -/
theorem Sound.modify (h : Sound s l) (i : Nat) :
    Sound { s with callbacks := s.callbacks.modify i fun cb => cb.delete i } l := by
  have horigin := origin_modify s.callbacks i i
  refine ⟨h.made, horigin.symm ▸ h.connected, ?_, horigin.symm ▸ h.nodup, ?_, ?_, ?_⟩
  · intro cb hcb
    rcases mem_modify hcb with hcb | ⟨old, hold, rfl⟩
    · exact h.id cb hcb
    · exact (congrArg Prod.fst (origin_delete old i)).trans_lt (h.id old hold)
  all_goals
    intro cb hcb
    rcases mem_modify hcb with hcb | ⟨old, hold, rfl⟩
  · exact h.path cb hcb
  · have := h.path old hold
    unfold Entry.delete
    split <;> simp [this]
  · exact h.iface cb hcb
  · have := h.iface old hold
    unfold Entry.delete
    split <;> simp [this]
  · exact h.callback cb hcb
  · have := h.callback old hold
    unfold Entry.delete
    split <;> simp [this]

theorem Sound.disconnect (h : Sound s l) (gone : Nat) :
    Sound (s.disconnect gone) (l.step (.disconnect gone)) := by
  have hgone : Sound s (l.step (.disconnect gone)) := by
    refine { h with connected := ?_ }
    have hfilter : (l.step (.disconnect gone)).connected =
        l.connected.filter fun p => p.1 != gone := rfl
    rw [hfilter, h.connected, List.filter_filter]
    refine List.filter_congr fun p _ => ?_
    rw [has_disconnect, Bool.and_comm]
  rcases disconnect_cases s gone with heq | ⟨i, heq⟩
  · rw [heq]
    exact hgone
  · rw [heq]
    exact hgone.modify i

theorem Sound.data (h : Sound s l) (data : List (String × List (String × Nat)))
    (objects : List JsonObject) : Sound { s with data := data, objects := objects } l :=
  { h with }

/-- Every operation keeps it. -/
theorem Sound.step (h : Sound s l) (op : Op) : Sound (s.step op) (l.step op) := by
  cases op with
  | connect c first => exact h.connect c first
  | disconnect id => exact h.disconnect id
  | update path iface props =>
    simp only [DBusCache.step, DBusCache.update]
    split
    · exact h.data _ _
    · exact h.data _ _
  | remove path iface =>
    simp only [DBusCache.step, DBusCache.remove]
    split
    · exact h
    · exact h.data _ _

/-- Only connecting and removing a connection change the list, and no array leaves it. -/
theorem origins_step (s : DBusCache) (op : Op) :
    s.callbacks.map Entry.origin ⊆ (s.step op).callbacks.map Entry.origin := by
  cases op with
  | connect c first => cases first <;> simp [step, connect]
  | disconnect id =>
    rcases disconnect_cases s id with heq | ⟨i, heq⟩
    · simp [step, heq]
    · simp [step, heq, origin_modify]
  | update path iface props =>
    simp only [step, update]
    split <;> exact List.Subset.refl _
  | remove path iface =>
    simp only [step, remove]
    split <;> exact List.Subset.refl _

/-! ### The loop of an emission -/

/-- Without a filter an array fits more. -/
theorem Sound.fits (h : Sound s l) (hcb : cb ∈ s.callbacks) {path iface : String}
    (hfits : cb.made.fits path iface) : cb.fits path iface := by
  rw [Connection.fits, Bool.and_eq_true] at hfits
  rw [Entry.fits, Bool.and_eq_true]
  constructor
  · rcases h.path cb hcb with heq | heq
    · rw [heq]
      exact hfits.1
    · rw [heq]
      rfl
  rcases h.iface cb hcb with heq | heq
  · rw [heq]
    exact hfits.2
  · rw [heq]
    rfl

/-- What the loop has called is what is expected of it but for the rest of its copy. -/
structure Follows (s : DBusCache) (f : Running) : Prop where
  array : f.copy ⊆ s.callbacks.map Entry.origin
  nodup : (f.copy.map Prod.fst).Nodup
  calls : f.calls ++ (f.copy.filter (f.before.expects f.emission)).map (callOf f.emission) =
    f.before.calls f.emission

/-- An array is found by its origin. -/
theorem exists_array {p : Nat × Connection} (hp : p ∈ s.callbacks.map Entry.origin) :
    ∃ cb ∈ s.callbacks, s.array p = some cb ∧ cb.origin = p := by
  obtain ⟨cb, hcb, horigin⟩ := List.mem_map.mp hp
  have hsome : (s.array p).isSome := List.find?_isSome.mpr ⟨cb, hcb, beq_iff_eq.mpr horigin⟩
  obtain ⟨cb', hfind⟩ : ∃ cb', s.callbacks.find? (fun cb => cb.origin == p) = some cb' :=
    Option.isSome_iff_exists.mp hsome
  have hp' := List.find?_some hfind
  exact ⟨cb', List.mem_of_find?_eq_some hfind, hfind, beq_iff_eq.mp hp'⟩

/-- No connection is expected for what the loop passes over. -/
theorem nextFit_cases (h : Sound s l) (before : Listeners) (e : Emission)
    {copy : List (Nat × Connection)} (harray : copy ⊆ s.callbacks.map Entry.origin) :
    (s.nextFit e copy = none ∧ copy.filter (before.expects e) = []) ∨
      ∃ cb rest, cb ∈ s.callbacks ∧ s.nextFit e copy = some (cb, rest) ∧
        cb.origin :: rest <:+ copy ∧
        copy.filter (before.expects e) = (cb.origin :: rest).filter (before.expects e) := by
  induction copy with
  | nil => exact .inl ⟨rfl, rfl⟩
  | cons p copy ih =>
    obtain ⟨cb, hcb, hfind, rfl⟩ := exists_array (harray List.mem_cons_self)
    rw [nextFit, hfind]
    cases hfits : cb.fits e.path e.iface with
    | true =>
      refine .inr ⟨cb, copy, hcb, ?_, List.suffix_refl _, rfl⟩
      rw [Option.filter_some, if_pos hfits]
    | false =>
      have hno : before.expects e cb.origin = false := by
        rw [Listeners.expects, Bool.and_eq_false_iff]
        refine .inr (Bool.eq_false_iff.mpr fun hmade => ?_)
        exact absurd ((h.fits hcb hmade).symm.trans hfits) (by decide)
      rw [Option.filter_some, if_neg (by simp [hfits]), List.filter_cons, if_neg (by simp [hno])]
      refine (ih (List.subset_of_cons_subset harray)).imp_right ?_
      rintro ⟨cb', rest, hcb', hnext, hsuffix, hfilter⟩
      exact ⟨cb', rest, hcb', hnext, hsuffix.trans (List.suffix_cons _ _), hfilter⟩

variable {f : Running}

/-- **When the loop of an emission is right**: when the next array that the emission fits still has
    its callback, and belongs to a connection that was there before and was made for it. -/
theorem right_iff (h : Sound s l) (hf : Follows s f) : Right s f ↔ ClearOf s f := by
  unfold Right ClearOf loop
  rcases nextFit_cases h f.before f.emission hf.array with
    ⟨hnext, hrest⟩ | ⟨cb, rest, hcb, hnext, hsuffix, hrest⟩
  · have hcalls := hf.calls
    rw [hrest, List.map_nil, List.append_nil] at hcalls
    simp [hnext, hcalls]
  rw [hnext]
  simp only [Option.some.injEq, Prod.mk.injEq, and_imp, forall_eq', forall_apply_eq_imp_iff]
  rcases h.callback cb hcb with hcall | hcall
  · rw [hcall, ← hf.calls, hrest, List.filter_cons]
    simp only [Option.isSome_some, and_true]
    rw [List.prefix_append_right_inj]
    constructor
    · intro hprefix
      by_contra hno
      -- what is called would be expected behind the array
      rw [if_neg hno] at hprefix
      have hmem := hprefix.subset (List.mem_singleton_self _)
      obtain ⟨p, hp, hcallOf⟩ := List.mem_map.mp hmem
      have hid : p.1 = cb.id := congrArg Call.connection hcallOf
      have hnodup := hf.nodup.sublist (hsuffix.sublist.map Prod.fst)
      rw [List.map_cons, List.nodup_cons] at hnodup
      exact hnodup.1 (List.mem_map.mpr ⟨p, (List.mem_filter.mp hp).1, hid⟩)
    · intro hclear
      rw [if_pos hclear, List.map_cons]
      exact List.prefix_append [_] _
  · simp [hcall]

/-- A call that is right leaves what is expected behind it. -/
theorem Follows.called (h : Sound s l) (hf : Follows s f) (hclear : ClearOf s f) {f' : Running}
    (hloop : s.loop f = .called f') : Follows s f' := by
  unfold loop at hloop
  rcases nextFit_cases h f.before f.emission hf.array with
    ⟨hnext, -⟩ | ⟨cb, rest, hcb, hnext, hsuffix, hrest⟩
  · rw [hnext] at hloop
    cases hloop
  obtain ⟨hexpects, hsome⟩ := hclear cb rest hnext
  have hcall := (h.callback cb hcb).resolve_right fun hnone => by simp [hnone] at hsome
  simp only [hnext, hcall] at hloop
  cases hloop
  refine ⟨?_, ?_, ?_⟩
  · exact fun p hp => hf.array (hsuffix.subset (List.mem_cons_of_mem _ hp))
  · exact (hf.nodup.sublist (hsuffix.sublist.map Prod.fst)).of_cons
  · rw [← hf.calls, hrest, List.filter_cons, if_pos hexpects, List.map_cons, List.append_assoc]
    rfl

/-- An emission that begins expects all connections that there are. -/
theorem Sound.follows (h : Sound s l) (e : Emission) :
    Follows s ⟨e, l, s.callbacks.map Entry.origin, []⟩ := by
  refine ⟨List.Subset.refl _, h.nodup, ?_⟩
  rw [List.nil_append, Listeners.calls, h.connected, List.filter_filter]
  refine congrArg _ (List.filter_congr fun p _ => ?_)
  rw [Listeners.expects, Bool.and_comm]

/-! ### Runs -/

/-- Every emission that runs follows what is expected of it. -/
structure World.Inv (w : World) : Prop where
  sound : Sound w.cache w.listeners
  running : ∀ f ∈ w.running, Follows w.cache f

theorem World.Inv.act {w : World} (h : w.Inv) (ev : Event) : (w.act ev).Inv := by
  cases ev with
  | op op =>
    refine ⟨h.sound.step op, fun f hf => ?_⟩
    have hfollows := h.running f hf
    exact ⟨List.Subset.trans hfollows.array (origins_step w.cache op), hfollows.nodup, hfollows.calls⟩
  | returned => exact ⟨h.sound, fun f hf => h.running f (List.mem_of_mem_tail hf)⟩
  | threw => exact ⟨h.sound, fun f hf => h.running f (List.mem_of_mem_tail hf)⟩

/-- What the loop that goes on has called. -/
theorem World.Inv.goesOn {w : World} (h : w.Inv) {ev : Event} (hgoes : f ∈ w.goesOn ev) :
    Follows (w.act ev).cache f := by
  cases ev with
  | op op =>
    obtain ⟨e, -, rfl⟩ := Option.mem_map.mp hgoes
    have hfollows := h.sound.follows e
    exact ⟨List.Subset.trans hfollows.array (origins_step w.cache op), hfollows.nodup, hfollows.calls⟩
  | returned => exact h.running f (List.mem_of_mem_head? hgoes)
  | threw => cases hgoes

theorem World.Inv.step {w : World} (h : w.Inv) (ev : Event) (hclear : Clear w ev) :
    (w.step ev).Inv := by
  have hact := h.act ev
  unfold World.step
  cases hgoes : w.goesOn ev with
  | none => exact hact
  | some f =>
    dsimp only
    split
    · rename_i f' hloop
      refine ⟨hact.sound, fun g hg => ?_⟩
      rcases List.mem_cons.mp hg with rfl | hg
      · exact (h.goesOn hgoes).called hact.sound (hclear.1 f hgoes) hloop
      · exact hact.running g hg
    · exact hact
    · exact hact

/-- **When the emissions of a run call the connections that there are**: each one that was there
    before the emission and matches, in order, and no emission throws. -/
theorem run_calls (evs : List Event) :
    RunOk World.step Calls {} evs ↔ RunOk World.step Clear {} evs := by
  have hstart : World.Inv {} := ⟨⟨rfl, rfl, by simp, List.nodup_nil, by simp, by simp, by simp⟩, by simp⟩
  have hiff : ∀ w ev, World.Inv w → (Calls w ev ↔ Clear w ev) := by
    intro w ev h
    exact and_congr_left fun _ => forall₂_congr fun f hgoes =>
      right_iff (h.act ev).sound (h.goesOn hgoes)
  exact runOk_congr World.Inv (fun w ev h hok => h.step ev ((hiff w ev h).mp hok)) hiff hstart evs

/-- A connection that listens to everything. -/
def everything (callback : Nat) : Connection := ⟨.undefined, .undefined, callback⟩

/-- A callback that was removed is called; and where it was the third one, an emission throws, be it
    a later one or one that runs when it is removed. -/
theorem removed_not_silent :
    ¬ RunOk World.step Calls {} [.op (.connect (everything 1) false), .op (.disconnect 0),
        .op (.update "/a" "org.Test" [])] ∧
      ¬ RunOk World.step Calls {} [.op (.connect (everything 1) false),
          .op (.connect (everything 2) false), .op (.connect (everything 3) false),
          .op (.disconnect 2), .op (.update "/a" "org.Test" []), .returned, .returned] ∧
      ¬ RunOk World.step Calls {} [.op (.connect (everything 1) false),
          .op (.connect (everything 2) false), .op (.connect (everything 3) false),
          .op (.update "/a" "org.Test" []), .op (.disconnect 2), .returned, .returned] := by
  refine ⟨?_, ?_, ?_⟩
  · rintro ⟨-, -, h, -⟩
    have hcalls := List.IsPrefix.length_le (h.1 _ rfl)
    exact absurd hcalls (by decide)
  · rintro ⟨-, -, -, -, -, -, h, -⟩
    exact h.1 _ rfl
  · rintro ⟨-, -, -, -, -, -, h, -⟩
    exact h.1 _ rfl

end DBusCache

end Cockpit.Page
