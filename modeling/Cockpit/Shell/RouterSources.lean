import Cockpit.Lib.Decimal
import Cockpit.Lib.Modify
import Cockpit.Shell.Router

namespace Cockpit.Shell

open Lib List Option AList

/-!
# What a frame can rely on

* `Maps`, `Told` — the invariant: the two tables agree, and registered sources are complete;
* `run_routes` — the statement for all runs.
-/

namespace Router

/-! ### The statement -/

variable (s : Router)

/-- The two tables hold the same sources. -/
def Same : Prop :=
  ∀ i, (∃ seed, s.sourceBySeed.lookup seed = some i) ↔ ∃ name, s.sourceByName.lookup name = some i

/-- No two registrations got the same seed. -/
def SeedsOnce : Prop := (s.sources.map Source.channelSeed).Nodup

/-- A message of the bridge on a channel of a registered source goes to its window, and nowhere
    else.  The ids that a transport makes from a seed are `Page.Transport.nextId`. -/
def Posted (S : Setup) (s : Router) : Prop :=
  ∀ i source rest message, s.sourceBySeed.lookup source.channelSeed = some i →
    s.sources[i]? = some source → parseChannel message = some (source.channelSeed ++ rest) →
    (s.incoming S message).log = s.log ++ [.post source.window message]

/-- A window had completed "init" when a message of it was injected. -/
def Guarded : Prop :=
  ∀ before child data found after, s.log = before ++ .inject child data found :: after →
    .inited child ∈ before

/-- The routing as one would have it. -/
structure Strict (S : Setup) (s : Router) : Prop where
  same : s.Same
  seeds : s.SeedsOnce
  posted : s.Posted S
  guarded : s.Guarded

/-- As `Posted`, but a closed window is sent nothing. -/
def PostedIfOpen (S : Setup) (s : Router) : Prop :=
  ∀ i source rest message, s.sourceBySeed.lookup source.channelSeed = some i →
    s.sources[i]? = some source → parseChannel message = some (source.channelSeed ++ rest) →
    (s.incoming S message).log =
      s.log ++ if (s.windows source.window).closed then [] else [.post source.window message]

/-- A text message is injected for a source with the name of its window; if the source is that
    window's own, and the window an open frame, it had completed "init". -/
def Entry.Admitted (before : List Entry) : Entry → Prop
  | .inject child (.text _) (.source i) =>
    ∃ source, s.sources[i]? = some source ∧
      (source.window = child → s.frameElement child ≠ none → .inited child ∈ before)
  | .inject _ (.text _) .none => False
  | _ => True

def GuardedText : Prop :=
  ∀ before entry after, s.log = before ++ entry :: after → entry.Admitted s before

/-- The routing as it is. -/
structure Routes (S : Setup) (s : Router) : Prop where
  same : s.Same
  seeds : s.SeedsOnce
  posted : '!' ∉ S.channelSeed.toList → s.PostedIfOpen S
  guarded : s.GuardedText

/-! ### Seeds -/

theorem seed_injective (S : Setup) {m n : Nat} (h : S.seed m = S.seed n) : m = n := by
  unfold Setup.seed at h
  have hfront := (String.append_left_inj "!").mp h
  exact toString_injective ((String.append_right_inj _).mp hfront)

variable {S : Setup}

/-- Without a '!' in the shell's own seed, the first '!' of a channel ends the source's seed. -/
theorem seedOf_seed (hseed : '!' ∉ S.channelSeed.toList) (id : Nat) (rest : String) :
    seedOf (S.seed id ++ rest) = some (S.seed id) := by
  obtain ⟨own, hown, hfree⟩ : ∃ own : String, '!' ∉ own.toList ∧
      S.seed id = own ++ toString id ++ "!" := by
    refine ⟨if S.channelSeed = "" then "undefined:" else S.channelSeed, ?_, rfl⟩
    split
    · decide
    · exact hseed
  have hfront : ∀ c ∈ own.toList ++ (toString id).toList, (c ≠ '!') := by
    intro c hc
    have hne : c ≠ '!' := by
      rcases mem_append.mp hc with hin | hdigit
      · exact fun heq => hown (heq ▸ hin)
      intro heq
      have hisDigit := isDigit_of_mem_toString hdigit
      rw [heq] at hisDigit
      exact nomatch hisDigit
    simpa using hne
  have hlist : (S.seed id ++ rest).toList
      = (own.toList ++ (toString id).toList) ++ '!' :: rest.toList := by
    rw [hfree]
    simp
  unfold seedOf
  rw [hlist, if_pos (by simp), takeWhile_append_of_pos (by simpa using hfront)]
  simp only [ne_eq, not_true_eq_false, decide_false, Bool.false_eq_true, not_false_eq_true,
    takeWhile_cons_of_neg, append_nil]
  rw [hfree]
  congr 1
  apply String.toList_injective
  simp

/-! ### Growth -/

/-- Entries of which nothing is asked. -/
def Entry.isPlain : Entry → Bool
  | .inject _ (.text _) _ => false
  | _ => true

variable {entry : Entry}

theorem Entry.admitted_of_isPlain (h : entry.isPlain) (s : Router)
    (before : List Entry) : entry.Admitted s before := by
  cases entry with
  | inject child data found =>
    cases data with
    | text text => exact absurd h (by simp [Entry.isPlain])
    | binary data | other => trivial
  | _ => trivial

/-- No source comes or changes, no window gets a frame back, and nothing of text is injected. -/
structure Plain (s t : Router) : Prop where
  uniqueId : t.uniqueId = s.uniqueId
  sources : t.sources = s.sources
  frames : ∀ w, t.frameElement w ≠ none → s.frameElement w ≠ none
  log : ∃ more, t.log = s.log ++ more ∧ ∀ entry ∈ more, entry.isPlain

theorem Plain.refl : Plain s s :=
  ⟨rfl, rfl, fun _ h => h, [], by simp, by simp⟩

variable {t : Router}

theorem Plain.trans {s u : Router} (h : Plain s t) (h' : Plain t u) : Plain s u where
  uniqueId := h'.uniqueId.trans h.uniqueId
  sources := h'.sources.trans h.sources
  frames := fun w hw => h.frames w (h'.frames w hw)
  log := by
    obtain ⟨more, hlog, hall⟩ := h.log
    obtain ⟨more', hlog', hall'⟩ := h'.log
    refine ⟨more ++ more', by rw [hlog', hlog, append_assoc], ?_⟩
    intro entry hentry
    rcases mem_append.mp hentry with hold | hnew
    · exact hall entry hold
    · exact hall' entry hnew

theorem Plain.record (h : entry.isPlain) :
    Plain s (s.record entry) :=
  ⟨rfl, rfl, fun _ hw => hw, [entry], rfl, by simpa using h⟩

/-- As `Plain`, and both tables stay. -/
structure Quiet (s t : Router) : Prop extends Plain s t where
  bySeed : t.sourceBySeed = s.sourceBySeed
  byName : t.sourceByName = s.sourceByName

theorem Quiet.refl : Quiet s s := ⟨Plain.refl s, rfl, rfl⟩

theorem Quiet.trans {s u : Router} (h : Quiet s t) (h' : Quiet t u) : Quiet s u :=
  ⟨h.toPlain.trans h'.toPlain, h'.bySeed.trans h.bySeed, h'.byName.trans h.byName⟩

theorem Quiet.record (h : entry.isPlain) :
    Quiet s (s.record entry) := ⟨Plain.record s h, rfl, rfl⟩

theorem Quiet.postIfOpen (w : Nat) (message : Data) :
    Quiet s (s.postIfOpen w message) := by
  unfold Router.postIfOpen
  split
  · exact Quiet.refl s
  · exact Quiet.record s rfl

variable {s : Router}

theorem frameElement_ne_none {w : Nat} :
    s.frameElement w ≠ none ↔ (s.windows w).framed ∧ (s.windows w).closed = false := by
  unfold frameElement
  split <;> simp_all

/-- A window may change in any way that gives it no frame. -/
theorem Quiet.update (s : Router) (w : Nat) {window : Window}
    (h : window.framed → window.closed = false →
      (s.windows w).framed ∧ (s.windows w).closed = false) :
    Quiet s { s with windows := Function.update s.windows w window } := by
  refine ⟨⟨rfl, rfl, fun v hv => ?_, [], by simp, by simp⟩, rfl, rfl⟩
  rw [frameElement_ne_none] at hv ⊢
  by_cases heq : v = w
  · subst heq
    simp only [Function.update_self] at hv
    exact h hv.1 hv.2
  · simp only [Function.update_of_ne heq] at hv
    exact hv

theorem Quiet.close (s : Router) (w : Nat) : Quiet s (s.close w) :=
  Quiet.update s w nofun

/-! ### The invariant -/

/-- The tables agree with each other and with the sources. -/
structure Maps (S : Setup) (s : Router) : Prop where
  count : s.uniqueId = s.sources.length
  seeds : ∀ i source, s.sources[i]? = some source → source.channelSeed = S.seed (i + 1)
  bySeed : ∀ seed i, s.sourceBySeed.lookup seed = some i → ∃ source, s.sources[i]? = some source ∧
    source.channelSeed = seed ∧ s.sourceByName.lookup source.name = some i
  byName : ∀ name i, s.sourceByName.lookup name = some i → ∃ source, s.sources[i]? = some source ∧
    source.name = name ∧ s.sourceBySeed.lookup source.channelSeed = some i

/-- Registered sources of open frames are complete, `except` for the one that is being registered,
    and only those pass text on. -/
structure Told (except : Option Nat) (s : Router) : Prop where
  complete : ∀ name i source, s.sourceByName.lookup name = some i → some i ≠ except →
    s.sources[i]? = some source → s.frameElement source.window ≠ none → source.inited
  told : ∀ (i : Nat) source, s.sources[i]? = some source → source.inited →
    .inited source.window ∈ s.log
  guarded : s.GuardedText

theorem Maps.quiet {s : Router} (h : Maps S s) (hquiet : Quiet s t) : Maps S t where
  count := by rw [hquiet.uniqueId, hquiet.sources, h.count]
  seeds := by
    rw [hquiet.sources]
    exact h.seeds
  bySeed := by
    rw [hquiet.sources, hquiet.bySeed, hquiet.byName]
    exact h.bySeed
  byName := by
    rw [hquiet.sources, hquiet.bySeed, hquiet.byName]
    exact h.byName

/-- What was admitted stays so while windows close and sources stay where they are. -/
theorem Entry.Admitted.mono {s : Router} {before : List Entry} (h : entry.Admitted s before)
    (hsources : ∀ (i : Nat) (source : Source), s.sources[i]? = some source →
      ∃ source', t.sources[i]? = some source' ∧ source'.window = source.window)
    (hframes : ∀ w, t.frameElement w ≠ none → s.frameElement w ≠ none) :
    entry.Admitted t before := by
  cases entry with
  | inject child data found =>
    cases data with
    | text text =>
      cases found with
      | source i =>
        obtain ⟨source, hsrc, hinited⟩ := h
        obtain ⟨source', hsrc', hwindow⟩ := hsources i source hsrc
        refine ⟨source', hsrc', fun hchild hframe => ?_⟩
        exact hinited (hwindow ▸ hchild) (hframes child hframe)
      | none => exact h
      | inherited => trivial
    | binary data | other => trivial
  | _ => trivial

/-- Text stays guarded when the log grows by admitted entries. -/
theorem GuardedText.append {s : Router} (h : s.GuardedText) {more : List Entry}
    (hlog : t.log = s.log ++ more)
    (hsources : ∀ (i : Nat) (source : Source), s.sources[i]? = some source →
      ∃ source', t.sources[i]? = some source' ∧ source'.window = source.window)
    (hframes : ∀ w, t.frameElement w ≠ none → s.frameElement w ≠ none)
    (hmore : ∀ before entry after, more = before ++ entry :: after →
      entry.Admitted t (s.log ++ before)) : t.GuardedText := by
  intro before entry after heq
  rw [hlog] at heq
  rcases append_eq_append_iff.mp heq with ⟨front, hbef, hnew⟩ | ⟨rest, hold, hnew⟩
  · -- the entry is new
    rw [hbef]
    exact hmore front entry after hnew
  cases rest with
  | nil =>
    have hnone := hmore [] entry after hnew.symm
    rw [append_nil] at hold hnone
    rwa [← hold]
  | cons first rest =>
    rw [cons_append] at hnew
    injection hnew with hfirst hrest
    subst hfirst
    exact Entry.Admitted.mono (h before entry rest hold) hsources hframes

variable {except : Option Nat}

/-- Sources may be taken out of the table by name. -/
theorem Told.plain {s : Router} (h : Told except s) (hplain : Plain s t)
    (hname : ∀ name i, t.sourceByName.lookup name = some i → s.sourceByName.lookup name = some i) :
    Told except t := by
  obtain ⟨more, hlog, hall⟩ := hplain.log
  refine ⟨fun name i source hfind hexcept hsrc hframe => ?_, fun i source hsrc hinited => ?_, ?_⟩
  · rw [hplain.sources] at hsrc
    exact h.complete name i source (hname name i hfind) hexcept hsrc
      (hplain.frames _ hframe)
  · rw [hplain.sources] at hsrc
    rw [hlog]
    exact mem_append_left more (h.told i source hsrc hinited)
  refine GuardedText.append h.guarded hlog ?_ hplain.frames ?_
  · intro i source hsrc
    exact ⟨source, by rw [hplain.sources, hsrc], rfl⟩
  intro before entry after hmore
  apply Entry.admitted_of_isPlain
  apply hall
  rw [hmore]
  simp

theorem Told.quiet {s : Router} (h : Told except s) (hquiet : Quiet s t) :
    Told except t :=
  h.plain hquiet.toPlain fun name i hfind => by rwa [hquiet.byName] at hfind

variable {child : Nat}

/-- A text message goes into the transport for a source of that name. -/
theorem Told.inject (h : Told except s)
    {text : String} {found : Found}
    (hentry : (Entry.inject child (.text text) found).Admitted s s.log) :
    Told except (s.record (.inject child (.text text) found)) := by
  refine ⟨h.complete, fun i source hsrc hinited => ?_, ?_⟩
  · exact mem_append_left _ (h.told i source hsrc hinited)
  refine GuardedText.append h.guarded rfl (fun i source hsrc => ⟨source, hsrc, rfl⟩)
    (fun _ hw => hw) ?_
  intro before entry after heq
  obtain ⟨rfl, rfl, rfl⟩ : before = [] ∧ entry = .inject child (.text text) found ∧ after = [] := by
    cases before with
    | nil => simpa using heq.symm
    | cons first rest => simp at heq
  rw [append_nil]
  exact hentry

/-- What holds between the steps, and `except` for one source in the middle of its registration. -/
structure Inv (S : Setup) (except : Option Nat) (s : Router) : Prop where
  maps : Maps S s
  told : Told except s

theorem Inv.quiet {s : Router} (h : Inv S except s) (hquiet : Quiet s t) : Inv S except t :=
  ⟨h.maps.quiet hquiet, h.told.quiet hquiet⟩

/-! ### Unregistering -/

variable {i : Nat} {name : String}

theorem lookup_of_find_source
    (h : s.find name = .source i) : s.sourceByName.lookup name = some i := by
  unfold find at h
  split at h
  · rename_i j hlook
    rw [hlook, Found.source.inj h]
  · split at h <;> cases h

theorem lookup_of_find_none (h : s.find name = .none) :
    s.sourceByName.lookup name = none := by
  unfold find at h
  split at h
  · cases h
  · assumption

theorem unregister_eq {source : Source} (h : s.sources[i]? = some source) :
    s.unregister i = { s.record (.kill (if (s.windows source.window).name = "" then none
          else some (s.windows source.window).name)) with
        sourceBySeed := s.sourceBySeed.erase source.channelSeed
        sourceByName := s.sourceByName.erase source.name } := by
  simp [unregister, h]

theorem plain_unregister (s : Router) (i : Nat) : Plain s (s.unregister i) := by
  cases hsrc : s.sources[i]? with
  | none =>
    have heq : s.unregister i = s := by simp [unregister, hsrc]
    rw [heq]
    exact Plain.refl s
  | some source =>
    rw [unregister_eq hsrc]
    exact ⟨rfl, rfl, fun _ hw => hw, _, rfl, by simp [Entry.isPlain]⟩

/-- A source that is found by name goes out of both tables. -/
theorem Inv.unregister (h : Inv S except s) (hfind : s.sourceByName.lookup name = some i) :
    Inv S except (s.unregister i) ∧ (s.unregister i).sourceByName.lookup name = none := by
  obtain ⟨source, hsrc, hname, hseed⟩ := h.maps.byName name i hfind
  have hplain := plain_unregister s i
  rw [unregister_eq hsrc] at hplain ⊢
  subst hname
  refine ⟨⟨⟨h.maps.count, h.maps.seeds, ?_, ?_⟩, h.told.plain hplain ?_⟩, lookup_erase _ _⟩
  · intro seed j hlook
    have hne : seed ≠ source.channelSeed := by
      rintro rfl
      rw [lookup_erase] at hlook
      cases hlook
    rw [lookup_erase_ne hne] at hlook
    obtain ⟨other, hother, hotherSeed, hotherName⟩ := h.maps.bySeed seed j hlook
    refine ⟨other, hother, hotherSeed, ?_⟩
    -- another source has another name
    have hneName : other.name ≠ source.name := by
      intro heq
      rw [heq, hfind] at hotherName
      rw [← some.inj hotherName, hsrc] at hother
      rw [← some.inj hother] at hotherSeed
      exact hne hotherSeed.symm
    rwa [lookup_erase_ne hneName]
  · intro name j hlook
    have hne : name ≠ source.name := by
      rintro rfl
      rw [lookup_erase] at hlook
      cases hlook
    rw [lookup_erase_ne hne] at hlook
    obtain ⟨other, hother, hotherName, hotherSeed⟩ := h.maps.byName name j hlook
    refine ⟨other, hother, hotherName, ?_⟩
    have hneSeed : other.channelSeed ≠ source.channelSeed := by
      intro heq
      rw [heq, hseed] at hotherSeed
      rw [← some.inj hotherSeed, hsrc] at hother
      rw [← some.inj hother] at hotherName
      exact hne hotherName.symm
    rwa [lookup_erase_ne hneSeed]
  intro name j hlook
  by_cases heq : name = source.name
  · subst heq
    rw [lookup_erase] at hlook
    cases hlook
  · rwa [lookup_erase_ne heq] at hlook

theorem Inv.onUnload (h : Inv S except s)
    (w : Nat) : Inv S except (s.onUnload w) := by
  unfold Router.onUnload
  split
  · rename_i i hfind
    exact (h.unregister (lookup_of_find_source hfind)).1
  · exact h

theorem plain_onUnload (s : Router) (w : Nat) : Plain s (s.onUnload w) := by
  unfold onUnload
  split
  · exact plain_unregister s _
  · exact Plain.refl s

/-- Frames that are removed take their sources with them. -/
theorem Inv.removeFrames (removed : List Nat)
    (h : Inv S except s) :
    Inv S except (removed.foldl removeFrame s) ∧ Plain s (removed.foldl removeFrame s) := by
  induction removed generalizing s with
  | nil => exact ⟨h, Plain.refl s⟩
  | cons w removed ih =>
    have hclose := Quiet.close (s.onUnload w) w
    obtain ⟨hinv, hplain⟩ := ih ((h.onUnload w).quiet hclose)
    exact ⟨hinv, ((plain_onUnload s w).trans hclose.toPlain).trans hplain⟩

/-! ### Registering -/

/-- A new source has a new seed, and takes a name that is free. -/
theorem Inv.addSource (h : Inv S none s) (host : String)
    (hfree : s.sourceByName.lookup (s.windows child).name = none) :
    Inv S (some s.sources.length) (s.addSource S child host) := by
  have hold : ∀ {i : Nat} {source : Source} (more : List Source), s.sources[i]? = some source →
      (s.sources ++ more)[i]? = some source := by
    intro i source more hsrc
    rw [getElem?_append_left (List.getElem?_eq_some_iff.mp hsrc).1]
    exact hsrc
  refine ⟨⟨?_, ?_, ?_, ?_⟩, ⟨?_, ?_, ?_⟩⟩
  · simp [Router.addSource, h.maps.count]
  · intro i source hsrc
    rcases append_singleton_cases hsrc with hsrc | ⟨rfl, rfl⟩
    · exact h.maps.seeds i source hsrc
    · show S.seed (s.uniqueId + 1) = _
      rw [h.maps.count]
  · intro seed i hlook
    by_cases hseed : seed = S.seed (s.uniqueId + 1)
    · subst hseed
      rw [Router.addSource, lookup_insert] at hlook
      rw [← some.inj hlook]
      exact ⟨_, getElem?_concat_length, rfl, lookup_insert _⟩
    rw [Router.addSource, lookup_insert_ne hseed] at hlook
    obtain ⟨source, hsrc, hsourceSeed, hname⟩ := h.maps.bySeed seed i hlook
    refine ⟨source, hold _ hsrc, hsourceSeed, ?_⟩
    have hne : source.name ≠ (s.windows child).name := by
      intro heq
      rw [heq, hfree] at hname
      cases hname
    rw [Router.addSource, lookup_insert_ne hne]
    exact hname
  · intro name i hlook
    by_cases hname : name = (s.windows child).name
    · subst hname
      rw [Router.addSource, lookup_insert] at hlook
      rw [← some.inj hlook]
      exact ⟨_, getElem?_concat_length, rfl, lookup_insert _⟩
    rw [Router.addSource, lookup_insert_ne hname] at hlook
    obtain ⟨source, hsrc, hsourceName, hseed⟩ := h.maps.byName name i hlook
    refine ⟨source, hold _ hsrc, hsourceName, ?_⟩
    -- the seed of an earlier source has a smaller number
    have hne : source.channelSeed ≠ S.seed (s.uniqueId + 1) := by
      intro heq
      rw [h.maps.seeds i source hsrc] at heq
      have hnumber := seed_injective S heq
      have hlt := (List.getElem?_eq_some_iff.mp hsrc).1
      have hcount := h.maps.count
      omega
    rw [Router.addSource, lookup_insert_ne hne]
    exact hseed
  · intro name i source hlook hexcept hsrc hframe
    rcases append_singleton_cases hsrc with hsrc | ⟨rfl, rfl⟩
    · have hne : name ≠ (s.windows child).name := by
        intro heq
        rw [Router.addSource, heq, lookup_insert] at hlook
        exact hexcept hlook.symm
      rw [Router.addSource, lookup_insert_ne hne] at hlook
      exact h.told.complete name i source hlook (by simp) hsrc hframe
    · exact absurd rfl hexcept
  · intro i source hsrc hinited
    rcases append_singleton_cases hsrc with hsrc | ⟨rfl, rfl⟩
    · exact h.told.told i source hsrc hinited
    · cases hinited
  refine GuardedText.append h.told.guarded (append_nil _).symm
    (fun i source hsrc => ⟨source, hold _ hsrc, rfl⟩) (fun _ hw => hw) ?_
  intro before entry after heq
  exact absurd heq (by simp)

theorem Quiet.hint (S : Setup) (s : Router) (w : Nat) (data : JsonObject) :
    Quiet s (s.hint S w data) := by
  unfold Router.hint
  split
  · split
    · exact Quiet.refl s
    · split
      · exact Quiet.postIfOpen s _ _
      · exact Quiet.refl s
  · exact Quiet.refl s

/-- `source.inited = true` after the answer was sent. -/
theorem Inv.setInited (h : Inv S (some i) s) {source : Source}
    (hsrc : s.sources[i]? = some source) (htold : .inited source.window ∈ s.log) :
    Inv S none (s.setInited i) := by
  have hmodified : ∀ {j : Nat} {other : Source}, s.sources[j]? = some other →
      ∃ other', (s.setInited i).sources[j]? = some other' ∧
        other'.name = other.name ∧ other'.window = other.window ∧
        other'.channelSeed = other.channelSeed := by
    intro j other hother
    rw [Router.setInited, getElem?_modify, hother]
    refine ⟨_, rfl, ?_⟩
    dsimp only
    split <;> exact ⟨rfl, rfl, rfl⟩
  refine ⟨⟨?_, ?_, ?_, ?_⟩, ⟨?_, ?_, ?_⟩⟩
  · rw [Router.setInited, length_modify]
    exact h.maps.count
  · intro j other' hother'
    obtain ⟨other, hother, ⟨-, rfl⟩ | ⟨-, rfl⟩⟩ := modify_cases hother'
    · exact h.maps.seeds j other hother
    · exact h.maps.seeds j other' hother
  · intro seed j hlook
    obtain ⟨other, hother, hseed, hname⟩ := h.maps.bySeed seed j hlook
    obtain ⟨other', hother', hname', -, hseed'⟩ := hmodified hother
    exact ⟨other', hother', hseed'.trans hseed, hname'.symm ▸ hname⟩
  · intro name j hlook
    obtain ⟨other, hother, hname, hseed⟩ := h.maps.byName name j hlook
    obtain ⟨other', hother', hname', -, hseed'⟩ := hmodified hother
    exact ⟨other', hother', hname'.trans hname, hseed'.symm ▸ hseed⟩
  · intro name j other' hlook _ hother' hframe
    obtain ⟨other, hother, ⟨-, rfl⟩ | ⟨hne, rfl⟩⟩ := modify_cases hother'
    · rfl
    · exact h.told.complete name j other' hlook (fun heq => hne (some.inj heq).symm)
        hother hframe
  · intro j other' hother' hinited
    obtain ⟨other, hother, ⟨rfl, rfl⟩ | ⟨-, rfl⟩⟩ := modify_cases hother'
    · rw [hsrc] at hother
      rw [← some.inj hother]
      exact htold
    · exact h.told.told j other' hother hinited
  refine GuardedText.append h.told.guarded (append_nil _).symm ?_ (fun _ hw => hw) ?_
  · intro j other hother
    obtain ⟨other', hother', -, hwindow, -⟩ := hmodified hother
    exact ⟨other', hother', hwindow⟩
  · intro before entry after heq
    exact absurd heq (by simp)

/-- What the branch for "init" gives: a source for which `child` completed it. -/
def Outcome.Completed (child : Nat) (s : Router) : Outcome → Prop
  | .source i => (∃ source, s.sources[i]? = some source) ∧ .inited child ∈ s.log
  | _ => True

theorem Inv.complete (h : Inv S (some i) s)
    (hsrc : ∃ source, s.sources[i]? = some source ∧ source.window = child)
    (current : Option Nat) :
    Inv S none (s.complete S child i current).1 ∧
      (s.complete S child i current).2.Completed child (s.complete S child i current).1 := by
  obtain ⟨source, hsrc, rfl⟩ := hsrc
  have hquiet : Quiet s ((s.record (.post source.window (initReply S source))).record
      (.inited source.window)) :=
    (Quiet.record s rfl).trans (Quiet.record _ rfl)
  have htold : .inited source.window ∈ ((s.record (.post source.window
      (initReply S source))).record (.inited source.window)).log := by
    simp [record]
  have hinv := (h.quiet hquiet).setInited hsrc htold
  have hpresent : ∃ source', (((s.record (.post source.window (initReply S source))).record
      (.inited source.window)).setInited i).sources[i]? = some source' := by
    refine ⟨{ source with inited := true }, ?_⟩
    simp [Router.setInited, record, hsrc]
  unfold Router.complete
  rw [hsrc]
  dsimp only
  split
  · exact ⟨hinv, hpresent, htold⟩
  split
  · exact ⟨hinv, trivial⟩
  rename_i w _
  have hhint := Quiet.hint S (((s.record (.post source.window (initReply S source))).record
    (.inited source.window)).setInited i) w [("hidden", .bool true)]
  obtain ⟨more, hlog, -⟩ := hhint.log
  refine ⟨hinv.quiet hhint, ?_, ?_⟩
  · rw [hhint.sources]
    exact hpresent
  · rw [hlog]
    exact mem_append_left more htold

/-- What `register` gives: a source that is still to be completed, or none. -/
def Outcome.Registered (S : Setup) (child : Nat) (s : Router) : Outcome → Prop
  | .source i => Inv S (some i) s ∧ ∃ source, s.sources[i]? = some source ∧ source.window = child
  | _ => Inv S none s

section

variable (h : Inv S none s)

include h

theorem Inv.register
    (hfree : s.sourceByName.lookup (s.windows child).name = none) (removed : List Nat) :
    (s.register S child removed).2.Registered S child (s.register S child removed).1 := by
  have hadd := h.addSource (hostOf (s.windows child).name) hfree
  have hnew : (s.addSource S child (hostOf (s.windows child).name)).sources[s.sources.length]? =
      some { name := (s.windows child).name, window := child,
             channelSeed := S.seed (s.uniqueId + 1),
             defaultHost := hostOf (s.windows child).name } := getElem?_concat_length
  unfold Router.register
  dsimp only
  split
  · exact h
  split
  · -- without a frame the new source stays, and is not complete
    rename_i hframe
    refine ⟨hadd.maps, ⟨?_, hadd.told.told, hadd.told.guarded⟩⟩
    intro name i source hlook _ hsrc hopen
    by_cases hi : i = s.sources.length
    · subst hi
      rw [hnew] at hsrc
      rw [← some.inj hsrc] at hopen
      exact absurd hframe hopen
    · exact hadd.told.complete name i source hlook (fun heq => hi (some.inj heq))
        hsrc hopen
  · obtain ⟨hinv, hplain⟩ := hadd.removeFrames removed
    rw [← hplain.sources] at hnew
    exact ⟨hinv, _, hnew, rfl⟩

/-! ### Messages of windows -/

/-- What `init` does when no source has the name. -/
theorem Inv.init_free {child : Nat}
    (hfree : s.sourceByName.lookup (s.windows child).name = none) {control : JsonObject}
    (removed : List Nat) (current : Option Nat) {result : Router × Outcome}
    (hresult : (if Page.truthy (control.getMember "problem") then (s, .nothing)
      else match s.register S child removed with
        | (s, .source i) => s.complete S child i current
        | result => result) = result) : Inv S none result.1 ∧ result.2.Completed child result.1 := by
  split at hresult
  · subst hresult
    exact ⟨h, trivial⟩
  have hregister := h.register hfree removed
  rcases heq : s.register S child removed with ⟨u, outcome⟩
  rw [heq] at hresult hregister
  subst hresult
  cases outcome with
  | source i => exact hregister.1.complete hregister.2 current
  | nothing | threw => exact ⟨hregister, trivial⟩

theorem Inv.init (child : Nat) (control : JsonObject)
    (removed : List Nat) (current : Option Nat) :
    Inv S none (s.init S child control removed current).1 ∧
      (s.init S child control removed current).2.Completed child
        (s.init S child control removed current).1 := by
  unfold Router.init
  cases hfind : s.find (s.windows child).name with
  | inherited => exact ⟨h, trivial⟩
  | none => exact h.init_free (lookup_of_find_none hfind) removed current rfl
  | source i =>
    -- the source that had the name goes out of the tables first
    obtain ⟨hinv, hfree⟩ := h.unregister (lookup_of_find_source hfind)
    have hwindows : (s.unregister i).windows = s.windows := by
      unfold Router.unregister
      split <;> rfl
    exact hinv.init_free (by rwa [hwindows]) removed current rfl

theorem Inv.forward (text : String)
    {found : Found} (hfound : found ≠ .none →
      (Entry.inject child (.text text) found).Admitted s s.log) :
    Inv S none (s.forward child text found) := by
  have hquiet : ∀ entry : Entry, Maps S (s.record entry) := fun _ =>
    ⟨h.maps.count, h.maps.seeds, h.maps.bySeed, h.maps.byName⟩
  cases found with
  | none => exact h
  | inherited | source i => exact ⟨hquiet _, h.told.inject (hfound (by simp))⟩

/-- A message is passed on for the source that has the name of its window. -/
theorem Inv.forward_find (child : Nat)
    (text : String) : Inv S none (s.forward child text (s.find (s.windows child).name)) := by
  apply h.forward
  intro hsome
  cases hfind : s.find (s.windows child).name with
  | none => exact absurd hfind hsome
  | inherited => trivial
  | source i =>
    have hlook := lookup_of_find_source hfind
    obtain ⟨source, hsrc, -, -⟩ := h.maps.byName _ i hlook
    refine ⟨source, hsrc, ?_⟩
    rintro rfl hframe
    have hinited := h.told.complete _ i source hlook (nofun) hsrc hframe
    exact h.told.told i source hsrc hinited

theorem Inv.onControl (child : Nat) (text : String)
    (control : JsonObject) (removed : List Nat) (current : Option Nat) :
    Inv S none (s.onControl S child text control removed current) := by
  unfold Router.onControl
  dsimp only
  split
  · obtain ⟨hinv, hcompl⟩ := h.init child control removed current
    split
    · rename_i t i heq
      rw [heq] at hinv hcompl
      apply hinv.forward
      intro _
      obtain ⟨⟨source, hsrc⟩, htold⟩ := hcompl
      exact ⟨source, hsrc, fun _ _ => htold⟩
    · rename_i t outcome _ heq
      rw [heq] at hinv
      exact hinv
  split_ifs
  · exact h
  · exact h.forward_find child text
  · exact h
  · exact h
  · exact h
  · exact h.forward_find child _
  · exact h.forward_find child text

theorem Inv.onText (child : Nat) (text : String)
    (removed : List Nat) (current : Option Nat) :
    Inv S none (s.onText S child text removed current) := by
  unfold Router.onText
  split
  · split
    · rename_i i hfind
      exact (h.unregister (lookup_of_find_source hfind)).1
    · exact h
  · split
    · exact h
    · exact h
    · exact h.onControl child text _ removed current
    · exact h
  · exact h.forward_find child text

theorem Inv.messageHandler (sameOrigin : Bool)
    (child : Option Nat) (data : Data) (removed : List Nat) (current : Option Nat) :
    Inv S none (s.messageHandler S sameOrigin child data removed current) := by
  unfold Router.messageHandler
  split
  · exact h
  split
  · exact h
  · exact h.quiet (Quiet.record s rfl)
  · exact h.onText _ _ removed current
  · exact h

/-! ### Messages of the bridge -/

end

theorem Quiet.broadcast (s : Router) (message : Data) : Quiet s (s.broadcast message) := by
  unfold Router.broadcast
  generalize s.sourceBySeed.entries.reverse.map Sigma.snd = ids
  induction ids generalizing s with
  | nil => exact Quiet.refl s
  | cons i ids ih =>
    refine Quiet.trans ?_ (ih _)
    dsimp only
    split
    · exact Quiet.refl s
    · exact Quiet.postIfOpen s _ message

theorem Quiet.incoming (S : Setup) (s : Router) (message : Data) :
    Quiet s (s.incoming S message) := by
  unfold Router.incoming
  split
  · exact Quiet.refl s
  split
  · split
    · split
      · exact Quiet.refl s
      refine Quiet.trans ?_ (Quiet.record _ rfl)
      split
      · exact Quiet.broadcast s _
      · exact Quiet.refl s
    · exact Quiet.refl s
  split
  · exact Quiet.record s rfl
  · split
    · exact Quiet.refl s
    · exact Quiet.postIfOpen s _ _

/-- A payload finds the source whose seed its channel starts with. -/
theorem Maps.postedIfOpen (h : Maps S s)
    (hseed : '!' ∉ S.channelSeed.toList) : s.PostedIfOpen S := by
  intro i source rest message hlook hsrc hparse
  have hown := h.seeds i source hsrc
  have hne : source.channelSeed ++ rest ≠ "" := by
    intro heq
    have hfound := seedOf_seed hseed (i + 1) rest
    rw [← hown, heq] at hfound
    exact absurd hfound (by simp [seedOf])
  have hfound : (seedOf (source.channelSeed ++ rest) >>= fun seed => s.sourceBySeed.lookup seed)
      = some i := by
    rw [hown, seedOf_seed hseed, ← hown]
    exact hlook
  unfold incoming
  rw [hparse]
  dsimp only
  rw [if_neg hne, hfound]
  dsimp only
  rw [hsrc]
  dsimp only
  unfold postIfOpen
  split
  · exact (append_nil _).symm
  · rfl

/-! ### Runs -/

theorem Inv.step (h : Inv S none s) (event : Event) :
    Inv S none (s.step S event) := by
  cases event with
  | message sameOrigin child data removed current =>
    exact h.messageHandler sameOrigin child data removed current
  | incoming message => exact h.quiet (Quiet.incoming S s message)
  | unload w => exact h.onUnload w
  | rename w name => exact h.quiet (Quiet.update s w fun hfram hclos => ⟨hfram, hclos⟩)
  | close w => exact h.quiet (Quiet.close s w)
  | hint w data => exact h.quiet (Quiet.hint S s w data)

theorem Inv.start (S : Setup) (windows : Nat → Window) : Inv S none (start windows) := by
  refine ⟨⟨rfl, ?_, ?_, ?_⟩, ⟨?_, ?_, ?_⟩⟩
  · intro i source hsrc
    exact nomatch hsrc
  · intro seed i hlook
    exact nomatch hlook
  · intro name i hlook
    exact nomatch hlook
  · intro name i source hlook
    exact nomatch hlook
  · intro i source hsrc
    exact nomatch hsrc
  · intro before entry after heq
    exact absurd heq (by simp [Router.start])

theorem Inv.routes (h : Inv S none s) : Routes S s where
  same := by
    intro i
    constructor
    · rintro ⟨seed, hlook⟩
      obtain ⟨source, -, -, hname⟩ := h.maps.bySeed seed i hlook
      exact ⟨source.name, hname⟩
    · rintro ⟨name, hlook⟩
      obtain ⟨source, -, -, hseed⟩ := h.maps.byName name i hlook
      exact ⟨source.channelSeed, hseed⟩
  seeds := by
    apply nodup_iff_injective_get.mpr
    intro m n heq
    have hseed : ∀ k : Fin (s.sources.map Source.channelSeed).length,
        (s.sources.map Source.channelSeed).get k = S.seed (k.1 + 1) := by
      intro k
      have hlt : k.1 < s.sources.length := by simpa using k.2
      have hk := h.maps.seeds k.1 _ (getElem?_eq_getElem hlt)
      simpa using hk
    rw [hseed m, hseed n] at heq
    have hnumber := seed_injective S heq
    exact Fin.ext (by omega)
  posted := h.maps.postedIfOpen
  guarded := h.told.guarded

/-- In every state of every run the tables agree, seeds are unique, messages of the bridge go to
    the window of their source, and text is passed on for registered sources. -/
theorem run_routes (S : Setup) (windows : Nat → Window) (events : List Event) :
    Routes S (run (step S) (start windows) events) := by
  have hok : RunOk (step S) (fun _ _ => True) (start windows) events := by
    generalize start windows = s
    induction events generalizing s with
    | nil => trivial
    | cons event events ih => exact ⟨trivial, ih _⟩
  exact (run_invariant (Inv S none) (fun _ event h _ => h.step event) (Inv.start S windows)
    hok).routes

/-! ### What is otherwise

A binary message of a window that never sent "init"; a shell inside another shell, whose seed ends
in a '!'; and a window that takes the name of a source. -/

/-- Reads the one control message of the runs below. -/
def initParse (text : String) : Option Json :=
  if text = "\x7b\"command\":\"init\"\x7d" then some (.object [("command", .string "init")]) else none

def initMessage (child : Nat) : Event :=
  .message true (some child) (.text "\n\x7b\"command\":\"init\"\x7d") [] (some child)

theorem not_strict :
    (¬ Strict { parse := initParse, stringify := fun _ => "\x7b\x7d" }
      (run (step { parse := initParse, stringify := fun _ => "\x7b\x7d" }) (start fun _ => {})
        [.message true (some 0) (.binary [97, 10, 1]) [] none])) ∧
    (¬ Strict { parse := initParse, stringify := fun _ => "\x7b\x7d", channelSeed := "1:1!" }
      (run (step { parse := initParse, stringify := fun _ => "\x7b\x7d", channelSeed := "1:1!" })
        (start fun _ => { name := "cockpit1:localhost/a" }) [initMessage 0])) ∧
    ¬ Strict { parse := initParse, stringify := fun _ => "\x7b\x7d" }
      (run (step { parse := initParse, stringify := fun _ => "\x7b\x7d" })
        (start fun _ => { name := "cockpit1:localhost/a" })
        [initMessage 0, .message true (some 1) (.text "c\nx") [] none]) := by
  refine ⟨fun h => ?_, fun h => ?_, fun h => ?_⟩
  · have htold := h.guarded [] 0 (.binary [97, 10, 1]) .none [] rfl
    exact nomatch htold
  · -- the first '!' of the channel ends the shell's own seed
    have hlog := h.posted 0
      { name := "cockpit1:localhost/a", window := 0, channelSeed := "1:1!1!",
        defaultHost := "localhost", inited := true } "1" (.text "1:1!1!1\nx")
      (by decide) (by decide) (by decide)
    exact nomatch hlog
  have htold := h.guarded [.post 0 (.text "\n\x7b\x7d"), .inited 0,
      .inject 0 (.text "\n\x7b\"command\":\"init\"\x7d") (.source 0)] 1 (.text "c\nx") (.source 0) []
    (by decide)
  exact nomatch htold

end Router

end Cockpit.Shell
