import Cockpit.Ws.AuthLogin

namespace Cockpit.Ws

open Lib List Auth

/-!
# Counting the logins

A request that is not answered yet is kept in one place: by an idle source, with an error, or by
the session that it belongs to.  From there it is completed once, and counted off once.

* `InHand` — the request that `cockpit_auth_login_async` works on, which nothing keeps yet;
* `run_accounted` — every run in which the replies of a conversation are valid.
-/

/-- The number of `cockpit_auth_login_async` calls whose `cockpit_auth_login_finish` has not
    run. -/
def Auth.unanswered (s : Auth) : Nat := s.results.countP fun result => result.callbacks == 0

/-- A request that is neither kept by an idle source nor by a session. -/
structure Unkept (s : Auth) (r : Nat) : Prop where
  idle : r ∉ s.idle
  sessions : ∀ (k : Nat) (session : Session), s.allSessions[k]? = some session →
    session.result ≠ some r

/-- A request that is unanswered and kept by nothing. -/
structure InHand (s : Auth) (r : Nat) (owner : Option Nat) : Prop extends Unkept s r where
  result : ∃ result, s.results[r]? = some result ∧ result.callbacks = 0 ∧ result.session = owner

/-- The invariant of a run. -/
structure Accounted (s : Auth) : Prop where
  callbacks : ∀ (r : Nat) (result : LoginResult), s.results[r]? = some result → result.callbacks ≤ 1
  startups : s.startups = s.unanswered
  few : s.unanswered < 2 ^ 32
  once : s.idle.Nodup
  failing : ∀ r ∈ s.idle, ∃ result, s.results[r]? = some result ∧ result.callbacks = 0 ∧
    result.failed
  kept : ∀ (k : Nat) (session : Session) (r : Nat), s.allSessions[k]? = some session →
    session.result = some r → r ∉ s.idle ∧ ∃ result, s.results[r]? = some result ∧
      result.callbacks = 0 ∧ result.session = some k

/-! ## Steps that move no request -/

/-- Two states that keep the same requests in the same places. -/
structure SamePlaces (s s' : Auth) : Prop where
  sessions : s'.allSessions.map (·.result) = s.allSessions.map (·.result)
  results : s'.results.map (fun result => (result.callbacks, result.session)) =
    s.results.map fun result => (result.callbacks, result.session)
  failed : ∀ (r : Nat) (result result' : LoginResult), s.results[r]? = some result →
    s'.results[r]? = some result' → result.failed → result'.failed
  idle : s'.idle = s.idle
  startups : s'.startups = s.startups

namespace SamePlaces

variable {s s' : Auth}

theorem of_core (h : SameCore s s') (hstartups : s'.startups = s.startups) : SamePlaces s s' where
  sessions := by
    have hmap := congrArg (List.map Session.Core.result) h.sessions
    rw [map_map, map_map] at hmap
    exact hmap
  results := by
    have hmap := congrArg (List.map fun core : LoginResult.Core => (core.callbacks, core.session))
      h.results
    rw [map_map, map_map] at hmap
    exact hmap
  failed r result result' hget hget' hfailed := by
    obtain ⟨same, hsame, hcore⟩ := h.result hget
    obtain rfl := Option.mem_unique hsame hget'
    exact (congrArg LoginResult.Core.failed hcore).trans hfailed
  idle := h.idle
  startups := hstartups

theorem onSession (s : Auth) (k : Nat) {f : Session → Session}
    (hf : ∀ session, (f session).result = session.result) : SamePlaces s (s.onSession k f) where
  sessions := map_modify_of_eq hf _ _
  results := rfl
  failed r result result' hget hget' hfailed := by
    obtain rfl := Option.mem_unique hget hget'
    exact hfailed
  idle := rfl
  startups := rfl

theorem takeError (s : Auth) (r : Nat) (error : AuthError) :
    SamePlaces s (s.takeError r error) where
  sessions := rfl
  results := by
    apply map_modify_of_eq
    exact fun _ => rfl
  failed r' result result' hget hget' hfailed := by
    obtain ⟨old, hold, ⟨-, rfl⟩ | ⟨-, rfl⟩⟩ := modify_cases hget'
    · rfl
    · obtain rfl := Option.mem_unique hold hget
      exact hfailed
  idle := rfl
  startups := rfl

theorem session (h : SamePlaces s s') {k : Nat} {session' : Session}
    (hget : s'.allSessions[k]? = some session') :
    ∃ session, s.allSessions[k]? = some session ∧ session.result = session'.result :=
  getElem?_of_map_eq h.sessions.symm hget

variable {r : Nat}

theorem result (h : SamePlaces s s') {result : LoginResult} (hget : s.results[r]? = some result) :
    ∃ result', s'.results[r]? = some result' ∧ result'.callbacks = result.callbacks ∧
      result'.session = result.session := by
  obtain ⟨result', hres', hpair⟩ := getElem?_of_map_eq h.results hget
  exact ⟨result', hres', congrArg Prod.fst hpair, congrArg Prod.snd hpair⟩

theorem result_back (h : SamePlaces s s') {result' : LoginResult}
    (hget : s'.results[r]? = some result') :
    ∃ result, s.results[r]? = some result ∧ result.callbacks = result'.callbacks := by
  obtain ⟨result, hres, hpair⟩ := getElem?_of_map_eq h.results.symm hget
  exact ⟨result, hres, congrArg Prod.fst hpair⟩

theorem unanswered (h : SamePlaces s s') : s'.unanswered = s.unanswered := by
  have hmap := congrArg (List.countP fun pair : Nat × Option Nat => pair.1 == 0) h.results
  rw [countP_map, countP_map] at hmap
  exact hmap

end SamePlaces

namespace InHand

variable {s s' : Auth} {r : Nat} {owner : Option Nat}

theorem congr (h : InHand s r owner) (hsame : SamePlaces s s') : InHand s' r owner where
  idle := hsame.idle ▸ h.idle
  sessions k session' hget hr := by
    obtain ⟨session, hsess, hres⟩ := hsame.session hget
    exact h.sessions k session hsess (hres.trans hr)
  result := by
    obtain ⟨result, hget, hopen, howner⟩ := h.result
    obtain ⟨result', hget', hcalls, hsess⟩ := hsame.result hget
    exact ⟨result', hget', hcalls.trans hopen, hsess.trans howner⟩

/-- A session whose request is answered keeps none. -/
theorem dropResult (h : InHand s r owner) (k : Nat) :
    InHand (s.onSession k fun session => { session with result := none }) r owner := { h with
  sessions k' session hget hr := by
    obtain ⟨old, hold, ⟨-, rfl⟩ | ⟨-, rfl⟩⟩ := modify_cases hget
    · exact nomatch hr
    · exact h.sessions k' session hold hr }

variable {nonce : Nat → String}

/-- Other requests are completed without the one in hand. -/
theorem complete (h : InHand s r owner) {r' : Nat} (hne : r' ≠ r)
    (cause : Cause) : InHand (s.complete nonce r' cause) r owner := by
  have hcalled : InHand (s.called r') r owner := by
    refine ⟨⟨h.idle, h.sessions⟩, ?_⟩
    obtain ⟨result, hget, hrest⟩ := h.result
    exact ⟨result, (getElem?_modify_ne _ _ hne).trans hget, hrest⟩
  have hcore := s.sameCore_complete nonce r' cause
  -- only the counter differs, and a request in hand has nothing to do with that
  have hsame : SamePlaces { s.called r' with startups := (s.complete nonce r' cause).startups }
      (s.complete nonce r' cause) := .of_core ⟨hcore.sessions, hcore.results, hcore.idle⟩ rfl
  have hcount : InHand
      { s.called r' with startups := (s.complete nonce r' cause).startups } r owner :=
    ⟨⟨hcalled.idle, hcalled.sessions⟩, hcalled.result⟩
  exact hcount.congr hsame

theorem completeSession (h : InHand s r owner) (k : Nat) (cause : Cause) :
    InHand (s.completeSession nonce k cause) r owner := by
  unfold Auth.completeSession
  split
  · exact h
  rename_i r' hr'
  obtain ⟨session, hsess, hres⟩ := Option.bind_eq_some_iff.mp hr'
  refine (h.dropResult k).complete ?_ cause
  rintro rfl
  exact h.sessions k session hsess hres

theorem sessionReset (h : InHand s r owner) (k : Nat) :
    InHand (s.sessionReset nonce k) r owner :=
  (h.completeSession k .reset).congr
    (.of_core (sameCore_resetRest _ k) (startups_resetRest _ k))

end InHand

namespace Accounted

variable {nonce : Nat → String} {s s' : Auth}

section

variable (h : Accounted s)

include h

/-- Steps that move no request. -/
theorem congr (hsame : SamePlaces s s') : Accounted s' where
  callbacks r result' hget := by
    obtain ⟨result, hres, hcalls⟩ := hsame.result_back hget
    exact hcalls ▸ h.callbacks r result hres
  startups := by rw [hsame.startups, hsame.unanswered, h.startups]
  few := hsame.unanswered ▸ h.few
  once := hsame.idle ▸ h.once
  failing r hr := by
    obtain ⟨result, hget, hopen, hfail⟩ := h.failing r (hsame.idle ▸ hr)
    obtain ⟨result', hget', hcalls, -⟩ := hsame.result hget
    exact ⟨result', hget', hcalls.trans hopen, hsame.failed r result result' hget hget' hfail⟩
  kept k session' r hget hr := by
    obtain ⟨session, hsess, hres⟩ := hsame.session hget
    obtain ⟨hidle, result, hget, hopen, howner⟩ := h.kept k session r hsess (hres.trans hr)
    obtain ⟨result', hget', hcalls, hsess'⟩ := hsame.result hget
    exact ⟨hsame.idle ▸ hidle, result', hget', hcalls.trans hopen, hsess'.trans howner⟩

/-! ## Answering a request -/

/-- A request that nothing keeps any more is answered, and no longer counted. -/
theorem complete {r : Nat} {result : LoginResult} {cause : Cause}
    (hres : s.results[r]? = some result) (hopen : result.callbacks = 0)
    (hunkept : Unkept s r) (howner : result.failed ∨ ∃ k session,
      result.session = some k ∧ s.allSessions[k]? = some session ∧ session.result = none) :
    Accounted (s.complete nonce r cause) := by
  have hless : (s.called r).unanswered + 1 = s.unanswered := by
    apply countP_modify_of_neg hres
    · simpa using hopen
    · rfl
  have hcount : (s.complete nonce r cause).startups = (s.called r).unanswered := by
    rw [complete_startups nonce cause hres howner, h.startups]
    have hfew := h.few
    omega
  have hother : ∀ r', r' ≠ r → (s.called r).results[r']? = s.results[r']? := fun r' hne =>
    getElem?_modify_ne _ _ hne.symm
  -- the callback has run, and the counter is what it is afterwards
  have hcalled : Accounted
      { s.called r with startups := (s.complete nonce r cause).startups } := by
    refine ⟨fun r' result' hget => ?_, hcount, ?_, h.once, fun r' hr' => ?_,
      fun k session r' hget hr' => ?_⟩
    · obtain ⟨old, hold, ⟨rfl, rfl⟩ | ⟨-, rfl⟩⟩ := modify_cases hget
      · obtain rfl := Option.mem_unique hold hres
        show old.callbacks + 1 ≤ 1
        rw [hopen]
      · exact h.callbacks r' result' hold
    · show (s.called r).unanswered < 2 ^ 32
      have hfew := h.few
      omega
    · have hne : r' ≠ r := by
        rintro rfl
        exact hunkept.idle hr'
      show ∃ result, (s.called r).results[r']? = some result ∧ _
      rw [hother r' hne]
      exact h.failing r' hr'
    have hne : r' ≠ r := by
      rintro rfl
      exact hunkept.sessions k session hget hr'
    show r' ∉ s.idle ∧ ∃ result, (s.called r).results[r']? = some result ∧ _
    rw [hother r' hne]
    exact h.kept k session r' hget hr'
  have hcore := s.sameCore_complete nonce r cause
  exact hcalled.congr (.of_core ⟨hcore.sessions, hcore.results, hcore.idle⟩ rfl)

variable (k : Nat)

theorem dropResult :
    Accounted (s.onSession k fun session => { session with result := none }) := { h with
  kept k' session r hget hr := by
    obtain ⟨old, hold, ⟨-, rfl⟩ | ⟨-, rfl⟩⟩ := modify_cases hget
    · exact nomatch hr
    · exact h.kept k' session r hold hr }

/-- The request of a session is answered. -/
theorem completeSession (cause : Cause) :
    Accounted (s.completeSession nonce k cause) := by
  unfold Auth.completeSession
  split
  · exact h
  rename_i r hr
  obtain ⟨session, hsess, hkeeps⟩ := Option.bind_eq_some_iff.mp hr
  obtain ⟨hidle, result, hres, hopen, howner⟩ := h.kept k session r hsess hkeeps
  refine (h.dropResult k).complete hres hopen ⟨hidle, fun k' session' hget hr' => ?_⟩
    (.inr ⟨k, { session with result := none }, howner, ?_, rfl⟩)
  · obtain ⟨old, hold, ⟨-, rfl⟩ | ⟨hne, rfl⟩⟩ := modify_cases hget
    · exact nomatch hr'
    -- it belongs to one session only
    obtain ⟨-, result', hres', -, howner'⟩ := h.kept k' session' r hold hr'
    obtain rfl := Option.mem_unique hres' hres
    exact absurd (Option.mem_unique howner howner') hne
  · show (s.allSessions.modify k _)[k]? = _
    rw [getElem?_modify_eq, hsess]
    rfl

theorem sessionReset : Accounted (s.sessionReset nonce k) :=
  (h.completeSession k .reset).congr
    (.of_core (sameCore_resetRest _ k) (startups_resetRest _ k))

theorem onSession {f : Session → Session}
    (hf : ∀ session, (f session).result = session.result) : Accounted (s.onSession k f) :=
  h.congr (.onSession s k hf)

theorem failSession (error : AuthError) :
    Accounted (s.failSession k error) := by
  unfold Auth.failSession
  split
  · exact h
  · exact h.congr (.takeError s _ error)

/-! ## The process of a session -/

theorem onInit (session : Session) (options : JsonObject) :
    Accounted (s.onInit nonce k session options) := by
  have hset : Accounted (s.onSession k fun session =>
      { session with controlSig := false, closeSig := false, initialized := true }) :=
    h.onSession k fun _ => rfl
  unfold Auth.onInit
  dsimp only
  split
  · exact (hset.failSession k _).completeSession k .init
  have hclean : Accounted ((s.onSession k fun session =>
      { session with controlSig := false, closeSig := false,
                     initialized := true }).onSession k fun session =>
        { session with cleanInit := true }) := hset.onSession k fun _ => rfl
  exact hclean.completeSession k .init

end

theorem result_answer (session : Session) (reply : Reply) :
    (session.answer reply).result = session.result := by
  cases reply <;> rfl

section

variable (h : Accounted s)

include h

theorem onTransportControl (k : Nat) (command : String)
    (options : JsonObject) : Accounted (s.onTransportControl nonce k command options) := by
  unfold Auth.onTransportControl
  split
  · exact h
  rename_i session _
  split
  · exact h
  split
  · exact h.onInit k session options
  split
  · have hset : Accounted (s.onSession k fun session =>
        { session with authorize := some options }) := h.onSession k fun _ => rfl
    dsimp only
    split
    · rename_i reply _
      exact hset.onSession k fun session => result_answer session reply
    · exact hset.completeSession k .control
  · exact h.completeSession k .control

theorem onTransportClosed (k : Nat) (problem : Option String) :
    Accounted (s.onTransportClosed nonce k problem) := by
  unfold Auth.onTransportClosed
  split
  · exact h
  split
  · exact h
  · split
    · exact (h.failSession k _).completeSession k .closed
    · exact h.sessionReset k

theorem onTimeout (k : Nat) (idling : Bool) :
    Accounted (s.onTimeout nonce k idling) := by
  have hcleared : Accounted (s.onSession k fun session => { session with timeout := none }) :=
    h.onSession k fun _ => rfl
  unfold Auth.onTimeout
  split
  · exact h
  dsimp only
  split
  · exact h
  · exact hcleared
  · split
    · exact hcleared.sessionReset k
    · exact hcleared

/-- The main loop answers a request that has failed. -/
theorem runIdle : Accounted (s.runIdle nonce) := by
  unfold Auth.runIdle
  split
  · exact h
  rename_i r idle hidle
  have honce : (r :: idle).Nodup := hidle ▸ h.once
  obtain ⟨result, hres, hopen, hfail⟩ := h.failing r (hidle ▸ mem_cons_self ..)
  have hpopped : Accounted { s with idle } := by
    refine ⟨h.callbacks, h.startups, h.few, (nodup_cons.mp honce).2,
      fun r' hr' => h.failing r' (hidle ▸ mem_cons_of_mem _ hr'),
      fun k session r' hget hr' => ?_⟩
    obtain ⟨hnot, hrest⟩ := h.kept k session r' hget hr'
    exact ⟨fun hmem => hnot (hidle ▸ mem_cons_of_mem _ hmem), hrest⟩
  refine hpopped.complete hres hopen ⟨(nodup_cons.mp honce).1, ?_⟩ (.inl hfail)
  intro k session hget hr
  exact (h.kept k session r hget hr).1 (hidle ▸ mem_cons_self ..)

/-! ## Starting a login -/

/-- A request is counted before anything else. -/
theorem newResult (hfew : s.unanswered + 1 < 2 ^ 32) :
    Accounted { s.countStartup with results := s.results ++ [({} : LoginResult)] } ∧
      InHand { s.countStartup with results := s.results ++ [({} : LoginResult)] }
        s.results.length none := by
  have hmore : Auth.unanswered
      { s.countStartup with results := s.results ++ [({} : LoginResult)] } = s.unanswered + 1 := by
    show (s.results ++ [({} : LoginResult)]).countP _ = _
    rw [countP_append]
    rfl
  have hold : ∀ {r result}, s.results[r]? = some result →
      (s.results ++ [({} : LoginResult)])[r]? = some result := fun hget =>
    (getElem?_append_left (List.getElem?_eq_some_iff.mp hget).1).trans hget
  have hfresh : ∀ {result}, s.results[s.results.length]? = some result → False :=
    fun hget => Nat.lt_irrefl _ (List.getElem?_eq_some_iff.mp hget).1
  refine ⟨⟨fun r result hget => ?_, ?_, ?_, h.once, fun r hr => ?_,
    fun k session r hget hr => ?_⟩, ⟨⟨fun hmem => ?_, fun k session hget hr => ?_⟩, ?_⟩⟩
  · rcases mem_append.mp (mem_of_getElem? hget) with hmem | hmem
    · obtain ⟨r', hlt, rfl⟩ := mem_iff_getElem.mp hmem
      exact h.callbacks r' _ (getElem?_eq_getElem hlt)
    · rw [mem_singleton.mp hmem]
      exact Nat.zero_le 1
  · show (s.startups + 1) % 2 ^ 32 = _
    rw [hmore, h.startups, Nat.mod_eq_of_lt hfew]
  · rw [hmore]
    exact hfew
  · obtain ⟨result, hget, hrest⟩ := h.failing r hr
    exact ⟨result, hold hget, hrest⟩
  · obtain ⟨hidle, result, hget, hrest⟩ := h.kept k session r hget hr
    exact ⟨hidle, result, hold hget, hrest⟩
  · obtain ⟨result, hget, -⟩ := h.failing _ hmem
    exact hfresh hget
  · obtain ⟨-, result, hget, -⟩ := h.kept k session _ hget hr
    exact hfresh hget
  refine ⟨{}, ?_, rfl, rfl⟩
  show (s.results ++ [({} : LoginResult)])[s.results.length]? = _
  rw [getElem?_append_right (Nat.le_refl _), Nat.sub_self]
  rfl

variable {r : Nat} {owner : Option Nat}

/-- A request with an error that is reported from the main loop. -/
theorem failInIdle (hhand : InHand s r owner)
    (error : AuthError) : Accounted (s.failInIdle r error) := by
  have hfail := h.congr (.takeError s r error)
  have hhand' := hhand.congr (.takeError s r error)
  refine { hfail with
      once := ?_, failing := fun r' hr' => ?_, kept := fun k session r' hget hr' => ?_ }
  · exact List.Nodup.append h.once (nodup_singleton r)
      fun r' hmem hone => hhand.idle (mem_singleton.mp hone ▸ hmem)
  · rcases mem_append.mp hr' with hmem | hmem
    · exact hfail.failing r' hmem
    obtain rfl := mem_singleton.mp hmem
    obtain ⟨result, hget, hopen, -⟩ := hhand.result
    refine ⟨{ result with failed := true, error := some error }, ?_, hopen, rfl⟩
    show (s.results.modify r' _)[r']? = _
    rw [getElem?_modify_eq, hget]
    rfl
  obtain ⟨hidle, hrest⟩ := hfail.kept k session r' hget hr'
  refine ⟨fun hmem => ?_, hrest⟩
  rcases mem_append.mp hmem with hmem | hmem
  · exact hidle hmem
  · exact hhand'.sessions k session hget (mem_singleton.mp hmem ▸ hr')

/-- The request in hand gets its session. -/
theorem own (hhand : InHand s r owner) (k : Nat) :
    Accounted (s.onResult r fun result => { result with session := some k }) ∧
      InHand (s.onResult r fun result => { result with session := some k }) r (some k) := by
  have hother : ∀ r', r' ≠ r → (s.onResult r fun result =>
      { result with session := some k }).results[r']? = s.results[r']? := fun r' hne =>
    getElem?_modify_ne _ _ hne.symm
  have hsame : Auth.unanswered (s.onResult r fun result => { result with session := some k }) =
      s.unanswered := by
    have hmap := congrArg (List.countP (· == 0)) (map_modify_of_eq (g := LoginResult.callbacks)
      (f := fun result => { result with session := some k }) (fun _ => rfl) s.results r)
    rw [countP_map, countP_map] at hmap
    exact hmap
  refine ⟨⟨fun r' result hget => ?_, ?_, ?_, h.once, fun r' hr' => ?_,
    fun k' session r' hget hr' => ?_⟩, ⟨⟨hhand.idle, hhand.sessions⟩, ?_⟩⟩
  · obtain ⟨old, hold, ⟨-, rfl⟩ | ⟨-, rfl⟩⟩ := modify_cases hget
    · exact h.callbacks r' old hold
    · exact h.callbacks r' result hold
  · exact h.startups.trans hsame.symm
  · rw [hsame]
    exact h.few
  · have hne : r' ≠ r := by
      rintro rfl
      exact hhand.idle hr'
    rw [hother r' hne]
    exact h.failing r' hr'
  · have hne : r' ≠ r := by
      rintro rfl
      exact hhand.sessions k' session hget hr'
    rw [hother r' hne]
    exact h.kept k' session r' hget hr'
  obtain ⟨result, hget, hopen, -⟩ := hhand.result
  refine ⟨{ result with session := some k }, ?_, hopen, rfl⟩
  show (s.results.modify r _)[r]? = _
  rw [getElem?_modify_eq, hget]
  rfl

variable {k : Nat}

/-- The session keeps the request in hand. -/
theorem keep (hhand : InHand s r (some k)) (authorization : String) :
    Accounted (s.onSession k fun session =>
      { session with result := some r, authorization := some authorization }) := { h with
  kept k' session r' hget hr' := by
    obtain ⟨old, hold, ⟨rfl, rfl⟩ | ⟨-, rfl⟩⟩ := modify_cases hget
    · obtain rfl := Option.some.inj hr'
      exact ⟨hhand.idle, hhand.result⟩
    · exact h.kept k' session r' hold hr' }

/-- A request gets as far as its session, unless it replies to nothing. -/
theorem startLogin (hhand : InHand s r owner)
    {authorization : String} {resumes : Bool} (hreply : resumes →
      ∀ session : Session, s.allSessions[k]? = some session →
        (challengeReply session.authorize (some authorization)).isSome) :
    Accounted (s.startLogin nonce r k authorization resumes) := by
  obtain ⟨howned, hhand⟩ := h.own hhand k
  have hreset : Accounted ((s.onResult r fun result =>
      { result with session := some k }).sessionReset nonce k) := howned.sessionReset k
  have hreached : InHand ((s.onResult r fun result =>
      { result with session := some k }).sessionReset nonce k) r (some k) := hhand.sessionReset k
  have hasked := hreset.keep hreached authorization
  unfold Auth.startLogin
  dsimp only
  split
  · rename_i hresumes
    split
    · rename_i hnone
      -- a session that is there has the `authorize` message it had before the reset
      have hgone : ((s.onResult r fun result =>
          { result with session := some k }).sessionReset nonce k).allSessions[k]? = none := by
        cases hget : ((s.onResult r fun result =>
            { result with session := some k }).sessionReset nonce k).allSessions[k]? with
        | none => rfl
        | some session =>
          obtain ⟨old, hold, -, hauth⟩ := (kept_sessionReset nonce
            (s.onResult r fun result => { result with session := some k }) k).session hget
          have hsome := hreply hresumes old hold
          rw [← hauth] at hsome
          have hinval := congrArg Option.isSome hnone
          simp only [Auth.onSession, getElem?_modify_eq, hget] at hinval
          exact nomatch (hinval.symm.trans hsome)
      refine hasked.failInIdle ⟨⟨hreached.idle, fun k' session hget hr => ?_⟩, hreached.result⟩ _
      obtain ⟨old, hold, ⟨rfl, -⟩ | ⟨-, rfl⟩⟩ := modify_cases hget
      · exact nomatch hgone.symm.trans hold
      · exact hreached.sessions k' session hold hr
    · rename_i reply _
      exact hasked.onSession k fun session => result_answer session reply
  · exact hasked.onSession k fun _ => rfl

/-- A session that nobody has asked for yet. -/
theorem newSession :
    Accounted { s with allSessions := s.allSessions ++ [({} : Session)] } := { h with
  kept k session r hget hr := by
    rcases append_singleton_cases hget with hold | ⟨-, rfl⟩
    · exact h.kept k session r hold hr
    · exact nomatch hr }

end

end Accounted

theorem InHand.newSession {s : Auth} {r : Nat} {owner : Option Nat} (h : InHand s r owner) :
    InHand { s with allSessions := s.allSessions ++ [({} : Session)] } r owner := { h with
  sessions k session hget hr := by
    rcases append_singleton_cases hget with hold | ⟨-, rfl⟩
    · exact h.sessions k session hold hr
    · exact nomatch hr }

/-! ## Whole runs -/

/-- A request that goes on with a session has a reply that the session can use, and there are
    fewer requests than `startups` can count. -/
def RepliesWell (s : Auth) : Event → Prop
  | .login request => s.unanswered + 1 < 2 ^ 32 ∧
    ∀ (k : Nat) (session : Session), s.resumes request = some k → s.allSessions[k]? = some session →
        (challengeReply session.authorize request.authorization).isSome
  | _ => True

variable {request : Request}

theorem Accounted.loginAsync {nonce : Nat → String} {s : Auth} (h : Accounted s) (hok : RepliesWell s (.login request)) :
    Accounted (s.loginAsync nonce request) := by
  obtain ⟨hnew, hhand⟩ := h.newResult hok.1
  unfold Auth.loginAsync
  dsimp only
  split
  · exact hnew.failInIdle hhand _
  rename_i hcan
  split
  · rename_i authorization happ hauth
    split
    · rename_i conversation hconv
      split
      · exact hnew.failInIdle hhand _
      rename_i k hlook
      refine hnew.startLogin hhand fun _ session hsess => ?_
      refine hauth ▸ hok.2 k session ?_ hsess
      unfold Auth.resumes
      rw [if_pos (by simpa [happ, hauth] using hcan), hconv]
      exact hlook
    · split
      · exact hnew.failInIdle hhand _
      · exact hnew.newSession.startLogin hhand.newSession nofun
  · exact hnew.failInIdle hhand _

theorem Accounted.step {nonce : Nat → String} {s : Auth} {e : Event} (h : Accounted s)
    (hok : RepliesWell s e) : Accounted (Ws.step nonce s e) := by
  cases e with
  | login request => exact h.loginAsync hok
  | idle => exact h.runIdle
  | control k command options => exact h.onTransportControl k command options
  | closed k problem => exact h.onTransportClosed k problem
  | timeout k idling => exact h.onTimeout k idling
  | serviceIdling k => exact h.onSession k fun _ => rfl
  | serviceDestroy k =>
    have hidle : Accounted (s.onWebServiceIdling k) := h.onSession k fun _ => rfl
    exact hidle.sessionReset k
  | serviceGone k =>
    have hgone : Accounted (s.onSession k fun session => { session with service := false }) :=
      h.onSession k fun _ => rfl
    exact hgone.sessionReset k

theorem Accounted.new (maxStartups maxStartupsBegin maxStartupsRate : Nat) :
    Accounted (.new maxStartups maxStartupsBegin maxStartupsRate) where
  callbacks _ _ hget := nomatch hget
  startups := rfl
  few := by
    show 0 < 2 ^ 32
    decide
  once := nodup_nil
  failing _ hr := nomatch hr
  kept _ _ _ hget := nomatch hget

/-- **Every login is counted once.**  In a run in which the replies of a conversation are valid,
    no callback is invoked twice, `startups` is the number of unanswered requests, and the
    request that a session keeps is one of these. -/
theorem run_accounted (nonce : Nat → String)
    (maxStartups maxStartupsBegin maxStartupsRate : Nat) {es : List Event}
    (hok : RunOk (step nonce) RepliesWell
      (.new maxStartups maxStartupsBegin maxStartupsRate) es) :
    let s := run (step nonce) (.new maxStartups maxStartupsBegin maxStartupsRate) es
    (∀ result ∈ s.results, result.callbacks ≤ 1) ∧
      s.startups = s.results.countP (fun result => result.callbacks == 0) ∧
        ∀ session ∈ s.allSessions, ∀ r, session.result = some r →
          ∃ result, s.results[r]? = some result ∧ result.callbacks = 0 := by
  have h : Accounted _ := run_invariant Accounted (fun _ _ h => h.step) (.new _ _ _) hok
  refine ⟨fun result hmem => ?_, h.startups, fun session hmem r hr => ?_⟩
  · obtain ⟨r, hlt, rfl⟩ := mem_iff_getElem.mp hmem
    exact h.callbacks r _ (getElem?_eq_getElem hlt)
  · obtain ⟨k, hlt, rfl⟩ := mem_iff_getElem.mp hmem
    obtain ⟨-, result, hget, hopen, -⟩ := h.kept k _ r (getElem?_eq_getElem hlt) hr
    exact ⟨result, hget, hopen⟩

/-- The replies of a conversation are valid when every session can use them. -/
theorem repliesWell_of_all {s : Auth} (hfew : s.unanswered + 1 < 2 ^ 32)
    (h : s.allSessions.all fun session =>
      (challengeReply session.authorize request.authorization).isSome) :
    RepliesWell s (.login request) :=
  ⟨hfew, fun _ _ _ hsess => all_eq_true.mp h _ (mem_of_getElem? hsess)⟩

theorem run_accounted_conversation :
    (run (step toString) (.new 10 10 100) conversationRun).startups = 0 ∧
      ∀ result ∈ (run (step toString) (.new 10 10 100) conversationRun).results,
        result.callbacks ≤ 1 := by
  have hok : RunOk (step toString) RepliesWell (.new 10 10 100) conversationRun :=
    ⟨repliesWell_of_all (by decide) rfl, trivial,
      repliesWell_of_all (by decide) (by decide), trivial, trivial⟩
  obtain ⟨honce, hstartups, -⟩ := run_accounted toString 10 10 100 hok
  refine ⟨hstartups.trans ?_, honce⟩
  decide

/-- The process asks for a password after all, and the client goes on with the prompt that it
    knows of. -/
def staleRun : List Event :=
  [.login firstRequest, .control 0 "authorize" prompt,
    .control 0 "authorize" [("cookie", .string "other"), ("challenge", .string "Basic")],
    .login secondRequest, .idle, .closed 0 (some "timeout")]

/-- A request whose reply is invalid is answered twice, and `startups` wraps. -/
theorem not_accounted_stale :
    (run (step toString) (.new 10 10 100) staleRun).results.map (·.callbacks) = [1, 2] ∧
      (run (step toString) (.new 10 10 100) staleRun).startups = 2 ^ 32 - 1 := by
  decide

end Cockpit.Ws
