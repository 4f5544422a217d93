import Cockpit.Ws.AuthCore

namespace Cockpit.Ws

open Lib List Option

/-!
# A login succeeds only after a clean `init`

* `Clean` — all successes so far came from an `init` without `problem`;
* `run_login_after_init` — every run in which requests only go on with sessions whose process has
  not sent its `init` yet.
-/

/-- A session with an open request is not initialized, or the request has failed. -/
def Waits (s : Auth) (k : Nat) : Prop :=
  ∀ session r, s.allSessions[k]? = some session → session.result = some r →
    ∃ result, s.results[r]? = some result ∧
      (result.failed ∨ (result.session = some k ∧ session.initialized = false))

/-- A success came from an `init`, and the process has sent one without `problem`. -/
def AfterInit (outcome : Outcome) : Prop :=
  outcome.Success → outcome.cause = .init ∧ outcome.cleanInit

/-- The invariant of a run. -/
structure Clean (s : Auth) : Prop where
  outcomes : ∀ outcome ∈ s.outcomes, AfterInit outcome
  waits : ∀ k, Waits s k
  idle : ∀ r ∈ s.idle, ∃ result, s.results[r]? = some result ∧ result.failed

namespace Clean

variable {nonce : Nat → String} {s s' : Auth} {k r : Nat}

theorem Waits.congr (h : Waits s k) (hcore : SameCore s s') : Waits s' k := by
  intro session' r hget hr
  obtain ⟨session, hsess, hsame⟩ := hcore.symm.session hget
  have hres : session.result = session'.result := congrArg Session.Core.result hsame
  have hinit : session.initialized = session'.initialized :=
    congrArg Session.Core.initialized hsame
  obtain ⟨result, hresult, hcases⟩ := h session r hsess (hres.trans hr)
  obtain ⟨result', hres', hsame'⟩ := hcore.result hresult
  have hfailed : result'.failed = result.failed := congrArg LoginResult.Core.failed hsame'
  have howner : result'.session = result.session := congrArg LoginResult.Core.session hsame'
  refine ⟨result', hres', ?_⟩
  rcases hcases with hfail | ⟨hk, hnot⟩
  · exact .inl (hfailed.trans hfail)
  · exact .inr ⟨howner.trans hk, hinit.symm.trans hnot⟩

/-- Steps that complete nothing and touch nothing that decides about logins. -/
theorem congr (h : Clean s) (hcore : SameCore s s') (houts : s'.outcomes = s.outcomes) :
    Clean s' where
  outcomes := houts ▸ h.outcomes
  waits k := Waits.congr (h.waits k) hcore
  idle r hr := by
    obtain ⟨result, hres, hfail⟩ := h.idle r (hcore.idle ▸ hr)
    obtain ⟨result', hres', hsame⟩ := hcore.result hres
    exact ⟨result', hres', (congrArg LoginResult.Core.failed hsame).trans hfail⟩

/-- A result of the state with one more callback. -/
theorem called_result {r' : Nat} {result : LoginResult} (h : s.results[r']? = some result) :
    ∃ result', (s.called r).results[r']? = some result' ∧ result'.session = result.session ∧
      result'.failed = result.failed := by
  show ∃ result', (s.results.modify r _)[r']? = some result' ∧ _
  rw [getElem?_modify, h]
  split <;> exact ⟨_, rfl, rfl, rfl⟩

variable {cause : Cause}

/-- Completing a result that failed, or one of a session that is not initialized, or one of a
    session whose process sent a clean `init` just now. -/
theorem complete (h : Clean s) (hr : ∀ result,
    s.results[r]? = some result → result.failed ∨ ∃ k, result.session = some k ∧
      ∀ session, s.allSessions[k]? = some session → session.initialized = false ∨
        (cause = .init ∧ session.cleanInit)) : Clean (s.complete nonce r cause) := by
  have hcore := s.sameCore_complete nonce r cause
  have hcalled : Clean (s.called r) := by
    refine ⟨h.outcomes, ?_, ?_⟩
    · intro k session r' hget hr'
      obtain ⟨result, hres, hcases⟩ := h.waits k session r' hget hr'
      obtain ⟨result', hres', howner, hfailed⟩ := called_result (r := r) hres
      exact ⟨result', hres', howner ▸ hfailed ▸ hcases⟩
    intro r' hr'
    obtain ⟨result, hres, hfail⟩ := h.idle r' hr'
    obtain ⟨result', hres', -, hfailed⟩ := called_result (r := r) hres
    exact ⟨result', hres', hfailed.trans hfail⟩
  refine ⟨?_, fun k => Waits.congr (hcalled.waits k) hcore, ?_⟩
  · intro outcome hout
    rcases s.complete_outcomes nonce r cause outcome hout with hold | hnew
    · exact h.outcomes outcome hold
    intro hsucc
    obtain ⟨result, k, session, hres, hnot, hk, hsess, hinit, hcause, hclean⟩ :=
      hnew hsucc
    rcases hr result hres with hfailed | ⟨k', hk', hstate⟩
    · exact nomatch (hfailed.symm.trans hnot)
    obtain rfl := mem_unique hk' hk
    rcases hstate session hsess with hnotInit | ⟨hinitCause, hcleanInit⟩
    · exact nomatch (hinit.symm.trans hnotInit)
    · exact ⟨hcause.trans hinitCause, hclean.trans hcleanInit⟩
  intro r' hr'
  obtain ⟨result, hres, hfailed⟩ := hcalled.idle r' (hcore.idle ▸ hr')
  obtain ⟨result', hres', hsame⟩ := hcore.result hres
  exact ⟨result', hres', (congrArg LoginResult.Core.failed hsame).trans hfailed⟩

/-- The open request of `k` may be answered, even when `k` does not wait properly any more. -/
theorem completeSession (houts : ∀ outcome ∈ s.outcomes, AfterInit outcome)
    (hidle : ∀ r ∈ s.idle, ∃ result, s.results[r]? = some result ∧ result.failed)
    (hothers : ∀ k', k' ≠ k → Waits s k')
    (hself : ∀ session r, s.allSessions[k]? = some session → session.result = some r →
      ∃ result, s.results[r]? = some result ∧ (result.failed ∨
        (result.session = some k ∧ (session.initialized = false ∨
          (cause = .init ∧ session.cleanInit))))) :
    Clean (s.completeSession nonce k cause) := by
  unfold Auth.completeSession
  cases hget : s.allSessions[k]? with
  | none =>
    refine ⟨houts, fun k' session r hsess hr => ?_, hidle⟩
    by_cases hk : k' = k
    · subst hk
      cases hget.symm.trans hsess
    · exact hothers k' hk session r hsess hr
  | some session =>
    cases hr : session.result with
    | none =>
      simp only [bind_some, hr]
      refine ⟨houts, fun k' session' r hsess' hr' => ?_, hidle⟩
      by_cases hk : k' = k
      · subst hk
        obtain rfl := mem_unique hsess' hget
        cases hr.symm.trans hr'
      · exact hothers k' hk session' r hsess' hr'
    | some r =>
      simp only [bind_some, hr]
      have hdropped : Clean (s.onSession k fun session => { session with result := none }) := by
        refine ⟨houts, fun k' session' r' hsess' hr' => ?_, hidle⟩
        obtain ⟨old, hold, ⟨-, rfl⟩ | ⟨hne, rfl⟩⟩ := modify_cases hsess'
        · cases hr'
        · exact hothers k' (Ne.symm hne) session' r' hold hr'
      refine hdropped.complete fun result hres => ?_
      obtain ⟨result', hres', hcases⟩ := hself session r hget hr
      obtain rfl := mem_unique hres hres'
      rcases hcases with hfail | ⟨howner, hstate⟩
      · exact .inl hfail
      refine .inr ⟨k, howner, fun session' hsess' => ?_⟩
      obtain ⟨old, hold, ⟨-, rfl⟩ | ⟨hne, -⟩⟩ := modify_cases hsess'
      · obtain rfl := mem_unique hold hget
        exact hstate
      · exact absurd rfl hne

/-- The open request of a session that waits is answered. -/
theorem answer (h : Clean s) (k : Nat) (cause : Cause) :
    Clean (s.completeSession nonce k cause) := by
  refine completeSession h.outcomes h.idle (fun k' _ => h.waits k') ?_
  intro session r hsess hr
  obtain ⟨result, hres, hcases⟩ := h.waits k session r hsess hr
  refine ⟨result, hres, ?_⟩
  rcases hcases with hfail | ⟨howner, hnot⟩
  · exact .inl hfail
  · exact .inr ⟨howner, .inl hnot⟩

theorem resetRest (h : Clean s) (k : Nat) : Clean (s.resetRest k) :=
  h.congr (s.sameCore_resetRest k) (s.outcomes_resetRest k)

/-- A reset fails a request that waits. -/
theorem sessionReset (h : Clean s) (k : Nat) : Clean (s.sessionReset nonce k) :=
  (h.answer k .reset).resetRest k

theorem onSession (h : Clean s) (k : Nat) {f : Session → Session}
    (hf : ∀ session, (f session).core = session.core) : Clean (s.onSession k f) :=
  h.congr (s.sameCore_onSession k hf) rfl

theorem takeError_result {r' : Nat} {error : AuthError} {result : LoginResult}
    (h : s.results[r']? = some result) :
    ∃ result', (s.takeError r error).results[r']? = some result' ∧
      result'.session = result.session ∧
        (result'.failed ∨ (r ≠ r' ∧ result'.failed = result.failed)) := by
  show ∃ result', (s.results.modify r _)[r']? = some result' ∧ _
  rw [getElem?_modify, h]
  split
  · exact ⟨_, rfl, rfl, .inl rfl⟩
  · rename_i hne
    exact ⟨_, rfl, rfl, .inr ⟨hne, rfl⟩⟩

theorem takeError_waits (h : Waits s k) (r : Nat) (error : AuthError) :
    Waits (s.takeError r error) k := by
  intro session r' hsess hr'
  obtain ⟨result, hres, hcases⟩ := h session r' hsess hr'
  obtain ⟨result', hres', howner, hfailed⟩ := takeError_result (r := r) hres
  refine ⟨result', hres', ?_⟩
  rcases hfailed with hfailed | ⟨-, hsame⟩
  · exact .inl hfailed
  · rcases hcases with hfail | ⟨hk, hnot⟩
    · exact .inl (hsame.trans hfail)
    · exact .inr ⟨howner.trans hk, hnot⟩

theorem takeError_idle
    (h : ∀ r ∈ s.idle, ∃ result, s.results[r]? = some result ∧ result.failed)
    (r : Nat) (error : AuthError) :
    ∀ r' ∈ s.idle, ∃ result, (s.takeError r error).results[r']? = some result ∧
      result.failed := by
  intro r' hr'
  obtain ⟨result, hres, hfail⟩ := h r' hr'
  obtain ⟨result', hres', -, hfailed⟩ := takeError_result (r := r) hres
  refine ⟨result', hres', ?_⟩
  rcases hfailed with hfailed | ⟨-, hsame⟩
  · exact hfailed
  · exact hsame.trans hfail

theorem takeError (h : Clean s) (r : Nat) (error : AuthError) : Clean (s.takeError r error) :=
  ⟨h.outcomes, fun k => takeError_waits (h.waits k) r error, takeError_idle h.idle r error⟩

theorem failSession (h : Clean s) (k : Nat) (error : AuthError) :
    Clean (s.failSession k error) := by
  unfold Auth.failSession
  split
  · exact h
  · exact h.takeError _ error

/-- `init` answers the open request: with an error for a `problem`, as a success without one. -/
theorem onInit (h : Clean s) {session : Session}
    (hsess : s.allSessions[k]? = some session) (options : JsonObject) :
    Clean (s.onInit nonce k session options) := by
  -- every other session waits as before
  have hothers : ∀ (f : Session → Session) k', k' ≠ k → Waits (s.onSession k f) k' := by
    intro f k' hne session' r hget hr
    obtain ⟨old, hold, ⟨heq, -⟩ | ⟨-, rfl⟩⟩ := modify_cases hget
    · exact absurd heq.symm hne
    · exact h.waits k' session' r hold hr
  unfold Auth.onInit
  dsimp only
  split
  · rename_i problem _
    generalize problemError _ _ _ _ = error
    -- the request of `k` fails before it is answered
    have hbind : (s.onSession k fun session =>
        { session with controlSig := false, closeSig := false,
                       initialized := true }).allSessions[k]?.bind (·.result) =
          session.result := by
      show ((s.allSessions.modify k _)[k]?).bind _ = _
      rw [getElem?_modify_eq, hsess]
      rfl
    unfold Auth.failSession
    rw [hbind]
    cases hr : session.result with
    | none =>
      refine completeSession h.outcomes h.idle (hothers _) ?_
      intro session' r hget hr'
      obtain ⟨old, hold, ⟨-, rfl⟩ | ⟨hne, -⟩⟩ := modify_cases hget
      · obtain rfl := mem_unique hold hsess
        cases hr.symm.trans hr'
      · exact absurd rfl hne
    | some r =>
      refine completeSession h.outcomes (takeError_idle h.idle r error)
        (fun k' hne => takeError_waits (hothers _ k' hne) r error) ?_
      intro session' r' hget hr'
      obtain ⟨old, hold, ⟨-, rfl⟩ | ⟨hne, -⟩⟩ := modify_cases hget
      · obtain rfl := mem_unique hold hsess
        obtain rfl := mem_unique hr hr'
        obtain ⟨result, hres, -⟩ := h.waits k old r hold hr
        obtain ⟨result', hres', -, hfail⟩ :=
          @takeError_result s r r error result hres
        refine ⟨result', hres', .inl ?_⟩
        rcases hfail with hfail | ⟨hne, -⟩
        · exact hfail
        · exact absurd rfl hne
      · exact absurd rfl hne
  refine completeSession h.outcomes h.idle ?_ ?_
  · intro k' hne session' r hget hr
    obtain ⟨old, hold, ⟨heq, -⟩ | ⟨-, rfl⟩⟩ := modify_cases hget
    · exact absurd heq.symm hne
    · exact hothers _ k' hne session' r hold hr
  intro session' r hget hr
  obtain ⟨mid, hmid, ⟨-, rfl⟩ | ⟨hne, -⟩⟩ := modify_cases hget
  · obtain ⟨old, hold, ⟨-, rfl⟩ | ⟨hne, -⟩⟩ := modify_cases hmid
    · obtain ⟨result, hres, hcases⟩ := h.waits k old r hold hr
      refine ⟨result, hres, ?_⟩
      rcases hcases with hfail | ⟨howner, -⟩
      · exact .inl hfail
      · exact .inr ⟨howner, .inr ⟨rfl, rfl⟩⟩
    · exact absurd rfl hne
  · exact absurd rfl hne

/-- Another `authorize` message, whose members no request depends on. -/
theorem setAuthorize (h : Clean s) (k : Nat) (options : JsonObject) :
    Clean (s.onSession k fun session => { session with authorize := some options }) := { h with
  waits k' session r hget hr := by
    obtain ⟨old, hold, ⟨-, rfl⟩ | ⟨-, rfl⟩⟩ := modify_cases hget
    · exact h.waits k' old r hold hr
    · exact h.waits k' session r hold hr }

theorem core_answer (session : Session) (reply : Reply) :
    (session.answer reply).core = session.core := by
  cases reply <;> rfl

section

variable (h : Clean s)

include h

theorem onTransportControl (k : Nat) (command : String) (options : JsonObject) :
    Clean (s.onTransportControl nonce k command options) := by
  unfold Auth.onTransportControl
  split
  · exact h
  rename_i session hsess
  split
  · exact h
  split
  · exact h.onInit hsess options
  split
  · have hset := h.setAuthorize k options
    dsimp only
    split
    · rename_i reply _
      exact hset.onSession k fun session => core_answer session reply
    · exact hset.answer k .control
  · exact h.answer k .control

theorem onTransportClosed (k : Nat) (problem : Option String) :
    Clean (s.onTransportClosed nonce k problem) := by
  unfold Auth.onTransportClosed
  split
  · exact h
  split
  · exact h
  · split
    · exact (h.failSession k _).answer k .closed
    · exact h.sessionReset k

theorem onTimeout (k : Nat) (idling : Bool) :
    Clean (s.onTimeout nonce k idling) := by
  unfold Auth.onTimeout
  have hcleared : Clean (s.onSession k fun session => { session with timeout := none }) :=
    h.onSession k fun _ => rfl
  split
  · exact h
  dsimp only
  split
  · exact h
  · exact hcleared
  · split
    · exact hcleared.sessionReset k
    · exact hcleared

theorem runIdle : Clean (s.runIdle nonce) := by
  unfold Auth.runIdle
  split
  · exact h
  rename_i r idle hidle
  have hpopped : Clean { s with idle } :=
    ⟨h.outcomes, h.waits, fun r' hr' => h.idle r' (hidle ▸ mem_cons_of_mem _ hr')⟩
  refine hpopped.complete fun result hres => .inl ?_
  obtain ⟨result', hres', hfail⟩ := h.idle r (hidle ▸ mem_cons_self ..)
  obtain rfl := mem_unique hres hres'
  exact hfail

/-- A request with an error that is reported from the main loop. -/
theorem failInIdle (hr : r < s.results.length) (error : AuthError) :
    Clean (s.failInIdle r error) where
  outcomes := h.outcomes
  waits := (h.takeError r error).waits
  idle r' hr' := by
    rcases mem_append.mp hr' with hold | hnew
    · exact (h.takeError r error).idle r' hold
    obtain rfl := mem_singleton.mp hnew
    obtain ⟨result', hres', -, hfail⟩ := @takeError_result s r' r' error _
      (getElem?_eq_getElem hr)
    refine ⟨result', hres', ?_⟩
    rcases hfail with hfail | ⟨hne, -⟩
    · exact hfail
    · exact absurd rfl hne

/-- A new request gets a session that is not initialized, unless its reply is invalid. -/
theorem startLogin (hr : r < s.results.length)
    (hfresh : ∀ (k' : Nat) (session : Session), s.allSessions[k']? = some session →
      session.result ≠ some r) {authorization : String} {resumes : Bool}
    (hnot : ∀ session : Session, s.allSessions[k]? = some session →
      (resumes → (challengeReply session.authorize (some authorization)).isSome) →
        session.initialized = false) :
    Clean (s.startLogin nonce r k authorization resumes) := by
  -- the request belongs to the session
  have howned : Clean (s.onResult r fun result => { result with session := some k }) := by
    refine ⟨h.outcomes, ?_, ?_⟩
    · intro k' session r' hsess hr'
      obtain ⟨result, hres, hcases⟩ := h.waits k' session r' hsess hr'
      refine ⟨result, ?_, hcases⟩
      have hne : r ≠ r' := by
        rintro rfl
        exact hfresh k' session hsess hr'
      exact (getElem?_modify_ne _ _ hne).trans hres
    intro r' hr'
    obtain ⟨result, hres, hfail⟩ := h.idle r' hr'
    show ∃ result, (s.results.modify r _)[r']? = some result ∧ _
    rw [getElem?_modify, hres]
    split <;> exact ⟨_, rfl, hfail⟩
  have hreset : Clean ((s.onResult r fun result =>
      { result with session := some k }).sessionReset nonce k) := howned.sessionReset k
  have hkept := Auth.kept_sessionReset nonce
    (s.onResult r fun result => { result with session := some k }) k
  have hlen : r < ((s.onResult r fun result =>
      { result with session := some k }).sessionReset nonce k).results.length := by
    rw [hkept.length_results]
    show r < (s.results.modify r _).length
    rw [length_modify]
    exact hr
  -- and the session has the request
  have hothers : ∀ k', k' ≠ k → Waits (((s.onResult r fun result =>
      { result with session := some k }).sessionReset nonce k).onSession k fun session =>
        { session with result := some r, authorization := some authorization }) k' := by
    intro k' hne session r' hget hr'
    obtain ⟨old, hold, ⟨heq, -⟩ | ⟨-, rfl⟩⟩ := modify_cases hget
    · exact absurd heq.symm hne
    · exact hreset.waits k' session r' hold hr'
  have hasked : (∀ session : Session, s.allSessions[k]? = some session →
      session.initialized = false) → Clean (((s.onResult r fun result =>
        { result with session := some k }).sessionReset nonce k).onSession k fun session =>
          { session with result := some r, authorization := some authorization }) := by
    intro hearly
    refine ⟨hreset.outcomes, fun k' => ?_, hreset.idle⟩
    by_cases hk : k' = k
    · intro session r' hget hr'
      obtain ⟨old, hold, ⟨-, rfl⟩ | ⟨hne, -⟩⟩ := modify_cases hget
      · obtain rfl := some.inj hr'
        have hres : (s.onResult r fun result =>
            { result with session := some k }).results[r]? =
              some { s.results[r] with session := some k } := by
          show (s.results.modify r _)[r]? = _
          rw [getElem?_modify_eq, getElem?_eq_getElem hr]
          rfl
        obtain ⟨result', hres', howner, -⟩ := hkept.result hres
        obtain ⟨old', hold', hinit, -⟩ := hkept.session hold
        refine ⟨result', hres', .inr ⟨howner.trans (congrArg some hk.symm), ?_⟩⟩
        exact hinit.trans (hearly old' (hk ▸ hold'))
      · exact absurd hk.symm hne
    · exact hothers k' hk
  unfold Auth.startLogin
  dsimp only
  split
  · rename_i hresumes
    split
    · -- the reply is invalid, and the request that the session keeps has failed
      refine ⟨hreset.outcomes, fun k' => ?_, ?_⟩
      · by_cases hk : k' = k
        · intro session r' hget hr'
          obtain ⟨old, hold, ⟨-, rfl⟩ | ⟨hne, -⟩⟩ := modify_cases hget
          · obtain rfl := some.inj hr'
            obtain ⟨result', hres', -, hfail⟩ := takeError_result (r := r)
              (getElem?_eq_getElem hlen)
            refine ⟨result', hres', .inl ?_⟩
            rcases hfail with hfail | ⟨hne, -⟩
            · exact hfail
            · exact absurd rfl hne
          · exact absurd hk.symm hne
        · exact takeError_waits (hothers k' hk) r _
      · exact (hreset.failInIdle hlen _).idle
    rename_i reply hreply
    have hearly : ∀ session : Session, s.allSessions[k]? = some session →
        session.initialized = false := by
      intro session hsess
      refine hnot session hsess fun _ => ?_
      obtain ⟨asked, hgetAsked, hreplyAsked⟩ := bind_eq_some_iff.mp hreply
      obtain ⟨old, hold, ⟨-, rfl⟩ | ⟨hne, -⟩⟩ := modify_cases hgetAsked
      · obtain ⟨old', hold', -, hauth⟩ := hkept.session hold
        obtain rfl := mem_unique hold' hsess
        exact isSome_iff_exists.mpr ⟨reply, hauth ▸ hreplyAsked⟩
      · exact absurd rfl hne
    refine (hasked hearly).onSession k fun session => ?_
    exact core_answer session reply
  · rename_i hresumes
    refine (hasked fun session hsess => ?_).onSession k fun _ => rfl
    exact hnot session hsess fun h => absurd h hresumes

/-- A request that has no session yet. -/
theorem newResult :
    Clean { s.countStartup with results := s.results ++ [({} : LoginResult)] } where
  outcomes := h.outcomes
  waits k session r hsess hr := by
    obtain ⟨result, hres, hcases⟩ := h.waits k session r hsess hr
    have hlt := (List.getElem?_eq_some_iff.mp hres).1
    exact ⟨result, (getElem?_append_left hlt).trans hres, hcases⟩
  idle r hr := by
    obtain ⟨result, hres, hfail⟩ := h.idle r hr
    have hlt := (List.getElem?_eq_some_iff.mp hres).1
    exact ⟨result, (getElem?_append_left hlt).trans hres, hfail⟩

/-- A request whose session, if it goes on with one, is not initialized yet. -/
theorem loginAsync {request : Request} (hnot : ∀ (k : Nat) (session : Session),
    s.resumes request = some k → s.allSessions[k]? = some session →
      (challengeReply session.authorize request.authorization).isSome →
        session.initialized = false) : Clean (s.loginAsync nonce request) := by
  have hnew := h.newResult
  have hr : s.results.length <
      ({ s.countStartup with results := s.results ++ [({} : LoginResult)] } :
        Auth).results.length := by
    show s.results.length < (s.results ++ [({} : LoginResult)]).length
    rw [List.length_append]
    exact Nat.lt_succ_self _
  have hfresh : ∀ (k : Nat) (session : Session), s.allSessions[k]? = some session →
      session.result ≠ some s.results.length := by
    intro k session hsess hres
    obtain ⟨result, hget, -⟩ := h.waits k session _ hsess hres
    exact Nat.lt_irrefl _ (List.getElem?_eq_some_iff.mp hget).1
  unfold Auth.loginAsync
  dsimp only
  split
  · exact hnew.failInIdle hr _
  rename_i hcan
  split
  · rename_i authorization happ hauth
    split
    · rename_i conversation hconv
      split
      · exact hnew.failInIdle hr _
      rename_i k hlook
      refine hnew.startLogin hr hfresh fun session hsess hreply => ?_
      refine hnot k session ?_ hsess (hauth ▸ hreply rfl)
      unfold Auth.resumes
      rw [if_pos (by simpa [happ, hauth] using hcan), hconv]
      exact hlook
    split
    · exact hnew.failInIdle hr _
    have hcases : ∀ {k : Nat} {session : Session},
        (s.allSessions ++ [({} : Session)])[k]? = some session →
          s.allSessions[k]? = some session ∨ session = {} := by
      intro k session hget
      rw [getElem?_append] at hget
      split at hget
      · exact .inl hget
      rw [getElem?_singleton] at hget
      split at hget
      · exact .inr (some.inj hget).symm
      · exact nomatch hget
    refine startLogin (s := { s.countStartup with
        results := s.results ++ [({} : LoginResult)]
        allSessions := s.allSessions ++ [({} : Session)] }) ?_ hr ?_ ?_
    · refine ⟨hnew.outcomes, fun k session r hget hres => ?_, hnew.idle⟩
      rcases hcases hget with hold | rfl
      · exact hnew.waits k session r hold hres
      · exact nomatch hres
    · intro k session hget
      rcases hcases hget with hold | rfl
      · exact hfresh k session hold
      · exact nofun
    intro session hget _
    have hlast : (s.allSessions ++ [({} : Session)])[s.allSessions.length]? = some {} := by simp
    obtain rfl := mem_unique hget hlast
    rfl
  · exact hnew.failInIdle hr _

end

theorem new (maxStartups maxStartupsBegin maxStartupsRate : Nat) :
    Clean (.new maxStartups maxStartupsBegin maxStartupsRate) :=
  ⟨fun _ h => (nomatch h), fun _ _ _ h => (nomatch h), fun _ h => (nomatch h)⟩

end Clean

/-! ## Whole runs -/

/-- A request that goes on with a session, with a reply it can use, finds one whose process has
    not sent its `init`. -/
def ResumesEarly (s : Auth) : Event → Prop
  | .login request => ∀ (k : Nat) (session : Session), s.resumes request = some k →
    s.allSessions[k]? = some session →
      (challengeReply session.authorize request.authorization).isSome → session.initialized = false
  | _ => True

theorem Clean.step {nonce : Nat → String} {s : Auth} {e : Event} (h : Clean s)
    (hok : ResumesEarly s e) : Clean (Ws.step nonce s e) := by
  cases e with
  | login request => exact h.loginAsync hok
  | idle => exact h.runIdle
  | control k command options => exact h.onTransportControl k command options
  | closed k problem => exact h.onTransportClosed k problem
  | timeout k idling => exact h.onTimeout k idling
  | serviceIdling k => exact h.onSession k fun _ => rfl
  | serviceDestroy k =>
    have hidle : Clean (s.onWebServiceIdling k) := h.onSession k fun _ => rfl
    exact hidle.sessionReset k
  | serviceGone k =>
    have hgone : Clean (s.onSession k fun session => { session with service := false }) :=
      h.onSession k fun _ => rfl
    exact hgone.sessionReset k

/-- **A login succeeds only after a clean `init`.**  In a run in which requests only go on with
    sessions that are not initialized yet, every success of `cockpit_auth_login_finish` comes
    from an `init` of the process without `problem`, and from nothing else. -/
theorem run_login_after_init (nonce : Nat → String)
    (maxStartups maxStartupsBegin maxStartupsRate : Nat) {es : List Event}
    (hok : RunOk (step nonce) ResumesEarly
      (.new maxStartups maxStartupsBegin maxStartupsRate) es) :
    ∀ outcome ∈ (run (step nonce)
      (.new maxStartups maxStartupsBegin maxStartupsRate) es).outcomes,
      outcome.Success → outcome.cause = .init ∧ outcome.cleanInit = true :=
  (run_invariant Clean (fun _ _ h => h.step) (.new _ _ _) hok).outcomes

/-- Requests cannot go on with a session that is initialized when there is none. -/
theorem resumesEarly_of_all {s : Auth} (h : s.allSessions.all fun session => !session.initialized)
    (request : Request) : ResumesEarly s (.login request) := by
  intro k session _ hsess _
  simpa using all_eq_true.mp h session (mem_of_getElem? hsess)

/-- A prompt of the session process. -/
def prompt : JsonObject :=
  [("cookie", .string "cookie"), ("challenge", .string "X-Conversation token UGFzc3dvcmQ6")]

def firstRequest : Request := { application := true, authorization := some "Basic YTpi" }

def secondRequest : Request :=
  { application := true, authorization := some "X-Conversation token cmVwbHk="
    conversation := some "token" }

/-- The process asks for more, is told, and is content. -/
def conversationRun : List Event :=
  [.login firstRequest, .control 0 "authorize" prompt, .login secondRequest, .control 0 "init" []]

theorem run_login_after_init_conversation : ∃ outcome ∈ (run (step toString)
    (.new 10 10 100) conversationRun).outcomes,
      outcome.Success ∧ outcome.cause = .init ∧ outcome.cleanInit = true := by
  have hsuccess : ((run (step toString) (.new 10 10 100) conversationRun).outcomes.any
      fun outcome => outcome.body.isSome && outcome.error.isNone) = true := by decide
  obtain ⟨outcome, houtcome, hbody⟩ := any_eq_true.mp hsuccess
  have hgood : outcome.Success := by
    unfold Outcome.Success
    simpa using hbody
  refine ⟨outcome, houtcome, hgood, run_login_after_init toString 10 10 100 ?_ outcome houtcome
    hgood⟩
  exact ⟨resumesEarly_of_all rfl _, trivial, resumesEarly_of_all (by decide) _, trivial, trivial⟩

/-- The process refuses while no request is open, and a request that goes on with its session is
    open when the service goes away. -/
def refusedRun : List Event :=
  [.login firstRequest, .control 0 "authorize" prompt,
    .control 0 "init" [("problem", .string "authentication-failed")], .login secondRequest,
    .serviceDestroy 0]

/-- The reset of a session whose process only sent a problem is a successful login. -/
theorem not_login_after_init_refused : ∃ outcome ∈ (run (step toString)
    (.new 10 10 100) refusedRun).outcomes,
      outcome.Success ∧ outcome.cause = .reset ∧ outcome.cleanInit = false := by
  have hsuccess : ((run (step toString) (.new 10 10 100) refusedRun).outcomes.any
      fun outcome => outcome.body.isSome && outcome.error.isNone &&
        decide (outcome.cause = .reset) && !outcome.cleanInit) := by decide
  obtain ⟨outcome, houtcome, hall⟩ := any_eq_true.mp hsuccess
  refine ⟨outcome, houtcome, ?_⟩
  unfold Outcome.Success
  simpa [and_assoc] using hall

end Cockpit.Ws
