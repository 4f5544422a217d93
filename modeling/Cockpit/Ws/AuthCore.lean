import Cockpit.Lib.Modify
import Cockpit.Ws.Auth

namespace Cockpit.Ws

open Lib List Auth

/-!
# What completing a login changes

A callback runs `cockpit_auth_login_finish`, which works on the tables, the timeouts and the
conversation of a session.  The lemmas here say that it leaves alone what decides about the
other logins, and what it returns.

* `complete_outcomes` — a success needs a session that is initialized;
* `complete_startups` — a completed login is no longer counted.
-/

/-- What a session has to do with logins. -/
structure Session.Core where
  result : Option Nat
  initialized : Bool
  cleanInit : Bool
  authorize : Option JsonObject

def Session.core (session : Session) : Session.Core :=
  ⟨session.result, session.initialized, session.cleanInit, session.authorize⟩

/-- What a result has to do with its session. -/
structure LoginResult.Core where
  session : Option Nat
  failed : Bool
  callbacks : Nat

def LoginResult.core (result : LoginResult) : LoginResult.Core :=
  ⟨result.session, result.failed, result.callbacks⟩

/-- Two states that agree in what decides about logins. -/
structure SameCore (s s' : Auth) : Prop where
  sessions : s'.allSessions.map Session.core = s.allSessions.map Session.core
  results : s'.results.map LoginResult.core = s.results.map LoginResult.core
  idle : s'.idle = s.idle

namespace SameCore

variable {s s' u : Auth}

theorem refl (s : Auth) : SameCore s s := ⟨rfl, rfl, rfl⟩

theorem trans (h : SameCore s s') (h' : SameCore s' u) : SameCore s u :=
  ⟨h'.sessions.trans h.sessions, h'.results.trans h.results, h'.idle.trans h.idle⟩

theorem symm (h : SameCore s s') : SameCore s' s :=
  ⟨h.sessions.symm, h.results.symm, h.idle.symm⟩

/-- A session of the one state is there in the other, with the same core. -/
theorem session (h : SameCore s s') {k : Nat} {session : Session}
    (hget : s.allSessions[k]? = some session) :
    ∃ session', s'.allSessions[k]? = some session' ∧ session'.core = session.core :=
  getElem?_of_map_eq h.sessions hget

theorem result (h : SameCore s s') {r : Nat} {result : LoginResult}
    (hget : s.results[r]? = some result) :
    ∃ result', s'.results[r]? = some result' ∧ result'.core = result.core :=
  getElem?_of_map_eq h.results hget

/-- The end of `cockpit_auth_login_finish`. -/
theorem finished (h : SameCore s u) (outcome : Outcome) :
    SameCore s (u.note outcome).uncountStartup := by
  unfold uncountStartup Auth.note
  exact ⟨h.sessions, h.results, h.idle⟩

end SameCore

namespace Auth

variable {nonce : Nat → String} {s : Auth}

theorem sameCore_onSession (s : Auth) (k : Nat) {f : Session → Session}
    (hf : ∀ session, (f session).core = session.core) : SameCore s (s.onSession k f) :=
  ⟨map_modify_of_eq hf _ _, rfl, rfl⟩

theorem sameCore_resetRest (s : Auth) (k : Nat) : SameCore s (s.resetRest k) := by
  unfold resetRest
  split
  · exact .refl s
  · have h := s.sameCore_onSession k (f := fun session =>
      { session with authorization := none, conversation := none, cookie := none }) fun _ => rfl
    exact ⟨h.sessions, h.results, h.idle⟩

theorem sameCore_startConversation (nonce : Nat → String) (s : Auth) (challenge type : String) :
    SameCore s (s.startConversation nonce challenge type).1 := by
  unfold startConversation
  split
  · exact ⟨rfl, rfl, rfl⟩
  · split <;> exact .refl s

theorem sameCore_passChallenge (nonce : Nat → String) (s : Auth) (k : Nat)
    (authorize : Option JsonObject) : SameCore s (s.passChallenge nonce k authorize).1 := by
  unfold passChallenge
  split
  · exact .refl s
  rename_i challenge type object _
  have hstart := s.sameCore_startConversation nonce challenge type
  dsimp only
  have hset := (s.startConversation nonce challenge type).1.sameCore_onSession k
    (f := fun session =>
      { session with conversation := (s.startConversation nonce challenge type).2 })
    fun _ => rfl
  split
  · exact hstart.trans hset
  have htime := sameCore_onSession
    ((s.startConversation nonce challenge type).1.onSession k fun session =>
      { session with conversation := (s.startConversation nonce challenge type).2 }) k
    (f := fun session => { session with timeout := some .authorize }) fun _ => rfl
  have hall := (hstart.trans hset).trans htime
  exact ⟨hall.sessions, hall.results, hall.idle⟩

theorem sameCore_startSession (nonce : Nat → String) (s : Auth) (k : Nat) :
    SameCore s (s.startSession nonce k).1 := by
  have h := s.sameCore_onSession k (f := fun session =>
    { session with timeout := some .session, cookie := some ("v=2;k=" ++ nonce s.nonceSeed) })
    fun _ => rfl
  exact ⟨h.sessions, h.results, h.idle⟩

theorem sameCore_onResult (s : Auth) (r : Nat) {f : LoginResult → LoginResult}
    (hf : ∀ result, (f result).core = result.core) : SameCore s (s.onResult r f) :=
  ⟨rfl, map_modify_of_eq hf _ _, rfl⟩

theorem sameCore_note (s : Auth) (outcome : Outcome) : SameCore s (s.note outcome) :=
  ⟨rfl, rfl, rfl⟩

theorem sameCore_finishLogin (nonce : Nat → String) (s : Auth) (r k : Nat) (cause : Cause) :
    SameCore s (s.finishLogin nonce r k cause) := by
  unfold finishLogin
  split
  · exact .refl s
  rename_i session _
  split
  · exact s.sameCore_note _
  have hreset := s.sameCore_resetRest k
  have hpass := (s.resetRest k).sameCore_passChallenge nonce k session.authorize
  dsimp only
  split
  · have hstart := sameCore_startSession nonce
      ((s.resetRest k).passChallenge nonce k session.authorize).1 k
    exact ((hreset.trans hpass).trans hstart).finished _
  · exact (hreset.trans hpass).finished _

/-- `cockpit_auth_login_finish` leaves alone what decides about logins. -/
theorem sameCore_loginFinish (nonce : Nat → String) (s : Auth) (r : Nat) (cause : Cause) :
    SameCore s (s.loginFinish nonce r cause) := by
  unfold loginFinish
  split
  · exact .refl s
  split
  · have hmove := s.sameCore_onResult r
      (f := fun result => { result with error := none }) fun _ => rfl
    exact hmove.finished _
  · split
    · exact s.sameCore_note _
    · exact s.sameCore_finishLogin nonce r _ cause

/-- The callback of a result is invoked. -/
def called (s : Auth) (r : Nat) : Auth :=
  s.onResult r fun result => { result with callbacks := result.callbacks + 1 }

/-- Completing a result only counts its callback. -/
theorem sameCore_complete (nonce : Nat → String) (s : Auth) (r : Nat) (cause : Cause) :
    SameCore (s.called r) (s.complete nonce r cause) :=
  (s.called r).sameCore_loginFinish nonce r cause

/-! ## What `cockpit_auth_login_finish` returns -/

@[simp] theorem outcomes_resetRest (s : Auth) (k : Nat) :
    (s.resetRest k).outcomes = s.outcomes := by
  unfold resetRest
  split <;> rfl

@[simp] theorem outcomes_startConversation (nonce : Nat → String) (s : Auth)
    (challenge type : String) :
    (s.startConversation nonce challenge type).1.outcomes = s.outcomes := by
  unfold startConversation
  split
  · rfl
  · split <;> rfl

@[simp] theorem outcomes_passChallenge (nonce : Nat → String) (s : Auth) (k : Nat)
    (authorize : Option JsonObject) :
    (s.passChallenge nonce k authorize).1.outcomes = s.outcomes := by
  unfold passChallenge
  split
  · rfl
  rename_i challenge type object _
  dsimp only
  split <;> exact s.outcomes_startConversation nonce challenge type

@[simp] theorem outcomes_startSession (nonce : Nat → String) (s : Auth) (k : Nat) :
    (s.startSession nonce k).1.outcomes = s.outcomes := rfl

@[simp] theorem outcomes_uncountStartup (s : Auth) : s.uncountStartup.outcomes = s.outcomes := by
  unfold uncountStartup
  rfl

@[simp] theorem outcomes_note (s : Auth) (outcome : Outcome) :
    (s.note outcome).outcomes = s.outcomes ++ [outcome] := rfl

end Auth

/-- A body without an error. -/
def Outcome.Success (outcome : Outcome) : Prop :=
  outcome.body.isSome ∧ outcome.error = none

namespace Auth

variable {nonce : Nat → String} {s : Auth}

/-- The outcome of a login without an error in its result: a success comes from a session that
    is initialized. -/
theorem finishLogin_outcomes (nonce : Nat → String) (s : Auth) (r k : Nat) (cause : Cause) :
    ∀ outcome ∈ (s.finishLogin nonce r k cause).outcomes, outcome ∈ s.outcomes ∨
      (outcome.Success → ∃ session, s.allSessions[k]? = some session ∧
        session.initialized ∧ outcome.cause = cause ∧
          outcome.cleanInit = session.cleanInit) := by
  intro outcome hout
  unfold finishLogin at hout
  split at hout
  · exact .inl hout
  rename_i session hsess
  split at hout
  · rw [outcomes_note] at hout
    rcases mem_append.mp hout with hold | hnew
    · exact .inl hold
    · rw [mem_singleton.mp hnew]
      exact .inr fun hsucc => absurd hsucc.1 Bool.false_ne_true
  dsimp only at hout
  split at hout
  · rename_i hinitialized
    rw [outcomes_uncountStartup, outcomes_note, outcomes_startSession,
      outcomes_passChallenge, outcomes_resetRest] at hout
    rcases mem_append.mp hout with hold | hnew
    · exact .inl hold
    · rw [mem_singleton.mp hnew]
      exact .inr fun _ => ⟨session, hsess, hinitialized, rfl, rfl⟩
  rw [outcomes_uncountStartup, outcomes_note, outcomes_passChallenge, outcomes_resetRest] at hout
  rcases mem_append.mp hout with hold | hnew
  · exact .inl hold
  · rw [mem_singleton.mp hnew]
    exact .inr fun hsucc => nomatch hsucc.2

/-- A success needs a result without an error, and a session that is initialized. -/
theorem complete_outcomes (nonce : Nat → String) (s : Auth) (r : Nat) (cause : Cause) :
    ∀ outcome ∈ (s.complete nonce r cause).outcomes, outcome ∈ s.outcomes ∨
      (outcome.Success → ∃ result k session, s.results[r]? = some result ∧
        result.failed = false ∧ result.session = some k ∧ s.allSessions[k]? = some session ∧
        session.initialized ∧ outcome.cause = cause ∧
          outcome.cleanInit = session.cleanInit) := by
  intro outcome hout
  unfold complete loginFinish at hout
  split at hout
  · exact .inl hout
  rename_i called hcalled
  have hres : ∃ result, s.results[r]? = some result ∧ called.session = result.session ∧
      called.failed = result.failed := by
    have hget : (s.results.modify r fun result =>
        { result with callbacks := result.callbacks + 1 })[r]? = some called := hcalled
    rw [getElem?_modify_eq] at hget
    obtain ⟨result, hres, rfl⟩ := Option.map_eq_some_iff.mp hget
    exact ⟨result, hres, rfl, rfl⟩
  obtain ⟨result, hres, hsame, hfail⟩ := hres
  split at hout
  · rw [outcomes_uncountStartup, outcomes_note] at hout
    rcases mem_append.mp hout with hold | hnew
    · exact .inl hold
    · rw [mem_singleton.mp hnew]
      exact .inr fun hsucc => absurd hsucc.1 Bool.false_ne_true
  rename_i hnot
  split at hout
  · rw [outcomes_note] at hout
    rcases mem_append.mp hout with hold | hnew
    · exact .inl hold
    · rw [mem_singleton.mp hnew]
      exact .inr fun hsucc => absurd hsucc.1 Bool.false_ne_true
  rename_i k hk
  rcases finishLogin_outcomes nonce _ r k cause outcome hout with hold | hnew
  · exact .inl hold
  refine .inr fun hsucc => ?_
  obtain ⟨session, hsess, hrest⟩ := hnew hsucc
  refine ⟨result, k, session, hres, ?_, hsame.symm.trans hk, hsess, hrest⟩
  rw [← hfail]
  simpa using hnot

/-! ## Counting startups -/

theorem startups_resetRest (s : Auth) (k : Nat) : (s.resetRest k).startups = s.startups := by
  unfold resetRest
  split <;> rfl

theorem startups_passChallenge (nonce : Nat → String) (s : Auth) (k : Nat)
    (authorize : Option JsonObject) :
    (s.passChallenge nonce k authorize).1.startups = s.startups := by
  have hstart : ∀ challenge type,
      (s.startConversation nonce challenge type).1.startups = s.startups := by
    intro challenge type
    unfold startConversation
    split
    · rfl
    · split <;> rfl
  unfold passChallenge
  split
  · rfl
  rename_i challenge type object _
  dsimp only
  split <;> exact hstart challenge type

/-- A completed login is no longer counted, when its session has no other result. -/
theorem complete_startups (nonce : Nat → String) {r : Nat} {result : LoginResult}
    (cause : Cause) (hres : s.results[r]? = some result)
    (hsess : result.failed ∨ ∃ k session, result.session = some k ∧
      s.allSessions[k]? = some session ∧ session.result = none) :
    (s.complete nonce r cause).startups = (s.startups + (2 ^ 32 - 1)) % 2 ^ 32 := by
  have hcalled : (s.called r).results[r]? =
      some { result with callbacks := result.callbacks + 1 } := by
    show (s.results.modify r _)[r]? = _
    rw [getElem?_modify_eq, hres]
    rfl
  show ((s.called r).loginFinish nonce r cause).startups = _
  unfold loginFinish
  rw [hcalled]
  dsimp only
  split
  · rfl
  rename_i hnot
  rcases hsess with hfail | ⟨k, session, hk, hget, hnone⟩
  · exact absurd hfail hnot
  rw [hk]
  dsimp only
  unfold finishLogin
  rw [show (s.called r).allSessions[k]? = some session from hget]
  dsimp only
  rw [if_neg (by simp [hnone])]
  have hrest : (((s.called r).resetRest k).passChallenge nonce k
      session.authorize).1.startups = s.startups :=
    (startups_passChallenge nonce _ k _).trans (startups_resetRest _ k)
  split
  all_goals
    show ((((s.called r).resetRest k).passChallenge nonce k
      session.authorize).1.startups + _) % _ = _
    rw [hrest]

end Auth

/-! ## What a reset leaves alone -/

/-- Two states that agree in what a new request needs of its session. -/
structure Kept (s s' : Auth) : Prop where
  sessions : s'.allSessions.map (fun session => (session.initialized, session.authorize)) =
    s.allSessions.map fun session => (session.initialized, session.authorize)
  results : s'.results.map (fun result => (result.session, result.failed)) =
    s.results.map fun result => (result.session, result.failed)

namespace Kept

variable {s s' u : Auth}

theorem refl (s : Auth) : Kept s s := ⟨rfl, rfl⟩

theorem trans (h : Kept s s') (h' : Kept s' u) : Kept s u :=
  ⟨h'.sessions.trans h.sessions, h'.results.trans h.results⟩

theorem of_core (h : SameCore s s') : Kept s s' where
  sessions := by
    have hmap := congrArg (List.map fun core : Session.Core => (core.initialized, core.authorize))
      h.sessions
    rw [map_map, map_map] at hmap
    exact hmap
  results := by
    have hmap := congrArg (List.map fun core : LoginResult.Core => (core.session, core.failed))
      h.results
    rw [map_map, map_map] at hmap
    exact hmap

theorem session (h : Kept s s') {k : Nat} {session' : Session}
    (hget : s'.allSessions[k]? = some session') :
    ∃ session, s.allSessions[k]? = some session ∧ session'.initialized = session.initialized ∧
      session'.authorize = session.authorize := by
  obtain ⟨session, hsess, hpair⟩ := getElem?_of_map_eq h.sessions.symm hget
  exact ⟨session, hsess, (congrArg Prod.fst hpair).symm, (congrArg Prod.snd hpair).symm⟩

theorem result (h : Kept s s') {r : Nat} {result : LoginResult}
    (hget : s.results[r]? = some result) :
    ∃ result', s'.results[r]? = some result' ∧ result'.session = result.session ∧
      result'.failed = result.failed := by
  obtain ⟨result', hres', hpair⟩ := getElem?_of_map_eq h.results hget
  exact ⟨result', hres', congrArg Prod.fst hpair, congrArg Prod.snd hpair⟩

theorem length_results (h : Kept s s') : s'.results.length = s.results.length := by
  have hmap := congrArg List.length h.results
  simpa using hmap

end Kept

namespace Auth

variable {nonce : Nat → String} {s : Auth}

theorem kept_completeSession (nonce : Nat → String) (s : Auth) (k : Nat) (cause : Cause) :
    Kept s (s.completeSession nonce k cause) := by
  unfold completeSession
  split
  · exact .refl s
  rename_i r _
  have hdrop : Kept s ((s.onSession k fun session => { session with result := none }).called r) := by
    refine ⟨?_, ?_⟩
    all_goals
      apply map_modify_of_eq
      exact fun _ => rfl
  exact hdrop.trans (.of_core (sameCore_complete nonce _ r cause))

/-- A reset leaves alone what a new request needs of its session. -/
theorem kept_sessionReset (nonce : Nat → String) (s : Auth) (k : Nat) :
    Kept s (s.sessionReset nonce k) :=
  (s.kept_completeSession nonce k .reset).trans (.of_core (sameCore_resetRest _ k))

end Auth

end Cockpit.Ws
