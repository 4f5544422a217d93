import Cockpit.Bridge.Router

namespace Cockpit

open Option JsonObject List Json

/-!
# "open" messages that are normalized twice

A peer that has not sent its "init" puts the normalized "open" message back into the transport, and
`process_open` normalizes it once more.

* `normalizeHostParams_idem_iff` — `cockpit_router_normalize_host_params` finds something left to
  do, just when it has forgotten that a "temp-session" was not wanted.
-/

variable (userName : String)

/-- `cockpit_router_normalize_host`, and `cockpit_router_normalize_host_params` if it succeeds. -/
def normalizeOpen (initHost : String) (options : JsonObject) : Option JsonObject :=
  (normalizeHost initHost options).map (normalizeHostParams userName)

/-! ### The host -/

/-- No part comes before its separator. -/
theorem not_mem_head_splitOn {c : Char} {l part : List Char} {parts : List (List Char)}
    (h : l.splitOn c = part :: parts) : c ∉ part := by
  induction l generalizing part parts with
  | nil =>
    rw [splitOn_nil] at h
    simp_all
  | cons d l ih =>
    rw [splitOn_cons_eq_if_modifyHead] at h
    split at h
    · simp_all
    rename_i hne
    cases hrest : l.splitOn c with
    | nil => simp_all
    | cons part' parts' =>
      rw [hrest, modifyHead_cons] at h
      obtain ⟨rfl, -⟩ := cons.inj h
      rw [mem_cons, not_or]
      exact ⟨fun heq => hne (by simp [heq]), ih hrest⟩

variable {host : String}

/-- The name of a host that was split has no parts. -/
theorem splitHost_name {name key value : String} (h : splitHost host = [name, key, value]) :
    splitHost name = [name] := by
  have hmem : '+' ∉ name.toList := by
    unfold splitHost at h
    split at h
    · rename_i a b c rest heq
      obtain ⟨rfl, -⟩ := cons.inj h
      rw [String.toList_ofList]
      exact not_mem_head_splitOn heq
    rename_i parts hparts
    cases hs : host.toList.splitOn '+' with
    | nil => simp [hs] at h
    | cons a rest =>
      rw [hs, map_cons] at h
      obtain ⟨rfl, -⟩ := cons.inj h
      rw [String.toList_ofList]
      exact not_mem_head_splitOn hs
  have hone : name.toList.splitOn '+' = [name.toList] := by
    apply splitOn_eq_singleton
    exact hmem
  unfold splitHost
  rw [hone]
  simp

variable {name : String}

/-- A member made up of "host-" and a key, and another one. -/
theorem hostKey_ne (h : "host-".toList.isPrefixOf name.toList = false)
    (key : String) : "host-" ++ key ≠ name := by
  rintro rfl
  rw [String.toList_append, Bool.eq_false_iff] at h
  exact h (List.isPrefixOf_iff_prefix.mpr (prefix_append _ _))

/-- A host whose parts are members of the options, if it has any. -/
def Unpacked (options : JsonObject) (host : String) : Prop :=
  ∀ name key value, splitHost host = [name, key, value] → name ≠ "" → key ≠ "" → value ≠ "" →
    options.hasMember ("host-" ++ key)

/-- What `cockpit_router_normalize_host` leaves behind: the host, which is not that of the "init",
    has no parts to take out. -/
structure HostNormal (initHost : String) (options : JsonObject) (host : String) : Prop where
  named : getString options "host" (some initHost) = some (some host)
  unpacked : Unpacked options host
  absent : host = initHost → options.getMember "host" = none

variable {options normal : JsonObject} {initHost : String}

/-- The two ways through `cockpit_router_normalize_host`. -/
theorem normalizeHost_cases
    (h : normalizeHost initHost options = some normal) :
    ∃ host, getString options "host" (some initHost) = some (some host) ∧
      ((∃ name key value, splitHost host = [name, key, value] ∧ name ≠ "" ∧ key ≠ "" ∧ value ≠ "" ∧
          options.hasMember ("host-" ++ key) = false ∧
          normal = if name = initHost then
            (options.setStringMember ("host-" ++ key) value).removeMember "host"
          else (options.setStringMember ("host-" ++ key) value).setStringMember "host" name) ∨
        (Unpacked options host ∧
          normal = if host = initHost then options.removeMember "host" else options)) := by
  unfold normalizeHost at h
  split at h
  · rename_i host hhost
    refine ⟨host, hhost, ?_⟩
    dsimp only at h
    split at h
    · rename_i name key value hsplit
      split at h
      · rename_i hparts
        refine .inl ⟨name, key, value, hsplit, hparts.1, hparts.2.1, hparts.2.2.1,
          Bool.eq_false_iff.mpr hparts.2.2.2, ?_⟩
        dsimp only at h
        split at h
        · rename_i heq
          rw [if_pos heq]
          exact (some.inj h).symm
        rename_i hne
        rw [if_neg hne]
        -- a host with parts is not its own name
        have hname : name ≠ host := by
          rintro rfl
          rw [splitHost_name hsplit] at hsplit
          exact nomatch hsplit
        rw [if_pos hname] at h
        exact (some.inj h).symm
      rename_i hparts
      refine .inr ⟨?_, by simpa [eq_comm, apply_ite] using h⟩
      intro name' key' value' hsplit' hname hkey hvalue
      rw [hsplit] at hsplit'
      simp only [cons.injEq, and_true] at hsplit'
      obtain ⟨rfl, rfl, rfl⟩ := hsplit'
      by_contra hmem
      exact hparts ⟨hname, hkey, hvalue, hmem⟩
    rename_i hsplit
    refine .inr ⟨?_, by simpa [eq_comm, apply_ite] using h⟩
    intro name key value hsplit'
    exact absurd hsplit' (hsplit name key value)
  · exact nomatch h

/-- Only a "host" that is no string is refused. -/
theorem isSome_normalizeHost
    (h : getString options "host" (some initHost) = some (some host)) :
    (normalizeHost initHost options).isSome := by
  have hparsed : ∀ parsed : JsonObject × String,
      (if parsed.2 = initHost then some (parsed.1.removeMember "host")
        else if parsed.2 ≠ host then some (parsed.1.setStringMember "host" parsed.2)
        else some parsed.1).isSome := by
    intro parsed
    split
    · rfl
    · split <;> rfl
  unfold normalizeHost
  rw [h]
  exact hparsed _

/-- What is normal stays as it is. -/
theorem HostNormal.normalizeHost (h : HostNormal initHost options host) :
    Cockpit.normalizeHost initHost options = some options := by
  have hremove : (if host = initHost then some (options.removeMember "host")
      else if host ≠ host then some (options.setStringMember "host" host)
      else some options) = some options := by
    split
    · rename_i heq
      rw [removeMember_of_none (h.absent heq)]
    · rw [if_neg (fun hne => hne rfl)]
  unfold Cockpit.normalizeHost
  rw [h.named]
  dsimp only
  split
  · rename_i name key value hsplit
    have hparts : ¬ (name ≠ "" ∧ key ≠ "" ∧ value ≠ "" ∧
        ¬ options.hasMember ("host-" ++ key)) := by
      rintro ⟨hname, hkey, hvalue, hmem⟩
      exact hmem (h.unpacked name key value hsplit hname hkey hvalue)
    rw [if_neg hparts]
    exact hremove
  · exact hremove

/-- Only "host" and the members made up of "host-" matter. -/
theorem HostNormal.congr {options' : JsonObject} (h : HostNormal initHost options host)
    (hhost : options'.getMember "host" = options.getMember "host")
    (hkey : ∀ key, options'.getMember ("host-" ++ key) = options.getMember ("host-" ++ key)) :
    HostNormal initHost options' host where
  named := (getString_congr hhost _).trans h.named
  unpacked := by
    intro name key value hsplit hn hk hv
    have hmem := h.unpacked name key value hsplit hn hk hv
    rw [hasMember_eq] at hmem ⊢
    rw [hkey]
    exact hmem
  absent := by
    rw [hhost]
    exact h.absent

/-- After `cockpit_router_normalize_host` nothing is left for it to do. -/
theorem hostNormal_of_normalizeHost
    (h : normalizeHost initHost options = some normal) :
    ∃ host, HostNormal initHost normal host := by
  obtain ⟨host, hhost, hcase⟩ := normalizeHost_cases h
  have hne : ∀ key, "host-" ++ key ≠ "host" := hostKey_ne (by decide)
  rcases hcase with ⟨name, key, value, hsplit, -, -, -, -, rfl⟩ | ⟨hunpacked, rfl⟩
  · -- the name has no parts
    have hname : ∀ o : JsonObject, Unpacked o name := by
      intro o name' key' value' hsplit'
      rw [splitHost_name hsplit] at hsplit'
      exact nomatch hsplit'
    refine ⟨name, ?_⟩
    by_cases heq : name = initHost
    · rw [if_pos heq]
      refine ⟨?_, hname _, fun _ => getMember_removeMember_self _ _⟩
      rw [getString, getMember_removeMember_self, heq]
    · rw [if_neg heq]
      refine ⟨?_, hname _, fun h => absurd h heq⟩
      rw [getString, setStringMember, getMember_setMember_self]
  refine ⟨host, ?_⟩
  by_cases heq : host = initHost
  · rw [if_pos heq]
    refine ⟨?_, ?_, fun _ => getMember_removeMember_self _ _⟩
    · rw [getString, getMember_removeMember_self, heq]
    intro name key value hsplit hn hk hv
    have hmem := hunpacked name key value hsplit hn hk hv
    rw [hasMember_eq] at hmem ⊢
    rw [getMember_removeMember_ne (hne key).symm]
    exact hmem
  · rw [if_neg heq]
    exact ⟨hhost, hunpacked, fun h => absurd h heq⟩

/-! ### The session -/

/-- The members that `cockpit_router_normalize_host_params` changes. -/
theorem getMember_normalizeHostParams_ne (options : JsonObject)
    (hsess : "session" ≠ name) (huser : "user" ≠ name) (htemp : "temp-session" ≠ name) :
    (normalizeHostParams userName options).getMember name = options.getMember name := by
  have hremove : ∀ (c : Prop) [Decidable c] (o : JsonObject) (n : String), n ≠ name →
      (if c then o.removeMember n else o).getMember name = o.getMember name := by
    intro c _ o n hne
    split
    · exact getMember_removeMember_ne hne
    · rfl
  have hset : ∀ (c : Prop) [Decidable c] (o : JsonObject) (n value : String), n ≠ name →
      (if c then o.setStringMember n value else o).getMember name = o.getMember name := by
    intro c _ o n value hne
    split
    · exact getMember_setMember_ne hne _
    · rfl
  unfold normalizeHostParams
  rw [hset _ _ _ _ hsess, hremove _ _ _ huser, hremove _ _ _ htemp]

/-- The current user is not named. -/
def dropUser (options : JsonObject) : JsonObject :=
  if (getString options "user" none).join = some userName then options.removeMember "user"
  else options

theorem getMember_dropUser (options : JsonObject)
    (h : "user" ≠ name) : (dropUser userName options).getMember name = options.getMember name := by
  unfold dropUser
  split
  · exact getMember_removeMember_ne h
  · rfl

/-- A user that is named is another one. -/
theorem user_dropUser (options : JsonObject) :
    (getString (dropUser userName options) "user" none).join =
      (getString options "user" none).join.filter fun user => user ≠ userName := by
  unfold dropUser
  split
  · rename_i huser
    rw [huser, getString, getMember_removeMember_self]
    exact (filter_eq_none_iff.mpr (by simp)).symm
  rename_i huser
  cases hjoin : (getString options "user" none).join with
  | none => rfl
  | some user =>
    have hne : user ≠ userName := by
      rintro rfl
      exact huser hjoin
    exact (filter_eq_some_iff.mpr ⟨rfl, by simp [hne]⟩).symm

variable {userName : String}

theorem dropUser_of_ne (h : (getString options "user" none).join ≠ some userName) :
    dropUser userName options = options := if_neg h

theorem dropUser_dropUser (userName : String) (options : JsonObject) :
    dropUser userName (dropUser userName options) = dropUser userName options := by
  apply dropUser_of_ne
  rw [user_dropUser]
  intro h
  simpa using (filter_eq_some_iff.mp h).2

/-- Somebody asks for a user or a host key. -/
def asksPrivate (options : JsonObject) : Bool :=
  (getString options "user" none).join.isSome || options.hasMember "host-key"

/-- `needs_private`, where there is no "session" -/
def needsPrivate (options : JsonObject) : Bool :=
  asksPrivate options &&
    (options.getMember "temp-session").all fun value =>
      match value with
      | .bool b => b
      | _ => true

/-- A "session" decides for itself. -/
theorem normalizeHostParams_of_session (userName : String)
    (h : (getString options "session" none).join.isSome) :
    normalizeHostParams userName options = dropUser userName options := by
  obtain ⟨session, hsess⟩ := isSome_iff_exists.mp h
  unfold normalizeHostParams dropUser
  rw [hsess]
  rfl

/-- Without one the older ways to ask for it are looked at. -/
theorem normalizeHostParams_of_no_session (userName : String)
    (h : (getString options "session" none).join = none) :
    normalizeHostParams userName options =
      if needsPrivate options then
        (dropUser userName (options.removeMember "temp-session")).setStringMember "session" "private"
      else dropUser userName (options.removeMember "temp-session") := by
  have huser : getString (options.removeMember "temp-session") "user" none =
      getString options "user" none :=
    getString_congr (getMember_removeMember_ne (by decide)) _
  have hneeds : (if asksPrivate options && options.hasMember "temp-session" then
        (getBool options "temp-session" true).getD true
      else asksPrivate options) = needsPrivate options := by
    unfold needsPrivate
    rw [hasMember_eq, getBool]
    cases asksPrivate options with
    | false => rfl
    | true =>
      cases options.getMember "temp-session" with
      | none => rfl
      | some value => cases value <;> rfl
  unfold normalizeHostParams dropUser
  rw [h, huser, ← hneeds]
  rfl

/-- A user other than the current one. -/
def otherUser (userName : String) (options : JsonObject) : Bool :=
  (getString options "user" none).join.any fun user => user ≠ userName

/-- A session would be private, were it not for a "temp-session". -/
def SharedByTemp (userName : String) (options : JsonObject) : Prop :=
  (getString options "session" none).join = none ∧
    options.getMember "temp-session" = some (.bool false) ∧
    (otherUser userName options ∨ options.hasMember "host-key")

/-- **`cockpit_router_normalize_host_params` does more** the second time just when it has forgotten
    that a "temp-session" was not wanted. -/
theorem normalizeHostParams_idem_iff (userName : String) (options : JsonObject) :
    normalizeHostParams userName (normalizeHostParams userName options) =
        normalizeHostParams userName options ↔
      ¬ SharedByTemp userName options := by
  cases hsess : (getString options "session" none).join with
  | some session =>
    -- the "session" stays
    have hfirst := normalizeHostParams_of_session userName (by rw [hsess]; rfl)
    have hagain : getString (dropUser userName options) "session" none =
        getString options "session" none :=
      getString_congr (getMember_dropUser _ _ (by decide)) _
    rw [hfirst, normalizeHostParams_of_session _ (by rw [hagain, hsess]; rfl), dropUser_dropUser]
    refine ⟨fun _ h => ?_, fun _ => rfl⟩
    rw [h.1] at hsess
    cases hsess
  | none =>
    have hfirst := normalizeHostParams_of_no_session userName hsess
    have hmemb : ∀ name, "user" ≠ name → "temp-session" ≠ name →
        (dropUser userName (options.removeMember "temp-session")).getMember name =
          options.getMember name := by
      intro name huser htemp
      rw [getMember_dropUser _ _ huser, getMember_removeMember_ne htemp]
    have huser : (getString (dropUser userName (options.removeMember "temp-session")) "user"
        none).join = (getString options "user" none).join.filter fun user => user ≠ userName := by
      rw [user_dropUser, getString_congr (getMember_removeMember_ne
        (by decide))]
    cases hneeds : needsPrivate options with
    | true =>
      -- now there is a "session"
      rw [hneeds, if_pos rfl] at hfirst
      have hagain : (getString (normalizeHostParams userName options) "session" none).join =
          some "private" := by
        rw [hfirst, getString, setStringMember, getMember_setMember_self]
        rfl
      have hother : (getString (normalizeHostParams userName options) "user" none).join ≠
          some userName := by
        have hset : getString (normalizeHostParams userName options) "user" none =
            getString (dropUser userName (options.removeMember "temp-session")) "user" none := by
          rw [hfirst]
          exact getString_congr (getMember_setMember_ne (by decide) _) _
        rw [hset, huser]
        intro h
        simpa using (filter_eq_some_iff.mp h).2
      rw [normalizeHostParams_of_session _ (by rw [hagain]; rfl), dropUser_of_ne hother]
      refine ⟨fun _ h => ?_, fun _ => rfl⟩
      unfold needsPrivate at hneeds
      rw [h.2.1, Bool.and_eq_true] at hneeds
      cases hneeds.2
    | false =>
      rw [hneeds, if_neg Bool.false_ne_true] at hfirst
      -- the "temp-session" is gone, and it is asked again who wants what
      have hagain : (getString (normalizeHostParams userName options) "session" none).join =
          none := by
        rw [hfirst, getString_congr (hmemb _ (by decide) (by decide)), hsess]
      have htemp : (normalizeHostParams userName options).getMember "temp-session" = none := by
        rw [hfirst, getMember_dropUser _ _ (by decide), getMember_removeMember_self]
      have hasks : needsPrivate (normalizeHostParams userName options) =
          (otherUser userName options || options.hasMember "host-key") := by
        unfold needsPrivate asksPrivate otherUser
        rw [htemp, hfirst, huser, hasMember_eq, hasMember_eq,
          hmemb "host-key" (by decide) (by decide)]
        cases (getString options "user" none).join with
        | none => simp
        | some user => by_cases heq : user = userName <;> simp [heq, Option.filter]
      have hidem : dropUser userName ((normalizeHostParams userName options).removeMember
          "temp-session") = normalizeHostParams userName options := by
        rw [removeMember_of_none htemp, hfirst, dropUser_dropUser]
      rw [normalizeHostParams_of_no_session _ hagain, hidem, hasks]
      by_cases hwants : (otherUser userName options || options.hasMember "host-key")
      · rw [if_pos hwants]
        constructor
        · intro heq
          have hset := congrArg (fun o => (getString o "session" none).join) heq
          rw [hagain, getString, setStringMember, getMember_setMember_self] at hset
          cases hset
        intro hnot
        refine absurd ⟨hsess, ?_, by simpa using hwants⟩ hnot
        -- it was not private although it was asked for
        have hfirstAsks : asksPrivate options := by
          unfold asksPrivate
          rw [Bool.or_eq_true] at hwants ⊢
          refine hwants.imp_left fun h => ?_
          unfold otherUser at h
          cases huser : (getString options "user" none).join with
          | none =>
            rw [huser] at h
            cases h
          | some user => rfl
        unfold needsPrivate at hneeds
        rw [hfirstAsks, Bool.true_and] at hneeds
        cases htemp : options.getMember "temp-session" with
        | none =>
          rw [htemp] at hneeds
          cases hneeds
        | some value =>
          rw [htemp] at hneeds
          cases value with
          | bool b =>
            cases b with
            | false => rfl
            | true => cases hneeds
          | _ => cases hneeds
      rw [if_neg hwants]
      refine ⟨fun _ h => hwants ?_, fun _ => rfl⟩
      rw [Bool.or_eq_true]
      exact h.2.2

/-! ### "open" messages -/

/-- A host like `name+key+value`, from which a "host-key" is taken. -/
def NamesHostKey (host : String) : Prop :=
  ∃ name value, splitHost host = [name, "key", value] ∧ name ≠ "" ∧ value ≠ ""

/-- An "open" message that asks for another user or a host key, and with "temp-session" for a
    session that is not private. -/
structure AsksShared (userName initHost : String) (options : JsonObject) : Prop where
  host : ∃ host, getString options "host" (some initHost) = some (some host) ∧
    (otherUser userName options ∨ options.hasMember "host-key" ∨ NamesHostKey host)
  session : (getString options "session" none).join = none
  tempSession : options.getMember "temp-session" = some (.bool false)

section

variable (h : normalizeHost initHost options = some normal)

include h

/-- What `cockpit_router_normalize_host` leaves alone. -/
theorem getMember_normalizeHost_ne (hhost : "host" ≠ name)
    (hkey : ∀ key, "host-" ++ key ≠ name) : normal.getMember name = options.getMember name := by
  obtain ⟨host, -, ⟨n, key, value, -, -, -, -, -, rfl⟩ | ⟨-, rfl⟩⟩ := normalizeHost_cases h
  · split
    · rw [getMember_removeMember_ne hhost, setStringMember, getMember_setMember_ne (hkey key)]
    · rw [setStringMember, getMember_setMember_ne hhost,
        setStringMember, getMember_setMember_ne (hkey key)]
  · split
    · rw [getMember_removeMember_ne hhost]
    · rfl

/-- Where a "host-key" comes from. -/
theorem hostKey_normalizeHost :
    ∃ host, getString options "host" (some initHost) = some (some host) ∧
      (normal.hasMember "host-key" ↔
        options.hasMember "host-key" ∨ NamesHostKey host) := by
  have hhost : "host" ≠ "host-key" := by decide
  obtain ⟨host, hnamed, ⟨name, key, value, hsplit, hn, -, hv, hmem, heq⟩ | ⟨hunpacked, heq⟩⟩ :=
    normalizeHost_cases h
  · refine ⟨host, hnamed, ?_⟩
    have hget : normal.getMember "host-key" =
        (options.setStringMember ("host-" ++ key) value).getMember "host-key" := by
      rw [heq]
      split
      · exact getMember_removeMember_ne hhost
      · exact getMember_setMember_ne hhost _
    rw [hasMember_eq, hget, ← hasMember_eq]
    by_cases hkey : key = "key"
    · subst hkey
      refine ⟨fun _ => .inr ⟨name, value, hsplit, hn, hv⟩, fun _ => ?_⟩
      rw [hasMember_eq, show "host-key" = "host-" ++ "key" by decide,
        setStringMember, getMember_setMember_self]
      rfl
    have hne : "host-" ++ key ≠ "host-key" := by
      intro h
      apply hkey
      have htail : "host-" ++ key = "host-" ++ "key" := h.trans (by decide)
      exact (String.append_right_inj _).mp htail
    rw [hasMember_eq, setStringMember, getMember_setMember_ne hne, ← hasMember_eq]
    refine ⟨.inl, fun h => h.resolve_right ?_⟩
    rintro ⟨name', value', hsplit', -, -⟩
    rw [hsplit] at hsplit'
    simp only [cons.injEq, and_true] at hsplit'
    exact hkey hsplit'.2.1
  refine ⟨host, hnamed, ?_⟩
  have hget : normal.getMember "host-key" = options.getMember "host-key" := by
    rw [heq]
    split
    · exact getMember_removeMember_ne hhost
    · rfl
  rw [hasMember_eq, hget, ← hasMember_eq]
  refine ⟨.inl, fun h => h.elim id ?_⟩
  rintro ⟨name, value, hsplit, hn, hv⟩
  exact hunpacked name "key" value hsplit hn (by decide) hv

/-- The condition, on the message that comes in. -/
theorem sharedByTemp_iff :
    SharedByTemp userName normal ↔ AsksShared userName initHost options := by
  have hsame : ∀ name, "host" ≠ name → "host-".toList.isPrefixOf name.toList = false →
      normal.getMember name = options.getMember name := fun name hne hpre =>
    getMember_normalizeHost_ne h hne (hostKey_ne hpre)
  have hsess := getString_congr (hsame "session" (by decide) (by decide)) none
  have huser := getString_congr (hsame "user" (by decide) (by decide)) none
  have htemp := hsame "temp-session" (by decide) (by decide)
  obtain ⟨host, hnamed, hkey⟩ := hostKey_normalizeHost h
  unfold SharedByTemp otherUser
  rw [hsess, huser, htemp, hkey]
  constructor
  · rintro ⟨hs, ht, hwants⟩
    exact ⟨⟨host, hnamed, hwants⟩, hs, ht⟩
  rintro ⟨⟨host', hnamed', hwants⟩, hs, ht⟩
  rw [hnamed] at hnamed'
  obtain rfl : host = host' := by simpa using hnamed'
  exact ⟨hs, ht, hwants⟩

end

/-- The second time around `cockpit_router_normalize_host` does nothing. -/
theorem normalizeOpen_again (userName : String)
    (h : normalizeHost initHost options = some normal) :
    normalizeOpen userName initHost (normalizeHostParams userName normal) =
      some (normalizeHostParams userName (normalizeHostParams userName normal)) := by
  obtain ⟨host, hnormal⟩ := hostNormal_of_normalizeHost h
  have hkey : ∀ name key, "host-".toList.isPrefixOf name.toList = false →
      name ≠ "host-" ++ key := fun name key hpre => (hostKey_ne hpre key).symm
  have hparams : HostNormal initHost (normalizeHostParams userName normal) host := by
    refine hnormal.congr ?_ fun key => ?_
    · exact getMember_normalizeHostParams_ne _ _ (by decide) (by decide)
        (by decide)
    · exact getMember_normalizeHostParams_ne _ _ (hkey _ _ (by decide))
        (hkey _ _ (by decide)) (hkey _ _ (by decide))
  unfold normalizeOpen
  rw [hparams.normalizeHost]
  rfl

/-- **An "open" message that is normalized once more stays as it is**, and a bridge deals with it as
    it did before, unless it asks with "temp-session" for a session that is not private. -/
theorem normalizeOpen_idem_iff (S : Setup) (initHost : String) (options : JsonObject) :
    ((normalizeOpen S.userName initHost options).bind (normalizeOpen S.userName initHost) =
        normalizeOpen S.userName initHost options ↔ ¬ AsksShared S.userName initHost options) ∧
      (¬ AsksShared S.userName initHost options →
        ∀ normal, normalizeOpen S.userName initHost options = some normal →
          ∀ (b : Bridge) (channel : String) (data data' : Bytes),
            b.fences = [] ∨ channel ∈ b.fences →
            b.processOpen S initHost (some channel) normal data =
              b.processOpen S initHost (some channel) options data') := by
  cases hfirst : normalizeHost initHost options with
  | none =>
    have hnone : normalizeOpen S.userName initHost options = none := by
      rw [normalizeOpen, hfirst]
      rfl
    have hinvalid : ¬ AsksShared S.userName initHost options := by
      rintro ⟨⟨host, hhost, -⟩, -, -⟩
      have hsome := isSome_normalizeHost hhost
      rw [hfirst] at hsome
      exact nomatch hsome
    rw [hnone]
    exact ⟨⟨fun _ => hinvalid, fun _ => rfl⟩, nofun⟩
  | some named =>
    have hnormal : normalizeOpen S.userName initHost options =
        some (normalizeHostParams S.userName named) := by
      rw [normalizeOpen, hfirst]
      rfl
    have hiff := (normalizeHostParams_idem_iff S.userName named).trans
      (not_congr (sharedByTemp_iff hfirst))
    rw [hnormal]
    refine ⟨?_, ?_⟩
    · rw [bind_some, normalizeOpen_again _ hfirst, some.injEq]
      exact hiff
    intro hnot normal hsome b channel data data' hfences
    obtain rfl := some.inj hsome
    -- what the host was made to stays, and so does the rest
    have hagain := normalizeOpen_again S.userName hfirst
    rw [normalizeOpen, map_eq_some_iff] at hagain
    obtain ⟨named', hnamed', hparams⟩ := hagain
    unfold Bridge.processOpen
    dsimp only
    rw [hfirst, hnamed']
    dsimp only
    rw [hparams, hiff.mpr hnot]
    by_cases hopen : channel ∈ b.channels
    · rw [if_pos hopen, if_pos hopen]
    have hfree : ¬ (b.fences ≠ [] ∧ channel ∉ b.fences) := by
      rintro ⟨hne, hmem⟩
      exact hfences.elim hne hmem
    rw [if_neg hopen, if_neg hopen, if_neg hfree, if_neg hfree]

/-- With another user and a "temp-session" that is `false`, the session is private after all when the
    message comes back. -/
theorem not_normalizeOpen_idem :
    (normalizeOpen "admin" "localhost" [("user", .string "guest"), ("temp-session", .bool false)]).bind
        (normalizeOpen "admin" "localhost") ≠
      normalizeOpen "admin" "localhost" [("user", .string "guest"), ("temp-session", .bool false)] := by
  intro h
  have hsession := congrArg (Option.map fun o => hasMember o "session") h
  exact nomatch hsession

end Cockpit
