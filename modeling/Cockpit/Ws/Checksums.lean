import Cockpit.Lib.Run

namespace Cockpit.Ws

/-!
# `src/ws/cockpitwebservice.c`: the checksums of hosts

A checksum in a URL stands for a host whose files have it.  Hosts with the same files have the same
checksum, so the two tables are not quite inverse to each other.

* `HostChecksums.setHostChecksum` — how they are updated;
* `run_checksums` — when every checksum that is in use finds a host that has it.
-/

/-- The tables of a `CockpitWebService`. -/
structure HostChecksums where
  checksumByHost : AList (fun _ : String => String) := ∅
  hostByChecksum : AList (fun _ : String => String) := ∅

namespace HostChecksums

variable (s : HostChecksums)

/-- `cockpit_web_service_get_host` -/
def getHost (checksum : String) : Option String :=
  s.hostByChecksum.lookup checksum

/-- `cockpit_web_service_get_checksum` -/
def getChecksum (host : String) : Option String :=
  s.checksumByHost.lookup host

/-- `host_by_checksum` without the old checksum of a host. -/
def withoutOld (host : String) : AList (fun _ : String => String) :=
  match s.getChecksum host with
  | some oldChecksum => s.hostByChecksum.erase oldChecksum
  | none => s.hostByChecksum

/-- `cockpit_web_service_set_host_checksum`, with the host and its checksum. -/
def setHostChecksum (call : String × String) : HostChecksums :=
  let (host, checksum) := call
  let oldHost := s.getHost checksum
  if some checksum = s.getChecksum host then s
  else
    { checksumByHost := s.checksumByHost.insert host checksum
      hostByChecksum :=
        if oldHost ≠ some "localhost" then (s.withoutOld host).insert checksum host
        else s.withoutOld host }

/-- **What the tables are for**: a checksum that a host has finds a host that has it, and finds
    "localhost" if that one has it. -/
def Correct : Prop :=
  ∀ host checksum, s.getChecksum host = some checksum →
    ∃ found, s.getHost checksum = some found ∧ s.getChecksum found = some checksum ∧
      (s.getChecksum "localhost" = some checksum → found = "localhost")

/-- No other host has the checksum that the host had. -/
def NotShared (call : String × String) : Prop :=
  ∀ old, s.getChecksum call.1 = some old → old = call.2 ∨
    ∀ other, s.getChecksum other = some old → other = call.1

/-- A checksum finds a host that has it. -/
def Sound : Prop :=
  ∀ checksum found, s.getHost checksum = some found → s.getChecksum found = some checksum

variable {s : HostChecksums} {host checksum : String}

/-! ### One call -/

theorem set_eq (h : s.getChecksum host ≠ some checksum) :
    s.setHostChecksum (host, checksum) =
      { checksumByHost := s.checksumByHost.insert host checksum
        hostByChecksum :=
          if s.getHost checksum ≠ some "localhost" then (s.withoutOld host).insert checksum host
          else s.withoutOld host } := by
  rw [setHostChecksum]
  exact if_neg (Ne.symm h)

theorem lookup_withoutOld (s : HostChecksums) (host checksum : String) :
    (s.withoutOld host).lookup checksum =
      if s.getChecksum host = some checksum then none else s.getHost checksum := by
  rw [withoutOld]
  cases hold : s.getChecksum host with
  | none => simp [getHost]
  | some old =>
    by_cases heq : old = checksum
    · subst heq
      simp
    · rw [if_neg (by simpa using heq)]
      exact AList.lookup_erase_ne (Ne.symm heq)

section

variable (h : s.getChecksum host ≠ some checksum)

include h

theorem getChecksum_set (other : String) :
    (s.setHostChecksum (host, checksum)).getChecksum other =
      if other = host then some checksum else s.getChecksum other := by
  rw [set_eq h, getChecksum]
  by_cases hother : other = host
  · rw [if_pos hother, hother]
    exact AList.lookup_insert _
  · rw [if_neg hother]
    exact AList.lookup_insert_ne hother

/-- What the entry of the checksum itself becomes. -/
theorem getHost_set_self :
    (s.setHostChecksum (host, checksum)).getHost checksum =
      if s.getHost checksum = some "localhost" then some "localhost" else some host := by
  rw [set_eq h, getHost]
  dsimp only
  by_cases hlocal : s.getHost checksum = some "localhost"
  · rw [if_neg (not_not.mpr hlocal), if_pos hlocal, lookup_withoutOld, if_neg h, hlocal]
  · rw [if_pos hlocal, if_neg hlocal]
    exact AList.lookup_insert _

/-- The entry of the checksum that the host had goes, and the others stay. -/
theorem getHost_set_ne {other : String}
    (hother : other ≠ checksum) :
    (s.setHostChecksum (host, checksum)).getHost other =
      if s.getChecksum host = some other then none else s.getHost other := by
  rw [set_eq h, getHost, ← lookup_withoutOld]
  dsimp only
  split
  · exact AList.lookup_insert_ne hother
  · rfl

end

theorem setHostChecksum_same (h : s.getChecksum host = some checksum) :
    s.setHostChecksum (host, checksum) = s := by
  simp [setHostChecksum, h]

/-- **One call**: where the old checksum is not shared, both tables go on to fit. -/
theorem set_keeps (hsound : s.Sound) (hcorrect : s.Correct) (hok : s.NotShared (host, checksum)) :
    (s.setHostChecksum (host, checksum)).Sound ∧
      (s.setHostChecksum (host, checksum)).Correct := by
  by_cases hsame : s.getChecksum host = some checksum
  · rw [setHostChecksum_same hsame]
    exact ⟨hsound, hcorrect⟩
  have hlocal (heq : s.getHost checksum = some "localhost") : "localhost" ≠ host := by
    rintro rfl
    exact hsame (hsound _ _ heq)
  have hnew : (s.setHostChecksum (host, checksum)).Sound := by
    intro other found hfound
    rw [getChecksum_set hsame]
    by_cases hother : other = checksum
    · subst hother
      rw [getHost_set_self hsame] at hfound
      split at hfound
      · rename_i heq
        cases hfound
        rw [if_neg (hlocal heq)]
        exact hsound _ _ heq
      · cases hfound
        rw [if_pos rfl]
    rw [getHost_set_ne hsame hother] at hfound
    split at hfound
    · cases hfound
    rename_i hne
    have hhas := hsound _ _ hfound
    -- the host is not found by a checksum that it does not have any more
    rw [if_neg (by rintro rfl; exact hne hhas)]
    exact hhas
  refine ⟨hnew, fun x c hx => ?_⟩
  have hdef : ∃ found, (s.setHostChecksum (host, checksum)).getHost c = some found ∧
      (s.getHost c = some "localhost" → found = "localhost") := by
    by_cases hc : c = checksum
    · subst hc
      rw [getHost_set_self hsame]
      split
      · exact ⟨_, rfl, fun _ => rfl⟩
      · rename_i hne
        exact ⟨_, rfl, fun h => absurd h hne⟩
    rw [getChecksum_set hsame] at hx
    have hxhost : x ≠ host := by
      rintro rfl
      rw [if_pos rfl] at hx
      cases hx
      exact hc rfl
    rw [if_neg hxhost] at hx
    obtain ⟨found, hfound, -, -⟩ := hcorrect x c hx
    refine ⟨found, ?_, fun h => by rw [hfound] at h; exact Option.some.inj h⟩
    rw [getHost_set_ne hsame hc, if_neg, hfound]
    intro hold
    rcases hok c hold with heq | hall
    · exact hc heq
    · exact hxhost (hall x hx)
  obtain ⟨found, hfound, hfirst⟩ := hdef
  refine ⟨found, hfound, hnew _ _ hfound, fun hlocalhost => ?_⟩
  rw [getChecksum_set hsame] at hlocalhost
  split at hlocalhost
  · -- the new checksum is that of "localhost"
    rename_i heq
    cases hlocalhost
    rw [getHost_set_self hsame] at hfound
    split at hfound <;> cases hfound
    · rfl
    · exact heq.symm
  · obtain ⟨before, hbef, -, hpriority⟩ := hcorrect _ _ hlocalhost
    rw [hpriority hlocalhost] at hbef
    exact hfirst hbef

/-- Where it is shared, the other host is not found any more. -/
theorem set_breaks (hok : ¬ s.NotShared (host, checksum)) :
    ¬ (s.setHostChecksum (host, checksum)).Correct := by
  simp only [NotShared, not_forall, not_or] at hok
  obtain ⟨old, hold, hne, other, hother, hdiff⟩ := hok
  have hsame : s.getChecksum host ≠ some checksum := by
    intro h
    rw [hold] at h
    exact hne (Option.some.inj h)
  intro hcorrect
  obtain ⟨found, hfound, -⟩ := hcorrect other old (by rw [getChecksum_set hsame, if_neg hdiff, hother])
  rw [getHost_set_ne hsame hne, if_pos hold] at hfound
  cases hfound

/-! ### Runs -/

/-- **When the checksums of hosts go on to work**: exactly as long as no host gets a new checksum
    while another one still has its old one. -/
theorem run_checksums (calls : List (String × String)) :
    (∀ before, before <+: calls → (Lib.run setHostChecksum {} before).Correct) ↔
      Lib.RunOk setHostChecksum NotShared {} calls := by
  refine Lib.run_good_iff (fun s => s.Sound ∧ s.Correct) Correct (fun s h => h.2) ?_ ?_
    ⟨nofun, nofun⟩ calls
  · rintro s ⟨host, checksum⟩ ⟨hsound, hcorrect⟩ hok
    exact set_keeps hsound hcorrect hok
  · rintro s ⟨host, checksum⟩ - hok
    exact set_breaks hok

/-- Two hosts have the same files, and then one of them gets others: the URLs of the other one stop
    working. -/
theorem shared_not_correct :
    ¬ (Lib.run setHostChecksum {} [("one", "a"), ("two", "a"), ("one", "b")]).Correct := by
  intro hcorrect
  obtain ⟨found, hfound, -⟩ := hcorrect "two" "a" (by decide)
  have hnone : (Lib.run setHostChecksum {} [("one", "a"), ("two", "a"), ("one", "b")]).getHost
      "a" = none := by decide
  rw [hnone] at hfound
  cases hfound

end HostChecksums

end Cockpit.Ws
