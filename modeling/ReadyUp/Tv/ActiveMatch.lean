import ReadyUp.Config.JsonReaders
import ReadyUp.Tv.MatchProfile

/-!
# The match of the GOTV plugin

The profile of an assignment waits until the match plugin reports that match, and is the active one
from then on. Updates and admins change it, and each change is kept on disk. After a restart the
plugin reads what it kept (`parse_changed`), and has the profile again once the match is reported
(`restored_after_restart`). Times are in seconds; the file is taken to be written.
-/
namespace ReadyUp.Tv

open Support Config Config.Broadcast

section Changes

/-- A change of the profile of a match: an update, `ru tv match` and `tv.set` with the profile of
the server at that time. -/
inductive Change where
  | update (rulesPatch : Minijson.Value)
  | command (server : Profile) (k : Key) (raw : Bytes)
  | tvSet (server : Profile) (settings : Minijson.Value)

namespace MatchProfile

variable (m : MatchProfile)

/-- The profile that `override` would bring about, over that of the server. -/
def merged (server override : Profile) : Profile :=
  ((server.overlay (profileFromMatchCvars m.matchCvars)).overlay m.profile).overlay override

/-- `ru tv match`, none if it is refused; only a delay that is set now is compared with the
floor. -/
def command (server : Profile) (k : Key) (raw : Bytes) : Option MatchProfile :=
  match setFromText m.override k raw with
  | .error _ => none
  | .ok o =>
    if k = .delay ∧ o.delaySeconds.any (· < m.delayFloor) = true then none
    else if (conflictWithMatchCvars (m.merged server o) m.delayFloor m.matchCvars).isSome then none
    else some { m with override := o }

/-- `IfaceTvSet` for the match, none if it is refused. -/
def tvSet (server : Profile) (settings : Minijson.Value) : Option MatchProfile :=
  match parsePatch settings with
  | .error _ => none
  | .ok patch =>
    let o := m.override.patched patch
    if o.delaySeconds.any (· < m.delayFloor) then none
    else if (conflictWithMatchCvars (m.merged server o) m.delayFloor m.matchCvars).isSome then none
    else some { m with override := o }

/-- The profile after a patch of the rules. -/
def update (rulesPatch : Minijson.Value) : MatchProfile :=
  { m with profile := (applyBroadcastPatch rulesPatch m.profile).profile }

def change : Change → MatchProfile
  | .update rulesPatch => m.update rulesPatch
  | .command server k raw => (m.command server k raw).getD m
  | .tvSet server settings => (m.tvSet server settings).getD m

variable {m}

theorem command_spec {server : Profile} {k : Key} {raw : Bytes} {m' : MatchProfile}
    (h : m.command server k raw = some m') :
    ∃ o, setFromText m.override k raw = .ok o ∧ m' = { m with override := o } := by
  unfold command at h
  split at h
  · cases h
  · rename_i o ho
    split_ifs at h
    cases h
    exact ⟨o, ho, rfl⟩

theorem tvSet_spec {server : Profile} {settings : Minijson.Value} {m' : MatchProfile}
    (h : m.tvSet server settings = some m') :
    ∃ patch, parsePatch settings = .ok patch ∧
    m' = { m with override := m.override.patched patch } := by
  unfold tvSet at h
  split at h
  · cases h
  · rename_i patch hpatch
    dsimp only at h
    split_ifs at h
    cases h
    exact ⟨patch, hpatch, rfl⟩

/-- What an admin or an update makes of a match is the match with other profiles in their ranges. -/
theorem change_spec (h : m.Bounded) (c : Change) :
    ∃ p o, p.Sound ∧ o.Sound ∧ m.change c = { m with profile := p, override := o } := by
  cases c with
  | update rulesPatch => exact ⟨_, _, applyBroadcastPatch_sound h.profile, h.override, rfl⟩
  | command server k raw =>
    rw [MatchProfile.change]
    cases hm : m.command server k raw with
    | none => exact ⟨_, _, h.profile, h.override, rfl⟩
    | some m' =>
      obtain ⟨o, ho, rfl⟩ := command_spec hm
      exact ⟨_, o, h.profile, setFromText_sound h.override ho, rfl⟩
  | tvSet server settings =>
    rw [MatchProfile.change]
    cases hm : m.tvSet server settings with
    | none => exact ⟨_, _, h.profile, h.override, rfl⟩
    | some m' =>
      obtain ⟨patch, hpatch, rfl⟩ := tvSet_spec hm
      exact ⟨_, _, h.profile, h.override.patched (parsePatch_sound hpatch), rfl⟩

theorem Sound.withProfiles (h : m.Sound) {p o : Profile} (hp : p.Sound) (ho : o.Sound) :
    ({ m with profile := p, override := o } : MatchProfile).Sound :=
  { h with profile := hp, override := ho }

theorem Sound.change (h : m.Sound) (c : Change) : (m.change c).Sound := by
  obtain ⟨p, o, hp, ho, heq⟩ := change_spec h.toBounded c
  rw [heq]
  exact h.withProfiles hp ho

theorem Sound.changes (h : m.Sound) (cs : List Change) :
    (cs.foldl MatchProfile.change m).Sound := by
  induction cs generalizing m with
  | nil => exact h
  | cons c cs ih => exact ih (h.change c)

end MatchProfile

theorem update_of_refused {m : MatchProfile} {rulesPatch : Minijson.Value}
    (h : (applyBroadcastPatch rulesPatch m.profile).ok = false) : m.update rulesPatch = m := by
  have hsame : (applyBroadcastPatch rulesPatch m.profile).profile = m.profile := by
    unfold applyBroadcastPatch at h ⊢
    split at h
    · cases h
    · cases h
    · split at h
      · cases h
      · rfl
  rw [MatchProfile.update, hsame]

open Fleet.JsonText in
/-- The profile of an assignment that both plugins take is read back after any changes, and an
update that is refused changes nothing. -/
theorem parse_changed {server : Ruleset} {p : Value} {m : MatchProfile} {payload : Status.Json}
    (hfits : Fits 65 p) (hassign : onAssign (dump p) = some m)
    (hparse : Status.Json.parse (dump p) = some payload)
    (hvalid : Assign.validateAssign server payload = .ok ()) (changes : List Change) :
    let m' := changes.foldl MatchProfile.change m
    parseMatchProfile (matchProfileJson m') = some m' ∧
      ∀ rulesPatch, (applyBroadcastPatch rulesPatch m'.profile).ok = false →
        m'.update rulesPatch = m' := by
  intro m'
  have hsound : m'.Sound := (onAssign_sound hfits hassign hparse hvalid).changes changes
  exact ⟨parseMatchProfile_json hsound, fun rulesPatch hrefused => update_of_refused hrefused⟩

theorem onAssign_plainPayload :
    onAssign (Fleet.JsonText.dump (toFleet plainPayload.value)) =
      some { matchId := ascii "7" } := by
  have hdoubles : plainPayload.value.NoDoubles := by decide
  rw [dump_toFleet hdoubles, onAssign,
    Minijson.parse_dump plainPayload.uniqueKeys plainPayload.inRange,
    Minijson.ofJson_of_noDoubles hdoubles]
  rfl

/-- An assignment without a profile, and an admin who asks for a delay. -/
theorem parse_changed_plain :
    let m : MatchProfile := { matchId := ascii "7", override := { delaySeconds := some 30 } }
    parseMatchProfile (matchProfileJson m) = some m ∧
      ∀ rulesPatch, (applyBroadcastPatch rulesPatch m.profile).ok = false →
        m.update rulesPatch = m := by
  have hdoubles : plainPayload.value.NoDoubles := by decide
  have hparse : Status.Json.parse (Fleet.JsonText.dump (toFleet plainPayload.value)) =
      some plainPayload.value := by
    rw [dump_toFleet hdoubles]
    exact Status.Json.parse_dump_eq hdoubles plainPayload.inRange
      plainPayload.uniqueKeys (by decide)
  exact parse_changed (fits_toFleet hdoubles plainPayload.inRange plainPayload.uniqueKeys
    (by decide)) onAssign_plainPayload
    hparse valid_plainPayload [.command {} .delay (ascii "30")]

end Changes

section Model

inductive TrackEvent where
  | none
  | activated
  | deactivated
  | dropped
  deriving DecidableEq

def graceSeconds : ℚ := 5
def pendingSeconds : ℚ := 90
def restoreSeconds : ℚ := 900
def updateSeconds : ℚ := 30

structure MatchTracker where
  pending : Option MatchProfile := .none
  pendingSince : ℚ := 0
  pendingTtl : ℚ := pendingSeconds
  active : Option MatchProfile := .none
  mismatchSince : ℚ := -1

namespace MatchTracker

variable (t : MatchTracker)

/-- The active match is the one with this id. -/
def isActive (id : Bytes) : Bool := t.active.any (·.matchId == id)

def assign (p : MatchProfile) (now ttl : ℚ) : MatchTracker :=
  match t.active with
  | some m =>
    if m.matchId = p.matchId then
      { t with active := some { p with override := m.override }, pending :=
        .none, mismatchSince := -1 }
    else { t with pending := some p, pendingSince := now, pendingTtl := ttl }
  | .none => { t with pending := some p, pendingSince := now, pendingTtl := ttl }

/-- `Unassign`: an empty id means any match. -/
def unassign (id : Bytes) : MatchTracker :=
  let t := if t.active.any (fun m => id == [] || m.matchId == id) then
    { t with active := .none, mismatchSince := -1 } else t
  if t.pending.any (fun m => id == [] || m.matchId == id) then { t with pending := .none } else t

/-- The rest of `Observe` once there is nothing to activate: the active match is over when another
one has been reported for too long. -/
def observeActive (loaded : Bytes) (now : ℚ) (ev : TrackEvent) : MatchTracker × TrackEvent :=
  match t.active with
  | .none => (t, ev)
  | some m =>
    if loaded = m.matchId then ({ t with mismatchSince := -1 }, ev)
    else if t.mismatchSince < 0 then ({ t with mismatchSince := now }, ev)
    else if graceSeconds ≤ now - t.mismatchSince then
      ({ t with active := .none, mismatchSince := -1 }, .deactivated)
    else (t, ev)

def observe (loaded : Bytes) (now : ℚ) : MatchTracker × TrackEvent :=
  match t.pending with
  | some p =>
    if loaded ≠ [] ∧ loaded = p.matchId then
      ({ t with active := some p, pending := .none, mismatchSince := -1 }, .activated)
    else if t.pendingTtl < now - t.pendingSince then
      { t with pending := .none }.observeActive loaded now .dropped
    else t.observeActive loaded now .none
  | .none => t.observeActive loaded now .none

end MatchTracker

structure PendingUpdate where
  matchId : Bytes
  configRev : ℤ
  profile : Profile
  since : ℚ

/-- The plugin as far as it keeps the match: `g_tracker`, `g_update`, `g_restore` and the file. -/
structure Plugin where
  tracker : MatchTracker := {}
  update : Option PendingUpdate := none
  restore : Option MatchProfile := none
  saved : Option Bytes := none

namespace Plugin

variable (s : Plugin)

def persistActive : Plugin := { s with saved := s.tracker.active.map matchProfileJson }

/-- `OnAssign` -/
def assign (payloadJson : Bytes) (now : ℚ) : Plugin :=
  match onAssign payloadJson with
  | none => s
  | some p =>
    let same := s.tracker.isActive p.matchId
    let s := { s with tracker := s.tracker.assign p now pendingSeconds }
    if same then s.persistActive else s

/-- `OnUnassign` -/
def unassign (payloadJson : Bytes) : Plugin :=
  let id :=
    (((Minijson.parse payloadJson).bind (·.get "match_id")).bind Minijson.Value.asString).getD []
  let t := s.tracker.unassign id
  if s.tracker.active.isSome ∧ t.active.isNone then { s with tracker := t }.persistActive
  else { s with tracker := t }

/-- One operation of an update; none if it is refused. -/
def updateOp (acc : Profile × Bool) (op : Minijson.Value) : Option (Profile × Bool) :=
  match (op.get "op").bind Minijson.Value.asString, op.get "rules" with
  | some name, some rules =>
    if name = ascii "set_rules" then
      let r := applyBroadcastPatch rules acc.1
      if r.ok then some (r.profile, acc.2 || r.touched) else none
    else some acc
  | _, _ => some acc

/-- The profile that an update makes of a match, none if it says nothing about it or is refused. -/
def updatedProfile (m : MatchProfile) (ops : List Minijson.Value) : Option Profile :=
  match ops.foldlM updateOp (m.profile, false) with
  | some (next, true) =>
    if (conflictWithMatchCvars next m.delayFloor m.matchCvars).isSome then none else some next
  | _ => none

/-- `OnUpdate` behind the reading of its payload. -/
def updateMatch (id : Bytes) (rev : ℤ) (ops : List Minijson.Value) (now : ℚ) : Plugin :=
  match s.tracker.active.filter (·.matchId = id), s.tracker.pending.filter (·.matchId = id) with
  | some m, _ =>
    match updatedProfile m ops with
    | some next =>
      { s with update := some { matchId := id, configRev := rev, profile := next, since := now } }
    | none => s
  | none, some m =>
    match updatedProfile m ops with
    | some next =>
      { s with tracker := { s.tracker with pending := some { m with profile := next } } }
    | none => s
  | none, none => s

def onUpdate (payloadJson : Bytes) (now : ℚ) : Plugin :=
  match Minijson.parse payloadJson with
  | some v =>
    match v.get "match_id", v.get "config_rev", v.get "ops" with
    | some (.string id), some (.number rev), some (.array ops) =>
      s.updateMatch id rev.toInt64 ops now
    | _, _, _ => s
  | none => s

def maybeApplyUpdate (loadedRev : ℤ) (now : ℚ) : Plugin :=
  match s.update with
  | none => s
  | some u =>
    match s.tracker.active.filter (·.matchId = u.matchId) with
    | none => { s with update := none }
    | some m =>
      if updateSeconds < now - u.since then { s with update := none }
      else if loadedRev < u.configRev then s
      else
        { s with
          tracker := { s.tracker with active := some { m with profile := u.profile } }
          update := none }.persistActive

def onTrackEvent : TrackEvent → Plugin
  | .activated => s.persistActive
  | .deactivated => s.persistActive
  | _ => s

/-- The first frame after a start: the profile that was kept waits for its match. -/
def takeRestore (loaded : Bytes) (now : ℚ) : Plugin :=
  match s.restore with
  | none => s
  | some m =>
    { s with tracker := ((s.tracker.assign m now restoreSeconds).observe loaded now).1, restore :=
      none }

/-- `OnFrame`, as far as it is about the match; `housekeeping` says that a second has passed. -/
def frame (loaded : Bytes) (loadedRev : ℤ) (now : ℚ) (housekeeping : Bool) : Plugin :=
  let s := s.takeRestore loaded now
  if housekeeping then
    let (t, ev) := s.tracker.observe loaded now
    (({ s with tracker := t } : Plugin).onTrackEvent ev).maybeApplyUpdate loadedRev now
  else s

/-- An admin changes the active match, unless there is none or the change is refused. -/
def override (c : MatchProfile → Option MatchProfile) : Plugin :=
  match s.tracker.active.bind c with
  | none => s
  | some m => { s with tracker := { s.tracker with active := some m } }.persistActive

/-- The plugin starts: what it kept is read. -/
def load : Plugin where
  restore := s.saved.bind parseMatchProfile
  saved := s.saved

end Plugin

inductive PluginEvent where
  | assign (payloadJson : Bytes) (now : ℚ)
  | unassign (payloadJson : Bytes)
  | update (payloadJson : Bytes) (now : ℚ)
  | frame (loaded : Bytes) (loadedRev : ℤ) (now : ℚ) (housekeeping : Bool)
  | command (server : Profile) (k : Key) (raw : Bytes)
  | tvSet (server : Profile) (settings : Minijson.Value)
  | load

namespace Plugin

def step (s : Plugin) : PluginEvent → Plugin
  | .assign payloadJson now => s.assign payloadJson now
  | .unassign payloadJson => s.unassign payloadJson
  | .update payloadJson now => s.onUpdate payloadJson now
  | .frame loaded loadedRev now housekeeping => s.frame loaded loadedRev now housekeeping
  | .command server k raw => s.override (·.command server k raw)
  | .tvSet server settings => s.override (·.tvSet server settings)
  | .load => s.load

/-- The match plugin reports ids of matches that it accepted. -/
def Reported : PluginEvent → Prop
  | .frame loaded _ _ _ => loaded.length ≤ 64
  | _ => True

end Plugin

end Model

section Tracker

/-- The same match again gets new rules and keeps its override; another one waits. -/
theorem assign_spec (t : MatchTracker) (p : MatchProfile) (now ttl : ℚ) :
    (∃ m, t.active = some m ∧ m.matchId = p.matchId ∧ t.isActive p.matchId = true ∧
        (t.assign p now ttl).active = some { p with override := m.override } ∧
        (t.assign p now ttl).pending = none) ∨
      t.isActive p.matchId = false ∧ (t.assign p now ttl).active =
        t.active ∧ (t.assign p now ttl).pending = some p := by
  unfold MatchTracker.assign MatchTracker.isActive
  split
  · rename_i m hm
    split_ifs with hid
    · exact .inl ⟨m, hm, hid, by simp [hm, hid], rfl, rfl⟩
    · exact .inr ⟨by simp [hm, hid], rfl, rfl⟩
  · rename_i hnone
    exact .inr ⟨by simp [hnone], rfl, rfl⟩

theorem unassign_spec (t : MatchTracker) (id : Bytes) :
    ((t.unassign id).active = t.active ∨ (t.unassign id).active = none) ∧
      ((t.unassign id).pending = t.pending ∨ (t.unassign id).pending = none) := by
  unfold MatchTracker.unassign
  dsimp only
  split_ifs <;> simp

theorem observeActive_spec (t : MatchTracker) (loaded : Bytes) (now : ℚ) (ev : TrackEvent) :
    (t.observeActive loaded now ev).1.pending = t.pending ∧
      ((t.observeActive loaded now ev).1.active = none ∧ t.active ≠ none ∧
          (t.observeActive loaded now ev).2 = .deactivated ∨
        (t.observeActive loaded now ev).1.active = t.active ∧
        (t.observeActive loaded now ev).2 = ev) := by
  unfold MatchTracker.observeActive
  split
  · simp_all
  · split_ifs <;> simp_all

/-- What a report does: the match that waits becomes active, or the active one stays or goes. -/
theorem observe_spec (t : MatchTracker) (loaded : Bytes) (now : ℚ) :
    ((t.observe loaded now).2 = .activated ∧ (t.observe loaded now).1.pending = none ∧
        ∃ p, t.pending = some p ∧ loaded ≠ [] ∧ loaded = p.matchId ∧
        (t.observe loaded now).1.active = some p) ∨
      (((t.observe loaded now).1.pending = t.pending ∨ (t.observe loaded now).1.pending = none) ∧
        ((t.observe loaded now).1.active = none ∧ (t.observe loaded now).2 = .deactivated ∨
          (t.observe loaded now).1.active = t.active ∧ (t.observe loaded now).2 ≠ .activated ∧
            (t.observe loaded now).2 ≠ .deactivated)) := by
  unfold MatchTracker.observe
  split
  · rename_i p hp
    split_ifs with hloaded hold
    · exact .inl ⟨rfl, rfl, p, hp, hloaded.1, hloaded.2, rfl⟩
    · right
      obtain ⟨hpending, ⟨hactive, -, hev⟩ | ⟨hactive, hev⟩⟩ :=
        observeActive_spec { t with pending := none } loaded now .dropped
      · exact ⟨.inr hpending, .inl ⟨hactive, hev⟩⟩
      · exact ⟨.inr hpending, .inr ⟨hactive, by rw [hev]; decide, by rw [hev]; decide⟩⟩
    · right
      obtain ⟨hpending, ⟨hactive, -, hev⟩ | ⟨hactive, hev⟩⟩ := observeActive_spec t loaded now .none
      · exact ⟨.inl hpending, .inl ⟨hactive, hev⟩⟩
      · exact ⟨.inl hpending, .inr ⟨hactive, by rw [hev]; decide, by rw [hev]; decide⟩⟩
  · right
    obtain ⟨hpending, ⟨hactive, -, hev⟩ | ⟨hactive, hev⟩⟩ := observeActive_spec t loaded now .none
    · exact ⟨.inl hpending, .inl ⟨hactive, hev⟩⟩
    · exact ⟨.inl hpending, .inr ⟨hactive, by rw [hev]; decide, by rw [hev]; decide⟩⟩

/-- A match that waits becomes active as soon as it is reported. -/
theorem observe_pending {t : MatchTracker} {m : MatchProfile} (hpending : t.pending = some m)
    (hm : m.matchId ≠ [])
    (now : ℚ) :
    (t.observe m.matchId now).1.active = some m ∧ (t.observe m.matchId now).1.pending = none := by
  simp [MatchTracker.observe, hpending, hm]

theorem observe_active {t : MatchTracker} {m : MatchProfile} (hactive : t.active = some m)
    (hpending : t.pending = none)
    (now : ℚ) :
    (t.observe m.matchId now).1.active = some m ∧ (t.observe m.matchId now).2 = .none := by
  simp [MatchTracker.observe, MatchTracker.observeActive, hpending, hactive]

end Tracker

section Kept

/-- What is active is what was kept, and it can be read back; what is to be restored waits alone. -/
structure Plugin.Kept (s : Plugin) : Prop where
  pending : ∀ m, s.tracker.pending = some m → m.Bounded
  active : ∀ m, s.tracker.active = some m → m.Sound ∧ s.saved = some (matchProfileJson m)
  update : ∀ u, s.update = some u → u.profile.Sound
  restore : ∀ m, s.restore = some m →
    m.Sound ∧ s.saved = some (matchProfileJson m) ∧ s.tracker.active = none
  saved : ∀ text, s.saved = some text → ∃ m : MatchProfile, m.Sound ∧ text = matchProfileJson m

namespace Plugin

variable {s : Plugin}

theorem kept_start : Kept {} where
  pending m h := by cases h
  active m h := by cases h
  update u h := by cases h
  restore m h := by cases h
  saved text h := by cases h

theorem Kept.restore_of_active (h : s.Kept) {m : MatchProfile} (hm : s.tracker.active = some m) :
    s.restore = none := by
  cases hrestore : s.restore with
  | none => rfl
  | some r =>
    have hnone := (h.restore r hrestore).2.2
    rw [hm] at hnone
    cases hnone

theorem kept_persistActive (hpending : ∀ m, s.tracker.pending = some m → m.Bounded)
    (hactive : ∀ m, s.tracker.active = some m → m.Sound)
    (hupdate : ∀ u, s.update = some u → u.profile.Sound)
    (hrestore : s.restore = none) : s.persistActive.Kept where
  pending := hpending
  active m hm := by
    refine ⟨hactive m hm, ?_⟩
    have hsame : s.tracker.active = some m := hm
    rw [persistActive, hsame]
    rfl
  update := hupdate
  restore m hm := by
    have hsome : s.restore = some m := hm
    rw [hrestore] at hsome
    cases hsome
  saved text htext := by
    obtain ⟨m, hm, rfl⟩ := Option.map_eq_some_iff.mp htext
    exact ⟨m, hactive m hm, rfl⟩

theorem Kept.withPending (h : s.Kept) {t : MatchTracker} (hactive : t.active = s.tracker.active)
    (hpending : ∀ m, t.pending = some m → m.Bounded) : ({ s with tracker := t } : Plugin).Kept where
  pending := hpending
  active m hm := h.active m (hactive ▸ hm)
  update := h.update
  restore m hm := by
    obtain ⟨hsound, hsaved, hnone⟩ := h.restore m hm
    exact ⟨hsound, hsaved, hactive.trans hnone⟩
  saved := h.saved

theorem Kept.assign (h : s.Kept) (payloadJson : Bytes) (now : ℚ) :
    (s.assign payloadJson now).Kept := by
  unfold Plugin.assign
  split
  · exact h
  · rename_i p hp
    obtain ⟨hbounded, -⟩ := onAssign_bounded hp
    obtain ⟨m, hm, hid, hsame, hactive, hpending⟩ | ⟨hsame, hactive, hpending⟩ :=
      assign_spec s.tracker p now pendingSeconds
    · obtain ⟨hsound, -⟩ := h.active m hm
      simp only [hsame, if_true]
      refine kept_persistActive (fun m' hm' => ?_) (fun m' hm' => ?_) h.update
        (h.restore_of_active hm)
      · cases hpending.symm.trans hm'
      · cases hactive.symm.trans hm'
        exact
          { hbounded with
            override := hsound.override
            id_ne := hid ▸ hsound.id_ne
            id_length := hid ▸ hsound.id_length }
    · simp only [hsame, Bool.false_eq_true, if_false]
      refine h.withPending hactive fun m' hm' => ?_
      cases hpending.symm.trans hm'
      exact hbounded

theorem Kept.unassign (h : s.Kept) (payloadJson : Bytes) : (s.unassign payloadJson).Kept := by
  unfold Plugin.unassign
  dsimp only
  obtain ⟨hactive, hpending⟩ := unassign_spec s.tracker
    ((((Minijson.parse payloadJson).bind (·.get "match_id")).bind Minijson.Value.asString).getD [])
  generalize s.tracker.unassign _ = t at hactive hpending ⊢
  have hbounded : ∀ m, t.pending = some m → m.Bounded := by
    intro m hm
    rcases hpending with hsame | hnone
    · exact h.pending m (hsame ▸ hm)
    · cases hnone.symm.trans hm
  split_ifs with hended
  · obtain ⟨hsome, hnone⟩ := hended
    obtain ⟨m, hm⟩ := Option.isSome_iff_exists.mp hsome
    refine kept_persistActive hbounded (fun m' hm' => ?_) h.update (h.restore_of_active hm)
    cases (Option.isNone_iff_eq_none.mp hnone).symm.trans hm'
  · refine h.withPending ?_ hbounded
    rcases hactive with hsame | hnone
    · exact hsame
    · rw [hnone]
      cases hm : s.tracker.active with
      | none => rfl
      | some m => exact absurd ⟨by simp [hm], by simp [hnone]⟩ hended

theorem updateOp_sound {acc next : Profile × Bool} {op : Minijson.Value} (hacc : acc.1.Sound)
    (h : updateOp acc op = some next) : next.1.Sound := by
  unfold updateOp at h
  split at h
  · rename_i rules _ _
    by_cases hok : (applyBroadcastPatch rules acc.1).ok = true
    · simp only [hok, if_true] at h
      split_ifs at h
      · cases h
        exact applyBroadcastPatch_sound hacc
      · cases h
        exact hacc
    · simp only [hok, Bool.false_eq_true, if_false] at h
      split_ifs at h
      cases h
      exact hacc
  · cases h
    exact hacc

theorem updateOps_sound {ops : List Minijson.Value} {acc next : Profile × Bool} (hacc : acc.1.Sound)
    (h : ops.foldlM updateOp acc = some next) : next.1.Sound := by
  induction ops generalizing acc with
  | nil =>
    cases h
    exact hacc
  | cons op ops ih =>
    rw [List.foldlM_cons] at h
    obtain ⟨mid, hmid, hrest⟩ := Option.bind_eq_some_iff.mp h
    exact ih (updateOp_sound hacc hmid) hrest

theorem updatedProfile_sound {m : MatchProfile} {ops : List Minijson.Value} {next : Profile}
    (hm : m.profile.Sound) (h : updatedProfile m ops = some next) : next.Sound := by
  unfold updatedProfile at h
  split at h
  · rename_i hops
    split_ifs at h
    cases h
    exact @updateOps_sound ops (m.profile, false) (next, true) hm hops
  · cases h

theorem Kept.updateMatch (h : s.Kept) (id : Bytes) (rev : ℤ) (ops : List Minijson.Value) (now : ℚ) :
    (s.updateMatch id rev ops now).Kept := by
  unfold Plugin.updateMatch
  split
  · rename_i m hm
    obtain ⟨hactive, -⟩ := Option.filter_eq_some_iff.mp hm
    split
    · rename_i next hnext
      refine { h with update := fun u hu => ?_ }
      cases hu
      exact updatedProfile_sound (h.active m hactive).1.profile hnext
    · exact h
  · rename_i m _ hm
    obtain ⟨hpending, -⟩ := Option.filter_eq_some_iff.mp hm
    split
    · rename_i next hnext
      refine h.withPending rfl fun m' hm' => ?_
      cases hm'
      have hbounded := h.pending m hpending
      exact { hbounded with profile := updatedProfile_sound hbounded.profile hnext }
    · exact h
  · exact h

theorem Kept.onUpdate (h : s.Kept) (payloadJson : Bytes) (now : ℚ) :
    (s.onUpdate payloadJson now).Kept := by
  unfold Plugin.onUpdate
  split
  · split
    · exact h.updateMatch _ _ _ now
    · exact h
  · exact h

theorem Kept.withoutUpdate (h : s.Kept) : ({ s with update := none } : Plugin).Kept :=
  { h with update := fun u hu => by cases hu }

theorem Kept.maybeApplyUpdate (h : s.Kept) (loadedRev : ℤ) (now : ℚ) :
    (s.maybeApplyUpdate loadedRev now).Kept := by
  unfold Plugin.maybeApplyUpdate
  split
  · exact h
  · rename_i u hu
    split
    · exact h.withoutUpdate
    · rename_i m hm
      obtain ⟨hactive, -⟩ := Option.filter_eq_some_iff.mp hm
      split_ifs
      · exact h.withoutUpdate
      · exact h
      · refine kept_persistActive h.pending (fun m' hm' => ?_) (fun u hu => by cases hu)
          (h.restore_of_active hactive)
        cases hm'
        have hsound := (h.active m hactive).1
        exact { hsound with profile := h.update u hu }

theorem sound_of_reported {loaded : Bytes} (hloaded : loaded.length ≤ 64) {m : MatchProfile}
    (hm : m.Bounded) (hne : loaded ≠ []) (hid : loaded = m.matchId) : m.Sound :=
  { hm with id_ne := hid ▸ hne, id_length := hid ▸ hloaded }

/-- What was kept waits for its match, and is active if that is reported at once. -/
theorem takeRestore_spec (h : s.Kept) {m : MatchProfile} (hm : s.restore = some m)
    (loaded : Bytes) (now : ℚ) :
    (s.takeRestore loaded now).update = s.update ∧ (s.takeRestore loaded now).saved = s.saved ∧
      (s.takeRestore loaded now).restore = none ∧
      ((s.takeRestore loaded now).tracker.active =
        some m ∧ (s.takeRestore loaded now).tracker.pending = none ∨
        (s.takeRestore loaded now).tracker.active = none ∧ loaded ≠ m.matchId ∧
          ∀ p, (s.takeRestore loaded now).tracker.pending = some p → p = m) := by
  obtain ⟨hsound, -, hnone⟩ := h.restore m hm
  simp only [Plugin.takeRestore, hm, true_and]
  obtain ⟨m', hm', -⟩ | ⟨-, hactive, hpending⟩ := assign_spec s.tracker m now restoreSeconds
  · cases hnone.symm.trans hm'
  · generalize s.tracker.assign m now restoreSeconds = t at hactive hpending ⊢
    by_cases hloaded : loaded = m.matchId
    · subst hloaded
      exact .inl (observe_pending hpending hsound.id_ne now)
    · right
      obtain ⟨-, -, p, hp, -, hid, -⟩ | ⟨hstays, hgone⟩ := observe_spec t loaded now
      · cases hpending.symm.trans hp
        exact absurd hid hloaded
      · refine ⟨?_, hloaded, fun p hp => ?_⟩
        · rcases hgone with ⟨hgone, -⟩ | ⟨hsame, -⟩
          · exact hgone
          · exact hsame.trans (hactive.trans hnone)
        · rcases hstays with hsame | hgone
          · cases hpending.symm.trans (hsame.symm.trans hp)
            rfl
          · cases hgone.symm.trans hp

theorem Kept.takeRestore (h : s.Kept) (loaded : Bytes) (now : ℚ) :
    (s.takeRestore loaded now).Kept ∧ (s.takeRestore loaded now).restore = none := by
  cases hrestore : s.restore with
  | none =>
    have hsame : s.takeRestore loaded now = s := by rw [Plugin.takeRestore, hrestore]
    rw [hsame]
    exact ⟨h, hrestore⟩
  | some m =>
    obtain ⟨hsound, hsaved, -⟩ := h.restore m hrestore
    obtain ⟨hu, hfile, hdone, htracker⟩ := takeRestore_spec h hrestore loaded now
    generalize s.takeRestore loaded now = s' at hu hfile hdone htracker ⊢
    refine ⟨⟨fun p hp => ?_, fun p hp => ?_, fun u hu' => h.update u (hu ▸ hu'), fun r hr =>
      ?_, fun text ht => h.saved text (hfile ▸ ht)⟩, hdone⟩
    · obtain ⟨-, hnone⟩ | ⟨-, -, hpending⟩ := htracker
      · cases hnone.symm.trans hp
      · rw [hpending p hp]
        exact hsound.toBounded
    · obtain ⟨hactive, -⟩ | ⟨hnone, -⟩ := htracker
      · cases hactive.symm.trans hp
        exact ⟨hsound, hfile.trans hsaved⟩
      · cases hnone.symm.trans hp
    · cases hdone.symm.trans hr

theorem Kept.reported (h : s.Kept) (hrestore : s.restore = none) {loaded : Bytes}
    (hloaded : loaded.length ≤ 64) (now : ℚ) :
    (({ s with tracker := (s.tracker.observe loaded now).1 } : Plugin).onTrackEvent
      (s.tracker.observe loaded now).2).Kept := by
  obtain ⟨hev, hpending, p, hp, hne, hid, hactive⟩ | ⟨hpending, hrest⟩ :=
    observe_spec s.tracker loaded now
  · rw [hev]
    refine kept_persistActive (fun m hm => ?_) (fun m hm => ?_) h.update hrestore
    · cases hpending.symm.trans hm
    · cases hactive.symm.trans hm
      exact sound_of_reported hloaded (h.pending p hp) hne hid
  · have hbounded : ∀ m, (s.tracker.observe loaded now).1.pending = some m → m.Bounded := by
      intro m hm
      rcases hpending with hsame | hnone
      · exact h.pending m (hsame ▸ hm)
      · cases hnone.symm.trans hm
    rcases hrest with ⟨hactive, hev⟩ | ⟨hactive, hnot, hstays⟩
    · rw [hev]
      refine kept_persistActive hbounded (fun m hm => ?_) h.update hrestore
      cases hactive.symm.trans hm
    · generalize (s.tracker.observe loaded now).2 = ev at hnot hstays ⊢
      cases ev with
      | activated => exact absurd rfl hnot
      | deactivated => exact absurd rfl hstays
      | none => exact h.withPending hactive hbounded
      | dropped => exact h.withPending hactive hbounded

theorem Kept.frame (h : s.Kept) {loaded : Bytes} (hloaded : loaded.length ≤ 64)
    (loadedRev : ℤ) (now : ℚ)
    (housekeeping : Bool) : (s.frame loaded loadedRev now housekeeping).Kept := by
  obtain ⟨hkept, hrestore⟩ := h.takeRestore loaded now
  unfold Plugin.frame
  cases housekeeping with
  | false => exact hkept
  | true => exact (hkept.reported hrestore hloaded now).maybeApplyUpdate loadedRev now

theorem Kept.override (h : s.Kept) {c : MatchProfile → Option MatchProfile}
    (hc : ∀ m m', m.Sound → c m = some m' → m'.Sound) : (s.override c).Kept := by
  unfold Plugin.override
  split
  · exact h
  · rename_i m' hm'
    obtain ⟨m, hactive, hchange⟩ := Option.bind_eq_some_iff.mp hm'
    refine kept_persistActive h.pending (fun m'' hm'' => ?_) h.update (h.restore_of_active hactive)
    cases hm''
    exact hc m m' (h.active m hactive).1 hchange

theorem Kept.load (h : s.Kept) : s.load.Kept where
  pending m hm := by cases hm
  active m hm := by cases hm
  update u hu := by cases hu
  restore m hm := by
    obtain ⟨text, htext, hparse⟩ := Option.bind_eq_some_iff.mp hm
    obtain ⟨m', hsound, rfl⟩ := h.saved text htext
    rw [parseMatchProfile_json hsound] at hparse
    cases hparse
    exact ⟨hsound, htext, rfl⟩
  saved := h.saved

theorem Kept.step (h : s.Kept) {e : PluginEvent} (he : Reported e) : (s.step e).Kept := by
  cases e with
  | assign payloadJson now => exact h.assign payloadJson now
  | unassign payloadJson => exact h.unassign payloadJson
  | update payloadJson now => exact h.onUpdate payloadJson now
  | frame loaded loadedRev now housekeeping => exact h.frame he loadedRev now housekeeping
  | command server k raw =>
    refine h.override fun m m' hm hm' => ?_
    obtain ⟨o, ho, rfl⟩ := MatchProfile.command_spec hm'
    exact hm.withProfiles hm.profile (setFromText_sound hm.override ho)
  | tvSet server settings =>
    refine h.override fun m m' hm hm' => ?_
    obtain ⟨patch, hpatch, rfl⟩ := MatchProfile.tvSet_spec hm'
    exact hm.withProfiles hm.profile (hm.override.patched (parsePatch_sound hpatch))
  | load => exact h.load

theorem kept_run {es : List PluginEvent} (hes : ∀ e ∈ es, Reported e) : (run step {} es).Kept :=
  run_invariant kept_start fun e he _ hs => hs.step (hes e he)

/-- A plugin that starts has the active match of the one that ended. -/
theorem Kept.load_restore (h : s.Kept) {m : MatchProfile} (hm : s.tracker.active = some m) :
    s.load.restore = some m := by
  obtain ⟨hsound, hsaved⟩ := h.active m hm
  simp only [Plugin.load, hsaved, Option.bind_some]
  exact parseMatchProfile_json hsound

/-- The match waits since this time for its report, as one that was restored. -/
structure Waits (s : Plugin) (m : MatchProfile) (since : ℚ) : Prop where
  pending : s.tracker.pending = some m
  active : s.tracker.active = none
  since : s.tracker.pendingSince = since
  ttl : s.tracker.pendingTtl = restoreSeconds
  update : s.update = none
  restore : s.restore = none

/-- The plugin goes on without the report in the time that a restored match has. -/
theorem Waits.observe {m : MatchProfile} {since : ℚ} (h : s.Waits m since) {loaded : Bytes}
    (hother : loaded ≠ m.matchId)
    {now : ℚ} (hnow : now ≤ since + restoreSeconds) :
    s.tracker.observe loaded now = (s.tracker, .none) := by
  have hid : ¬ (loaded ≠ [] ∧ loaded = m.matchId) := fun hloaded => hother hloaded.2
  have httl : ¬ s.tracker.pendingTtl < now - s.tracker.pendingSince := by
    rw [h.ttl, h.since]
    linarith
  simp only [MatchTracker.observe, h.pending, MatchTracker.observeActive, h.active, if_neg hid,
    if_neg httl]

theorem Waits.frame {m : MatchProfile} {since : ℚ} (h : s.Waits m since) {loaded : Bytes}
    (hother : loaded ≠ m.matchId)
    {now : ℚ} (hnow : now ≤ since + restoreSeconds) (loadedRev : ℤ) (housekeeping : Bool) :
    (s.frame loaded loadedRev now housekeeping).Waits m since := by
  have htake : s.takeRestore loaded now = s := by rw [Plugin.takeRestore, h.restore]
  rw [Plugin.frame, htake]
  cases housekeeping with
  | false => exact h
  | true =>
    have hquiet : s.maybeApplyUpdate loadedRev now = s := by rw [Plugin.maybeApplyUpdate, h.update]
    simp only [if_true, h.observe hother hnow, onTrackEvent]
    exact hquiet.symm ▸ h

/-- The first frame takes up what was kept: the match is active if it is reported, and waits if
not. -/
theorem Kept.takeRestore_starts (h : s.Kept) {m : MatchProfile} (hm : s.restore = some m)
    (hnone : s.update = none) (now : ℚ) :
    ((s.takeRestore m.matchId now).tracker.active = some m ∧
      (s.takeRestore m.matchId now).tracker.pending = none ∧
        (s.takeRestore m.matchId now).update = none) ∧
      ∀ loaded, loaded ≠ m.matchId → (s.takeRestore loaded now).Waits m now := by
  obtain ⟨hsound, -, hfree⟩ := h.restore m hm
  have hassign : s.tracker.assign m now restoreSeconds =
      { s.tracker with pending := some m, pendingSince := now, pendingTtl := restoreSeconds } := by
    simp only [MatchTracker.assign, hfree]
  constructor
  · obtain ⟨hactive, hpending⟩ :=
      observe_pending (t := s.tracker.assign m now restoreSeconds) (by rw [hassign])
      hsound.id_ne now
    simp only [Plugin.takeRestore, hm]
    exact ⟨hactive, hpending, hnone⟩
  · intro loaded hother
    have hid : ¬ (loaded ≠ [] ∧ loaded = m.matchId) := fun hloaded => hother hloaded.2
    have httl : ¬ restoreSeconds < now - now := by
      rw [sub_self]
      decide
    simp only [Plugin.takeRestore, hm, hassign, MatchTracker.observe, if_neg hid,
      if_neg httl, MatchTracker.observeActive, hfree]
    exact ⟨rfl, rfl, rfl, rfl, hnone, rfl⟩

theorem Waits.reported {m : MatchProfile} {since : ℚ} (h : s.Waits m since) (hm : m.matchId ≠ [])
    (loadedRev : ℤ) (now : ℚ) : (s.frame m.matchId loadedRev now true).tracker.active = some m := by
  have htake : s.takeRestore m.matchId now = s := by rw [Plugin.takeRestore, h.restore]
  have hobserve : s.tracker.observe m.matchId now =
      ({ s.tracker with active := some m, pending := none, mismatchSince := -1 }, .activated) := by
    simp [MatchTracker.observe, h.pending, hm]
  rw [Plugin.frame, htake]
  simp only [if_true, hobserve, onTrackEvent, persistActive, Plugin.maybeApplyUpdate, h.update]

/-- A frame: the match that is reported, its revision, the time, and whether a second has passed. -/
structure Frame where
  loaded : Bytes
  loadedRev : ℤ
  now : ℚ
  housekeeping : Bool

def onFrame (s : Plugin) (f : Frame) : Plugin := s.frame f.loaded f.loadedRev f.now f.housekeeping

theorem Waits.frames {m : MatchProfile} {since : ℚ} (h : s.Waits m since) {fs : List Frame}
    (hfs : ∀ f ∈ fs, f.loaded ≠ m.matchId ∧ f.now ≤ since + restoreSeconds) :
    (fs.foldl onFrame s).Waits m since := by
  induction fs generalizing s with
  | nil => exact h
  | cons f fs ih =>
    obtain ⟨hother, hnow⟩ := hfs f List.mem_cons_self
    exact ih (h.frame hother hnow f.loadedRev f.housekeeping) fun g hg =>
      hfs g (List.mem_cons_of_mem f hg)

/-- A frame in which the match is reported, after the frames of a quarter of an hour in which it is
not. -/
theorem Kept.frames_restored (h : s.Kept) {m : MatchProfile} (hm : s.restore = some m)
    (hnone : s.update = none) {fs : List Frame}
    (hfs : ∀ f ∈ fs, f.loaded ≠ m.matchId ∧ ∀ first ∈ fs.head?, f.now ≤ first.now + restoreSeconds)
    (loadedRev : ℤ)
    (now : ℚ) :
    ((fs.foldl onFrame s).frame m.matchId loadedRev now true).tracker.active = some m := by
  obtain ⟨hsound, -, -⟩ := h.restore m hm
  cases fs with
  | nil =>
    obtain ⟨⟨hactive, hpending, hupdate⟩, -⟩ := h.takeRestore_starts hm hnone now
    obtain ⟨hstays, hev⟩ := observe_active hactive hpending now
    simp only [List.foldl_nil, Plugin.frame, if_true, hev, onTrackEvent,
      Plugin.maybeApplyUpdate, hupdate]
    exact hstays
  | cons first fs =>
    obtain ⟨-, hstarts⟩ := h.takeRestore_starts hm hnone first.now
    obtain ⟨hother, hnow⟩ := hfs first List.mem_cons_self
    have hwaits := hstarts first.loaded hother
    have hfirst : (onFrame s first).Waits m first.now := by
      have hagain : (s.takeRestore first.loaded first.now).takeRestore first.loaded first.now =
          s.takeRestore first.loaded first.now := by rw [Plugin.takeRestore, hwaits.restore]
      have hframe : onFrame s first = onFrame (s.takeRestore first.loaded first.now) first := by
        rw [onFrame, onFrame, Plugin.frame, Plugin.frame, hagain]
      rw [hframe]
      exact hwaits.frame hother (hnow first rfl) first.loadedRev first.housekeeping
    exact (hfirst.frames fun f hf =>
      ⟨(hfs f (List.mem_cons_of_mem first hf)).1,
        (hfs f (List.mem_cons_of_mem first hf)).2 first rfl⟩).reported
        hsound.id_ne loadedRev now

/-- Whatever happened before, a plugin that is started again has the profile of the active match,
and has it in place as soon as the match plugin reports that match, if it does so within a quarter
of an hour. -/
theorem restored_after_restart {es : List PluginEvent} (hes : ∀ e ∈ es, Reported e)
    {m : MatchProfile} (hm : (run step {} es).tracker.active = some m) {fs : List Frame}
    (hfs : ∀ f ∈ fs, f.loaded ≠ m.matchId ∧ ∀ first ∈ fs.head?, f.now ≤ first.now + restoreSeconds)
    (loadedRev : ℤ) (now : ℚ) :
    (run step {} es).load.restore = some m ∧
      ((fs.foldl onFrame (run step {} es).load).frame m.matchId loadedRev now true).tracker.active =
        some m := by
  have hkept := kept_run hes
  have hrestore := hkept.load_restore hm
  exact ⟨hrestore, hkept.load.frames_restored hrestore rfl hfs loadedRev now⟩

/-- A match that is assigned and reported, and for which an admin asks for a delay. -/
def delayedMatch : List PluginEvent :=
  [.assign (Fleet.JsonText.dump (toFleet plainPayload.value)) 0, .frame (ascii "7") 0 1 true,
    .command {} .delay (ascii "30")]

def delayedProfile : MatchProfile where
  matchId := ascii "7"
  override := { delaySeconds := some 30 }

/-- The plugin waits for it after a restart, and the delay is there. -/
theorem restored_after_restart_delayed :
    (run step {} delayedMatch).load.restore = some delayedProfile ∧
      (([⟨[], -1, 2, true⟩].foldl onFrame (run step {} delayedMatch).load).frame
        delayedProfile.matchId 0 3 true).tracker.active = some delayedProfile := by
  have hactive : (run step {} delayedMatch).tracker.active = some delayedProfile := by
    rw [delayedMatch, run_cons, step, Plugin.assign, onAssign_plainPayload]
    rfl
  have hreported : ∀ e ∈ delayedMatch, Reported e := by
    simp only [delayedMatch, List.mem_cons, List.not_mem_nil, or_false, forall_eq_or_imp, forall_eq]
    exact ⟨trivial, (by decide : (ascii "7").length ≤ 64), trivial⟩
  have hframes : ∀ f ∈ [(⟨[], -1, 2, true⟩ : Frame)], f.loaded ≠ delayedProfile.matchId ∧
      ∀ first ∈ [(⟨[], -1, 2, true⟩ : Frame)].head?, f.now ≤ first.now + restoreSeconds := by
    simp only [List.mem_cons, List.not_mem_nil, or_false, forall_eq, List.head?_cons,
      Option.mem_some_iff]
    refine ⟨by decide, fun first hfirst => ?_⟩
    subst hfirst
    norm_num [restoreSeconds]
  exact restored_after_restart hreported hactive hframes 0 3

end Plugin

end Kept

end ReadyUp.Tv
