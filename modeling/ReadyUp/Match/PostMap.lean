import ReadyUp.Config.JsonReaders
import ReadyUp.Support.Runs

/-!
# After a map

The end of a map schedules what comes next on a timer: the next map, the reset of the server, or
the kick of the players with the reset after it. A timer cannot be cancelled; it does nothing when
the generation it was scheduled in is over. `MatchEndCancelPending`, which every load of a match
and every reset by a command calls, ends the generation and forgets the stored plan. A reload of
the plugin loses the timers and schedules the stored plan again.

Timers fire in any order here and delays are left out. The generation, of 32 bits in the source, is
a number that does not wrap: `run_step32` says that this changes no run in which no timer sees `2 ^
32` cancels. A step is numbered, and remembers the match whose map end scheduled it; the log says
what was done, for which step and with which match loaded. None of these three is in the source.
-/
namespace ReadyUp.Match

open Support

/-- What a post-map step reads of a flow event. -/
structure FlowEvent where
  matchid : UInt64 := 0
  slug : Bytes := []
  scrim : Bool := false
  mapNumber : Int32 := 1
  team1Name : Bytes := []
  team2Name : Bytes := []
  team1SeriesScore : Int32 := 0
  team2SeriesScore : Int32 := 0
  demoRecorded : Bool := false
  demoUploadConfigured : Bool := false
  deriving DecidableEq

/-- `Plan`, with what its kind needs and without the time it is due. -/
inductive Plan where
  | nextMap (next : Bytes)
  | reset (base : FlowEvent)
  | kickThenReset (kickReason : Bytes) (base : FlowEvent)
  deriving DecidableEq

inductive Deed where
  | nextMap
  | kick
  | reset
  deriving DecidableEq

namespace Plan

/-- `Plan::Kind`, of which zero is no plan. -/
def kind : Plan → ℤ
  | .nextMap _ => 1
  | .reset _ => 2
  | .kickThenReset _ _ => 3

def next : Plan → Bytes
  | .nextMap next => next
  | _ => []

def kickReason : Plan → Bytes
  | .kickThenReset kickReason _ => kickReason
  | _ => []

def base : Plan → FlowEvent
  | .nextMap _ => {}
  | .reset base => base
  | .kickThenReset _ base => base

def deeds : Plan → List Deed
  | .nextMap _ => [.nextMap]
  | .reset _ => [.reset]
  | .kickThenReset _ _ => [.kick, .reset]

end Plan

section Json

open Status

/-- The base event in `MatchEndSnapshotJson`. -/
def FlowEvent.toJson (e : FlowEvent) : Json :=
  .object
    [(ascii "matchid", .int e.matchid.toInt64.toInt), (ascii "slug", .string e.slug),
      (ascii "scrim", .bool e.scrim), (ascii "map_number", .int e.mapNumber.toInt),
      (ascii "team1_name", .string e.team1Name), (ascii "team2_name", .string e.team2Name),
      (ascii "team1_series_score", .int e.team1SeriesScore.toInt),
      (ascii "team2_series_score", .int e.team2SeriesScore.toInt),
      (ascii "demo_recorded", .bool e.demoRecorded),
      (ascii "demo_upload_configured", .bool e.demoUploadConfigured)]

/-- The plan in `MatchEndSnapshotJson`. -/
def Plan.toJson (p : Plan) : Json :=
  .object [(ascii "kind", .int p.kind), (ascii "next", .string p.next),
    (ascii "kick_reason", .string p.kickReason), (ascii "base", p.base.toJson)]

/-- The members of an object that may be missing. -/
def member (o : Option Json) (key : String) : Option Json := o.bind (·.find (ascii key))

/-- The base event in `MatchEndRestoreJson`. -/
def FlowEvent.ofJson (e : Option Json) : FlowEvent where
  matchid := (member e "matchid").elim 0 fun v => (Int64.ofInt (Json.asInt v)).toUInt64
  slug := (member e "slug").elim [] Json.asString
  scrim := (member e "scrim").elim false Json.asBool
  mapNumber := (member e "map_number").elim 1 fun v => Int32.ofInt (Json.asInt v)
  team1Name := (member e "team1_name").elim [] Json.asString
  team2Name := (member e "team2_name").elim [] Json.asString
  team1SeriesScore := (member e "team1_series_score").elim 0 fun v => Int32.ofInt (Json.asInt v)
  team2SeriesScore := (member e "team2_series_score").elim 0 fun v => Int32.ofInt (Json.asInt v)
  demoRecorded := (member e "demo_recorded").elim false Json.asBool
  demoUploadConfigured := (member e "demo_upload_configured").elim false Json.asBool

/-- What `MatchEndRestoreJson` schedules. -/
def Plan.ofJson (p : Json) : Option Plan :=
  let kind := (member (some p) "kind").elim 0 Json.asInt
  let base := FlowEvent.ofJson (member (some p) "base")
  if kind = 1 then some (.nextMap ((member (some p) "next").elim [] Json.asString))
  else if kind = 2 then some (.reset base)
  else if kind = 3 then
    some (.kickThenReset ((member (some p) "kick_reason").elim [] Json.asString) base)
  else none

theorem FlowEvent.ofJson_toJson (e : FlowEvent) : FlowEvent.ofJson (some e.toJson) = e := by
  cases e with
  | mk matchid slug scrim mapNumber team1Name team2Name score1 score2 recorded upload =>
    have hid : (Int64.ofInt matchid.toInt64.toInt).toUInt64 = matchid := by simp
    simp only [FlowEvent.ofJson, FlowEvent.toJson, member, Option.bind_some, Json.find,
      Json.members_object]
    rw [FlowEvent.mk.injEq]
    exact ⟨hid, rfl, rfl, Int32.ofInt_toInt mapNumber, rfl, rfl, Int32.ofInt_toInt score1,
      Int32.ofInt_toInt score2, rfl, rfl⟩

theorem Plan.ofJson_toJson (p : Plan) : Plan.ofJson p.toJson = some p := by
  cases p with
  | nextMap next => rfl
  | reset base => exact congrArg (fun e => some (Plan.reset e)) base.ofJson_toJson
  | kickThenReset kickReason base =>
    exact congrArg (fun e => some (Plan.kickThenReset kickReason e)) base.ofJson_toJson

end Json

/-- A step with its number and the match whose map end scheduled it. -/
structure Step (μ : Type) where
  plan : Plan
  number : ℕ
  owner : μ

/-- A timer, with the generation it was scheduled in. -/
structure Timer (μ : Type) where
  step : Step μ
  generation : ℕ

/-- A deed of a step, and the match that was loaded then. -/
structure Done (μ : Type) where
  deed : Deed
  number : ℕ
  owner : μ
  loaded : Option μ

/-- The end of a map, as `MatchEndOnMapComplete` reads it: its input, the match and the demo. -/
structure MapEnd where
  seriesOver : Bool
  nextMap : Bytes
  seriesWinner : Bytes
  team1SeriesScore : Int32
  team2SeriesScore : Int32
  matchid : UInt64
  slug : Bytes
  team1Name : Bytes
  team2Name : Bytes
  recording : Bool
  hasUpload : Bool

namespace MapEnd

variable (e : MapEnd)

/-- The event that the reset starts from. -/
def base : FlowEvent where
  matchid := e.matchid
  slug := e.slug
  scrim := e.slug = ascii "scrim"
  team1Name := e.team1Name
  team2Name := e.team2Name
  team1SeriesScore := e.team1SeriesScore
  team2SeriesScore := e.team2SeriesScore
  demoRecorded := e.recording
  demoUploadConfigured := e.hasUpload

/-- The name of the winner, empty for none. -/
def winnerName : Bytes :=
  let byScore := if e.team2SeriesScore < e.team1SeriesScore then ascii "team1"
    else if e.team1SeriesScore < e.team2SeriesScore then ascii "team2"
    else ascii "none"
  let winner := if e.seriesWinner ≠ [] then e.seriesWinner else byScore
  if winner = ascii "team1" then e.team1Name else if winner = ascii "team2" then e.team2Name else []

def kickReason : Bytes :=
  if e.winnerName = [] then ascii "Series over. Thanks for playing!"
  else e.winnerName ++ ascii " won the match"

/-- What `MatchEndOnMapComplete` schedules; nobody is kicked after a pickup game. -/
def plan : Plan :=
  if !e.seriesOver then .nextMap e.nextMap
  else if e.base.scrim then .reset e.base
  else .kickThenReset e.kickReason e.base

end MapEnd

/-- The server as far as post-map steps go. -/
structure PostMap (μ : Type) where
  generation : ℕ := 0
  /-- `g_pending` -/
  pending : ℤ := 0
  stored : Option (Step μ) := none
  timers : List (Timer μ) := []
  /-- The match whose context is set. -/
  loaded : Option μ := none
  log : List (Done μ) := []
  steps : ℕ := 0

/-- What happens to the server. A match is loaded by `OnMatchLoaded`, `endMatch` is
`EndMatchResetServer` after the context was cleared, and `idle` is the command that sets the mode
to idle, which clears the context and nothing else. -/
inductive PostMapEvent (μ : Type) where
  | mapEnd (e : MapEnd)
  | fire (i : ℕ)
  | load (m : μ)
  | restart
  | endMatch
  | idle
  | cancel
  | reload
  | boot (recovered : Option μ)

namespace PostMap

variable {μ : Type} (s : PostMap μ)

/-- `ScheduleNextMap`, `ScheduleReset` and `ScheduleKickThenReset` -/
def schedule (step : Step μ) (generation : ℕ) : PostMap μ :=
  { s with
    pending := s.pending + 1
    stored := some step
    timers := s.timers ++ [⟨step, generation⟩] }

/-- `MatchEndCancelPending` -/
def cancelPending : PostMap μ := { s with generation := s.generation + 1, stored := none }

def did (deed : Deed) (step : Step μ) : PostMap μ :=
  { s with log := s.log ++ [⟨deed, step.number, step.owner, s.loaded⟩] }

/-- What a timer does that is not outdated. -/
def act (t : Timer μ) : PostMap μ :=
  match t.step.plan with
  | .nextMap _ => { s with stored := none }.did .nextMap t.step
  | .reset _ => { ({ s with stored := none }.did .reset t.step) with loaded := none }
  | .kickThenReset _ base =>
    (s.did .kick t.step).schedule { t.step with plan := .reset base } t.generation

/-- A timer is gone once it has fired. -/
def expire (i : ℕ) : PostMap μ :=
  { s with pending := s.pending - 1, timers := s.timers.eraseIdx i }

def fire (i : ℕ) : PostMap μ :=
  match s.timers[i]? with
  | none => s
  | some t => if s.generation ≠ t.generation then s.expire i else (s.expire i).act t

/-- `MatchEndOnMapComplete`; a map ends only with a match. -/
def mapEnd (e : MapEnd) : PostMap μ :=
  match s.loaded with
  | none => s
  | some m => { s with steps := s.steps + 1 }.schedule ⟨e.plan, s.steps, m⟩ s.generation

/-- A new image of the plugin, with no timers. -/
def fresh : PostMap μ := { s with generation := 0, pending := 0, stored := none, timers := [] }

/-- `MatchEndSnapshotJson` in the old image, `MatchEndRestoreJson` in the new one. -/
def reload : PostMap μ :=
  match s.stored.bind fun step => (Plan.ofJson step.plan.toJson).map fun plan =>
    { step with plan } with
  | none => s.fresh
  | some step => s.fresh.schedule step 0

/-- `MatchEndPending` -/
def endPending : Bool := 0 < s.pending

def step : PostMapEvent μ → PostMap μ
  | .mapEnd e => s.mapEnd e
  | .fire i => s.fire i
  | .load m => { s.cancelPending with loaded := some m }
  | .restart => if s.loaded.isSome then s.cancelPending else s
  | .endMatch => { s.cancelPending with loaded := none }
  | .idle => { s with loaded := none }
  | .cancel => s.cancelPending
  | .reload => s.reload
  | .boot recovered => { s.fresh with loaded := recovered }

def live : List (Timer μ) := s.timers.filter fun t => t.generation = s.generation

section Specs

variable {s}

@[simp] theorem generation_schedule (step : Step μ) (generation : ℕ) :
    (s.schedule step generation).generation = s.generation := rfl

theorem live_schedule (step : Step μ) :
    (s.schedule step s.generation).live = s.live ++ [⟨step, s.generation⟩] := by
  refine (List.filter_append ..).trans (congrArg (s.live ++ ·) ?_)
  simp

theorem live_cancelPending (h : ∀ t ∈ s.timers, t.generation ≤ s.generation) :
    s.cancelPending.live = [] := by
  refine List.filter_eq_nil_iff.mpr ?_
  intro t ht
  have hne : t.generation ≠ s.generation + 1 := by
    have hle := h t ht
    omega
  exact fun hlive => hne (of_decide_eq_true hlive)

@[simp] theorem live_fresh : s.fresh.live = [] := rfl

theorem mem_live {t : Timer μ} : t ∈ s.live ↔ t ∈ s.timers ∧ t.generation = s.generation := by
  simp [live]

theorem expire_split {i : ℕ} {t : Timer μ} (h : s.timers[i]? = some t) :
    ∃ before after, s.timers = before ++ t :: after ∧ (s.expire i).timers = before ++ after := by
  obtain ⟨hi, rfl⟩ := List.getElem?_eq_some_iff.mp h
  refine ⟨s.timers.take i, s.timers.drop (i + 1), ?_, List.eraseIdx_eq_take_drop_succ s.timers i⟩
  rw [List.getElem_cons_drop, List.take_append_drop]

theorem fire_of_none {i : ℕ} (h : s.timers[i]? = none) : s.fire i = s := by simp [fire, h]

theorem fire_outdated {i : ℕ} {t : Timer μ} (h : s.timers[i]? = some t)
    (hgen : t.generation ≠ s.generation) : s.fire i = s.expire i := by
  simp [fire, h, hgen.symm]

theorem fire_live {i : ℕ} {t : Timer μ} (h : s.timers[i]? = some t)
    (hgen : t.generation = s.generation) : s.fire i = (s.expire i).act t := by
  simp [fire, h, hgen]

theorem mapEnd_of_none (e : MapEnd) (h : s.loaded = none) : s.mapEnd e = s := by simp [mapEnd, h]

theorem mapEnd_of_some (e : MapEnd) {m : μ} (h : s.loaded = some m) :
    s.mapEnd e = ({ s with steps := s.steps + 1 }).schedule ⟨e.plan, s.steps, m⟩ s.generation := by
  simp [mapEnd, h]

theorem reload_of_none (h : s.stored = none) : s.reload = s.fresh := by simp [reload, h]

theorem reload_of_some {step : Step μ} (h : s.stored = some step) :
    s.reload = s.fresh.schedule step 0 := by
  simp [reload, h, Plan.ofJson_toJson]

end Specs

/-- What keeps a step from acting twice or on another match: the deeds left of a live step are not
in the log, and no other live step has its number. -/
structure Sound : Prop where
  young : ∀ t ∈ s.timers, t.generation ≤ s.generation
  own : ∀ t ∈ s.live, s.loaded = none ∨ s.loaded = some t.step.owner
  scheduled : ∀ step, s.stored = some step → ∃ t ∈ s.live, t.step = step
  apart : (s.live.map (·.step.number)).Nodup
  below : ∀ t ∈ s.live, t.step.number < s.steps
  left : ∀ t ∈ s.live, ∀ d ∈ s.log, d.number = t.step.number → d.deed ∉ t.step.plan.deeds
  logged : ∀ d ∈ s.log, d.number < s.steps
  once : (s.log.map fun d => (d.number, d.deed)).Nodup
  ownLog : ∀ d ∈ s.log, d.loaded = none ∨ d.loaded = some d.owner

section Sound

variable {s}

theorem sound_start : ({} : PostMap μ).Sound where
  young := by simp
  own := by simp [live]
  scheduled := by simp
  apart := by simp [live]
  below := by simp [live]
  left := by simp
  logged := by simp
  once := by simp
  ownLog := by simp

/-- Timers may go, and the match as well; another match may come once no live timer is left. -/
theorem Sound.less {s' : PostMap μ} (hs : s.Sound)
    (hyoung : ∀ t ∈ s'.timers, t.generation ≤ s'.generation) (hlive : s'.live.Sublist s.live)
    (hscheduled : ∀ step, s'.stored = some step → ∃ t ∈ s'.live, t.step = step)
    (hlog : s'.log = s.log) (hsteps : s.steps ≤ s'.steps)
    (hloaded : s'.live = [] ∨ s'.loaded = none ∨ s'.loaded = s.loaded) : s'.Sound where
  young := hyoung
  own t ht := by
    rcases hloaded with hnil | hnone | hsame
    · rw [hnil] at ht
      exact absurd ht List.not_mem_nil
    · exact .inl hnone
    · rw [hsame]
      exact hs.own t (hlive.subset ht)
  scheduled := hscheduled
  apart := (hlive.map _).nodup hs.apart
  below t ht := lt_of_lt_of_le (hs.below t (hlive.subset ht)) hsteps
  left t ht := by
    rw [hlog]
    exact hs.left t (hlive.subset ht)
  logged := by
    rw [hlog]
    exact fun d hd => lt_of_lt_of_le (hs.logged d hd) hsteps
  once := by
    rw [hlog]
    exact hs.once
  ownLog := by
    rw [hlog]
    exact hs.ownLog

/-- Scheduling a step that is not among the live ones and whose deeds are all left. -/
theorem Sound.schedule (hs : s.Sound) (step : Step μ)
    (hown : s.loaded = none ∨ s.loaded = some step.owner) (hbelow : step.number < s.steps)
    (hapart : ∀ t ∈ s.live, t.step.number ≠ step.number)
    (hleft : ∀ d ∈ s.log, d.number = step.number → d.deed ∉ step.plan.deeds) :
    (s.schedule step s.generation).Sound := by
  have hlive := live_schedule (s := s) step
  have hmem : ∀ t ∈ (s.schedule step s.generation).live, t ∈ s.live ∨ t.step = step := by
    intro t ht
    rw [hlive] at ht
    rcases List.mem_append.mp ht with ht | ht
    · exact .inl ht
    · rw [List.mem_singleton.mp ht]
      exact .inr rfl
  refine ⟨?_, ?_, ?_, ?_, ?_, ?_, hs.logged, hs.once, hs.ownLog⟩
  · intro t ht
    rcases List.mem_append.mp ht with ht | ht
    · exact hs.young t ht
    · rw [List.mem_singleton.mp ht]
      exact le_refl _
  · intro t ht
    rcases hmem t ht with ht | rfl
    · exact hs.own t ht
    · exact hown
  · intro st hst
    refine ⟨⟨step, s.generation⟩, ?_, Option.some.inj hst⟩
    rw [hlive]
    exact List.mem_append_right _ List.mem_cons_self
  · rw [hlive, List.map_append, List.nodup_append]
    refine ⟨hs.apart, List.nodup_singleton _, ?_⟩
    intro n hn m hm
    obtain ⟨t, ht, rfl⟩ := List.mem_map.mp hn
    rw [List.mem_singleton.mp hm]
    exact hapart t ht
  · intro t ht
    rcases hmem t ht with ht | rfl
    · exact hs.below t ht
    · exact hbelow
  · intro t ht
    rcases hmem t ht with ht | rfl
    · exact hs.left t ht
    · exact hleft

theorem Sound.did (hs : s.Sound) {step : Step μ} {deed : Deed}
    (hown : s.loaded = none ∨ s.loaded = some step.owner) (hbelow : step.number < s.steps)
    (hapart : ∀ t ∈ s.live, t.step.number ≠ step.number)
    (hnew : ∀ d ∈ s.log, d.number = step.number → d.deed ≠ deed) : (s.did deed step).Sound := by
  have hmem :
      ∀ d ∈ (s.did deed step).log, d ∈ s.log ∨ d = ⟨deed, step.number, step.owner, s.loaded⟩ := by
    intro d hd
    exact (List.mem_append.mp hd).imp_right List.mem_singleton.mp
  refine ⟨hs.young, hs.own, hs.scheduled, hs.apart, hs.below, ?_, ?_, ?_, ?_⟩
  · intro t ht d hd
    rcases hmem d hd with hd | rfl
    · exact hs.left t ht d hd
    · exact fun hnumber => absurd hnumber.symm (hapart t ht)
  · intro d hd
    rcases hmem d hd with hd | rfl
    · exact hs.logged d hd
    · exact hbelow
  · rw [PostMap.did, List.map_append, List.nodup_append]
    refine ⟨hs.once, List.nodup_singleton _, ?_⟩
    intro a ha b hb
    obtain ⟨d, hd, rfl⟩ := List.mem_map.mp ha
    rw [List.mem_singleton.mp hb]
    intro heq
    exact hnew d hd (congrArg Prod.fst heq) (congrArg Prod.snd heq)
  · intro d hd
    rcases hmem d hd with hd | rfl
    · exact hs.ownLog d hd
    · exact hown

theorem live_expire_sublist (i : ℕ) : (s.expire i).live.Sublist s.live :=
  (s.timers.eraseIdx_sublist i).filter _

/-- A live timer that has fired leaves no other of its number. -/
theorem Sound.expire_apart (hs : s.Sound) {i : ℕ} {t : Timer μ} (h : s.timers[i]? = some t)
    (hgen : t.generation = s.generation) :
    ∀ u ∈ (s.expire i).live, u.step.number ≠ t.step.number := by
  obtain ⟨before, after, hsplit, hexpire⟩ := expire_split h
  have hbefore := hs.apart
  rw [live, hsplit, List.filter_append, List.filter_cons_of_pos (by simp [hgen]), List.map_append,
    List.map_cons, List.nodup_middle, ← List.map_append, ← List.filter_append,
    List.nodup_cons] at hbefore
  intro u hu hnumber
  rw [live, hexpire] at hu
  exact hbefore.1 (List.mem_map.mpr ⟨u, hu, hnumber⟩)

theorem Sound.expire (hs : s.Sound) (i : ℕ) : ({ s.expire i with stored := none }).Sound := by
  refine hs.less ?_ ?_ ?_ rfl le_rfl (.inr (.inr rfl))
  · exact fun t ht => hs.young t (List.mem_of_mem_eraseIdx ht)
  · exact live_expire_sublist (s := s) i
  · exact fun _ hstored => by cases hstored

theorem Sound.expire_outdated (hs : s.Sound) {i : ℕ} {t : Timer μ} (h : s.timers[i]? = some t)
    (hgen : t.generation ≠ s.generation) : (s.expire i).Sound := by
  have hlive : (s.expire i).live = s.live := by
    obtain ⟨before, after, hsplit, hexpire⟩ := expire_split h
    rw [live, live, hsplit, hexpire, List.filter_append, List.filter_append,
      List.filter_cons_of_neg (by simpa using hgen)]
    rfl
  refine hs.less ?_ (live_expire_sublist i) ?_ rfl le_rfl (.inr (.inr rfl))
  · exact fun t ht => hs.young t (List.mem_of_mem_eraseIdx ht)
  · rw [hlive]
    exact hs.scheduled

theorem Sound.fire (hs : s.Sound) (i : ℕ) : (s.fire i).Sound := by
  cases h : s.timers[i]? with
  | none =>
    rw [fire_of_none h]
    exact hs
  | some t =>
    by_cases hgen : t.generation = s.generation
    · have ht : t ∈ s.live := mem_live.mpr ⟨List.mem_of_getElem? h, hgen⟩
      have hrest := hs.expire i
      have hown := hs.own t ht
      have hbelow := hs.below t ht
      have hapart := hs.expire_apart h hgen
      have hleft := hs.left t ht
      rw [fire_live h hgen, act]
      cases hplan : t.step.plan with
      | nextMap next =>
        refine hrest.did hown hbelow hapart ?_
        intro d hd hnumber hdeed
        exact hleft d hd hnumber (by simp [hplan, Plan.deeds, hdeed])
      | reset base =>
        have hdid : (({ s.expire i with stored := none }).did .reset t.step).Sound := by
          refine hrest.did hown hbelow hapart ?_
          intro d hd hnumber hdeed
          exact hleft d hd hnumber (by simp [hplan, Plan.deeds, hdeed])
        exact hdid.less hdid.young (List.Sublist.refl _) hdid.scheduled rfl le_rfl (.inr (.inl rfl))
      | kickThenReset kickReason base =>
        -- the plan of the step that has fired is overwritten, so it may as well be gone
        have hdid : (({ s.expire i with stored := none }).did .kick t.step).Sound := by
          refine hrest.did hown hbelow hapart ?_
          intro d hd hnumber hdeed
          exact hleft d hd hnumber (by simp [hplan, Plan.deeds, hdeed])
        have hnext := hdid.schedule { t.step with plan := .reset base } hown hbelow hapart
        simp only [hgen]
        refine hnext ?_
        intro d hd hnumber
        rcases List.mem_append.mp hd with hd | hd
        · have hnot := hleft d hd hnumber
          rw [hplan] at hnot
          exact fun hreset => hnot (List.mem_cons_of_mem _ hreset)
        · rw [List.mem_singleton.mp hd]
          simp [Plan.deeds]
    · rw [fire_outdated h hgen]
      exact hs.expire_outdated h hgen

theorem Sound.mapEnd (hs : s.Sound) (e : MapEnd) : (s.mapEnd e).Sound := by
  cases hloaded : s.loaded with
  | none =>
    rw [mapEnd_of_none e hloaded]
    exact hs
  | some m =>
    have hmore : ({ s with steps := s.steps + 1 }).Sound :=
      hs.less hs.young (List.Sublist.refl _) hs.scheduled rfl (Nat.le_succ _) (.inr (.inr rfl))
    rw [mapEnd_of_some e hloaded]
    refine hmore.schedule ⟨e.plan, s.steps, m⟩ (.inr hloaded) (Nat.lt_succ_self s.steps) ?_ ?_
    · exact fun t ht => (hs.below t ht).ne
    · exact fun d hd hnumber => absurd hnumber (hs.logged d hd).ne

theorem Sound.cancelled (hs : s.Sound) (loaded : Option μ) :
    ({ s.cancelPending with loaded := loaded }).Sound := by
  have hlive : ({ s.cancelPending with loaded := loaded }).live = [] := live_cancelPending hs.young
  refine hs.less ?_ ?_ (fun _ hstored => by cases hstored) rfl le_rfl (.inl hlive)
  · exact fun t ht => (hs.young t ht).trans (Nat.le_succ _)
  · rw [hlive]
    exact List.nil_sublist _

theorem Sound.fresh (hs : s.Sound) (loaded : Option μ) :
    ({ s.fresh with loaded := loaded }).Sound :=
  hs.less (fun _ ht => by cases ht) (List.nil_sublist _)
    (fun _ hstored => by cases hstored) rfl le_rfl
    (.inl rfl)

/-- The new image schedules the stored step again, which was live in the old one. -/
theorem Sound.reload (hs : s.Sound) : s.reload.Sound := by
  cases hstored : s.stored with
  | none =>
    rw [reload_of_none hstored]
    exact hs.fresh s.loaded
  | some step =>
    obtain ⟨t, ht, rfl⟩ := hs.scheduled step hstored
    rw [reload_of_some hstored]
    exact (hs.fresh s.loaded).schedule t.step (hs.own t ht) (hs.below t ht)
      (fun _ hu => by cases hu)
      (hs.left t ht)

theorem Sound.step (hs : s.Sound) (e : PostMapEvent μ) : (s.step e).Sound := by
  cases e with
  | mapEnd e => exact hs.mapEnd e
  | fire i => exact hs.fire i
  | load m => exact hs.cancelled (some m)
  | restart =>
    rw [PostMap.step]
    split_ifs
    · exact hs.cancelled s.loaded
    · exact hs
  | endMatch => exact hs.cancelled none
  | idle =>
    exact hs.less hs.young (List.Sublist.refl _) hs.scheduled rfl le_rfl (.inr (.inl rfl))
  | cancel => exact hs.cancelled s.loaded
  | reload => exact hs.reload
  | boot recovered => exact hs.fresh recovered

end Sound

section Bits

/-- A timer fires, with the generations compared as the source has them. -/
def fire32 (i : ℕ) : PostMap μ :=
  match s.timers[i]? with
  | none => s
  | some t =>
    if UInt32.ofNat s.generation ≠ UInt32.ofNat t.generation then s.expire i else (s.expire i).act t

def step32 : PostMapEvent μ → PostMap μ
  | .fire i => s.fire32 i
  | e => s.step e

/-- No timer that runs has seen `2 ^ 32` cancels. -/
def InTime : Prop := ∀ t ∈ s.timers, s.generation < t.generation + 2 ^ 32

variable {s}

theorem Sound.fire32_eq (hs : s.Sound) (hin : s.InTime) (i : ℕ) : s.fire32 i = s.fire i := by
  unfold PostMap.fire32 PostMap.fire
  cases h : s.timers[i]? with
  | none => rfl
  | some t =>
    have hmem := List.mem_of_getElem? h
    have hyoung := hs.young t hmem
    have hlate := hin t hmem
    have hsame :
        UInt32.ofNat s.generation = UInt32.ofNat t.generation ↔ s.generation = t.generation := by
      rw [UInt32.ofNat_eq_iff_mod_eq_toNat, UInt32.toNat_ofNat']
      omega
    simp only [ne_eq, hsame]

/-- The 32 bits of the source are enough in every run in which no timer sees `2 ^ 32` cancels. -/
theorem run_step32 (events : List (PostMapEvent μ))
    (h : Always step InTime ({} : PostMap μ) events) :
    run step32 ({} : PostMap μ) events = run step {} events := by
  have hrun : ∀ s : PostMap μ, s.Sound → Always step InTime s events →
      run step32 s events = run step s events := by
    clear h
    induction events with
    | nil => exact fun s _ _ => rfl
    | cons e events ih =>
      intro s hs hin
      have hone : s.step32 e = s.step e := by
        cases e with
        | fire i => exact hs.fire32_eq hin.1 i
        | _ => rfl
      rw [run_cons, run_cons, hone]
      exact ih (s.step e) (hs.step e) hin.2
  exact hrun {} sound_start h

end Bits

/-- Over every run, no step does the same thing twice, and what it does is done with its own match
loaded or none. -/
theorem acts_once_for_own (events : List (PostMapEvent μ)) :
    ((run step ({} : PostMap μ) events).log.map fun d => (d.number, d.deed)).Nodup ∧
      ∀ d ∈ (run step ({} : PostMap μ) events).log, d.loaded = none ∨ d.loaded = some d.owner := by
  have hs : (run step ({} : PostMap μ) events).Sound :=
    run_invariant sound_start fun e _ _ hs => hs.step e
  exact ⟨hs.once, hs.ownLog⟩

/-- `MatchEndPending` tells that a scheduled step will still act, and that its plan is stored. -/
def Truthful : Prop :=
  (s.endPending = true ↔ s.live ≠ []) ∧ (s.endPending = true ↔ s.stored.isSome = true)

/-- The event cancels nothing that is scheduled, and a step that forgets the plan is the only one
that is scheduled. -/
def Clear : PostMapEvent μ → Prop
  | .load _ | .endMatch | .cancel => s.timers = []
  | .restart => s.loaded.isSome = true → s.timers = []
  | .fire i => ∀ t, s.timers[i]? = some t → t.generation = s.generation →
      t.step.plan.deeds.length = 1 → s.timers.length = 1
  | .mapEnd _ | .idle | .reload | .boot _ => True

/-- The counter, the timers and the plan as long as every event is clear. -/
structure Counted : Prop where
  pending : s.pending = s.timers.length
  current : ∀ t ∈ s.timers, t.generation = s.generation
  planned : s.timers = [] ↔ s.stored = none

section Truthful

variable {s}

theorem truthful_of_counted (hs : s.Counted) : s.Truthful := by
  have hlive : s.live = s.timers := List.filter_eq_self.mpr fun t ht => by simp [hs.current t ht]
  have hpending : s.endPending = true ↔ s.timers ≠ [] := by
    rw [endPending, decide_eq_true_iff, hs.pending, ← List.length_pos_iff]
    exact Int.natCast_pos
  refine ⟨by rw [hlive, hpending], ?_⟩
  rw [hpending, Option.isSome_iff_ne_none, ne_eq, ne_eq, hs.planned]

theorem counted_start : ({} : PostMap μ).Counted where
  pending := rfl
  current := by simp
  planned := by simp

theorem Counted.schedule (hs : s.Counted) (step : Step μ) :
    (s.schedule step s.generation).Counted where
  pending := by simp [PostMap.schedule, hs.pending]
  current t ht := by
    rcases List.mem_append.mp ht with ht | ht
    · exact hs.current t ht
    · rw [List.mem_singleton.mp ht]
      rfl
  planned := by simp [PostMap.schedule]

theorem counted_of_idle {s : PostMap μ} (hpending : s.pending = 0) (htimers : s.timers = [])
    (hstored : s.stored = none) : s.Counted where
  pending := by simp [hpending, htimers]
  current := by simp [htimers]
  planned := by simp [htimers, hstored]

theorem Counted.cancelled (hs : s.Counted) (htimers : s.timers = []) (loaded : Option μ) :
    ({ s.cancelPending with loaded := loaded }).Counted := by
  refine counted_of_idle ?_ htimers rfl
  have hpending := hs.pending
  rw [htimers] at hpending
  exact hpending

theorem Counted.fire (hs : s.Counted) {i : ℕ} (hclear : s.Clear (.fire i)) :
    (s.fire i).Counted := by
  cases h : s.timers[i]? with
  | none =>
    rw [fire_of_none h]
    exact hs
  | some t =>
    have hgen := hs.current t (List.mem_of_getElem? h)
    have hlength := hclear t h hgen
    have hi : i < s.timers.length := (List.getElem?_eq_some_iff.mp h).1
    have hpending := hs.pending
    have herase := List.length_eraseIdx_of_lt hi
    -- the only timer is gone, and so is the plan
    have hlast : s.timers.length = 1 →
        (s.expire i).pending = 0 ∧ (s.expire i).timers = [] := by
      intro hone
      refine ⟨by simp [expire, hpending, hone], List.length_eq_zero_iff.mp ?_⟩
      simp only [expire]
      omega
    rw [fire_live h hgen, act]
    cases hplan : t.step.plan with
    | nextMap next =>
      obtain ⟨hzero, hnil⟩ := hlast (hlength (by rw [hplan]; rfl))
      exact counted_of_idle hzero hnil rfl
    | reset base =>
      obtain ⟨hzero, hnil⟩ := hlast (hlength (by rw [hplan]; rfl))
      exact counted_of_idle hzero hnil rfl
    | kickThenReset kickReason base =>
      refine ⟨?_, ?_, ?_⟩
      · simp only [PostMap.schedule, PostMap.did, expire, List.length_append, List.length_singleton,
          herase, hpending]
        omega
      · intro u hu
        rcases List.mem_append.mp hu with hu | hu
        · exact hs.current u (List.mem_of_mem_eraseIdx hu)
        · rw [List.mem_singleton.mp hu]
          exact hgen
      · simp [PostMap.schedule]

theorem counted_reload : s.reload.Counted := by
  have hfresh : s.fresh.Counted := counted_of_idle rfl rfl rfl
  cases hstored : s.stored with
  | none =>
    rw [reload_of_none hstored]
    exact hfresh
  | some step =>
    rw [reload_of_some hstored]
    exact hfresh.schedule step

theorem Counted.step (hs : s.Counted) {e : PostMapEvent μ} (hclear : s.Clear e) :
    (s.step e).Counted := by
  cases e with
  | mapEnd e =>
    rw [PostMap.step]
    cases hloaded : s.loaded with
    | none =>
      rw [mapEnd_of_none e hloaded]
      exact hs
    | some m =>
      have hmore : ({ s with steps := s.steps + 1 }).Counted := ⟨hs.pending, hs.current, hs.planned⟩
      rw [mapEnd_of_some e hloaded]
      exact hmore.schedule _
  | fire i => exact hs.fire hclear
  | load m => exact hs.cancelled hclear (some m)
  | restart =>
    rw [PostMap.step]
    by_cases hloaded : s.loaded.isSome = true
    · rw [if_pos hloaded]
      exact hs.cancelled (hclear hloaded) s.loaded
    · rw [if_neg hloaded]
      exact hs
  | endMatch => exact hs.cancelled hclear none
  | idle => exact ⟨hs.pending, hs.current, hs.planned⟩
  | cancel => exact hs.cancelled hclear s.loaded
  | reload => exact counted_reload
  | boot recovered => exact counted_of_idle rfl rfl rfl

theorem pending_of_forgotten {s' : PostMap μ} (h : s'.Truthful) (hstored : s'.stored = none) :
    s'.pending ≤ 0 := by
  have hpending : ¬ s'.endPending = true := by
    rw [h.2, hstored]
    exact Bool.false_ne_true
  rw [endPending, decide_eq_true_iff] at hpending
  exact not_lt.mp hpending

theorem Counted.clear_of_cancelled (hs : s.Counted) {s' : PostMap μ} (h : s'.Truthful)
    (hstored : s'.stored = none) (hpending : s'.pending = s.pending) : s.timers = [] := by
  have hle := pending_of_forgotten h hstored
  have hcount := hs.pending
  exact List.length_eq_zero_iff.mp (by omega)

/-- A step that leaves `MatchEndPending` truthful was clear. -/
theorem Counted.clear (hs : s.Counted) {e : PostMapEvent μ} (h : (s.step e).Truthful) :
    s.Clear e := by
  cases e with
  | load m => exact hs.clear_of_cancelled h rfl rfl
  | restart =>
    intro hloaded
    rw [PostMap.step, if_pos hloaded] at h
    exact hs.clear_of_cancelled h rfl rfl
  | endMatch => exact hs.clear_of_cancelled h rfl rfl
  | cancel => exact hs.clear_of_cancelled h rfl rfl
  | fire i =>
    intro t ht hgen hone
    have hlt := (List.getElem?_eq_some_iff.mp ht).1
    have hcount := hs.pending
    have hforgotten : (s.fire i).stored = none ∧ (s.fire i).pending = s.pending - 1 := by
      rw [fire_live ht hgen, act]
      cases hplan : t.step.plan with
      | nextMap next => exact ⟨rfl, rfl⟩
      | reset base => exact ⟨rfl, rfl⟩
      | kickThenReset kickReason base =>
        rw [hplan] at hone
        exact absurd hone (by simp [Plan.deeds])
    have hle : (s.fire i).pending ≤ 0 := pending_of_forgotten h hforgotten.1
    rw [hforgotten.2] at hle
    omega
  | mapEnd e => trivial
  | idle => trivial
  | reload => trivial
  | boot recovered => trivial

end Truthful

/-- `MatchEndPending` is truthful all along a run exactly when no event of the run cancels a step
that is scheduled, and no step that forgets the plan acts while another one is scheduled. -/
theorem truthful_iff (events : List (PostMapEvent μ)) :
    Always step Truthful ({} : PostMap μ) events ↔ Guarded step Clear ({} : PostMap μ) events :=
  always_iff_guarded counted_start (fun _ _ hs hclear => hs.step hclear)
    (fun _ hs => truthful_of_counted hs) fun _ _ hs h => hs.clear h

/-- The end of the last map of a series that "alpha" won. -/
def lastMap : MapEnd where
  seriesOver := true
  nextMap := []
  seriesWinner := []
  team1SeriesScore := 2
  team2SeriesScore := 0
  matchid := 1
  slug := []
  team1Name := ascii "alpha"
  team2Name := ascii "beta"
  recording := false
  hasUpload := false

/-- The match is restarted after its last map: nothing will act any more, and yet the timer
counts. -/
theorem restarted_still_pending : ¬ ∀ events : List (PostMapEvent ℕ),
    (run step {} events).Truthful := by
  intro h
  have hfalse := (h [.load 7, .mapEnd lastMap, .restart]).2.mp (by decide)
  exact absurd hfalse (by decide)

end PostMap

end ReadyUp.Match
