import ReadyUp.Config.BroadcastProfile
import ReadyUp.Fleet.PayloadText
import ReadyUp.Tv.Settings

/-!
# The broadcast profile of a match

The GOTV plugin takes the profile of a match from its assignment, and keeps it as text for the time
after a restart. The text is read back with bounds on all its parts. A profile from an assignment
that the match plugin accepts as well is within them (`onAssign_sound`), and stays so when it is
changed.
-/
namespace ReadyUp.Tv

open Support JsonScan JsonGrammar Config Config.Broadcast

section Model

structure MatchProfile where
  matchId : Bytes
  profile : Profile := {}
  override : Profile := {}
  delayFloor : ℤ := 0
  passwordSet : Bool := false
  matchCvars : List (Bytes × Bytes) := []
  deriving DecidableEq

/-- The profile that `OnAssign` makes of a payload, none if it takes nothing from it. -/
def onAssign (payloadJson : Bytes) : Option MatchProfile :=
  match Minijson.parse payloadJson with
  | some (.object o) =>
    let v := Minijson.Value.object o
    match v.get "match_id", v.get "config" with
    | some (.string id), some (.object c) =>
      let cfg := Minijson.Value.object c
      match validateAssignConfig cfg with
      | .ok () =>
        some
          { matchId := id
            profile := (profileFromAssign cfg).toOption.getD {}
            delayFloor := delayFloor cfg
            passwordSet := passwordInAssign cfg
            matchCvars := ownedCvarsInAssign cfg }
      | .error _ => none
    | _, _ => none
  | _ => none

/-- What `ApplyBroadcastPatch` answers, and the profile it leaves. -/
structure Patched where
  ok : Bool
  profile : Profile
  touched : Bool
  err : Bytes := []

def applyBroadcastPatch (rulesPatch : Minijson.Value) (p : Profile) : Patched :=
  match rulesPatch.get "broadcast" with
  | none => { ok := true, profile := p, touched := false }
  | some .null => { ok := true, profile := {}, touched := true }
  | some b =>
    match parsePatch b with
    | .ok patch => { ok := true, profile := p.patched patch, touched := true }
    | .error e =>
      { ok := false, profile := p, touched := true, err := ascii "rules.broadcast: " ++ e }

def matchProfileJson (m : MatchProfile) : Bytes :=
  ascii "\x7b\"version\":1,\"match_id\":" ++ quote m.matchId ++ ascii ",\"profile\":" ++
    profileJson m.profile ++
    ascii ",\"override\":" ++ profileJson m.override ++ ascii ",\"delay_floor\":" ++
      toDecimal m.delayFloor ++
    ascii ",\"password_set\":" ++ ascii (if m.passwordSet then "true" else "false") ++
      ascii ",\"match_cvars\":" ++
    objectText (m.matchCvars.map fun kv => quote kv.1 ++ byte ':' :: quote kv.2) ++ ascii "\x7d"

/-- A profile inside the text, empty if it is missing. -/
def readProfile (v : Option Minijson.Value) : Option Profile :=
  match v with
  | none => some {}
  | some p => (parseProfile p).toOption

/-- `delay_floor`, 0 if it is missing or out of range. -/
def readFloor (v : Option Minijson.Value) : ℤ :=
  match v with
  | some (.number d) => if d.isFinite ∧ 0 ≤ d.toRat ∧ d.toRat ≤ maxDelaySeconds then d.toInt else 0
  | _ => 0

def readFlag (v : Option Minijson.Value) : Bool :=
  match v with
  | some (.bool b) => b
  | _ => false

/-- `match_cvars`, with the cvars of the profile that have a number. -/
def readCvars (v : Option Minijson.Value) : List (Bytes × Bytes) :=
  ownedCvars.filterMap fun name =>
    ((v.bind (·.get name)).bind Minijson.Value.asString).bind fun t =>
      if numericValue t then some (ascii name, t) else none

def parseMatchProfile (json : Bytes) : Option MatchProfile :=
  match Minijson.parse json with
  | some (.object o) =>
    let v := Minijson.Value.object o
    match v.get "match_id" with
    | some (.string id) =>
      if id = [] ∨ 64 < id.length then none
      else
        (readProfile (v.get "profile")).bind fun profile =>
        (readProfile (v.get "override")).bind fun override =>
          some
            { matchId := id, profile, override, delayFloor := readFloor (v.get "delay_floor"),
              passwordSet := readFlag (v.get "password_set"), matchCvars :=
                readCvars (v.get "match_cvars") }
    | _ => none
  | _ => none

end Model

section Sound

/-- All parts of a match profile but its id are within the bounds of the reader. -/
structure MatchProfile.Bounded (m : MatchProfile) : Prop where
  profile : m.profile.Sound
  override : m.override.Sound
  floor : 0 ≤ m.delayFloor ∧ m.delayFloor ≤ maxDelaySeconds
  owned : (keys m.matchCvars).Sublist (ownedCvars.map ascii)
  numeric : ∀ kv ∈ m.matchCvars, numericValue kv.2 = true

/-- A match profile within the bounds of its reader. -/
structure MatchProfile.Sound (m : MatchProfile) : Prop extends m.Bounded where
  id_ne : m.matchId ≠ []
  id_length : m.matchId.length ≤ 64

theorem applyBroadcastPatch_sound {rulesPatch : Minijson.Value} {p : Profile} (hp : p.Sound) :
    (applyBroadcastPatch rulesPatch p).profile.Sound := by
  unfold applyBroadcastPatch
  split
  · exact hp
  · exact Profile.sound_empty
  · split
    · rename_i hpatch
      exact hp.patched (parsePatch_sound hpatch)
    · exact hp

theorem length_toDecimal_le {n : ℤ} (h : 0 ≤ n ∧ n ≤ 10 ^ 6) : (toDecimal n).length ≤ 7 := by
  have hplain : toDecimal n = decimal n.natAbs := by
    simp only [toDecimal, not_lt.mpr h.1, if_false, List.nil_append]
  rw [hplain]
  by_cases hzero : n.natAbs = 0
  · rw [hzero]
    decide
  · have hlength :=
      length_decimal (Nat.pow_log_le_self 10 hzero) (Nat.lt_pow_succ_log_self (by decide) n.natAbs)
    have hlog : Nat.log 10 n.natAbs ≤ Nat.log 10 (10 ^ 6) := Nat.log_mono_right (by omega)
    rw [Nat.log_pow (by decide)] at hlog
    omega

theorem toInt_le {x : Binary64} {b : ℤ} (h : x.toRat ≤ b) : x.toInt ≤ b := by
  unfold Binary64.toRat at h
  unfold Binary64.toInt
  split_ifs at h ⊢
  · rw [← Int.ceil_neg]
    exact Int.ceil_le.mpr h
  · exact_mod_cast (Int.floor_le _).trans h

theorem cvarInt_le (t : Bytes) : cvarInt t ≤ 10 ^ 6 := by
  unfold cvarInt
  split
  · decide
  · split_ifs with h
    · exact toInt_le (by exact_mod_cast h.2.2.1)
    · decide

theorem ownedCvarsInAssign_sound (config : Minijson.Value) :
    (keys (ownedCvarsInAssign config)).Sublist (ownedCvars.map ascii) ∧
      ∀ kv ∈ ownedCvarsInAssign config, numericValue kv.2 = true := by
  constructor
  · unfold ownedCvarsInAssign
    induction ownedCvars with
    | nil => exact List.Sublist.slnil
    | cons name names ih =>
      rw [List.filterMap_cons, List.map_cons]
      split
      · exact ih.cons _
      · rename_i kv hkv
        obtain ⟨t, -, ht⟩ := Option.bind_eq_some_iff.mp hkv
        split_ifs at ht
        cases ht
        exact ih.cons_cons _
  · intro kv hmem
    obtain ⟨name, -, h⟩ := List.mem_filterMap.mp hmem
    obtain ⟨t, -, ht⟩ := Option.bind_eq_some_iff.mp h
    split_ifs at ht with hlow
    cases ht
    have hlength := length_toDecimal_le ⟨hlow, cvarInt_le t⟩
    exact numericValue_toDecimal (hlength.trans (by decide))

theorem delayFloor_nonneg (config : Minijson.Value) : 0 ≤ delayFloor config := by
  unfold delayFloor
  split
  · exact le_max_right _ _
  · exact le_max_right _ _

theorem id_of_validateAssign {server : Ruleset} {payload : Status.Json} {id : Bytes}
    (hvalid : Assign.validateAssign server payload = .ok ())
    (hid : payload.find (ascii "match_id") = some (.string id)) : id ≠ [] ∧ id.length ≤ 64 := by
  have hstr : Assign.str payload "match_id" [] = id := by
    rw [Assign.str, Assign.get, hid]
  rw [Assign.validateAssign, hstr] at hvalid
  obtain ⟨_, hcheck, -⟩ := bind_eq_ok.mp hvalid
  simpa using hcheck

/-- What `OnAssign` takes was parsed as an object with the id. -/
theorem onAssign_bounded {json : Bytes} {m : MatchProfile} (h : onAssign json = some m) :
    m.Bounded ∧ ∃ v, Minijson.parse json = some v ∧
    v.get "match_id" = some (.string m.matchId) := by
  unfold onAssign at h
  split at h
  · rename_i o ho
    dsimp only at h
    split at h
    · rename_i id c hid hconfig
      split at h
      · cases h
        obtain ⟨howned, hnumeric⟩ := ownedCvarsInAssign_sound (.object c)
        refine ⟨⟨?_, Profile.sound_empty, ⟨delayFloor_nonneg _, delayFloor_le _⟩, howned, hnumeric⟩,
          _, ho, hid⟩
        cases hprofile : profileFromAssign (.object c) with
        | ok profile => exact profileFromAssign_sound hprofile
        | error e => exact Profile.sound_empty
      · cases h
    · cases h
  · cases h

open Fleet.JsonText in
theorem onAssign_sound {server : Ruleset} {p : Value} {m : MatchProfile} {payload : Status.Json}
    (hfits : Fits 65 p) (hassign : onAssign (dump p) = some m)
    (hparse : Status.Json.parse (dump p) = some payload)
    (hvalid : Assign.validateAssign server payload = .ok ()) : m.Sound := by
  obtain ⟨hbounded, v, hv, hid⟩ := onAssign_bounded hassign
  rw [parse_mini hfits] at hv
  rw [parse_status hfits le_rfl] at hparse
  obtain ⟨hne, hlength⟩ := id_of_validateAssign hvalid (find_of_get hv hparse hid)
  exact ⟨hbounded, hne, hlength⟩

end Sound

section RoundTrip

open Status (Json)

/-- What `MatchProfileJson` prints. -/
def MatchProfile.document (m : MatchProfile) : Json :=
  .object [(ascii "version", .int 1), (ascii "match_id", .string m.matchId),
    (ascii "profile", Broadcast.document m.profile),
    (ascii "override", Broadcast.document m.override),
    (ascii "delay_floor", .int m.delayFloor), (ascii "password_set", .bool m.passwordSet),
    (ascii "match_cvars", stringMembers m.matchCvars)]

theorem keepsNames_quote : KeepsNames quote := by
  intro k
  cases k <;> decide

theorem matchProfileJson_eq (m : MatchProfile) : matchProfileJson m = m.document.textBy quote := by
  have hcvars : objectText (m.matchCvars.map fun kv => quote kv.1 ++ byte ':' :: quote kv.2) =
      (stringMembers m.matchCvars).textBy quote := by
    rw [stringMembers, ← objectText_eq, List.map_map]
    refine congrArg objectText (List.map_congr_left fun kv _ => ?_)
    simp [memberBy, Json.textBy]
  have hstart :
      ascii "\x7b\"version\":1,\"match_id\":" = byte '{' :: (quote (ascii "version") ++ byte ':' ::
      (toDecimal 1 ++ byte ',' :: (quote (ascii "match_id") ++ [byte ':']))) := by decide
  have hprofile :
      ascii ",\"profile\":" = byte ',' :: (quote (ascii "profile") ++ [byte ':']) := by decide
  have hoverride :
      ascii ",\"override\":" = byte ',' :: (quote (ascii "override") ++ [byte ':']) := by decide
  have hfloor :
      ascii ",\"delay_floor\":" = byte ',' ::
        (quote (ascii "delay_floor") ++ [byte ':']) := by decide
  have hset :
      ascii ",\"password_set\":" = byte ',' ::
        (quote (ascii "password_set") ++ [byte ':']) := by decide
  have hmembers :
      ascii ",\"match_cvars\":" = byte ',' ::
        (quote (ascii "match_cvars") ++ [byte ':']) := by decide
  have hend : ascii "\x7d" = [byte '}'] := by decide
  rw [matchProfileJson, profileJson_eq keepsNames_quote, profileJson_eq keepsNames_quote, hcvars,
    hstart, hprofile, hoverride, hfloor, hset, hmembers, hend]
  simp [MatchProfile.document, Json.textBy, Json.textByMembers]

variable {m : MatchProfile}

theorem nodup_ownedCvars : (ownedCvars.map ascii).Nodup := by decide

theorem plain_stringMembers_of_nodup {l : List (Bytes × Bytes)} (hl : (keys l).Nodup) :
    (stringMembers l).Plain := by
  refine Json.plain_object ?_ ?_
  · rw [keys, List.map_map]
    exact hl
  · intro k v hmem
    obtain ⟨kv, -, heq⟩ := List.mem_map.mp hmem
    rw [← (Prod.mk.inj heq).2]
    exact Json.plain_string kv.2

theorem plain_matchDocument (hm : m.Sound) : m.document.Plain := by
  have hfloor := hm.floor
  refine Json.plain_object (show (keys _).Nodup from
    (by decide : [ascii "version", ascii "match_id", ascii "profile",
    ascii "override", ascii "delay_floor", ascii "password_set", ascii "match_cvars"].Nodup)) ?_
  intro k v hmem
  simp only [List.mem_cons, Prod.mk.injEq, List.not_mem_nil, or_false] at hmem
  rcases hmem with ⟨-, rfl⟩ | ⟨-, rfl⟩ | ⟨-, rfl⟩ | ⟨-, rfl⟩ | ⟨-, rfl⟩ | ⟨-, rfl⟩ | ⟨-, rfl⟩
  · exact Json.plain_int ⟨by decide, by decide⟩
  · exact Json.plain_string _
  · exact Broadcast.plain_document hm.profile
  · exact Broadcast.plain_document hm.override
  · exact Json.plain_int (inInt64_of_range hfloor (by decide))
  · exact Json.plain_bool _
  · exact plain_stringMembers_of_nodup (nodup_ownedCvars.sublist hm.owned)

theorem filterMap_lookup {names : List Bytes} (hnames : names.Nodup) {l : List (Bytes × Bytes)}
    (hl : (keys l).Sublist names) : (names.filterMap fun n => (l.lookup n).map (n, ·)) = l := by
  induction names generalizing l with
  | nil =>
    have hnil : l = [] := by simpa [keys] using hl
    simp [hnil]
  | cons name names ih =>
    rw [List.nodup_cons] at hnames
    cases l with
    | nil => simp
    | cons kv l =>
      obtain ⟨k, v⟩ := kv
      rw [keys_cons] at hl
      cases hl with
      | cons _ hrest =>
        have hnone : ((k, v) :: l).lookup name = none := by
          rw [lookup_eq_none, keys_cons]
          exact fun hmem => hnames.1 (hrest.subset hmem)
        rw [List.filterMap_cons, hnone]
        exact ih hnames.2 hrest
      | cons_cons _ hrest =>
        have hother : ∀ n ∈ names, ((k, v) :: l).lookup n = l.lookup n := by
          intro n hn
          have hne : n ≠ k := fun heq => hnames.1 (heq ▸ hn)
          simp [hne]
        have htail : (names.filterMap fun n => (((k, v) :: l).lookup n).map (n, ·)) = l := by
          rw [List.filterMap_congr fun n hn => by rw [hother n hn]]
          exact ih hnames.2 hrest
        rw [List.filterMap_cons, htail]
        simp

theorem readCvars_stringMembers (hm : m.Sound) :
    readCvars (some (Minijson.ofPlain (stringMembers m.matchCvars))) = m.matchCvars := by
  have hread :
      ∀ name : String, ((some (Minijson.ofPlain (stringMembers m.matchCvars))).bind
        (·.get name)).bind
      Minijson.Value.asString = m.matchCvars.lookup (ascii name) := by
    intro name
    rw [ofPlain_stringMembers, Option.bind_some, Minijson.Value.get,
      lookup_map Minijson.Value.string]
    cases m.matchCvars.lookup (ascii name) <;> rfl
  have hstep : ∀ name : String, ((m.matchCvars.lookup (ascii name)).bind fun t =>
      if numericValue t then some (ascii name, t) else none) =
      (m.matchCvars.lookup (ascii name)).map (ascii name, ·) := by
    intro name
    cases hlookup : m.matchCvars.lookup (ascii name) with
    | none => rfl
    | some t => simp [hm.numeric _ (mem_of_lookup hlookup)]
  have hnames := filterMap_lookup nodup_ownedCvars hm.owned
  rw [List.filterMap_map] at hnames
  simp only [readCvars, hread, hstep]
  exact hnames

theorem readFloor_ofInt {n : ℤ} (h : 0 ≤ n ∧ n ≤ maxDelaySeconds) :
    readFloor (some (.number (Binary64.ofInt n))) = n := by
  have hbound : maxDelaySeconds < 2 ^ 53 := by decide
  obtain ⟨hfinite, hrat⟩ := Binary64.toRat_ofInt (i := n) (by omega)
  rw [readFloor, if_pos, Binary64.toInt_ofInt (by omega)]
  rw [hrat]
  exact ⟨hfinite, by exact_mod_cast h.1, by exact_mod_cast h.2⟩

theorem readProfile_document {p : Profile} (hp : p.Sound) :
    readProfile (some (Minijson.ofPlain (Broadcast.document p))) = some p := by
  rw [readProfile, parseProfile_document hp]
  rfl

/-- The members that are read of the text. -/
def readMembers (m : MatchProfile) : List (Bytes × Minijson.Value) :=
  [(ascii "version", .number (Binary64.ofInt 1)), (ascii "match_id", .string m.matchId),
    (ascii "profile", Minijson.ofPlain (Broadcast.document m.profile)),
    (ascii "override", Minijson.ofPlain (Broadcast.document m.override)),
    (ascii "delay_floor", .number (Binary64.ofInt m.delayFloor)),
    (ascii "password_set", .bool m.passwordSet),
    (ascii "match_cvars", Minijson.ofPlain (stringMembers m.matchCvars))]

theorem parse_matchProfileJson (hm : m.Sound) :
    Minijson.parse (matchProfileJson m) = some (.object (readMembers m)) := by
  rw [matchProfileJson_eq, Minijson.parse_plain quotes_quote (plain_matchDocument hm),
    MatchProfile.document, Minijson.ofPlain, Minijson.ofPlainMembers_eq]
  simp only [List.map_cons, List.map_nil, Minijson.ofPlain, readMembers]

theorem parseMatchProfile_json (hm : m.Sound) :
    parseMatchProfile (matchProfileJson m) = some m := by
  have hget :
      ∀ v₁ v₂ v₃ v₄ v₅ v₆ v₇ : Minijson.Value, ∀ v, v =
        Minijson.Value.object [(ascii "version", v₁),
      (ascii "match_id", v₂), (ascii "profile", v₃), (ascii "override", v₄),
      (ascii "delay_floor", v₅), (ascii "password_set", v₆), (ascii "match_cvars", v₇)] →
      v.get "match_id" = some v₂ ∧ v.get "profile" = some v₃ ∧ v.get "override" = some v₄ ∧
        v.get "delay_floor" = some v₅ ∧ v.get "password_set" = some v₆ ∧
        v.get "match_cvars" = some v₇ := by
    rintro v₁ v₂ v₃ v₄ v₅ v₆ v₇ _ rfl
    exact ⟨rfl, rfl, rfl, rfl, rfl, rfl⟩
  obtain ⟨hid, hprofile, hoverride, hfloor, hset, hcvars⟩ :=
    hget _ _ _ _ _ _ _ (.object (readMembers m)) rfl
  have hlength : ¬(m.matchId = [] ∨ 64 < m.matchId.length) := by
    rw [not_or, not_lt]
    exact ⟨hm.id_ne, hm.id_length⟩
  rw [parseMatchProfile, parse_matchProfileJson hm]
  simp only [hid, hprofile, hoverride, hfloor, hset, hcvars, hlength, if_false,
    readProfile_document hm.profile, readProfile_document hm.override, readFloor_ofInt hm.floor,
    readCvars_stringMembers hm, readFlag, Option.bind_some]

end RoundTrip

end ReadyUp.Tv
