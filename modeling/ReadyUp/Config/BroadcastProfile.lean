import ReadyUp.Config.Delay

/-!
# Broadcast profiles: changes and text

A profile of the broadcast is changed key by key, by a patch, by a console value or by another
profile laid over it. Whatever the changes were, its numbers stay in their ranges (`Profile.Sound`),
and then `ParseProfile` reads back what `ProfileJson` prints (`parseProfile_document`).
-/
namespace ReadyUp.Config.Broadcast

open Support JsonScan Minijson

section Model

def allKeys : List Key := [.delay, .insecure, .maxClients, .textChat, .voice]

def isIntKey (k : Key) : Bool := k = .delay ∨ k = .maxClients

def maxOf (k : Key) : ℤ := if k = .delay then maxDelaySeconds else maxClients

namespace Profile

def has (p : Profile) : Key → Bool
  | .delay => p.delaySeconds.isSome
  | .insecure => p.allowInsecureObservers.isSome
  | .maxClients => p.maxClients.isSome
  | .textChat => p.relayTextChat.isSome
  | .voice => p.relayVoice.isSome

def clear (p : Profile) : Key → Profile
  | .delay => { p with delaySeconds := none }
  | .insecure => { p with allowInsecureObservers := none }
  | .maxClients => { p with maxClients := none }
  | .textChat => { p with relayTextChat := none }
  | .voice => { p with relayVoice := none }

/-- `SetInt` -/
def putInt (p : Profile) (k : Key) (n : ℤ) : Profile :=
  if k = .delay then { p with delaySeconds := n } else { p with maxClients := n }

/-- `SetBool` -/
def putBool (p : Profile) (k : Key) (b : Bool) : Profile :=
  if k = .insecure then { p with allowInsecureObservers := b }
  else if k = .textChat then { p with relayTextChat := b }
  else { p with relayVoice := b }

/-- `Overlay`: the keys of `upper` win. -/
def overlay (base upper : Profile) : Profile where
  delaySeconds := upper.delaySeconds.or base.delaySeconds
  allowInsecureObservers := upper.allowInsecureObservers.or base.allowInsecureObservers
  maxClients := upper.maxClients.or base.maxClients
  relayTextChat := upper.relayTextChat.or base.relayTextChat
  relayVoice := upper.relayVoice.or base.relayVoice

def valueText (p : Profile) : Key → Bytes
  | .delay => p.delaySeconds.elim [] toDecimal
  | .maxClients => p.maxClients.elim [] toDecimal
  | .insecure => p.allowInsecureObservers.elim [] flagText
  | .textChat => p.relayTextChat.elim [] flagText
  | .voice => p.relayVoice.elim [] flagText

end Profile

def setFromText (p : Profile) (k : Key) (raw : Bytes) : Except Bytes Profile :=
  let v := lower raw
  let badNumber := keyName k ++ ascii ": an integer 0.." ++ toDecimal (maxOf k)
  if v = ascii "default" ∨ v = ascii "-" then .ok (p.clear k)
  else if isIntKey k then
    if v = [] ∨ 4 < v.length ∨ v.all isDigit = false then .error badNumber
    else if maxOf k < (ofDigits v : ℤ) then .error badNumber
    else .ok (p.putInt k (ofDigits v))
  else if v ∈ [ascii "1", ascii "on", ascii "true", ascii "yes"] then .ok (p.putBool k true)
  else if v ∈ [ascii "0", ascii "off", ascii "false", ascii "no"] then .ok (p.putBool k false)
  else .error (keyName k ++ ascii ": on or off")

/-- A member of a patch: null clears its key. -/
def patchMember (acc : Profile × List Key) (kv : Bytes × Value) :
    Except Bytes (Profile × List Key) :=
  match kv.2, parseKeyName kv.1 with
  | .null, some k =>
    if kv.1 = keyName k then .ok (acc.1, acc.2 ++ [k])
    else .error (ascii "unknown key \"" ++ kv.1.take 40 ++ ascii "\"")
  | _, _ => (parseMember acc.1 kv).map (·, acc.2)

/-- `ParseProfile` with the keys to clear. -/
def parsePatch : Value → Except Bytes (Profile × List Key)
  | .object o => (o.mergeSort fun a b => decide (a.1 ≤ b.1)).foldlM patchMember ({}, [])
  | _ => .error (ascii "must be an object")

def Profile.patched (p : Profile) (patch : Profile × List Key) : Profile :=
  patch.2.foldl Profile.clear (p.overlay patch.1)

/-- The loop that writes an object, with a comma before every member but the first. -/
def objectText (members : List Bytes) : Bytes :=
  members.foldl (fun out t => (if 1 < out.length then out ++ [byte ','] else out) ++ t)
    [byte '{'] ++ [byte '}']

/-- A member in `ProfileJson`. -/
def memberText (p : Profile) (k : Key) : Bytes :=
  byte '"' :: (keyName k ++ ascii "\":" ++
    if isIntKey k then p.valueText k else if p.valueText k = ascii "1" then ascii "true"
    else ascii "false")

def profileJson (p : Profile) : Bytes := objectText ((allKeys.filter p.has).map (memberText p))

def passwordInAssign (config : Value) : Bool :=
  match (config.get "cvars").bind (·.get "tv_password") with
  | some (.string s) => s ≠ []
  | _ => false

def ownedCvars : List String :=
  ["tv_delay", "tv_secure_bypass", "sv_deltaticks_enforce", "tv_maxclients", "tv_relaytextchat",
    "tv_relayvoice"]

def ownedCvarsInAssign (config : Value) : List (Bytes × Bytes) :=
  ownedCvars.filterMap fun name =>
    (((config.get "cvars").bind (·.get name)).bind cvarText).bind fun t =>
      if 0 ≤ cvarInt t then some (ascii name, toDecimal (cvarInt t)) else none

/-- A cvar in `ProfileFromMatchCvars`. -/
def addMatchCvar (p : Profile) (kv : Bytes × Bytes) : Profile :=
  let n := cvarInt kv.2
  if n < 0 then p
  else if kv.1 = ascii "tv_secure_bypass" then { p with allowInsecureObservers := decide (n ≠ 0) }
  else if kv.1 = ascii "tv_maxclients" ∧ n ≤ maxClients then { p with maxClients := n }
  else if kv.1 = ascii "tv_relaytextchat" then { p with relayTextChat := decide (n ≠ 0) }
  else if kv.1 = ascii "tv_relayvoice" then { p with relayVoice := decide (n ≠ 0) }
  else p

def profileFromMatchCvars (matchCvars : List (Bytes × Bytes)) : Profile :=
  matchCvars.foldl addMatchCvar {}

def conflictWithMatchCvars (eff : Profile) (delayFloor : ℤ) (matchCvars : List (Bytes × Bytes)) :
    Option String :=
  ((desiredCvars eff delayFloor).find? fun kv =>
    kv.1 ≠ "tv_delay" && matchCvars.any fun m =>
      m.1 == ascii kv.1 && cvarInt m.2 ≠ cvarInt kv.2).map Prod.fst

end Model

section Ranges

/-- The numbers of a profile are in their ranges. -/
structure Profile.Sound (p : Profile) : Prop where
  delay : ∀ d, p.delaySeconds = some d → 0 ≤ d ∧ d ≤ maxDelaySeconds
  clients : ∀ n, p.maxClients = some n → 0 ≤ n ∧ n ≤ Broadcast.maxClients

variable {p q : Profile} {k : Key} {n : ℤ}

theorem Profile.sound_empty : Profile.Sound {} where
  delay d h := by cases h
  clients n h := by cases h

theorem Profile.Sound.clear (h : p.Sound) (k : Key) : (p.clear k).Sound := by
  cases k with
  | delay => exact ⟨fun d hd => (by cases hd), h.clients⟩
  | maxClients => exact ⟨h.delay, fun n hn => by cases hn⟩
  | insecure => exact ⟨h.delay, h.clients⟩
  | textChat => exact ⟨h.delay, h.clients⟩
  | voice => exact ⟨h.delay, h.clients⟩

theorem Profile.Sound.putInt (h : p.Sound) (hk : isIntKey k = true) (hlow : 0 ≤ n)
    (hhigh : n ≤ maxOf k) : (p.putInt k n).Sound := by
  cases k with
  | delay =>
    refine ⟨fun d hd => ?_, h.clients⟩
    cases hd
    exact ⟨hlow, hhigh⟩
  | maxClients =>
    refine ⟨h.delay, fun d hd => ?_⟩
    cases hd
    exact ⟨hlow, hhigh⟩
  | insecure => cases hk
  | textChat => cases hk
  | voice => cases hk

theorem Profile.Sound.putBool (h : p.Sound) (k : Key) (b : Bool) : (p.putBool k b).Sound := by
  unfold Profile.putBool
  split_ifs
  · exact ⟨h.delay, h.clients⟩
  · exact ⟨h.delay, h.clients⟩
  · exact ⟨h.delay, h.clients⟩

theorem Profile.Sound.overlay (hp : p.Sound) (hq : q.Sound) : (p.overlay q).Sound where
  delay d h := by
    rcases Option.or_eq_some_iff.mp h with hover | ⟨-, hbase⟩
    · exact hq.delay d hover
    · exact hp.delay d hbase
  clients n h := by
    rcases Option.or_eq_some_iff.mp h with hover | ⟨-, hbase⟩
    · exact hq.clients n hover
    · exact hp.clients n hbase

theorem Profile.Sound.clearAll (h : p.Sound) (cleared : List Key) :
    (cleared.foldl Profile.clear p).Sound := by
  induction cleared generalizing p with
  | nil => exact h
  | cons k cleared ih => exact ih (h.clear k)

theorem Profile.Sound.patched (hp : p.Sound) {patch : Profile × List Key} (hpatch : patch.1.Sound) :
    (p.patched patch).Sound := (hp.overlay hpatch).clearAll patch.2

theorem intIn_range {v : Value} {bound : ℤ} (h : intIn v bound = some n) : 0 ≤ n ∧ n ≤ bound := by
  unfold intIn at h
  split at h
  · rename_i d
    split_ifs at h with hd
    obtain ⟨hfinite, hwhole, hlow, hhigh⟩ := hd
    rw [← Binary64.toInt_of_isWhole hfinite hwhole] at hlow hhigh
    cases h
    exact ⟨by exact_mod_cast hlow, by exact_mod_cast hhigh⟩
  · cases h

theorem setInt_range {name : Bytes} {v : Value} {bound : ℤ} (h : setInt name v bound = .ok n) :
    0 ≤ n ∧ n ≤ bound := by
  unfold setInt at h
  split at h
  · rename_i m hm
    cases h
    exact intIn_range hm
  · cases h

theorem parseMember_sound {kv : Bytes × Value} (hp : p.Sound)
    (h : parseMember p kv = .ok q) : q.Sound := by
  obtain ⟨name, v⟩ := kv
  unfold parseMember at h
  dsimp only at h
  split at h
  · cases h
  split_ifs at h
  split at h
  · cases h
  · obtain ⟨n, hn, hq⟩ := bind_eq_ok.mp h
    cases hq
    refine ⟨fun d hd => ?_, hp.clients⟩
    cases hd
    exact setInt_range hn
  · obtain ⟨n, hn, hq⟩ := bind_eq_ok.mp h
    cases hq
    refine ⟨hp.delay, fun m hm => ?_⟩
    cases hm
    exact setInt_range hn
  all_goals
    obtain ⟨b, -, hq⟩ := bind_eq_ok.mp h
    cases hq
    exact ⟨hp.delay, hp.clients⟩

theorem parseProfile_sound {v : Value} (h : parseProfile v = .ok p) : p.Sound := by
  unfold parseProfile at h
  split at h
  · exact foldlM_invariant Profile.sound_empty
      (fun _ _ _ _ hs hstep => parseMember_sound hs hstep) h
  · cases h

theorem patchMember_sound {acc next : Profile × List Key} {kv : Bytes × Value} (hacc : acc.1.Sound)
    (h : patchMember acc kv = .ok next) : next.1.Sound := by
  unfold patchMember at h
  split at h
  · split_ifs at h
    cases h
    exact hacc
  · obtain ⟨p, hp, rfl⟩ := map_eq_ok.mp h
    exact parseMember_sound hacc hp

theorem parsePatch_sound {v : Value} {patch : Profile × List Key} (h : parsePatch v = .ok patch) :
    patch.1.Sound := by
  unfold parsePatch at h
  split at h
  · exact foldlM_invariant (P := fun acc => acc.1.Sound) Profile.sound_empty
      (fun _ _ _ _ hs hstep => patchMember_sound hs hstep) h
  · cases h

theorem setFromText_sound {raw : Bytes} (hp : p.Sound)
    (h : setFromText p k raw = .ok q) : q.Sound := by
  unfold setFromText at h
  dsimp only at h
  split_ifs at h with hclear hint hform hmax htrue hfalse
  · cases h
    exact hp.clear k
  · cases h
    exact hp.putInt hint (by positivity) (not_lt.mp hmax)
  · cases h
    exact hp.putBool k true
  · cases h
    exact hp.putBool k false

theorem profileFromAssign_sound {config : Value}
    (h : profileFromAssign config = .ok p) : p.Sound := by
  unfold profileFromAssign at h
  split at h
  · cases h
    exact Profile.sound_empty
  · cases h
    exact Profile.sound_empty
  · split at h
    · rename_i hparse
      cases h
      exact parseProfile_sound hparse
    · cases h

end Ranges

section Text

open Status (Json)

/-- The value of a key, null if it is not set. -/
def valueOf (p : Profile) : Key → Json
  | .delay => p.delaySeconds.elim .null .int
  | .insecure => p.allowInsecureObservers.elim .null .bool
  | .maxClients => p.maxClients.elim .null .int
  | .textChat => p.relayTextChat.elim .null .bool
  | .voice => p.relayVoice.elim .null .bool

def memberOf (p : Profile) (k : Key) : Bytes × Json := (keyName k, valueOf p k)

/-- What `ProfileJson` prints. -/
def document (p : Profile) : Json := .object ((allKeys.filter p.has).map (memberOf p))

variable {q : Bytes → Bytes} {p : Profile}

def memberBy (q : Bytes → Bytes) (kv : Bytes × Json) : Bytes := q kv.1 ++ byte ':' :: kv.2.textBy q

theorem textByMembers_cons (kv : Bytes × Json) (ms : List (Bytes × Json)) :
    Json.textByMembers q (kv :: ms) = memberBy q kv ++ ms.flatMap fun m =>
      byte ',' :: memberBy q m := by
  induction ms generalizing kv with
  | nil => simp [Json.textByMembers, memberBy]
  | cons m ms ih =>
    rw [Json.textByMembers, ih]
    simp [memberBy]

theorem foldl_members {out : Bytes} (hout : 1 < out.length) {ts : List Bytes} :
    ts.foldl (fun out t => (if 1 < out.length then out ++ [byte ','] else out) ++ t) out =
      out ++ ts.flatMap fun t => byte ',' :: t := by
  induction ts generalizing out with
  | nil => simp
  | cons t ts ih =>
    rw [List.foldl_cons, if_pos hout, ih (by simp only [List.length_append]; omega)]
    simp

theorem objectText_eq (ms : List (Bytes × Json)) :
    objectText (ms.map (memberBy q)) = (Json.object ms).textBy q := by
  rw [Json.textBy, objectText]
  cases ms with
  | nil => simp [Json.textByMembers]
  | cons kv ms =>
    have hfirst : 1 < ([byte '{'] ++ memberBy q kv).length := by
      simp only [memberBy, List.length_append, List.length_cons]
      omega
    rw [List.map_cons, List.foldl_cons, if_neg (by simp), foldl_members hfirst, textByMembers_cons]
    simp [List.flatMap_map]

theorem flag_eq (b : Bool) :
    (if flagText b = ascii "1" then ascii "true" else ascii "false") = (Json.bool b).textBy q := by
  cases b
  · rw [if_neg (by decide), Json.textBy]
    rfl
  · rw [if_pos (by decide), Json.textBy]
    rfl

theorem valueOf_text {k : Key} (hk : p.has k = true) :
    (if isIntKey k then p.valueText k else if p.valueText k = ascii "1" then
      ascii "true" else ascii "false") = (valueOf p k).textBy q := by
  cases k with
  | delay =>
    obtain ⟨d, hd⟩ := Option.isSome_iff_exists.mp hk
    simp [isIntKey, Profile.valueText, valueOf, hd, Json.textBy]
  | maxClients =>
    obtain ⟨n, hn⟩ := Option.isSome_iff_exists.mp hk
    simp [isIntKey, Profile.valueText, valueOf, hn, Json.textBy]
  | insecure =>
    obtain ⟨b, hb⟩ := Option.isSome_iff_exists.mp hk
    simp only [Profile.valueText, valueOf, hb, Option.elim_some]
    exact flag_eq b
  | textChat =>
    obtain ⟨b, hb⟩ := Option.isSome_iff_exists.mp hk
    simp only [Profile.valueText, valueOf, hb, Option.elim_some]
    exact flag_eq b
  | voice =>
    obtain ⟨b, hb⟩ := Option.isSome_iff_exists.mp hk
    simp only [Profile.valueText, valueOf, hb, Option.elim_some]
    exact flag_eq b

/-- Quotes that leave the names of the keys as they are. -/
def KeepsNames (q : Bytes → Bytes) : Prop :=
  ∀ k, q (keyName k) = byte '"' :: (keyName k ++ [byte '"'])

theorem profileJson_eq (hq : KeepsNames q) (p : Profile) :
    profileJson p = (document p).textBy q := by
  have hmembers : (allKeys.filter p.has).map (memberText p) =
      ((allKeys.filter p.has).map (memberOf p)).map (memberBy q) := by
    rw [List.map_map]
    refine List.map_congr_left fun k hk => ?_
    have hcolon : ascii "\":" = [byte '"', byte ':'] := by decide
    rw [memberText, valueOf_text (q := q) (List.mem_filter.mp hk).2, hcolon]
    simp [memberBy, memberOf, hq k]
  rw [profileJson, hmembers, objectText_eq, document]

end Text

section Reading

open Status (Json)

variable {p : Profile}

theorem parseKeyName_keyName (k : Key) : parseKeyName (keyName k) = some k := by
  cases k <;> decide

theorem keyName_injective : Function.Injective keyName := by
  intro j k h
  have heq := congrArg parseKeyName h
  rw [parseKeyName_keyName, parseKeyName_keyName] at heq
  exact Option.some.inj heq

theorem inInt64_of_range {n bound : ℤ} (h : 0 ≤ n ∧ n ≤ bound)
    (hbound : bound < 2 ^ 53) : InInt64 n := by
  constructor <;> omega

theorem plain_valueOf (hp : p.Sound) (k : Key) : (valueOf p k).Plain := by
  have hnull : Json.null.Plain := ⟨rfl, rfl, rfl⟩
  cases k with
  | delay =>
    cases hd : p.delaySeconds with
    | none => simpa [valueOf, hd] using hnull
    | some d =>
      simpa [valueOf, hd] using Json.plain_int (inInt64_of_range (hp.delay d hd) (by decide))
  | maxClients =>
    cases hn : p.maxClients with
    | none => simpa [valueOf, hn] using hnull
    | some n =>
      simpa [valueOf, hn] using Json.plain_int (inInt64_of_range (hp.clients n hn) (by decide))
  | insecure => cases hb : p.allowInsecureObservers <;> simp [valueOf, hb, hnull, Json.plain_bool]
  | textChat => cases hb : p.relayTextChat <;> simp [valueOf, hb, hnull, Json.plain_bool]
  | voice => cases hb : p.relayVoice <;> simp [valueOf, hb, hnull, Json.plain_bool]

theorem plain_document (hp : p.Sound) : (document p).Plain := by
  refine Json.plain_object ?_ ?_
  · have hkeys :
        keys ((allKeys.filter p.has).map (memberOf p)) = (allKeys.filter p.has).map keyName := by
      rw [keys, List.map_map]
      rfl
    rw [hkeys]
    exact ((by decide : allKeys.Nodup).filter _).map keyName_injective
  · intro k v hmem
    obtain ⟨j, -, heq⟩ := List.mem_map.mp hmem
    rw [← (Prod.mk.inj heq).2]
    exact plain_valueOf hp j

/-- The key is taken over from another profile. -/
def take (p acc : Profile) : Key → Profile
  | .delay => { acc with delaySeconds := p.delaySeconds }
  | .insecure => { acc with allowInsecureObservers := p.allowInsecureObservers }
  | .maxClients => { acc with maxClients := p.maxClients }
  | .textChat => { acc with relayTextChat := p.relayTextChat }
  | .voice => { acc with relayVoice := p.relayVoice }

theorem intIn_ofInt {n bound : ℤ} (h : 0 ≤ n ∧ n ≤ bound) (hbound : bound < 2 ^ 53) :
    intIn (.number (Binary64.ofInt n)) bound = some n := by
  obtain ⟨hfinite, hrat⟩ := Binary64.toRat_ofInt (i := n) (by omega)
  exact Assign.intIn_of_toRat hfinite hrat h.1 h.2

theorem parseMember_memberOf (hp : p.Sound) {k : Key} (hk : p.has k = true) (acc : Profile) :
    parseMember acc (keyName k, ofPlain (valueOf p k)) = .ok (take p acc k) := by
  simp only [parseMember, parseKeyName_keyName, ne_eq, not_true_eq_false, if_false]
  cases k with
  | delay =>
    obtain ⟨d, hd⟩ := Option.isSome_iff_exists.mp hk
    have hread := intIn_ofInt (hp.delay d hd) (by decide)
    simp only [valueOf, take, hd, Option.elim_some, ofPlain, setInt, hread]
    rfl
  | maxClients =>
    obtain ⟨n, hn⟩ := Option.isSome_iff_exists.mp hk
    have hread := intIn_ofInt (hp.clients n hn) (by decide)
    simp only [valueOf, take, hn, Option.elim_some, ofPlain, setInt, hread]
    rfl
  | insecure =>
    obtain ⟨b, hb⟩ := Option.isSome_iff_exists.mp hk
    simp only [valueOf, take, hb, Option.elim_some, ofPlain, setBool]
    rfl
  | textChat =>
    obtain ⟨b, hb⟩ := Option.isSome_iff_exists.mp hk
    simp only [valueOf, take, hb, Option.elim_some, ofPlain, setBool]
    rfl
  | voice =>
    obtain ⟨b, hb⟩ := Option.isSome_iff_exists.mp hk
    simp only [valueOf, take, hb, Option.elim_some, ofPlain, setBool]
    rfl

theorem take_take (acc : Profile) (j k : Key) :
    take p (take p acc j) k = take p (take p acc k) j := by
  cases j <;> cases k <;> rfl

theorem foldl_take_allKeys (p : Profile) : (allKeys.filter p.has).foldl (take p) {} = p := by
  obtain ⟨delay, insecure, clients, text, voice⟩ := p
  cases delay <;> cases insecure <;> cases clients <;> cases text <;> cases voice <;> rfl

theorem foldlM_memberOf (hp : p.Sound) {ks : List Key} (hks : ∀ k ∈ ks, p.has k = true)
    (acc : Profile) :
    (ks.map fun k => (keyName k, ofPlain (valueOf p k))).foldlM parseMember acc =
      .ok (ks.foldl (take p) acc) := by
  induction ks generalizing acc with
  | nil => rfl
  | cons k ks ih =>
    rw [List.map_cons, List.foldlM_cons, parseMember_memberOf hp (hks k List.mem_cons_self)]
    exact ih (fun j hj => hks j (List.mem_cons_of_mem _ hj)) _

/-- `ParseProfile` reads back what `ProfileJson` prints, though it goes through the keys in another
order. -/
theorem parseProfile_document (hp : p.Sound) : parseProfile (ofPlain (document p)) = .ok p := by
  have hsorted : ((allKeys.filter p.has).map fun k => (keyName k, ofPlain (valueOf p k))).mergeSort
      (fun a b => decide (a.1 ≤ b.1)) =
      ((allKeys.filter p.has).mergeSort fun j k => decide (keyName j ≤ keyName k)).map
        fun k => (keyName k, ofPlain (valueOf p k)) := by
    rw [List.map_mergeSort]
    exact fun _ _ _ _ => rfl
  have hperm := List.mergeSort_perm (allKeys.filter p.has) fun j k => decide (keyName j ≤ keyName k)
  rw [document, ofPlain, ofPlainMembers_eq, List.map_map]
  simp only [parseProfile, Function.comp_def, memberOf]
  rw [hsorted, foldlM_memberOf hp fun k hk => (List.mem_filter.mp (hperm.mem_iff.mp hk)).2]
  congr 1
  rw [hperm.foldl_eq' (fun j _ k _ acc => take_take acc j k), foldl_take_allKeys]

end Reading

end ReadyUp.Config.Broadcast
