import ReadyUp.Mapvote.Ballot

/-!
# The rules of a map vote

The settings of `mapvote.cfg` with their defaults and bounds, the map that a player means, the
players that `.rtv` needs, the time that is left on a map and the winner of a vote. Whatever the
file holds, the settings that are loaded from it keep their bounds and a pool of distinct maps
(`valid_loadedSettings`).
-/
namespace ReadyUp.Mapvote

open Support

section Settings

structure Settings where
  enabled : Bool := true
  maps : List Bytes := []
  rtvRatio : Binary64 := Binary64.ofRat false (3 / 5)
  rtvMinPlayers : ℤ := 1
  rtvDelaySeconds : ℤ := 60
  voteOptions : ℤ := 6
  voteSeconds : ℤ := 20
  mapTimeMinutes : ℤ := 30
  voteBeforeEndSeconds : ℤ := 120
  extendMinutes : ℤ := 10
  maxExtends : ℤ := 1
  recentMapsExcluded : ℤ := 3

def defaultPool (currentMap : Bytes) : List Bytes :=
  if (ascii "de_").isPrefixOf currentMap || (ascii "cs_").isPrefixOf currentMap then
    [ascii "de_dust2", ascii "de_inferno", ascii "de_mirage", ascii "de_nuke", ascii "de_overpass",
      ascii "de_train", ascii "de_vertigo"]
  else []

def trim (s : Bytes) : Bytes := trimBy isSpace s

/-- `ParseInt`. A number too large for `strtol` is beyond every bound. -/
def parseInt (v : Bytes) (lo hi : ℤ) : Option ℤ :=
  let (neg, s) := sign (v.dropWhile isSpace)
  let ds := s.takeWhile isDigit
  let n : ℤ := if neg then -(ofDigits ds : ℤ) else ofDigits ds
  if ds ≠ [] ∧ s.dropWhile isDigit = [] ∧ lo ≤ n ∧ n ≤ hi then some n else none

def isListEnd (c : UInt8) : Bool := c == byte ',' || c == 10 || c == 13

/-- An entry of the list that is not a comment. -/
def isEntry (t : Bytes) : Bool :=
  !(t.isEmpty || (ascii "#").isPrefixOf t || (ascii "//").isPrefixOf t)

def parseMapList (text : Bytes) : List Bytes :=
  firsts lower [] (((text.splitOnP isListEnd).map trim).filter isEntry)

/-- Settings while they are read, with the warnings so far. -/
structure Loading where
  s : Settings := {}
  warnings : List Bytes := []

def Loading.warn (l : Loading) (key v : Bytes) : Loading :=
  { l with warnings := l.warnings ++ [ascii "bad value for " ++ key ++ ascii ": " ++ v] }

/-- A key of `LoadSettings` that is a whole number, with its bounds. -/
structure IntKey where
  key : String
  lo : ℤ
  hi : ℤ
  out : Settings → ℤ → Settings

/-- `intKey` of `LoadSettings`. -/
def intKey (get : Bytes → Option Bytes) (l : Loading) (k : IntKey) : Loading :=
  match get (ascii k.key) with
  | none => l
  | some v =>
    match parseInt (trim v) k.lo k.hi with
    | some n => { l with s := k.out l.s n }
    | none => l.warn (ascii k.key) (trim v)

def intKeys : List IntKey :=
  [⟨"rtv_min_players", 1, 64, fun s n => { s with rtvMinPlayers := n }⟩,
    ⟨"rtv_delay_seconds", 0, 3600, fun s n => { s with rtvDelaySeconds := n }⟩,
    ⟨"vote_options", 2, 8, fun s n => { s with voteOptions := n }⟩,
    ⟨"vote_seconds", 5, 120, fun s n => { s with voteSeconds := n }⟩,
    ⟨"map_time_minutes", 0, 600, fun s n => { s with mapTimeMinutes := n }⟩,
    ⟨"vote_before_end_seconds", 10, 600, fun s n => { s with voteBeforeEndSeconds := n }⟩,
    ⟨"extend_minutes", 1, 120, fun s n => { s with extendMinutes := n }⟩,
    ⟨"max_extends", 0, 10, fun s n => { s with maxExtends := n }⟩,
    ⟨"recent_maps_excluded", 0, 20, fun s n => { s with recentMapsExcluded := n }⟩]

/-- `rtv_ratio` of `LoadSettings`. -/
def ratioKey (get : Bytes → Option Bytes) (l : Loading) : Loading :=
  match get (ascii "rtv_ratio") with
  | none => l
  | some v =>
    match strtod (trim v) with
    | some (d, []) =>
      if !d.isNaN && d.isFinite && 0 < d.toRat && d.toRat ≤ 1 then
        { l with s := { l.s with rtvRatio := d } }
      else l.warn (ascii "rtv_ratio") v
    | _ => l.warn (ascii "rtv_ratio") v

/-- The keys of `LoadSettings` that are texts. -/
def textKeys (get : Bytes → Option Bytes) (s : Settings) : Settings :=
  let s := ((get (ascii "enabled")).map fun v => { s with enabled := trim v ≠ ascii "0" }).getD s
  ((get (ascii "maps")).map fun v => { s with maps := parseMapList v }).getD s

def loadSettings (get : Bytes → Option Bytes) : Settings × List Bytes :=
  let l := intKeys.foldl (intKey get) (ratioKey get { s := textKeys get {} })
  (l.s, l.warnings)

/-- `LoadSettings` of the plugin: without a pool of its own it follows the map. -/
def loadedSettings (get : Bytes → Option Bytes) (currentMap : Bytes) : Settings :=
  let s := (loadSettings get).1
  if s.maps = [] then { s with maps := defaultPool currentMap } else s

end Settings

section Code

/-- `FindMap`: the entry, or the names of the maps that it could be. -/
def findMap (pool : List Bytes) (typed : Bytes) : Except (List Bytes) Bytes :=
  let t := lower (trim typed)
  if t = [] then .error []
  else
    match pool.find? fun e => lower (mapDisplayName e) = t || lower e = t with
    | some e => .ok e
    | none =>
      match pool.filter fun e => t <:+: lower (mapDisplayName e) with
      | [e] => .ok e
      | hits => .error ((hits.take 5).map mapDisplayName)

def double (q : ℚ) : ℚ := (Binary64.ofRat (decide (q < 0)) |q|).toRat

def rtvNeeded (humans : ℕ) (ratio : Binary64) : ℤ :=
  if humans = 0 then 1
  else max 1 (min ⌈double (double (ratio.toRat * humans) - double (1 / 10 ^ 9))⌉ humans)

/-- `SecondsLeft`; none without a time limit. -/
def secondsLeft (s : Settings) (mapStartedAt : ℚ) (extended : ℕ) (now : ℚ) : Option ℤ :=
  if s.mapTimeMinutes ≤ 0 then none
  else
    let total : ℚ := (s.mapTimeMinutes + extended * s.extendMinutes) * 60
    some (max 0 ⌈total - (now - mapStartedAt)⌉)

/-- `Winner`; none without options. -/
def winner (optionCount : ℕ) (votes : List ℕ) (extendIndex : Option ℕ)
    (pick : (n : ℕ) → Fin (n + 1)) : Option ℕ :=
  let best := (List.range optionCount).foldl (fun most i => max most (votes.count i)) 0
  if optionCount = 0 then none
  else if best = 0 then
    (drawOne pick ((List.range optionCount).filter fun i => some i ≠ extendIndex)).or extendIndex
  else drawOne pick ((List.range optionCount).filter fun i => votes.count i = best)

end Code

section Valid

/-- What settings keep, whatever the file holds. -/
structure Settings.Valid (s : Settings) : Prop where
  distinct : (s.maps.map lower).Nodup
  named : ∀ e ∈ s.maps, e ≠ []
  rtvMinPlayers : 1 ≤ s.rtvMinPlayers ∧ s.rtvMinPlayers ≤ 64
  rtvDelaySeconds : 0 ≤ s.rtvDelaySeconds ∧ s.rtvDelaySeconds ≤ 3600
  voteOptions : 2 ≤ s.voteOptions ∧ s.voteOptions ≤ 8
  voteSeconds : 5 ≤ s.voteSeconds ∧ s.voteSeconds ≤ 120
  mapTimeMinutes : 0 ≤ s.mapTimeMinutes ∧ s.mapTimeMinutes ≤ 600
  voteBeforeEndSeconds : 10 ≤ s.voteBeforeEndSeconds ∧ s.voteBeforeEndSeconds ≤ 600
  extendMinutes : 1 ≤ s.extendMinutes ∧ s.extendMinutes ≤ 120
  maxExtends : 0 ≤ s.maxExtends ∧ s.maxExtends ≤ 10
  recentMapsExcluded : 0 ≤ s.recentMapsExcluded ∧ s.recentMapsExcluded ≤ 20

theorem valid_default : ({} : Settings).Valid := by
  constructor <;> simp

theorem Settings.Valid.withMaps {s : Settings} (h : s.Valid) {maps : List Bytes}
    (hdistinct : (maps.map lower).Nodup)
    (hnamed : ∀ e ∈ maps, e ≠ []) : ({ s with maps := maps } : Settings).Valid :=
  { h with distinct := hdistinct, named := hnamed }

theorem distinct_defaultPool (currentMap : Bytes) : ((defaultPool currentMap).map lower).Nodup := by
  unfold defaultPool
  split_ifs
  · decide
  · exact List.nodup_nil

theorem named_defaultPool (currentMap : Bytes) : ∀ e ∈ defaultPool currentMap, e ≠ [] := by
  unfold defaultPool
  split_ifs
  · decide
  · simp

theorem named_parseMapList {text e : Bytes} (h : e ∈ parseMapList text) : e ≠ [] := by
  have hentry := (List.mem_filter.mp ((firsts_sublist lower [] _).subset h)).2
  rintro rfl
  simp [isEntry] at hentry

theorem valid_textKeys (get : Bytes → Option Bytes) : (textKeys get {}).Valid := by
  have henabled :
      (((get (ascii "enabled")).map fun v => ({ enabled := trim v ≠ ascii "0" } : Settings)).getD
        {}).Valid := by
    cases get (ascii "enabled") with
    | none => exact valid_default
    | some v => exact { valid_default with }
  unfold textKeys
  cases get (ascii "maps") with
  | none => exact henabled
  | some v => exact henabled.withMaps (nodup_map_firsts lower [] _) fun e he =>
    named_parseMapList he

theorem parseInt_bounds {v : Bytes} {lo hi n : ℤ} (h : parseInt v lo hi = some n) :
    lo ≤ n ∧ n ≤ hi := by
  unfold parseInt at h
  dsimp only at h
  generalize (if (sign (v.dropWhile isSpace)).1 = true then _ else _ : ℤ) = m at h
  split_ifs at h with hm
  cases h
  exact ⟨hm.2.2.1, hm.2.2.2⟩

theorem valid_ratioKey (get : Bytes → Option Bytes) {l : Loading} (h : l.s.Valid) :
    (ratioKey get l).s.Valid := by
  unfold ratioKey
  split
  · exact h
  · split
    · split_ifs
      · exact { h with }
      · exact h
    · exact h

/-- Every key keeps the settings valid with a number within its bounds. -/
theorem valid_out {k : IntKey} (hk : k ∈ intKeys) {s : Settings} (hs : s.Valid) {n : ℤ}
    (hn : k.lo ≤ n ∧ n ≤ k.hi) : (k.out s n).Valid := by
  simp only [intKeys, List.mem_cons, List.not_mem_nil, or_false] at hk
  rcases hk with rfl | rfl | rfl | rfl | rfl | rfl | rfl | rfl | rfl
  · exact { hs with rtvMinPlayers := hn }
  · exact { hs with rtvDelaySeconds := hn }
  · exact { hs with voteOptions := hn }
  · exact { hs with voteSeconds := hn }
  · exact { hs with mapTimeMinutes := hn }
  · exact { hs with voteBeforeEndSeconds := hn }
  · exact { hs with extendMinutes := hn }
  · exact { hs with maxExtends := hn }
  · exact { hs with recentMapsExcluded := hn }

theorem valid_intKey (get : Bytes → Option Bytes) {k : IntKey} (hk : k ∈ intKeys) {l : Loading}
    (h : l.s.Valid) : (intKey get l k).s.Valid := by
  unfold intKey
  split
  · exact h
  · split
    · rename_i n hn
      exact valid_out hk h (parseInt_bounds hn)
    · exact h

theorem valid_loadSettings (get : Bytes → Option Bytes) : (loadSettings get).1.Valid :=
  List.foldlRecOn intKeys (intKey get) (motive := fun l => l.s.Valid)
    (valid_ratioKey get (valid_textKeys get))
    fun _ hl _ hk => valid_intKey get hk hl

theorem valid_loadedSettings (get : Bytes → Option Bytes) (currentMap : Bytes) :
    (loadedSettings get currentMap).Valid := by
  unfold loadedSettings
  dsimp only
  split_ifs
  · exact (valid_loadSettings get).withMaps (distinct_defaultPool currentMap)
      (named_defaultPool currentMap)
  · exact valid_loadSettings get

end Valid

section Found

theorem findMap_mem {pool : List Bytes} {typed e : Bytes}
    (h : findMap pool typed = .ok e) : e ∈ pool := by
  unfold findMap at h
  dsimp only at h
  split_ifs at h with hempty
  split at h
  · rename_i found hfound
    cases h
    exact List.mem_of_find?_eq_some hfound
  · split at h
    · rename_i found hfound
      cases h
      have hmem : e ∈ pool.filter fun e => lower (trim typed) <:+: lower (mapDisplayName e) := by
        rw [hfound]
        exact List.mem_singleton_self e
      exact (List.mem_filter.mp hmem).1
    · cases h

end Found

section Winner

variable {optionCount : ℕ} {votes : List ℕ} {extendIndex : Option ℕ} {pick : (n : ℕ) → Fin (n + 1)}

/-- The largest value of a loop is one that no other exceeds. -/
theorem foldl_max_spec (f : ℕ → ℕ) (l : List ℕ) (most : ℕ) :
    most ≤ l.foldl (fun most i => max most (f i)) most ∧
    (∀ i ∈ l, f i ≤ l.foldl (fun most i => max most (f i)) most) ∧
      (l.foldl (fun most i => max most (f i)) most = most ∨
        ∃ i ∈ l, f i = l.foldl (fun most i => max most (f i)) most) := by
  induction l generalizing most with
  | nil => simp
  | cons i l ih =>
    obtain ⟨hstart, hall, hone⟩ := ih (max most (f i))
    simp only [List.foldl_cons, List.forall_mem_cons, List.exists_mem_cons_iff]
    refine ⟨(le_max_left _ _).trans hstart, ⟨(le_max_right _ _).trans hstart, hall⟩, ?_⟩
    obtain heq | hin := hone
    · rw [heq]
      obtain hmax | hmax := max_choice most (f i)
      · exact .inl hmax
      · exact .inr (.inl hmax.symm)
    · exact .inr (.inr hin)

/-- A winner has at least as many votes as any other option. To extend the map takes a vote, or
there is nothing else. -/
theorem winner_spec {w : ℕ} (hext : ∀ i ∈ extendIndex, i < optionCount)
    (h : winner optionCount votes extendIndex pick = some w) :
    w < optionCount ∧ (∀ i < optionCount, votes.count i ≤ votes.count w) ∧
      (extendIndex = some w → 0 < votes.count w ∨ optionCount = 1) := by
  unfold winner at h
  dsimp only at h
  obtain ⟨-, hall, hone⟩ := foldl_max_spec (votes.count ·) (List.range optionCount) 0
  generalize (List.range optionCount).foldl (fun most i => max most (votes.count i)) 0 =
    best at h hall hone
  simp only [List.mem_range] at hall hone
  split_ifs at h with hcount hbest
  · have hzero : ∀ i < optionCount, votes.count i ≤ votes.count w := by
      intro i hi
      have hi := hall i hi
      omega
    obtain hdrawn | ⟨hnone, hw⟩ := Option.or_eq_some_iff.mp h
    · obtain ⟨hw, hne⟩ := List.mem_filter.mp (mem_of_drawOne hdrawn)
      exact ⟨List.mem_range.mp hw, hzero, fun heq => absurd heq.symm (by simpa using hne)⟩
    · refine ⟨hext w hw, hzero, fun _ => .inr ?_⟩
      have hw' := hext w hw
      rw [drawOne_eq_none, List.filter_eq_nil_iff] at hnone
      have honly : ∀ i < optionCount, i = w := by
        intro i hi
        simpa [hw] using hnone i (List.mem_range.mpr hi)
      have h0 := honly 0 (by omega)
      by_contra hmore
      have h1 := honly 1 (by omega)
      omega
  · obtain ⟨i, hi, hvotes⟩ := hone.resolve_left hbest
    obtain ⟨hw, heq⟩ := List.mem_filter.mp (mem_of_drawOne h)
    have heq : votes.count w = best := by simpa using heq
    exact ⟨List.mem_range.mp hw, fun j hj => heq ▸ hall j hj, fun _ => .inl (by omega)⟩

theorem winner_ne_none (hcount : optionCount ≠ 0) :
    winner optionCount votes extendIndex pick ≠ none := by
  unfold winner
  dsimp only
  obtain ⟨-, -, hone⟩ := foldl_max_spec (votes.count ·) (List.range optionCount) 0
  generalize (List.range optionCount).foldl (fun most i => max most (votes.count i)) 0 =
    best at hone
  rw [if_neg hcount]
  split_ifs with hbest
  · intro hnone
    obtain ⟨hdrawn, hext⟩ := Option.or_eq_none_iff.mp hnone
    rw [drawOne_eq_none, List.filter_eq_nil_iff] at hdrawn
    have h0 := hdrawn 0 (List.mem_range.mpr (by omega))
    simp [hext] at h0
  · obtain ⟨i, hi, hvotes⟩ := hone.resolve_left hbest
    rw [Ne, drawOne_eq_none, List.filter_eq_nil_iff]
    intro hnone
    exact hnone i hi (by simpa using hvotes)

end Winner

end ReadyUp.Mapvote
