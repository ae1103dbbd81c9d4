import ReadyUp.Config.Assign
import ReadyUp.Config.Context
import ReadyUp.Config.Overrides

/-!
# From an assignment to a context

The translated configuration is written as text and read again. It is a value that the text
keeps (`sound_assignToMatConfig`), so the match plugin reads of every field what the translation
assigned to it last (`get_matConfig`).
-/
namespace ReadyUp.Config.Assign

open Support Status JsonScan Minijson

section Sound

/-- No key twice and integers of 64 bits, as the library keeps its values. -/
def Sound (v : Json) : Prop := v.UniqueKeys ∧ v.InRange

theorem sound_string (s : Bytes) : Sound (.string s) := ⟨rfl, rfl⟩

theorem sound_bool (b : Bool) : Sound (.bool b) := ⟨rfl, rfl⟩

theorem sound_double (d : Binary64) : Sound (.double d) := ⟨rfl, rfl⟩

theorem sound_int {i : ℤ} (h : InInt64 i) : Sound (.int i) := ⟨rfl, decide_eq_true h⟩

theorem sound_array {a : List Json} (h : ∀ v ∈ a, Sound v) : Sound (.array a) :=
  ⟨Json.uniqueKeys_array.mpr fun v hv => (h v hv).1,
    Json.all_array.mpr ⟨rfl, fun v hv => (h v hv).2⟩⟩

theorem sound_texts {α : Type} (f : α → Bytes) (l : List α) :
    Sound (.array (l.map fun x => .string (f x))) := by
  apply sound_array
  intro v hv
  obtain ⟨x, -, rfl⟩ := List.mem_map.mp hv
  exact sound_string _

theorem sound_ofMembers {l : List (Bytes × Option Json)} (h : ∀ k v, (k, some v) ∈ l → Sound v) :
    Sound (ofMembers l) :=
  ⟨uniqueKeys_ofMembers fun k v hm => (h k v hm).1,
    all_ofMembers (fun _ => rfl) fun k v hm => (h k v hm).2⟩

theorem sound_ofFields {l : List (String × Option Json)} (h : ∀ kv ∈ l, ∀ v ∈ kv.2, Sound v) :
    Sound (ofFields l) :=
  sound_ofMembers (forall_fields h)

theorem Sound.mem {v w : Json} (h : Sound v) {k : Bytes} (hm : (k, w) ∈ v.members) : Sound w := by
  cases v with
  | object ms => exact ⟨(Json.uniqueKeys_object.mp h.1).2 k w hm, (Json.all_object.mp h.2).2 k w hm⟩
  | _ => cases hm

theorem Sound.get {v w : Json} (h : Sound v) {key : String} (hw : get v key = some w) : Sound w :=
  h.mem (mem_of_lookup hw)

theorem Sound.obj {v w : Json} (h : Sound v) {key : String} (hw : obj v key = some w) : Sound w :=
  h.get (Option.filter_eq_some_iff.mp hw).1

theorem Sound.rulesOf {config : Json} (h : Sound config) : Sound (rulesOf config) := by
  rw [Assign.rulesOf]
  cases hobj : Assign.obj config "rules" with
  | none => exact ⟨rfl, rfl⟩
  | some r => exact h.obj hobj

theorem inInt64_toInt64 (d : Binary64) : InInt64 d.toInt64 := by
  rw [Binary64.toInt64, InInt64]
  split_ifs with hd
  · exact hd.2
  · decide

theorem Sound.int {v : Json} (h : Sound v) (key : String) {dflt : ℤ} (hdflt : InInt64 dflt) :
    InInt64 (int v key dflt) := by
  rw [Assign.int]
  split
  · rename_i i hi
    exact of_decide_eq_true (h.get hi).2
  · exact inInt64_toInt64 _
  · exact hdflt

theorem inInt64_bmod (i : ℤ) : InInt64 (Int.bmod i (2 ^ 64)) := by
  have hlow := Int.le_bmod (x := i) (m := 2 ^ 64) (by decide)
  have hhigh := Int.bmod_lt (x := i) (m := 2 ^ 64) (by decide)
  constructor <;> omega

end Sound

section Each

variable {P : Json → Prop}

/-- The value of a field, if it is set. -/
def Each (P : Json → Prop) (o : Option Json) : Prop := ∀ v ∈ o, P v

theorem each_some {v : Json} (h : P v) : Each P (some v) := by
  intro w hw
  cases hw
  exact h

theorem each_none : Each P none := fun _ hv => by cases hv

theorem each_map {o : Option Json} {f : Json → Json} (h : ∀ v ∈ o, P (f v)) : Each P (o.map f) := by
  intro w hw
  obtain ⟨v, hv, rfl⟩ := Option.map_eq_some_iff.mp hw
  exact h v hv

theorem each_bind {o : Option Json} {f : Json → Option Json} (h : ∀ v ∈ o, Each P (f v)) :
    Each P (o.bind f) := by
  intro w hw
  obtain ⟨v, hv, hf⟩ := Option.bind_eq_some_iff.mp hw
  exact h v hv w hf

theorem each_ite {p : Prop} [Decidable p] {v : Json} (h : P v) :
    Each P (if p then some v else none) := by
  split_ifs
  · exact each_some h
  · exact each_none

theorem each_ruleField {group : Option Json} {key : String} {f : Json → Json}
    (h : ∀ g ∈ group, P (f g)) : Each P (ruleField group key f) :=
  each_bind fun g hg => each_map fun _ _ => h g hg

/-- A property of the values that the translation writes itself. -/
structure Written (P : Json → Prop) : Prop where
  string : ∀ s, P (.string s)
  bool : ∀ b, P (.bool b)
  int : ∀ i, InInt64 i → P (.int i)
  double : ∀ d, P (.double d)
  texts : ∀ l : List Bytes, P (.array (l.map .string))

theorem Written.map (hP : Written P) {α : Type} (f : α → Bytes) (l : List α) :
    P (.array (l.map fun x => .string (f x))) := by
  have h := hP.texts (l.map f)
  rwa [List.map_map] at h

theorem each_number (hP : Written P) (v : Json) : Each P (number v) := by
  cases v with
  | int i => exact each_some (hP.double _)
  | double d => exact each_some (hP.double _)
  | _ => exact each_none

theorem Written.groupInt (hP : Written P) {r : Json} (h : Sound r) {group key : String} {dflt : ℤ}
    (hdflt : InInt64 dflt) : ∀ g ∈ Assign.obj r group, P (.int (Assign.int g key dflt)) :=
  fun _ hg => hP.int _ ((h.obj hg).int key hdflt)

theorem each_walkover (hP : Written P) {r : Json} (h : Sound r) :
    ∀ kv ∈ walkoverFields (obj r "full_team"), Each P kv.2 := by
  have hzero : InInt64 0 := by decide
  have hw : ∀ w ∈ (obj r "full_team").bind fun f => obj f "walkover", Sound w := by
    intro w hw
    obtain ⟨f, hf, hw⟩ := Option.bind_eq_some_iff.mp hw
    exact (h.obj hf).obj hw
  simp only [walkoverFields, List.forall_mem_cons, List.not_mem_nil, false_imp_iff,
    implies_true, and_true]
  exact ⟨each_map (hP.groupInt h hzero), each_map fun _ _ => hP.string _,
    each_map fun w hm => hP.int _ ((hw w hm).int _ hzero), each_map fun w _ => hP.map id _⟩

theorem each_rules (hP : Written P) {config : Json} (h : Sound config)
    (hruleset : Each P (get (rulesOf config) "ruleset"))
    (hoverrides : Each P (get (rulesOf config) "overrides")) :
    ∀ kv ∈ ruleFields config, Each P kv.2 := by
  have hr := h.rulesOf
  have hhalf : InInt64 (overtimeHalf config) := by
    rw [overtimeHalf]
    split
    · decide
    · rename_i ot hot
      exact (hr.obj hot).int _ (by decide)
  have hgg : ∀ g ∈ (obj (rulesOf config) "forfeit").bind fun f => obj f "gg_vote", Sound g := by
    intro g hg
    obtain ⟨f, hf, hg⟩ := Option.bind_eq_some_iff.mp hg
    exact (hr.obj hf).obj hg
  have hswitch : ∀ o : Option Json, Each P (o.bind switch) := by
    intro o
    apply each_bind
    intro v _
    cases v with
    | bool b => exact each_some (hP.bool b)
    | _ => exact each_none
  simp only [ruleFields, List.forall_mem_append, List.forall_mem_cons, List.not_mem_nil,
    false_imp_iff, implies_true, and_true]
  refine ⟨⟨⟨each_some (hP.int _ (hr.int _ (by decide))), each_some (hP.string _),
    each_some (hP.int _ hhalf), each_bind fun o ho => each_ite (hP.groupInt hr (by decide) o ho),
    each_map fun _ _ => hP.bool _, each_map fun _ _ =>
      hP.bool _, each_map (hP.groupInt hr (by decide)),
    each_some (hP.bool _), each_ite (hP.bool _), hswitch _, hswitch _,
    each_map fun _ _ => hP.bool _, each_bind fun s _ => each_bind fun t _ => each_number hP t⟩,
    each_walkover hP hr⟩, each_map fun _ _ => hP.bool _, each_map (hP.groupInt hr (by decide)),
    each_map fun _ _ =>
    hP.bool _, hruleset, hoverrides, each_ruleField (hP.groupInt hr (by decide)),
    each_ruleField (hP.groupInt hr (by decide)), each_bind fun p _ =>
      ?_, each_ruleField fun _ _ => hP.bool _, each_ruleField fun _ _ =>
      hP.bool _, each_ruleField fun _ _ => hP.bool _,
    each_ruleField (hP.groupInt hr (by decide)), each_ruleField fun _ _ => hP.bool _,
    each_ruleField fun _ _ => hP.bool _, each_ruleField fun _ _ => hP.bool _,
    each_ruleField fun _ _ => hP.bool _, each_ruleField (hP.groupInt hr (by decide)),
    each_ruleField fun _ _ => hP.bool _, each_bind fun g _ => each_bind fun t _ => each_number hP t,
    each_ruleField fun g hg => hP.int _ ((hgg g hg).int _ (by decide))⟩
  split_ifs
  · exact each_none
  · exact each_some (hP.bool _)

theorem numericMatchId_lt (matchId : Bytes) : numericMatchId matchId < 2 ^ 53 := by
  have hmask : ∀ n : ℕ, n &&& (2 ^ 52 - 1) < 2 ^ 53 := fun n =>
    lt_of_le_of_lt Nat.and_le_right (by decide)
  rw [numericMatchId]
  dsimp only
  split_ifs with hdigits hzero hhash hzero hhash
  · simp only [isDigits, Bool.and_eq_true, decide_eq_true_eq, List.all_eq_true] at hdigits
    obtain ⟨⟨hne, hlen⟩, hall⟩ := hdigits
    rw [strtoull_digits (by simpa using hne) hall]
    have hlt := ofDigits_lt hall
    have hpow : 10 ^ matchId.length ≤ 10 ^ 15 := Nat.pow_le_pow_right (by decide) hlen
    omega
  · decide
  · exact hmask _
  · exact absurd rfl hzero
  · decide
  · exact hmask _

theorem inInt64_numericMatchId (matchId : Bytes) : InInt64 (numericMatchId matchId) := by
  have hlt := numericMatchId_lt matchId
  constructor <;> omega

theorem inInt64_max {i j : ℤ} (hi : InInt64 i) (hj : InInt64 j) : InInt64 (max i j) :=
  ⟨le_max_of_le_left hi.1, max_lt hi.2 hj.2⟩

theorem each_startersPerTeam (hP : Written P) (config : Json) :
    Each P (startersPerTeam config) := by
  have hzero : InInt64 0 := by decide
  have hstarters : ∀ key, InInt64 (starters config key) := fun key => inInt64_bmod _
  exact each_ite (hP.int _ (inInt64_max hzero (inInt64_max (hstarters _) (hstarters _))))

/-- A property of all fields of the translated configuration. -/
theorem each_configFields (hP : Written P) (matchId : Bytes) {config : Json} (h : Sound config)
    (hteam : ∀ key, P (team config key))
    (hspectators : P (ofFields [("players", some (spectatorPlayers config))]))
    (hcvars : P (cvars config)) (hruleset : Each P (get (rulesOf config) "ruleset"))
    (hoverrides : Each P (get (rulesOf config) "overrides")) :
    ∀ kv ∈ configFields matchId config, Each P kv.2 := by
  simp only [configFields, mapFields, List.forall_mem_append, List.forall_mem_cons,
    List.not_mem_nil, false_imp_iff, implies_true, and_true]
  exact ⟨⟨⟨⟨each_some (hP.int _ (inInt64_numericMatchId matchId)),
    each_some (hP.int _ (h.int _ (by decide))), each_some (hP.map _ _), each_some (hP.map _ _)⟩,
    each_some (hteam _), each_some (hteam _), each_startersPerTeam hP config, each_some hspectators,
    each_some (hP.map _ _), each_some (hP.map _ _)⟩,
    each_rules hP h hruleset hoverrides⟩, each_some hcvars⟩

end Each

section Parts

variable {config : Json}

theorem each_team {P : Json → Prop} (hP : Written P) (hnames : ∀ ps, P (nameList ps)) (src : Json)
    (ps : List Player) : ∀ kv ∈ teamFields src ps, Each P kv.2 := by
  have hnonempty : ∀ s, Each P (nonempty s) := by
    intro s
    rw [nonempty]
    split_ifs
    · exact each_none
    · exact each_some (hP.string s)
  have hlist : ∀ ps, Each P (nonemptyList ps) := by
    intro ps
    rw [nonemptyList]
    split_ifs
    · exact each_none
    · exact each_some (hnames ps)
  simp only [teamFields, List.forall_mem_cons, List.not_mem_nil, false_imp_iff,
    implies_true, and_true]
  exact ⟨each_some (hP.string _), hnonempty _, hnonempty _, each_some (hnames _), hlist _, hlist _,
    hnonempty _⟩

/-- Every spectator has a text, the name of a coach or none. -/
theorem spectatorPlayers_invariant {P : Json → Prop}
    (hstart : P (nameList ((allPlayers config).filter isCoach)))
    (hset : ∀ specs k, P specs → specs.find k = none → P (specs.set k (.string []))) :
    P (spectatorPlayers config) := by
  rw [spectatorPlayers]
  generalize nameList ((allPlayers config).filter isCoach) = specs at hstart
  induction (arr config "spectators").getD [] generalizing specs with
  | nil => exact hstart
  | cons s l ih =>
    refine ih _ ?_
    rw [addSpectator]
    split_ifs with hfind
    · exact hstart
    · exact hset _ _ hstart (by simpa using hfind)

theorem text_of_mem_cvars {k : Bytes} {v : Json}
    (h : (k, some v) ∈ ruleCvars config ++ ownCvars config) : ∃ s, v = .string s := by
  rcases List.mem_append.mp h with hm | hm
  · have htext : ∀ {o : Option Json}, Each (fun v => ∃ s, v = .string s) o → some v = o →
        ∃ s, v = .string s :=
      fun h ho => h v ho.symm
    simp only [ruleCvars, List.mem_cons, List.not_mem_nil, or_false, Prod.mk.injEq] at hm
    obtain ⟨-, h⟩ | ⟨-, h⟩ | ⟨-, h⟩ | ⟨-, h⟩ | ⟨-, h⟩ := hm
    · exact htext (each_some ⟨_, rfl⟩) h
    · exact htext (each_some ⟨_, rfl⟩) h
    · exact htext (each_some ⟨_, rfl⟩) h
    · exact htext (each_ruleField fun _ _ => ⟨_, rfl⟩) h
    · exact htext (each_ruleField fun _ _ => ⟨_, rfl⟩) h
  · obtain ⟨kv, -, heq⟩ := List.mem_map.mp hm
    exact ⟨_, (Option.some.inj (Prod.mk.inj heq).2).symm⟩

theorem written_sound : Written Sound where
  string := sound_string
  bool := sound_bool
  int _ := sound_int
  double := sound_double
  texts l := sound_texts id l

theorem sound_nameList (ps : List Player) : Sound (nameList ps) := by
  apply sound_ofMembers
  intro k v hm
  obtain ⟨p, -, heq⟩ := List.mem_map.mp hm
  cases (Prod.mk.inj heq).2
  exact sound_string _

theorem Sound.set {v w : Json} (hv : Sound v) (hw : Sound w) (k : Bytes) : Sound (v.set k w) := by
  refine ⟨hv.1.set hw.1 k, Json.all_object.mpr ⟨rfl, ?_⟩⟩
  intro j x hm
  rcases mem_assign hm with heq | hm
  · cases (Prod.mk.inj heq).2
    exact hw.2
  · exact (hv.mem hm).2

theorem sound_team (config : Json) (key : String) : Sound (team config key) := by
  rw [team]
  split
  · exact ⟨rfl, rfl⟩
  · exact sound_ofFields (each_team written_sound sound_nameList _ _)

theorem sound_cvars (config : Json) : Sound (cvars config) := by
  apply sound_ofMembers
  intro k v hm
  obtain ⟨s, rfl⟩ := text_of_mem_cvars hm
  exact sound_string s

theorem sound_matConfig (matchId : Bytes) (h : Sound config) :
    Sound (matConfig matchId config) := by
  have hspectators : Sound (spectatorPlayers config) :=
    spectatorPlayers_invariant (sound_nameList _) fun _ k hs _ => hs.set (sound_string []) k
  refine sound_ofFields (each_configFields written_sound matchId h (sound_team config) ?_
    (sound_cvars config) (fun _ hv => h.rulesOf.get hv) (fun _ hv => h.rulesOf.get hv))
  apply sound_ofFields
  rw [List.forall_mem_singleton]
  exact each_some hspectators

theorem sound_assignToMatConfig (matchId : Bytes) (h : Sound config) :
    Sound (assignToMatConfig matchId config) := by
  apply sound_ofFields
  simp only [List.forall_mem_cons, List.not_mem_nil, false_imp_iff, implies_true, and_true]
  exact ⟨each_some (sound_string matchId), each_some (sound_matConfig matchId h)⟩

end Parts

section Depth

variable {config : Json}

theorem depth_texts (l : List Bytes) : (Json.array (l.map .string)).depth ≤ 1 := by
  rw [Json.depth, Json.depthItems_le]
  intro v hv
  obtain ⟨s, -, rfl⟩ := List.mem_map.mp hv
  rfl

theorem written_depth (n : ℕ) : Written fun v => v.depth ≤ n + 1 where
  string _ := Nat.zero_le _
  bool _ := Nat.zero_le _
  int _ _ := Nat.zero_le _
  double _ := Nat.zero_le _
  texts l := (depth_texts l).trans (by omega)

theorem depth_ofFields_le {l : List (String × Option Json)} {n : ℕ}
    (h : ∀ kv ∈ l, Each (fun v => v.depth ≤ n) kv.2) : (ofFields l).depth ≤ n + 1 :=
  depth_ofMembers_le (forall_fields fun kv hkv v hv => Nat.succ_le_succ (h kv hkv v hv))

theorem depth_set_le {v : Json} {k s : Bytes} (h : v.depth ≤ 1) (hv : v.isObject = true) :
    (v.set k (.string s)).depth ≤ 1 := by
  cases v with
  | object ms =>
    rw [Json.set, Json.depth, Json.depthMembers_le]
    rw [Json.depth, Json.depthMembers_le] at h
    intro j w hm
    rcases mem_assign hm with heq | hm
    · cases (Prod.mk.inj heq).2
      rfl
    · exact h j w hm
  | _ => cases hv

theorem depth_nameList (ps : List Player) : (nameList ps).depth ≤ 1 := by
  apply depth_ofMembers_le
  intro k v hm
  obtain ⟨p, -, heq⟩ := List.mem_map.mp hm
  cases (Prod.mk.inj heq).2
  rfl

theorem depth_team (config : Json) (key : String) : (team config key).depth ≤ 2 := by
  rw [team]
  split
  · exact Nat.zero_le _
  · exact depth_ofFields_le (each_team (written_depth 0) depth_nameList _ _)

theorem depth_cvars (config : Json) : (cvars config).depth ≤ 1 := by
  apply depth_ofMembers_le
  intro k v hm
  obtain ⟨s, rfl⟩ := text_of_mem_cvars hm
  rfl

theorem depth_spectatorPlayers (config : Json) : (spectatorPlayers config).depth ≤ 1 := by
  have h : (spectatorPlayers config).depth ≤ 1 ∧ (spectatorPlayers config).isObject = true :=
    spectatorPlayers_invariant (P := fun v => v.depth ≤ 1 ∧ v.isObject = true)
      ⟨depth_nameList _, isObject_ofMembers _⟩ fun _ _ hs _ => ⟨depth_set_le hs.1 hs.2, rfl⟩
  exact h.1

/-- The translated configuration is only as deep as the ruleset and the overrides it carries. -/
theorem depth_assignToMatConfig (matchId : Bytes) {n : ℕ} (h : Sound config)
    (hruleset : Each (fun v => v.depth ≤ n + 2) (get (rulesOf config) "ruleset"))
    (hoverrides : Each (fun v => v.depth ≤ n + 2) (get (rulesOf config) "overrides")) :
    (assignToMatConfig matchId config).depth ≤ n + 4 := by
  have hspectators : (ofFields [("players", some (spectatorPlayers config))]).depth ≤ n + 2 := by
    refine (depth_ofFields_le (n := 1) ?_).trans (by omega)
    rw [List.forall_mem_singleton]
    exact each_some (depth_spectatorPlayers config)
  have hconfig : (matConfig matchId config).depth ≤ n + 3 :=
    depth_ofFields_le (each_configFields (written_depth (n + 1)) matchId h
      (fun key => (depth_team config key).trans (by omega)) hspectators
      ((depth_cvars config).trans (by omega)) hruleset hoverrides)
  refine depth_ofFields_le (n := n + 3) ?_
  simp only [List.forall_mem_cons, List.not_mem_nil, false_imp_iff, implies_true, and_true]
  exact ⟨each_some (Nat.zero_le _), each_some hconfig⟩

end Depth

section Read

variable {matchId : Bytes} {config : Json} {cfg : Value}

/-- The context that a server builds from an assignment. -/
def contextOf (server : Ruleset) (matchId : Bytes) (config : Json) :
    Except Bytes WebhookMatchContext :=
  parseWebhookMatchContextFromJson server (assignToMatConfig matchId config).dump

theorem ascii_configFields (matchId : Bytes) (config : Json) :
    (configFields matchId config).all (fun kv => isAscii kv.1) = true := by
  simp only [configFields, mapFields, ruleFields, walkoverFields, List.all_append, List.all_cons,
    List.all_nil]
  decide

theorem find_matConfig {key : String} (hkey : isAscii key = true) :
    (matConfig matchId config).find (ascii key) = lastField key (configFields matchId config) :=
  find_ofFields hkey (ascii_configFields matchId config)

/-- The match plugin reads what the translation assigned last. -/
theorem get_matConfig (h : ofJson (matConfig matchId config) = some cfg) {key : String}
    (hkey : isAscii key = true) :
    cfg.get key = (lastField key (configFields matchId config)).bind ofJson := by
  rw [get_ofJson h, find_matConfig hkey]

theorem ascii_wrapper :
    [("slug", some (Json.string matchId)), ("config", some (matConfig matchId config))].all
    (fun kv => isAscii kv.1) = true := by
  simp only [List.all_cons, List.all_nil]
  decide

theorem find_slug :
    (assignToMatConfig matchId config).find (ascii "slug") = some (.string matchId) := by
  rw [assignToMatConfig, find_ofFields (by decide) ascii_wrapper]
  simp [lastField]

theorem find_config : (assignToMatConfig matchId config).find (ascii "config") =
    some (matConfig matchId config) := by
  rw [assignToMatConfig, find_ofFields (by decide) ascii_wrapper]
  simp [lastField]

theorem configOf_wire : configOf (assignToMatConfig matchId config).wire =
    (matConfig matchId config).wire := by
  have hobject : (matConfig matchId config).wire.isObject = true :=
    (Json.isObject_wire _).trans (isObject_ofMembers _)
  rw [configOf, Json.find_wire, find_config, Option.map_some, Option.filter_some, hobject]
  rfl

theorem exists_ofJson_of_find {v w : Json} {x : Value} {k : Bytes} (h : ofJson v = some x)
    (hw : v.find k = some w) : ∃ y, ofJson w = some y := by
  cases v with
  | object ms =>
    obtain ⟨o, ho, rfl⟩ := Option.map_eq_some_iff.mp h
    have hkey : k ∈ keys o := by
      rw [keys_of_readMembers ho]
      exact mem_keys_of_mem (mem_of_lookup hw)
    have hlookup := lookup_of_readMembers ho k
    have hfind : ms.lookup k = some w := hw
    rw [hfind, Option.bind_some] at hlookup
    cases hy : ofJson w with
    | none =>
      rw [hy] at hlookup
      exact absurd hkey (lookup_eq_none.mp hlookup)
    | some y => exact ⟨y, rfl⟩
  | _ => cases hw

theorem get_matConfig_of_find {v : Json} {x : Value} {key : String}
    (h : ofJson (matConfig matchId config) = some cfg)
    (hv : (matConfig matchId config).find (ascii key) = some v) (hx : ofJson v = some x) :
    cfg.get key = some x := by
  rw [get_ofJson h, hv, Option.bind_some, hx]

theorem contextOf_ok {server : Ruleset} {ctx : WebhookMatchContext} (hsound : Sound config)
    (h : contextOf server matchId config = .ok ctx) :
    ∃ cfg id, ofJson (matConfig matchId config) = some cfg ∧
      applyRulesetToContext server (assignToMatConfig matchId config).dump
        (readContext cfg matchId id) = .ok ctx := by
  obtain ⟨hkeys, hrange⟩ := sound_assignToMatConfig matchId hsound
  rw [contextOf, parseWebhookMatchContextFromJson, parse_dump hkeys hrange] at h
  split at h
  · cases h
  · rename_i root hroot
    obtain ⟨cfg, hcfg⟩ := exists_ofJson_of_find hroot find_config
    have hget : root.get "config" = some cfg := by
      rw [get_ofJson hroot, find_config, Option.bind_some, hcfg]
    have hobject : cfg.isObject = true := (isObject_ofJson hcfg).trans (isObject_ofMembers _)
    have hfilter : (some cfg).filter (·.isObject) = some cfg := by
      rw [Option.filter_some, if_pos hobject]
    have hslug : textField root "slug" = matchId := by
      rw [textField, get_ofJson hroot, find_slug]
      rfl
    dsimp only at h
    rw [hget, hfilter, hslug] at h
    simp only [Option.getD_some, Option.isSome_some, if_true] at h
    split_ifs at h
    exact ⟨cfg, _, hcfg, h⟩

theorem ascii_teamFields (src : Json) (ps : List Player) :
    (teamFields src ps).all (fun kv => isAscii kv.1) = true := by
  simp only [teamFields, List.all_cons, List.all_nil]
  decide

theorem teamValue_matConfig (h : ofJson (matConfig matchId config) = some cfg) {key : String}
    (hkey : key = "team1" ∨ key = "team2") :
    ofJson (team config key) = some (teamValue cfg key) := by
  have hfind : (matConfig matchId config).find (ascii key) = some (team config key) := by
    rcases hkey with rfl | rfl
    · rw [find_matConfig (by decide)]
      simp [lastField, configFields, mapFields, ruleFields, walkoverFields]
    · rw [find_matConfig (by decide)]
      simp [lastField, configFields, mapFields, ruleFields, walkoverFields]
  obtain ⟨t, ht⟩ := exists_ofJson_of_find h hfind
  have hget : cfg.get key = some t := by
    rw [get_ofJson h, hfind, Option.bind_some, ht]
  have hobject : t.isObject = true := by
    refine (isObject_ofJson ht).trans ?_
    rw [team]
    split
    · rfl
    · exact isObject_ofMembers _
  rw [teamValue, hget]
  cases t with
  | object o => exact ht
  | _ => cases hobject

theorem get_teamValue (h : ofJson (matConfig matchId config) = some cfg) {key : String}
    (hkey : key = "team1" ∨ key = "team2") {src : Json} (hsrc : obj config key = some src)
    {field : String} (hfield : isAscii field = true) : (teamValue cfg key).get field =
      (lastField field (teamFields src (teamPlayers config key))).bind ofJson := by
  have hteam := teamValue_matConfig h hkey
  rw [get_ofJson hteam, team, hsrc]
  exact congrArg (·.bind ofJson) (find_ofFields hfield (ascii_teamFields _ _))

theorem teamName_matConfig (h : ofJson (matConfig matchId config) = some cfg) {key : String}
    (hkey : key = "team1" ∨ key = "team2") {src : Json} (hsrc : obj config key = some src) :
    textField (teamValue cfg key) "name" = str src "name" [] := by
  rw [textField, get_teamValue h hkey hsrc (by decide)]
  simp [lastField, teamFields]
  rfl

end Read

section Ruleset

variable {server rs : Ruleset} {overrides : RuleMap} {matchId : Bytes} {config : Json}

/-- The ruleset and the overrides of an accepted configuration. -/
theorem exists_ruleChoice (h : validateRuleset server config = .ok ()) :
    ∃ choice, ruleChoice server (rulesOf config) = .ok choice := by
  obtain ⟨choice, hchoice, -⟩ := bind_eq_ok.mp h
  exact ⟨choice, hchoice⟩

theorem chosenRuleset_ok {rules : Json} (h : chosenRuleset server rules = .ok rs) :
    get rules "ruleset" = none ∧ rs = server ∨
      ∃ s, get rules "ruleset" = some (.string s) ∧ parseRuleset s = some rs := by
  unfold chosenRuleset at h
  split at h
  · rename_i hnone
    cases h
    exact .inl ⟨hnone, rfl⟩
  · rename_i s hs
    split at h
    · rename_i rs' hparse
      cases h
      exact .inr ⟨s, hs, hparse⟩
    · cases h
  · cases h

theorem chosenOverrides_ok {rules : Json} (h : chosenOverrides rules = .ok overrides) :
    get rules "overrides" = none ∧ overrides = [] ∨
      ∃ o, get rules "overrides" = some o ∧ parseOverrides o = .ok overrides := by
  rw [chosenOverrides] at h
  split at h
  · rename_i hnone
    cases h
    exact .inl ⟨hnone, rfl⟩
  · rename_i o ho
    refine .inr ⟨o, ho, ?_⟩
    cases hparse : parseOverrides o with
    | error e =>
      rw [hparse] at h
      cases h
    | ok m =>
      rw [hparse] at h
      cases h
      rfl

theorem ruleChoice_ok {rules : Json} (h : ruleChoice server rules = .ok (rs, overrides)) :
    chosenRuleset server rules = .ok rs ∧ chosenOverrides rules = .ok overrides := by
  obtain ⟨rs', hrs, h⟩ := bind_eq_ok.mp h
  obtain ⟨overrides', hov, h⟩ := bind_eq_ok.mp h
  cases h
  exact ⟨hrs, hov⟩

theorem parse_assignToMatConfig (hsound : Sound config) {choice : Ruleset × RuleMap}
    (h : ruleChoice server (rulesOf config) = .ok choice) :
    Json.parse (assignToMatConfig matchId config).dump =
      some (assignToMatConfig matchId config).wire := by
  obtain ⟨hkeys, hrange⟩ := sound_assignToMatConfig matchId hsound
  obtain ⟨rs, overrides⟩ := choice
  obtain ⟨hruleset, hoverrides⟩ := ruleChoice_ok h
  have hdepth : (assignToMatConfig matchId config).depth ≤ 0 + 4 := by
    apply depth_assignToMatConfig matchId hsound
    · intro v hv
      rcases chosenRuleset_ok hruleset with ⟨hnone, -⟩ | ⟨s, hs, -⟩
      · rw [hnone] at hv
        cases hv
      · rw [hs] at hv
        cases hv
        exact Nat.zero_le _
    · intro v hv
      rcases chosenOverrides_ok hoverrides with ⟨hnone, -⟩ | ⟨o, ho, hparse⟩
      · rw [hnone] at hv
        cases hv
      · rw [ho] at hv
        cases hv
        exact depth_of_parseOverrides hparse
  exact Json.parse_dump hkeys hrange (hdepth.trans (by decide))

theorem applyRulesetToContext_assigned (hsound : Sound config) {choice : Ruleset × RuleMap}
    (h : ruleChoice server (rulesOf config) = .ok choice) (ctx : WebhookMatchContext) :
    applyRulesetToContext server (assignToMatConfig matchId config).dump ctx =
      applyRuleset server (matConfig matchId config).wire ctx := by
  have hobject : (assignToMatConfig matchId config).wire.isObject = true :=
    (Json.isObject_wire _).trans (isObject_ofMembers _)
  rw [applyRulesetToContext, parse_assignToMatConfig hsound h, ← configOf_wire]
  cases hwire : (assignToMatConfig matchId config).wire with
  | object ms => rfl
  | _ =>
    rw [hwire] at hobject
    cases hobject

theorem find_ruleset : (matConfig matchId config).wire.find (ascii "ruleset") =
    (get (rulesOf config) "ruleset").map Json.wire := by
  rw [Json.find_wire, find_matConfig (by decide)]
  simp [lastField, configFields, mapFields, ruleFields, walkoverFields]

theorem find_overrides : (matConfig matchId config).wire.find (ascii "overrides") =
    (get (rulesOf config) "overrides").map Json.wire := by
  rw [Json.find_wire, find_matConfig (by decide)]
  simp [lastField, configFields, mapFields, ruleFields, walkoverFields]

theorem namedRuleset_assigned (h : ruleChoice server (rulesOf config) = .ok (rs, overrides)) :
    namedRuleset server (matConfig matchId config).wire = .ok rs := by
  unfold namedRuleset
  rw [find_ruleset]
  rcases chosenRuleset_ok (ruleChoice_ok h).1 with ⟨hnone, rfl⟩ | ⟨s, hs, hparse⟩
  · rw [hnone]
    rfl
  · have hwire : (Json.string s).wire = .string s := by simp [Json.wire]
    rw [hs, Option.map_some, hwire]
    dsimp only
    rw [hparse]

/-- The match plugin reads the overrides of the configuration. -/
theorem namedOverrides_assigned (h : ruleChoice server (rulesOf config) = .ok (rs, overrides)) :
    namedOverrides (matConfig matchId config).wire = .ok overrides := by
  unfold namedOverrides
  rw [find_overrides]
  rcases chosenOverrides_ok (ruleChoice_ok h).2 with ⟨hnone, rfl⟩ | ⟨o, ho, hparse⟩
  · rw [hnone]
    rfl
  · rw [ho, Option.map_some]
    exact parseOverrides_wire hparse

/-- A context is built with the ruleset and the overrides of its configuration. -/
theorem ruled_contextOf {ctx : WebhookMatchContext} (hsound : Sound config)
    (hchoice : ruleChoice server (rulesOf config) = .ok (rs, overrides))
    (h : contextOf server matchId config = .ok ctx) :
    ∃ cfg id ctx₁ rs₁, ofJson (matConfig matchId config) = some cfg ∧
      withRuleset (readContext cfg matchId id) (matConfig matchId config).wire rs =
        .ok (ctx₁, rs₁) ∧
        ctx = ruled { ctx₁ with overridesJson := overridesToText overrides } rs₁ overrides := by
  obtain ⟨cfg, id, hcfg, happly⟩ := contextOf_ok hsound h
  rw [applyRulesetToContext_assigned hsound hchoice] at happly
  obtain ⟨named, hnamed, happly⟩ := bind_eq_ok.mp happly
  obtain rfl : rs = named := Except.ok.inj ((namedRuleset_assigned hchoice).symm.trans hnamed)
  obtain ⟨⟨ctx₁, rs₁⟩, hruleset, happly⟩ := bind_eq_ok.mp happly
  obtain ⟨overrides', hoverrides, happly⟩ := bind_eq_ok.mp happly
  obtain rfl : overrides = overrides' :=
    Except.ok.inj ((namedOverrides_assigned hchoice).symm.trans hoverrides)
  obtain ⟨-, -, happly⟩ := bind_eq_ok.mp happly
  exact ⟨cfg, id, ctx₁, rs₁, hcfg, hruleset, (Except.ok.inj happly).symm⟩

end Ruleset

end ReadyUp.Config.Assign
