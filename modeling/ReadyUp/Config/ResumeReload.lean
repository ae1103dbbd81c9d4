import ReadyUp.Config.JsonEdits
import ReadyUp.Config.ResumeValid
import ReadyUp.Status.Hub

/-!
# A resume over a reload

A reload of the plugin writes the plan as JSON and reads it again. The writer gives doubles ten
digits, so the statistics that came with the resume may change; everything else but the bytes of the
backup is kept (`resume_kept_iff`).
-/
namespace ReadyUp.Config.Resume

open Support JsonScan Status Assign

variable {resume config : Json} {epoch : ℤ} {p : ResumePlan}

section Narrowed

/-- The numbers of a plan are ints, and its statistics an object if there are any. -/
structure Narrowed (p : ResumePlan) : Prop where
  fromEpoch : InInt64 p.fromEpoch
  mapNumber : InInt32 p.mapNumber
  round : InInt32 p.round
  series : InInt32 p.seriesTeam1 ∧ InInt32 p.seriesTeam2
  mapsDone : ∀ m ∈ p.mapsDone, InInt32 m.mapNumber ∧ InInt32 m.team1 ∧ InInt32 m.team2
  score : InInt32 p.scoreTeam1 ∧ InInt32 p.scoreTeam2

theorem scorePair_inInt32 {o : Option Json} {ab : ℤ × ℤ} (h : scorePair toInt32 o = some ab) :
    InInt32 ab.1 ∧ InInt32 ab.2 := by
  obtain ⟨xy, -, rfl⟩ := Option.map_eq_some_iff.mp h
  exact ⟨inInt32_toInt32 _, inInt32_toInt32 _⟩

theorem inInt32_small {i : ℤ} (h : -1 ≤ i ∧ i ≤ 0) : InInt32 i := ⟨by omega, by omega⟩

theorem atoi_inInt32 (s : Bytes) : InInt32 (atoi s) := inInt32_toInt32 _

theorem resumeSeries_inInt32 {ab : ℤ × ℤ} (h : resumeSeries toInt32 resume = .ok ab) :
    InInt32 ab.1 ∧ InInt32 ab.2 := by
  unfold resumeSeries at h
  split at h
  · obtain rfl := Except.ok.inj h
    exact ⟨inInt32_small (by norm_num), inInt32_small (by norm_num)⟩
  · split at h
    · rename_i xy hxy
      obtain rfl := Except.ok.inj h
      exact scorePair_inInt32 hxy
    · cases h

theorem getD_inInt32 {o : Option (ℤ × ℤ)} {ab : ℤ × ℤ}
    (ho : ∀ xy, o = some xy → InInt32 xy.1 ∧ InInt32 xy.2)
    (hab : InInt32 ab.1 ∧ InInt32 ab.2) : InInt32 (o.getD ab).1 ∧ InInt32 (o.getD ab).2 := by
  cases o with
  | none => exact hab
  | some xy => exact ho xy rfl

theorem resumeScore_inInt32 {backup : Backup} {ab : ℤ × ℤ}
    (h : resumeScore toInt32 resume backup = .ok ab) : InInt32 ab.1 ∧ InInt32 ab.2 := by
  unfold resumeScore at h
  have hbase := @getD_inInt32 (scorePair toInt32 backup.score) (-1, -1) (fun _ => scorePair_inInt32)
    ⟨inInt32_small (by norm_num), inInt32_small (by norm_num)⟩
  split at h
  · split at h
    · rename_i xy hxy
      obtain rfl := Except.ok.inj h
      exact scorePair_inInt32 hxy
    · cases h
  · simp only at h
    split_ifs at h
    · obtain rfl := Except.ok.inj h
      apply getD_inInt32 _ hbase
      intro xy hxy
      obtain ⟨ab, -, rfl⟩ := Option.map_eq_some_iff.mp hxy
      exact ⟨inInt32_toInt32 _, inInt32_toInt32 _⟩
    · obtain rfl := Except.ok.inj h
      exact hbase

theorem collect_inInt32 {l : List (Bytes × Json)} {ms : List MapResult}
    (h : collect (mapResult toInt32) l = .ok ms) :
    ∀ m ∈ ms, InInt32 m.mapNumber ∧ InInt32 m.team1 ∧ InInt32 m.team2 := by
  rw [collect_eq_ok] at h
  induction h with
  | nil => simp
  | @cons kv m l ms hm _ ih =>
    rw [List.forall_mem_cons]
    refine ⟨?_, ih⟩
    unfold mapResult at hm
    obtain ⟨⟨⟩, -, hm⟩ := bind_eq_ok.mp hm
    obtain rfl := Except.ok.inj hm
    have hpair :=
      @getD_inInt32 (scorePair toInt32 (get kv.2 "score")) (0, 0) (fun _ => scorePair_inInt32)
      ⟨inInt32_small (by norm_num), inInt32_small (by norm_num)⟩
    exact ⟨atoi_inInt32 _, hpair⟩

theorem resumeEpoch_inInt64 {e : ℤ} (hresume : Within Json.inRange resume)
    (h : resumeEpoch resume epoch = .ok e) : InInt64 e := by
  unfold resumeEpoch at h
  split at h
  · obtain rfl := Except.ok.inj h
    exact ⟨by norm_num, by norm_num⟩
  · rename_i i hi
    obtain ⟨⟨⟩, -, h⟩ := bind_eq_ok.mp h
    obtain ⟨⟨⟩, -, h⟩ := bind_eq_ok.mp h
    obtain rfl := Except.ok.inj h
    exact of_decide_eq_true (hresume.get scalar_inRange hi).all
  · cases h

theorem narrowed_of_parseResume (hresume : Within Json.inRange resume)
    (h : parseResume resume config epoch = .ok p) : Narrowed p := by
  obtain ⟨backup, n, hreads⟩ := parseResumeBy_eq_ok.mp h
  constructor
  · exact resumeEpoch_inInt64 hresume hreads.fromEpoch
  · rw [hreads.mapNumber]
    exact inInt32_toInt32 n
  · rw [hreads.round]
    exact inInt32_toInt32 _
  · exact resumeSeries_inInt32 hreads.series
  · exact collect_inInt32 hreads.mapsDone
  · exact resumeScore_inInt32 hreads.score

theorem mapStats_of_parseResume (h : parseResume resume config epoch = .ok p) :
    (get resume "map_stats" = none ∧ p.mapStats = .null) ∨
      (get resume "map_stats" = some p.mapStats ∧ p.mapStats.isObject = true) := by
  obtain ⟨backup, n, hreads⟩ := parseResumeBy_eq_ok.mp h
  have hstats := hreads.mapStats
  unfold resumeStats at hstats
  split at hstats
  · rename_i hnone
    exact .inl ⟨hnone, (Except.ok.inj hstats).symm⟩
  · rename_i ms hms
    split_ifs at hstats with hobj
    rw [← Except.ok.inj hstats]
    exact .inr ⟨hms, hobj⟩

end Narrowed

section Writing

/-- A value that the writer and the reader take at so many levels. -/
def Writable (n : ℕ) (v : Json) : Prop := Within Json.inRange v ∧ v.depth + 1 ≤ n

theorem writable_int {n : ℕ} {i : ℤ} (h : InInt64 i) : Writable (n + 1) (.int i) :=
  ⟨⟨rfl, decide_eq_true h⟩, by simp [Json.depth]⟩

theorem writable_bool (n : ℕ) (b : Bool) : Writable (n + 1) (.bool b) :=
  ⟨⟨rfl, rfl⟩, by simp [Json.depth]⟩

theorem writable_string (n : ℕ) (s : Bytes) : Writable (n + 1) (.string s) :=
  ⟨⟨rfl, rfl⟩, by simp [Json.depth]⟩

theorem writable_ofFields {n : ℕ} {l : List (String × Option Json)}
    (h : ∀ kv ∈ l, ∀ v ∈ kv.2, Writable n v) : Writable (n + 1) (ofFields l) := by
  have hmembers := forall_fields h
  exact ⟨⟨uniqueKeys_ofMembers fun k v hm => (hmembers k v hm).1.unique,
    all_ofMembers (fun _ => rfl) fun k v hm => (hmembers k v hm).1.all⟩,
    Nat.succ_le_succ (depth_ofMembers_le fun k v hm => (hmembers k v hm).2)⟩

theorem writable_mapResultToJson {m : MapResult} (n : ℕ)
    (h : InInt32 m.mapNumber ∧ InInt32 m.team1 ∧ InInt32 m.team2) :
    Writable (n + 2) (mapResultToJson m) := by
  obtain ⟨hnumber, hteam1, hteam2⟩ := h
  apply writable_ofFields
  simp only [List.forall_mem_cons, Option.mem_def, Option.some.injEq, forall_eq']
  exact ⟨writable_int hnumber.inInt64, writable_int hteam1.inInt64,
    writable_int hteam2.inInt64, writable_string n m.winner, by simp⟩

theorem writable_array {n : ℕ} {vs : List Json} (h : ∀ v ∈ vs, Writable n v) :
    Writable (n + 1) (.array vs) :=
  ⟨(within_array_iff scalar_inRange).mpr fun v hv => (h v hv).1,
    Nat.succ_le_succ (Json.depth_array_le fun v hv => (h v hv).2)⟩

theorem writable_resumeToJson (hp : Narrowed p) (hstats : Writable 64 p.mapStats) :
    Writable 65 (resumeToJson p) := by
  obtain ⟨hepoch, hnumber, hround, hseries, hdone, hscore⟩ := hp
  have hint : ∀ {i : ℤ}, InInt32 i → Writable 64 (.int i) := fun hi => writable_int hi.inInt64
  apply writable_ofFields
  simp only [List.forall_mem_cons, Option.mem_def, Option.some.injEq, forall_eq']
  refine ⟨writable_bool _ _, writable_int hepoch, hint hnumber, hint hround, writable_bool _ _,
    writable_string _ _, writable_string _ _, hint hseries.1, hint hseries.2, ?_,
    writable_string _ _, hint hscore.1, hint hscore.2,
    writable_string _ _, hstats, writable_bool _ _, by simp⟩
  apply writable_array
  rw [List.forall_mem_map]
  exact fun m hm => writable_mapResultToJson 61 (hdone m hm)

end Writing

section Reading

theorem get_wire {v w : Json} {key : String} (h : get v key = some w) :
    get v.wire key = some w.wire := by
  unfold Assign.get at h ⊢
  rw [Json.find_wire, h]
  rfl

variable {v : Json} {key : String}

theorem int_wire {i dflt : ℤ} (h : get v key = some (.int i)) : int v.wire key dflt = i := by
  unfold int
  rw [get_wire h]
  simp [Json.wire]

theorem str_wire {s dflt : Bytes} (h : get v key = some (.string s)) : str v.wire key dflt = s := by
  unfold str
  rw [get_wire h]
  simp [Json.wire]

theorem bool_wire {b dflt : Bool} (h : get v key = some (.bool b)) : bool v.wire key dflt = b := by
  unfold Assign.bool
  rw [get_wire h]
  simp [Json.wire]

theorem int32_wire {i dflt : ℤ} (h : get v key = some (.int i)) (hi : InInt32 i) :
    toInt32 (int v.wire key dflt) = i := by
  rw [int_wire h, toInt32_eq_self_iff.mpr hi]

theorem get_ofFields {l : List (String × Option Json)} (hl : l.all (fun kv => isAscii kv.1) = true)
    (hkey : isAscii key = true) {w : Json} (h : lastField key l = some w) :
    get (ofFields l) key = some w :=
  (find_ofFields hkey hl).trans h

theorem mapResultFromJson_wire {m : MapResult}
    (h : InInt32 m.mapNumber ∧ InInt32 m.team1 ∧ InInt32 m.team2) :
    mapResultFromJson (mapResultToJson m).wire = m := by
  have hget :
      ∀ {key : String} {w : Json}, isAscii key = true → _ → get (mapResultToJson m) key = some w :=
    fun hkey => get_ofFields (by simp only [List.all_cons, List.all_nil]; decide) hkey
  obtain ⟨hnumber, hteam1, hteam2⟩ := h
  unfold mapResultFromJson
  rw [int32_wire (hget (by decide) (by simp [lastField])) hnumber,
    int32_wire (hget (by decide) (by simp [lastField])) hteam1,
    int32_wire (hget (by decide) (by simp [lastField])) hteam2,
    @str_wire _ "winner" m.winner _ (hget (by decide) (by simp [lastField]))]

theorem resumeFromJson_wire (hp : Narrowed p)
    (hstats : p.mapStats = .null ∨ p.mapStats.isObject = true) :
    resumeFromJson (resumeToJson p).wire = { p with raw := [], mapStats := p.mapStats.wire } := by
  have hget :
      ∀ {key : String} {w : Json}, isAscii key = true → _ → get (resumeToJson p) key = some w :=
    fun hkey => get_ofFields (by simp only [List.all_cons, List.all_nil]; decide) hkey
  obtain ⟨hepoch, hnumber, hround, hseries, hdone, hscore⟩ := hp
  have hobject : (resumeToJson p).wire.isObject = true :=
    (Json.isObject_wire _).trans (isObject_ofMembers _)
  have harr :
      ((arr (resumeToJson p).wire "maps_done").getD []).map mapResultFromJson = p.mapsDone := by
    have harray :=
      get_wire (@hget "maps_done" (.array (p.mapsDone.map mapResultToJson)) (by decide)
        (by simp [lastField]))
    unfold arr
    rw [harray, Json.wire, Json.wireItems_eq, Option.getD_some, List.map_map, List.map_map]
    refine (List.map_congr_left fun m hm => ?_).trans (List.map_id p.mapsDone)
    exact mapResultFromJson_wire (hdone m hm)
  have hobj : (obj (resumeToJson p).wire "map_stats").getD .null = p.mapStats.wire := by
    have hmember := get_wire (@hget "map_stats" p.mapStats (by decide) (by simp [lastField]))
    unfold obj
    rw [hmember]
    rcases hstats with hnull | hobj
    · rw [hnull]
      rfl
    · have hwire := (Json.isObject_wire p.mapStats).trans hobj
      rw [Option.filter_some, if_pos hwire, Option.getD_some]
  have hpresent := @bool_wire _ "present" p.present false (hget (by decide) (by simp [lastField]))
  have hfrom := @int_wire _ "from_epoch" p.fromEpoch 0 (hget (by decide) (by simp [lastField]))
  have hmap :=
    @int32_wire _ "map_number" p.mapNumber 1 (hget (by decide) (by simp [lastField])) hnumber
  have hround' := @int32_wire _ "round" p.round 0 (hget (by decide) (by simp [lastField])) hround
  have hinline :=
    @bool_wire _ "inline_backup" p.inlineBackup false (hget (by decide) (by simp [lastField]))
  have hfile := @str_wire _ "file" p.file [] (hget (by decide) (by simp [lastField]))
  have hsha := @str_wire _ "sha256" p.sha256 [] (hget (by decide) (by simp [lastField]))
  have hseries1 :=
    @int32_wire _ "series_team1" p.seriesTeam1 0 (hget (by decide) (by simp [lastField])) hseries.1
  have hseries2 :=
    @int32_wire _ "series_team2" p.seriesTeam2 0 (hget (by decide) (by simp [lastField])) hseries.2
  have hsides := @str_wire _ "sides" p.sides [] (hget (by decide) (by simp [lastField]))
  have hscore1 :=
    @int32_wire _ "score_team1" p.scoreTeam1 (-1) (hget (by decide) (by simp [lastField])) hscore.1
  have hscore2 :=
    @int32_wire _ "score_team2" p.scoreTeam2 (-1) (hget (by decide) (by simp [lastField])) hscore.2
  have hside := @str_wire _ "team1_side" p.team1Side [] (hget (by decide) (by simp [lastField]))
  have hpause :=
    @bool_wire _ "pause_after_restore" p.pauseAfterRestore true
      (hget (by decide) (by simp [lastField]))
  unfold resumeFromJson
  rw [if_pos hobject, hpresent, hfrom, hmap, hround', hinline, hfile, hsha, hseries1, hseries2,
    harr, hsides, hscore1, hscore2, hside, hobj, hpause]

end Reading

section Reload

/-- What is read back of an accepted resume is the plan without the bytes of the backup, exactly
when every double of its statistics is what its own ten digits say. -/
theorem resume_kept_iff {resume : Document} (hdepth : resume.value.depth ≤ 64)
    (h : parseResume resume.value config epoch = .ok p) :
    ∃ j, Json.parse (resumeToJson p).dump = some j ∧ ({ resumeFromJson j with raw := p.raw } = p ↔
      ∀ ms, get resume.value "map_stats" = some ms → ms.wire = ms) := by
  have hresume : Within Json.inRange resume.value := ⟨resume.uniqueKeys, resume.inRange⟩
  have hnarrowed := narrowed_of_parseResume hresume h
  have hstats := mapStats_of_parseResume h
  have hwritable : Writable 64 p.mapStats := by
    rcases hstats with ⟨-, hnull⟩ | ⟨hget, -⟩
    · rw [hnull]
      exact ⟨⟨rfl, rfl⟩, by simp [Json.depth]⟩
    · refine ⟨hresume.get scalar_inRange hget, ?_⟩
      cases hv : resume.value with
      | object ms =>
        rw [hv] at hdepth hget
        exact Json.depthMembers_le.mp hdepth _ _ (mem_of_lookup hget)
      | _ =>
        rw [hv] at hget
        cases hget
  obtain ⟨hwithin, hlevels⟩ := writable_resumeToJson hnarrowed hwritable
  refine ⟨_, Json.parse_dump hwithin.unique hwithin.all (by omega), ?_⟩
  rw [resumeFromJson_wire hnarrowed (hstats.imp And.right And.right)]
  have hfields :
      { p with raw := p.raw, mapStats := p.mapStats.wire } = p ↔ p.mapStats.wire = p.mapStats := by
    cases p
    simp
  refine hfields.trans ?_
  rcases hstats with ⟨hnone, hnull⟩ | ⟨hget, -⟩
  · rw [hnone, hnull]
    simp [Json.wire]
  · rw [hget]
    simp

def withStats (stats : Json) : Json :=
  ofFields [("map_number", some (.int 1)), ("map_stats", some stats)]

def someDamage : Document where
  value := withStats (ofFields [("adr", some (.int 80))])
  uniqueKeys := by decide
  inRange := by decide

theorem resume_kept_iff_someDamage : ∃ p, parseResume someDamage.value oneMap 1 = .ok p ∧
    ∃ j, Json.parse (resumeToJson p).dump = some j ∧
    { resumeFromJson j with raw := p.raw } = p := by
  have hok : (parseResume someDamage.value oneMap 1).toOption.isSome = true := by decide
  obtain ⟨p, hp⟩ := Option.isSome_iff_exists.mp hok
  obtain ⟨j, hj, hkept⟩ := resume_kept_iff (by decide) (eq_ok_of_toOption hp)
  refine ⟨p, eq_ok_of_toOption hp, j, hj, hkept.mpr fun ms hms => ?_⟩
  obtain rfl := Option.some.inj hms
  exact Json.wire_eq_self (by decide)

/-- Statistics with a damage of `0.0`. -/
def noDamage : Document where
  value := withStats (ofFields [("adr", some (.double ⟨false, ⟨0, Nat.two_pow_pos 63⟩⟩))])
  uniqueKeys := by decide
  inRange := by decide

theorem exists_plan_noDamage : ∃ p, parseResume noDamage.value oneMap 1 = .ok p := by
  have hok : (parseResume noDamage.value oneMap 1).toOption.isSome = true := by decide
  obtain ⟨p, hp⟩ := Option.isSome_iff_exists.mp hok
  exact ⟨p, eq_ok_of_toOption hp⟩

/-- The damage comes back as the integer 0. -/
theorem noDamage_changed : ∃ p, parseResume noDamage.value oneMap 1 = .ok p ∧
    ∃ j, Json.parse (resumeToJson p).dump = some j ∧
    { resumeFromJson j with raw := p.raw } ≠ p := by
  obtain ⟨p, hp⟩ := exists_plan_noDamage
  have hresume : Within Json.inRange noDamage.value := ⟨noDamage.uniqueKeys, noDamage.inRange⟩
  have hnarrowed := narrowed_of_parseResume hresume hp
  have hstats := mapStats_of_parseResume hp
  have hvalue : p.mapStats = ofFields [("adr", some (.double ⟨false, 0⟩))] := by
    rcases hstats with ⟨hnone, -⟩ | ⟨hget, -⟩
    · cases hnone
    · exact (Option.some.inj hget).symm
  obtain ⟨hwithin, hlevels⟩ := writable_resumeToJson hnarrowed (by
    rw [hvalue]
    exact ⟨⟨by decide, by decide⟩, by decide⟩)
  refine ⟨p, hp, _, Json.parse_dump hwithin.unique hwithin.all (by omega), ?_⟩
  rw [resumeFromJson_wire hnarrowed (hstats.imp And.right And.right)]
  intro hsame
  have hkept := congrArg ResumePlan.mapStats hsame
  simp only [hvalue] at hkept
  have hdouble :
      get (ofFields [("adr", some (.double ⟨false, 0⟩))]) "adr" = some (.double ⟨false, 0⟩) := rfl
  have hint : (Json.double ⟨false, 0⟩).wire = .int 0 := rfl
  have hfind := congrArg (get · "adr") hkept
  simp only [get_wire hdouble, hdouble, hint, Option.some.injEq] at hfind
  cases hfind

end Reload

end ReadyUp.Config.Resume
