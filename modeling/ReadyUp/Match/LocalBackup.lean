import Mathlib.Data.Int.ConditionallyCompleteOrder
import ReadyUp.Match.BackupFiles
import ReadyUp.Support.FirstMax
import ReadyUp.Support.Table

/-!
# The backup that is listed and the backup that is loaded

Two functions go through the backup directories. The list takes regular files with a proper name and
keeps the newest for each map and round. The restore takes the first entry whose name begins right
and has the round in its last tag, whatever stands behind it and whatever kind of entry it is.
`NewestFirst` says of the directories when both come to the same file.
-/
namespace ReadyUp.Backups

open ReadyUp.Support

/-- An entry of a directory, in the order in which the directory is read. -/
structure DirEntry where
  name : Bytes
  regular : Bool := true
  mtime : ℤ := 0
  size : ℤ := 0
  deriving DecidableEq, Repr

/-- The first entry that the name test lets through, over all directories. -/
def findLocalBackup (dirs : List (List DirEntry)) (namePrefix : Bytes) (round : ℤ) :
    Option DirEntry :=
  dirs.flatten.find? fun e =>
    decide (namePrefix <+: e.name) && decide (backupRoundFromName e.name + 1 = round)

def listed (matchid : ℕ) (e : DirEntry) : Option BackupInfo :=
  match parseBackupFileName e.name matchid with
  | none => none
  | some b => if e.regular then some { b with mtime := e.mtime, size := e.size } else none

def BackupInfo.key (b : BackupInfo) : ℤ × ℤ := (b.mapNumber, b.round)

def keepNewest (best : Table (ℤ × ℤ) BackupInfo) (b : BackupInfo) : Table (ℤ × ℤ) BackupInfo :=
  match best.lookup b.key with
  | none => best.insert b.key b
  | some old => if b.mtime > old.mtime then best.insert b.key b else best

/-- One backup for each map and round, the newest, in the order of the keys. -/
def sortBackups (l : List BackupInfo) : List BackupInfo :=
  ((l.foldl keepNewest ∅).entries.map (·.2)).insertionSort fun x y =>
    x.mapNumber < y.mapNumber ∨ x.mapNumber = y.mapNumber ∧ x.round ≤ y.round

def listBackups (dirs : List (List DirEntry)) (matchid : ℕ) : List BackupInfo :=
  sortBackups (dirs.flatten.filterMap (listed matchid))

/-! ## What the list holds -/

/-- Of two backups for a key the newer one, and the old one where neither is. -/
def newer (old : Option BackupInfo) (b : BackupInfo) : BackupInfo :=
  match old with
  | none => b
  | some old => if b.mtime > old.mtime then b else old

theorem lookup_keepNewest (best : Table (ℤ × ℤ) BackupInfo) (b : BackupInfo) (k : ℤ × ℤ) :
    (keepNewest best b).lookup k =
      if k = b.key then some (newer (best.lookup k) b) else best.lookup k := by
  unfold keepNewest
  by_cases hk : k = b.key
  · subst hk
    rw [if_pos rfl]
    cases hold : best.lookup b.key with
    | none => exact AList.lookup_insert best
    | some old =>
      by_cases hnew : b.mtime > old.mtime
      · simp [newer, hnew]
      · simp [newer, hnew, hold]
  · rw [if_neg hk]
    cases best.lookup b.key with
    | none => exact AList.lookup_insert_ne hk
    | some old =>
      dsimp only
      split_ifs
      · exact AList.lookup_insert_ne hk
      · rfl

theorem lookup_foldl_keepNewest (l : List BackupInfo) (k : ℤ × ℤ) :
    (l.foldl keepNewest ∅).lookup k = (l.filter (·.key = k)).argmax (·.mtime) := by
  induction l using List.reverseRecOn with
  | nil => rfl
  | append_singleton l b ih =>
    rw [List.foldl_append, List.foldl_cons, List.foldl_nil, lookup_keepNewest, ih,
      List.filter_append]
    by_cases hk : k = b.key
    · have hone : [b].filter (·.key = k) = [b] := by simp [hk]
      rw [if_pos hk, hone, List.argmax_concat]
      cases hold : (l.filter (·.key = k)).argmax (·.mtime) with
      | none => rfl
      | some old =>
        unfold newer
        by_cases hnew : old.mtime < b.mtime
        · simp only [gt_iff_lt, hnew, if_true]
        · simp only [gt_iff_lt, hnew, if_false]
    · have hnone : [b].filter (·.key = k) = [] := by simpa using fun h : b.key = k => hk h.symm
      rw [if_neg hk, hnone, List.append_nil]

theorem mem_sortBackups {l : List BackupInfo} {b : BackupInfo} :
    b ∈ sortBackups l ↔ (l.filter (·.key = b.key)).argmax (·.mtime) = some b := by
  unfold sortBackups
  rw [List.mem_insertionSort, List.mem_map, ← lookup_foldl_keepNewest]
  constructor
  · rintro ⟨⟨k, c⟩, hmem, rfl⟩
    have hlookup : (l.foldl keepNewest ∅).lookup k = some c := AList.mem_lookup_iff.mpr hmem
    have hkey : c.key = k := by
      have hargmax := hlookup
      rw [lookup_foldl_keepNewest] at hargmax
      have hfilter := List.argmax_mem (Option.mem_def.mpr hargmax)
      simpa using (List.mem_filter.mp hfilter).2
    rw [hkey]
    exact hlookup
  · intro h
    exact ⟨⟨b.key, b⟩, AList.mem_lookup_iff.mp h, rfl⟩

/-! ## The two answers -/

section Answers

variable (dirs : List (List DirEntry)) (matchid : ℕ) (map round : ℤ)

def Loose (e : DirEntry) : Prop :=
  backupPrefix matchid map <+: e.name ∧ backupRoundFromName e.name + 1 = round

instance (e : DirEntry) : Decidable (Loose matchid map round e) :=
  inferInstanceAs (Decidable (_ ∧ _))

/-- The list has this entry for the map and the round, if none is newer. -/
def Proper (e : DirEntry) : Prop := ∃ b, listed matchid e = some b ∧ b.key = (map, round)

/-- A file is found exactly where the list has one, and it is that file. -/
structure SameBackup : Prop where
  found : (findLocalBackup dirs (backupPrefix matchid map) round).isSome = true ↔
    ∃ b ∈ listBackups dirs matchid, b.mapNumber = map ∧ b.round = round
  file : ∀ e, findLocalBackup dirs (backupPrefix matchid map) round = some e →
    ∀ b ∈ listBackups dirs matchid, b.mapNumber = map → b.round = round →
      e.regular = true ∧ b.file = e.name ∧ b.mtime = e.mtime ∧ b.size = e.size

/-- No entry passes either test, or the first that passes the loose one is proper, with no newer
proper one in the directories and none as new before it. -/
def NewestFirst : Prop :=
  (∀ e ∈ dirs.flatten, ¬Loose matchid map round e ∧ ¬Proper matchid map round e) ∨
    ∃ before e after, dirs.flatten = before ++ e :: after ∧ Loose matchid map round e ∧
    Proper matchid map round e ∧
      (∀ g ∈ before, ¬Loose matchid map round g ∧
        (Proper matchid map round g → g.mtime < e.mtime)) ∧
      ∀ g ∈ after, Proper matchid map round g → g.mtime ≤ e.mtime

variable {dirs matchid map round}

theorem exists_listed_iff {e : DirEntry} {b : BackupInfo} :
    ((listed matchid e).filter (·.key = (map, round))) = some b ↔
      listed matchid e = some b ∧ b.key = (map, round) := by
  rw [Option.filter_eq_some_iff]
  simp

theorem listed_fields {e : DirEntry} {b : BackupInfo} (h : listed matchid e = some b) :
    e.regular = true ∧ b.file = e.name ∧ b.mtime = e.mtime ∧ b.size = e.size := by
  unfold listed at h
  cases hparse : parseBackupFileName e.name matchid with
  | none =>
    rw [hparse] at h
    cases h
  | some c =>
    obtain ⟨ms, rs, -, rfl⟩ := exists_name_of_parse hparse
    rw [hparse] at h
    dsimp only at h
    split_ifs at h with hreg
    obtain rfl := Option.some.inj h
    exact ⟨hreg, rfl, rfl, rfl⟩

theorem Proper.exists_name {e : DirEntry} (h : Proper matchid map round e) :
    ∃ ms rs, BackupName e.name matchid ms rs ∧ (ofDigits ms : ℤ) = map ∧
    (ofDigits rs : ℤ) + 1 = round := by
  obtain ⟨b, hb, hkey⟩ := h
  unfold listed at hb
  cases hparse : parseBackupFileName e.name matchid with
  | none =>
    rw [hparse] at hb
    cases hb
  | some c =>
    obtain ⟨ms, rs, hname, rfl⟩ := exists_name_of_parse hparse
    rw [hparse] at hb
    dsimp only at hb
    split_ifs at hb
    obtain rfl := Option.some.inj hb
    exact ⟨ms, rs, hname, Prod.mk.inj hkey⟩

/-- A proper file passes the loose test exactly when its map number has no leading zeros. -/
theorem Proper.loose_iff {e : DirEntry} (h : Proper matchid map round e) :
    Loose matchid map round e ↔
      ∃ ms rs, BackupName e.name matchid ms rs ∧ ms = decimal (ofDigits ms) := by
  obtain ⟨ms, rs, hname, rfl, rfl⟩ := h.exists_name
  have hround :
      backupRoundFromName e.name + 1 = (ofDigits rs : ℤ) + 1 := by rw [hname.roundFromName]
  constructor
  · rintro ⟨hpre, -⟩
    exact ⟨ms, rs, hname, hname.prefix_iff.mp hpre⟩
  · rintro ⟨ms', rs', hname', hcanonical⟩
    have hsame : (ofDigits ms' : ℤ) = ofDigits ms := by
      have hparse := hname'.parse.symm.trans hname.parse
      exact congrArg BackupInfo.mapNumber (Option.some.inj hparse)
    refine ⟨?_, hround⟩
    rw [← hsame]
    exact hname'.prefix_iff.mpr hcanonical

/-- The entry of the list comes from the first of the newest proper files. -/
theorem mem_listBackups_iff {b : BackupInfo} (hkey : b.key = (map, round)) :
    b ∈ listBackups dirs matchid ↔
      ∃ before e after, dirs.flatten = before ++ e :: after ∧ listed matchid e = some b ∧
      (∀ g ∈ before, Proper matchid map round g → g.mtime < e.mtime) ∧
      ∀ g ∈ after, Proper matchid map round g → g.mtime ≤ e.mtime := by
  have hproper :
      ∀ (g : DirEntry) (r : ℤ → Prop),
        (∀ c, (listed matchid g).filter (·.key = (map, round)) = some c → r c.mtime) ↔
      (Proper matchid map round g → r g.mtime) := by
    intro g r
    constructor
    · rintro h ⟨c, hc, hck⟩
      rw [← (listed_fields hc).2.2.1]
      exact h c (exists_listed_iff.mpr ⟨hc, hck⟩)
    · intro h c hc
      obtain ⟨hc, hck⟩ := exists_listed_iff.mp hc
      rw [(listed_fields hc).2.2.1]
      exact h ⟨c, hc, hck⟩
  unfold listBackups
  rw [mem_sortBackups, hkey, List.filter_filterMap, argmax_filterMap_eq_some_iff]
  constructor
  · rintro ⟨before, e, after, hsplit, he, hbefore, hafter⟩
    obtain ⟨he, -⟩ := exists_listed_iff.mp he
    have htime := (listed_fields he).2.2.1
    rw [htime] at hbefore hafter
    exact ⟨before, e, after, hsplit, he, fun g hg => (hproper g (· < e.mtime)).mp (hbefore g hg),
      fun g hg => (hproper g (· ≤ e.mtime)).mp (hafter g hg)⟩
  · rintro ⟨before, e, after, hsplit, he, hbefore, hafter⟩
    have htime := (listed_fields he).2.2.1
    refine ⟨before, e, after, hsplit, exists_listed_iff.mpr ⟨he, hkey⟩, ?_⟩
    rw [htime]
    exact ⟨fun g hg => (hproper g (· < e.mtime)).mpr (hbefore g hg),
      fun g hg => (hproper g (· ≤ e.mtime)).mpr (hafter g hg)⟩

/-- The list has an entry for a map and a round wherever a file is proper. -/
theorem exists_mem_listBackups_iff :
    (∃ b ∈ listBackups dirs matchid, b.mapNumber = map ∧ b.round = round) ↔
      ∃ e ∈ dirs.flatten, Proper matchid map round e := by
  constructor
  · rintro ⟨b, hb, rfl, rfl⟩
    obtain ⟨before, e, after, hsplit, he, -⟩ := (mem_listBackups_iff rfl).mp hb
    exact ⟨e, by rw [hsplit]; simp, b, he, rfl⟩
  · rintro ⟨e, he, c, hc, hck⟩
    have hmem : c ∈ (dirs.flatten.filterMap (listed matchid)).filter (·.key = (map, round)) :=
      List.mem_filter.mpr ⟨List.mem_filterMap.mpr ⟨e, he, hc⟩, by simpa using hck⟩
    cases hmax : ((dirs.flatten.filterMap (listed matchid)).filter (·.key = (map, round))).argmax
      (·.mtime) with
    | none =>
      rw [List.argmax_eq_none.mp hmax] at hmem
      cases hmem
    | some b =>
      have hkey : b.key = (map, round) := by
        have hb := List.argmax_mem (Option.mem_def.mpr hmax)
        simpa using (List.mem_filter.mp hb).2
      refine ⟨b, mem_sortBackups.mpr (by rw [hkey]; exact hmax), ?_⟩
      exact Prod.mk.inj hkey

theorem eq_of_mem_listBackups {b c : BackupInfo} (hb : b ∈ listBackups dirs matchid)
    (hc : c ∈ listBackups dirs matchid) (h : b.key = c.key) : b = c := by
  unfold listBackups at hb hc
  rw [mem_sortBackups] at hb hc
  rw [h, hc] at hb
  exact (Option.some.inj hb).symm

theorem findLocalBackup_eq : findLocalBackup dirs (backupPrefix matchid map) round =
    dirs.flatten.find? fun e => decide (Loose matchid map round e) := by
  unfold findLocalBackup
  congr 1
  funext e
  exact (Bool.decide_and _ _).symm

theorem findLocalBackup_eq_some_iff {e : DirEntry} :
    findLocalBackup dirs (backupPrefix matchid map) round = some e ↔
      Loose matchid map round e ∧ ∃ before after, dirs.flatten = before ++ e :: after ∧
        ∀ g ∈ before, ¬Loose matchid map round g := by
  rw [findLocalBackup_eq, List.find?_eq_some_iff_append]
  simp

theorem findLocalBackup_eq_none_iff :
    findLocalBackup dirs (backupPrefix matchid map) round = none ↔
      ∀ e ∈ dirs.flatten, ¬Loose matchid map round e := by
  rw [findLocalBackup_eq, List.find?_eq_none]
  simp

/-- A regular file is listed as another one of the same name, time and size is. -/
theorem listed_of_fields {e g : DirEntry} {b : BackupInfo} (hg : listed matchid g = some b)
    (hreg : e.regular = true)
    (hname : b.file = e.name) (htime : b.mtime = e.mtime) (hsize : b.size = e.size) :
    listed matchid e = some b := by
  obtain ⟨hgreg, hgname, hgtime, hgsize⟩ := listed_fields hg
  have hentry : e = g := by
    cases e
    cases g
    simp_all
  rw [hentry]
  exact hg

theorem NewestFirst.sameBackup (h : NewestFirst dirs matchid map round) :
    SameBackup dirs matchid map round := by
  rcases h with hnone | ⟨before, e, after, hsplit, hloose, ⟨b, hb, hkey⟩, hbefore, hafter⟩
  · have hfind := findLocalBackup_eq_none_iff.mpr fun e he => (hnone e he).1
    refine ⟨?_, ?_⟩
    · rw [hfind, exists_mem_listBackups_iff]
      refine iff_of_false (by simp) ?_
      rintro ⟨e, he, hproper⟩
      exact (hnone e he).2 hproper
    · intro e he
      rw [hfind] at he
      cases he
  · have hfind :=
      findLocalBackup_eq_some_iff.mpr ⟨hloose, before, after, hsplit, fun g hg => (hbefore g hg).1⟩
    have hmem : b ∈ listBackups dirs matchid :=
      (mem_listBackups_iff hkey).mpr
        ⟨before, e, after, hsplit, hb, fun g hg => (hbefore g hg).2, hafter⟩
    obtain ⟨hmap, hround⟩ := Prod.mk.inj hkey
    refine ⟨iff_of_true (by rw [hfind]; rfl) ⟨b, hmem, hmap, hround⟩, ?_⟩
    intro e' he' c hc hcmap hcround
    have hsame : c = b :=
      eq_of_mem_listBackups hc hmem (by rw [hkey, BackupInfo.key, hcmap, hcround])
    rw [hfind] at he'
    rw [hsame, ← Option.some.inj he']
    exact listed_fields hb

theorem SameBackup.newestFirst (h : SameBackup dirs matchid map round) :
    NewestFirst dirs matchid map round := by
  have hfound := h.found
  rw [exists_mem_listBackups_iff] at hfound
  cases hfind : findLocalBackup dirs (backupPrefix matchid map) round with
  | none =>
    rw [hfind] at hfound
    have hloose := findLocalBackup_eq_none_iff.mp hfind
    refine .inl fun e he => ⟨hloose e he, ?_⟩
    intro hproper
    exact absurd (hfound.mpr ⟨e, he, hproper⟩) (by simp)
  | some e =>
    obtain ⟨hloose, before, after, hsplit, hbefore⟩ := findLocalBackup_eq_some_iff.mp hfind
    obtain ⟨b, hmem, hmap, hround⟩ := h.found.mp (by rw [hfind]; rfl)
    obtain ⟨hreg, hname, htime, hsize⟩ := h.file e hfind b hmem hmap hround
    have hkey : b.key = (map, round) := by rw [BackupInfo.key, hmap, hround]
    obtain ⟨before', e', after', hsplit', he', hbefore', hafter'⟩ :=
      (mem_listBackups_iff hkey).mp hmem
    obtain ⟨-, hname', htime', -⟩ := listed_fields he'
    have hsameTime : e'.mtime = e.mtime := htime'.symm.trans htime
    have hloose' : Loose matchid map round e' := by
      unfold Loose
      rw [← hname', hname]
      exact hloose
    rw [hsameTime] at hbefore' hafter'
    -- the newest proper file passes the loose test too, so it does not stand before the first that
    -- does
    have hpre : before <+: before' := by
      rcases List.append_eq_append_iff.mp (hsplit.symm.trans hsplit') with
        ⟨l, hl, -⟩ | ⟨l, hl, hrest⟩
      · exact ⟨l, hl.symm⟩
      · cases l with
        | nil => rw [hl, List.append_nil]
        | cons x l =>
          obtain ⟨rfl, -⟩ := List.cons.inj hrest
          exact absurd hloose' (hbefore e' (by rw [hl]; simp))
    refine .inr ⟨before, e, after, hsplit, hloose,
      ⟨b, listed_of_fields he' hreg hname htime hsize, hkey⟩, ?_, ?_⟩
    · exact fun g hg => ⟨hbefore g hg, hbefore' g (hpre.subset hg)⟩
    · intro g hg hproper
      have hmem : g ∈ before' ++ e' :: after' := by
        rw [← hsplit', hsplit]
        simp [hg]
      rcases List.mem_append.mp hmem with hmem | hmem
      · exact (hbefore' g hmem hproper).le
      · rcases List.mem_cons.mp hmem with rfl | hmem
        · exact hsameTime.le
        · exact hafter' g hmem hproper

end Answers

/-- Exactly when the listed backup is the one that is loaded. -/
theorem sameBackup_iff_newestFirst (dirs : List (List DirEntry)) (matchid : ℕ) (map round : ℤ) :
    SameBackup dirs matchid map round ↔ NewestFirst dirs matchid map round :=
  ⟨SameBackup.newestFirst, NewestFirst.sameBackup⟩

/-- A backup of an earlier go in the first directory, and the one of the replay in the last. -/
def replayed : List (List DirEntry) :=
  [[{ name := backupName 7 1 (ascii "_round") 3, mtime := 10, size := 100 }], [],
    [{ name := backupName 7 1 (ascii "_round") 3, mtime := 20, size := 400 }]]

theorem replayed_not_sameBackup : ¬SameBackup replayed 7 1 4 := by
  intro h
  have hfind : findLocalBackup replayed (backupPrefix 7 1) 4 =
      some { name := backupName 7 1 (ascii "_round") 3, mtime := 10, size := 100 } := by
    decide
  have hlist :
      { file := backupName 7 1 (ascii "_round") 3, mapNumber := 1, round := 4, mtime := 20,
        size := 400 } ∈
      listBackups replayed 7 := by
    decide
  exact absurd (h.file _ hfind _ hlist rfl rfl).2.2.1 (by decide)

end ReadyUp.Backups
