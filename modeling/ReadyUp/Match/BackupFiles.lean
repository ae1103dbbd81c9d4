import ReadyUp.Support.Decimal
import ReadyUp.Support.Search

/-!
# Names of round backups

A backup is named for its match, its map and the rounds played so far. `parseBackupFileName` accepts
exactly the names of one shape, with one or two underscores before the round, and the shape settles
the match.
-/
namespace ReadyUp.Backups

open ReadyUp.Support

structure BackupInfo where
  file : Bytes := []
  mapNumber : ℤ := 0
  round : ℤ := 0
  mtime : ℤ := 0
  size : ℤ := 0
  deriving DecidableEq, Repr

/-- The bytes from `i` up to `j`. -/
def slice (s : Bytes) (i j : ℕ) : Bytes := (s.drop i).take (j - i)

def allDigits (s : Bytes) (i j : ℕ) : Bool := decide (i < j) && (slice s i j).all isDigit

/-- What the name of a backup of the match begins with. -/
def backupHead (matchid : ℕ) : Bytes := ascii "readyup_backup_" ++ decimal matchid ++ ascii "_map"

def backupPrefix (matchid : ℕ) (mapNumber : ℤ) : Bytes :=
  backupHead matchid ++ (toDecimal (max 1 mapNumber) ++ ascii "_")

/-- One underscore before the round tag does not belong to the map number. -/
def mapEnd (file : Bytes) (headSize roundTag : ℕ) : ℕ :=
  if headSize < roundTag ∧ file[roundTag - 1]? = some (byte '_') then roundTag - 1 else roundTag

def parseBackupFileName (file : Bytes) (matchid : ℕ) : Option BackupInfo :=
  let head := backupHead matchid
  if file.length ≤ head.length + 4 ∨ ¬head <+: file then none
  else if ¬ascii ".txt" <:+ file then none
  else
    match findSub (ascii "_round") (file.drop head.length) with
    | none => none
    | some i =>
      let roundTag := head.length + i
      let mapEnd := mapEnd file head.length roundTag
      let roundStart := roundTag + 6
      let roundEnd := file.length - 4
      if !allDigits file head.length mapEnd || 3 < mapEnd - head.length then none
      else if !allDigits file roundStart roundEnd || 3 < roundEnd - roundStart then none
      else
        let map := ofDigits (slice file head.length mapEnd)
        let played := ofDigits (slice file roundStart roundEnd)
        if map < 1 then none else some { file := file, mapNumber := map, round := played + 1 }

/-- The loop of `BackupRoundFromName`. -/
def readRound (n : ℕ) : Bytes → ℕ
  | [] => n
  | c :: s => if isDigit c ∧ n < 100000 then readRound (10 * n + digitValue c) s else n

def backupRoundFromName (fileName : Bytes) : ℤ :=
  match rfindSub (ascii "round") fileName with
  | none => -1
  | some p =>
    if (fileName[p + 5]?.map isDigit).getD false then readRound 0 (fileName.drop (p + 5)) else -1

/-! ## The shape of a name -/

/-- The name of a backup of the match: the digits of the map and of the rounds played. -/
structure BackupName (file : Bytes) (matchid : ℕ) (ms rs : Bytes) : Prop where
  shape : ∃ us, (us = [] ∨ us = [byte '_']) ∧
    file = backupHead matchid ++ (ms ++ (us ++ (ascii "_round" ++ (rs ++ ascii ".txt"))))
  mapDigits : ms ≠ [] ∧ ms.length ≤ 3 ∧ ∀ c ∈ ms, isDigit c = true
  roundDigits : rs ≠ [] ∧ rs.length ≤ 3 ∧ ∀ c ∈ rs, isDigit c = true
  onMap : 1 ≤ ofDigits ms

theorem slice_append (a b c : Bytes) :
    slice (a ++ (b ++ c)) a.length (a.length + b.length) = b := by
  simp [slice]

theorem allDigits_append (a b c : Bytes) :
    allDigits (a ++ (b ++ c)) a.length (a.length + b.length) = true ↔
      b ≠ [] ∧ ∀ d ∈ b, isDigit d = true := by
  unfold allDigits
  rw [slice_append, Bool.and_eq_true, decide_eq_true_eq, List.all_eq_true]
  have hlen : a.length < a.length + b.length ↔ b ≠ [] := by
    rw [← List.length_pos_iff]
    omega
  rw [hlen]

theorem isDigit_underscore : isDigit (byte '_') = false := by decide

theorem underscore_notMem {b : Bytes} (h : ∀ c ∈ b, isDigit c = true) : byte '_' ∉ b := by
  intro hmem
  have hdigit := h _ hmem
  rw [isDigit_underscore] at hdigit
  cases hdigit

/-- Where the map number ends, for a part before the round tag that is not empty. -/
theorem mapEnd_concat (head q : Bytes) (c : UInt8) (rest : Bytes) :
    mapEnd (head ++ (q ++ [c] ++ rest)) head.length (head.length + (q ++ [c]).length) =
      if c = byte '_' then head.length + q.length else head.length + (q ++ [c]).length := by
  have hget : (head ++ (q ++ [c] ++ rest))[head.length + (q ++ [c]).length - 1]? = some c := by
    rw [List.length_append, List.length_singleton, ← Nat.add_assoc, Nat.add_sub_cancel,
      List.getElem?_append_right (by omega), Nat.add_sub_cancel_left, List.append_assoc]
    simp
  have hpos : head.length < head.length + (q ++ [c]).length := by
    rw [List.length_append, List.length_singleton]
    omega
  unfold mapEnd
  rw [hget]
  simp only [hpos, true_and, Option.some.injEq]
  split_ifs with hc
  · rw [List.length_append, List.length_singleton]
    omega
  · rfl

/-- What stands before the round tag is the map number and at most one underscore. -/
theorem mapEnd_split (head pre rest : Bytes) :
    ∃ ms us, pre = ms ++ us ∧ (us = [] ∨ us = [byte '_']) ∧
      mapEnd (head ++ (pre ++ rest)) head.length (head.length + pre.length) =
        head.length + ms.length := by
  rcases List.eq_nil_or_concat' pre with rfl | ⟨q, c, rfl⟩
  · refine ⟨[], [], rfl, .inl rfl, ?_⟩
    unfold mapEnd
    rw [if_neg (fun h => by simp at h)]
  · have hm := mapEnd_concat head q c rest
    by_cases hc : c = byte '_'
    · rw [if_pos hc] at hm
      exact ⟨q, [c], rfl, .inr (by rw [hc]), hm⟩
    · rw [if_neg hc] at hm
      exact ⟨q ++ [c], [], (List.append_nil _).symm, .inl rfl, hm⟩

/-- The first round tag behind the head is the one of the shape. -/
theorem findSub_roundTag {ms us : Bytes} (hms : ∀ c ∈ ms, isDigit c = true)
    (hus : us = [] ∨ us = [byte '_'])
    (rest : Bytes) : findSub (ascii "_round") (ms ++ (us ++ (ascii "_round" ++ rest))) =
      some (ms.length + us.length) := by
  have htag : ascii "_round" = byte '_' :: ascii "round" := rfl
  have hskip : findSub (ascii "_round") (us ++ (ascii "_round" ++ rest)) = some us.length := by
    rcases hus with rfl | rfl
    · exact findSub_self (ascii "_round") rest
    · have hnot : ¬ascii "_round" <+: byte '_' :: (ascii "_round" ++ rest) := by
        rw [htag, List.cons_append, List.cons_prefix_cons]
        rintro ⟨-, hp⟩
        have hround : ascii "round" = byte 'r' :: ascii "ound" := rfl
        rw [hround, List.cons_prefix_cons] at hp
        exact absurd hp.1 (by decide)
      rw [List.singleton_append, findSub_cons hnot, findSub_self]
      rfl
  rw [htag] at hskip ⊢
  rw [findSub_append (underscore_notMem hms), hskip, Option.map_some, Nat.add_comm]

section Shape

variable {file ms rs : Bytes} {matchid : ℕ} {b : BackupInfo}

/-- A name of the shape is accepted, with its map and the round after those played. -/
theorem BackupName.parse (h : BackupName file matchid ms rs) :
    parseBackupFileName file matchid =
      some { file := file, mapNumber := ofDigits ms, round := ofDigits rs + 1 } := by
  obtain ⟨⟨us, hus, hfile⟩, ⟨hms0, hms3, hms⟩, ⟨hrs0, hrs3, hrs⟩, hmap⟩ := h
  unfold parseBackupFileName
  dsimp only
  set head := backupHead matchid
  have htagLen : (ascii "_round").length = 6 := rfl
  have htxtLen : (ascii ".txt").length = 4 := rfl
  have hsplit : file = (head ++ (ms ++ (us ++ ascii "_round"))) ++ (rs ++ ascii ".txt") := by
    rw [hfile]
    simp only [List.append_assoc]
  have hlen : file.length = head.length + (ms.length + us.length) + 6 + rs.length + 4 := by
    rw [hsplit]
    simp only [List.length_append, htagLen, htxtLen]
    omega
  have hprefix : head <+: file := by
    rw [hfile]
    exact List.prefix_append _ _
  have hsuffix : ascii ".txt" <:+ file := by
    rw [hsplit, ← List.append_assoc]
    exact List.suffix_append _ _
  have hfind : findSub (ascii "_round") (file.drop head.length) = some (ms.length + us.length) := by
    rw [hfile, List.drop_left]
    exact findSub_roundTag hms hus _
  have hend : mapEnd file head.length (head.length + (ms.length + us.length)) =
      head.length + ms.length := by
    rcases hus with rfl | rfl
    · obtain ⟨q, c, rfl⟩ := (List.eq_nil_or_concat' ms).resolve_left hms0
      have hc : c ≠ byte '_' := by
        rintro rfl
        exact underscore_notMem hms (by simp)
      have hm := mapEnd_concat head q c ([] ++ (ascii "_round" ++ (rs ++ ascii ".txt")))
      rw [if_neg hc] at hm
      rw [hfile]
      exact hm
    · have hm := mapEnd_concat head ms (byte '_') (ascii "_round" ++ (rs ++ ascii ".txt"))
      rw [if_pos rfl, List.append_assoc ms] at hm
      rw [hfile]
      rw [List.length_append] at hm
      exact hm
  have hmapDigits : allDigits file head.length (head.length + ms.length) = true := by
    rw [hfile]
    exact (allDigits_append head ms _).mpr ⟨hms0, hms⟩
  have hmapSlice : slice file head.length (head.length + ms.length) = ms := by
    rw [hfile]
    exact slice_append head ms _
  have hstart :
      (head ++ (ms ++ (us ++ ascii "_round"))).length =
        head.length + (ms.length + us.length) + 6 := by
    simp only [List.length_append, htagLen]
    omega
  have hstop : file.length - 4 = (head ++ (ms ++ (us ++ ascii "_round"))).length + rs.length := by
    rw [hstart]
    omega
  have hroundDigits :
      allDigits file (head.length + (ms.length + us.length) + 6) (file.length - 4) = true := by
    rw [hstop, ← hstart, hsplit]
    exact (allDigits_append _ rs _).mpr ⟨hrs0, hrs⟩
  have hroundSlice :
      slice file (head.length + (ms.length + us.length) + 6) (file.length - 4) = rs := by
    rw [hstop, ← hstart, hsplit]
    exact slice_append _ rs _
  rw [if_neg (by rw [not_or, not_not]; exact ⟨by omega, hprefix⟩), if_neg (not_not.mpr hsuffix)]
  simp only [hfind, hend, hmapDigits, hroundDigits, hmapSlice, hroundSlice]
  rw [if_neg (by simp; omega), if_neg (by simp; omega), if_neg (by omega)]

theorem exists_name_of_parse (h : parseBackupFileName file matchid = some b) :
    ∃ ms rs, BackupName file matchid ms rs ∧
      b = { file := file, mapNumber := ofDigits ms, round := ofDigits rs + 1 } := by
  unfold parseBackupFileName at h
  dsimp only at h
  split_ifs at h with hlen htxt
  rw [not_or, not_not] at hlen
  obtain ⟨hlen, body, rfl⟩ := hlen
  set head := backupHead matchid
  rw [List.drop_left] at h
  cases hfind : findSub (ascii "_round") body with
  | none =>
    rw [hfind] at h
    cases h
  | some i =>
    simp only [hfind] at h
    split_ifs at h with hmapDigits hroundDigits hmap
    simp only [Bool.or_eq_true, Bool.not_eq_eq_eq_not, Bool.not_true, decide_eq_true_eq, not_or,
      Bool.not_eq_false, not_lt] at hmapDigits hroundDigits
    obtain ⟨pre, rest, rfl, rfl⟩ := exists_of_findSub hfind
    obtain ⟨ms, us, rfl, hus, hend⟩ := mapEnd_split head pre (ascii "_round" ++ rest)
    rw [hend] at h hmapDigits hmap
    have htagLen : (ascii "_round").length = 6 := rfl
    have hsplit :
        head ++ (ms ++ us ++ (ascii "_round" ++ rest)) =
          (head ++ (ms ++ us ++ ascii "_round")) ++ rest := by
      simp only [List.append_assoc]
    have hstart :
        head.length + (ms ++ us).length + 6 = (head ++ (ms ++ us ++ ascii "_round")).length := by
      simp only [List.length_append, htagLen]
      omega
    rw [hstart, hsplit] at h hroundDigits
    obtain ⟨hroundDigits, hround3⟩ := hroundDigits
    have htxtLen : (ascii ".txt").length = 4 := rfl
    have hlong : 4 < rest.length := by
      unfold allDigits at hroundDigits
      rw [Bool.and_eq_true, decide_eq_true_eq, @List.length_append _ _ rest] at hroundDigits
      omega
    obtain ⟨rs, rfl⟩ : ascii ".txt" <:+ rest := by
      rw [hsplit] at htxt
      exact List.suffix_of_suffix_length_le htxt (List.suffix_append _ rest) (by omega)
    have hstop : ((head ++ (ms ++ us ++ ascii "_round")) ++ (rs ++ ascii ".txt")).length - 4 =
        (head ++ (ms ++ us ++ ascii "_round")).length + rs.length := by
      rw [@List.length_append _ _ (rs ++ ascii ".txt"), @List.length_append _ rs, htxtLen]
      omega
    have hfile : head ++ (ms ++ us ++ (ascii "_round" ++ (rs ++ ascii ".txt"))) =
        head ++ (ms ++ (us ++ (ascii "_round" ++ (rs ++ ascii ".txt")))) := by
      simp only [List.append_assoc]
    rw [hstop, allDigits_append] at hroundDigits
    rw [hstop] at hround3
    rw [hfile, slice_append] at hmap
    rw [hfile, allDigits_append] at hmapDigits
    rw [hstop, slice_append, ← hsplit, hfile, slice_append] at h
    refine ⟨ms, rs, ⟨⟨us, hus, hfile⟩, ⟨hmapDigits.1.1, by omega, hmapDigits.1.2⟩,
      ⟨hroundDigits.1, by omega, hroundDigits.2⟩, by omega⟩, ?_⟩
    rw [hfile]
    exact (Option.some.inj h).symm

theorem parse_eq_some_iff : parseBackupFileName file matchid = some b ↔
    ∃ ms rs, BackupName file matchid ms rs ∧
      b = { file := file, mapNumber := ofDigits ms, round := ofDigits rs + 1 } := by
  refine ⟨exists_name_of_parse, ?_⟩
  rintro ⟨ms, rs, hname, rfl⟩
  exact hname.parse

/-! ## The other scanner -/

/-- The loop reads a run of at most five more digits than it needs to stay in its bound. -/
theorem readRound_append (hrs : ∀ c ∈ rs, isDigit c = true) {rest : Bytes}
    (hrest : (rest.head?.map isDigit).getD false = false)
    {n : ℕ} (hn : (n + 1) * 10 ^ rs.length ≤ 1000000) :
    readRound n (rs ++ rest) = n * 10 ^ rs.length + ofDigits rs := by
  induction rs generalizing n with
  | nil =>
    cases rest with
    | nil => simp [readRound]
    | cons c rest =>
      have hc : isDigit c = false := hrest
      simp [readRound, hc]
  | cons c rs ih =>
    rw [List.forall_mem_cons] at hrs
    have hvalue := digitValue_lt hrs.1
    have hpow : 0 < 10 ^ rs.length := pow_pos (by decide) _
    rw [List.length_cons, pow_succ] at hn
    have hstep : (10 * n + digitValue c + 1) * 10 ^ rs.length ≤ 1000000 := by
      have hle : 10 * n + digitValue c + 1 ≤ (n + 1) * 10 := by omega
      calc (10 * n + digitValue c + 1) * 10 ^ rs.length ≤ (n + 1) * 10 * 10 ^ rs.length :=
        Nat.mul_le_mul_right _ hle
        _ = (n + 1) * (10 ^ rs.length * 10) := by ring
        _ ≤ 1000000 := hn
    have hbound : n < 100000 := by nlinarith
    rw [List.cons_append, readRound, if_pos ⟨hrs.1, hbound⟩, ih hrs.2 hstep, ofDigits_cons,
      List.length_cons, pow_succ]
    ring

/-- The last tag of a name of the shape is the one before the rounds played. -/
theorem BackupName.roundFromName (h : BackupName file matchid ms rs) :
    backupRoundFromName file = ofDigits rs := by
  obtain ⟨⟨us, hus, hfile⟩, -, ⟨hrs0, hrs3, hrs⟩, -⟩ := h
  have htag : ascii "_round" = [byte '_'] ++ ascii "round" := rfl
  have hround : ascii "round" = byte 'r' :: ascii "ound" := rfl
  have hsplit :
      file = (backupHead matchid ++ (ms ++ (us ++ [byte '_']))) ++
        (ascii "round" ++ (rs ++ ascii ".txt")) := by
    rw [hfile, htag]
    simp only [List.append_assoc]
  set before := backupHead matchid ++ (ms ++ (us ++ [byte '_']))
  have hlast : byte 'r' ∉ ascii "ound" ++ (rs ++ ascii ".txt") := by
    rw [List.mem_append, List.mem_append, not_or, not_or]
    refine ⟨by decide, ?_, by decide⟩
    intro hmem
    exact absurd (hrs _ hmem) (by decide)
  have hfind : rfindSub (ascii "round") file = some before.length := by
    rw [hsplit, hround]
    exact rfindSub_append (rfindSub_self hlast)
  have hdrop : file.drop (before.length + 5) = rs ++ ascii ".txt" := by
    rw [hsplit, ← List.append_assoc before]
    exact List.drop_left' (by rw [List.length_append]; rfl)
  obtain ⟨c, rs', rfl⟩ := List.exists_cons_of_ne_nil hrs0
  have hget : file[before.length + 5]? = some c := by
    rw [← List.head?_drop, hdrop]
    rfl
  have hc : isDigit c = true := hrs c List.mem_cons_self
  unfold backupRoundFromName
  simp only [hfind, hget, Option.map_some, Option.getD_some, hc, if_true, hdrop]
  have hbound : (0 + 1) * 10 ^ (c :: rs').length ≤ 1000000 := by
    calc (0 + 1) * 10 ^ (c :: rs').length =
      10 ^ (c :: rs').length := by rw [Nat.zero_add, Nat.one_mul]
      _ ≤ 10 ^ 3 := Nat.pow_le_pow_right (by decide) hrs3
      _ ≤ 1000000 := by decide
  rw [readRound_append hrs (by decide) hbound, Nat.zero_mul, Nat.zero_add]

/-- The digits between the head and the map tag are the match. -/
theorem matchid_of_backupHead {m m' : ℕ} (h : backupHead m <+: file)
    (h' : backupHead m' <+: file) : m = m' := by
  have hmap : ascii "_map" = byte '_' :: ascii "map" := rfl
  have hdigits : ∀ n, backupHead n <+: file →
      (file.drop (ascii "readyup_backup_").length).takeWhile isDigit = decimal n := by
    rintro n ⟨rest, rfl⟩
    unfold backupHead
    rw [hmap, List.append_assoc, List.append_assoc, List.drop_left,
      List.takeWhile_append_of_pos (decimal_isDigit n)]
    simp [isDigit_underscore]
  rw [← ofDigits_decimal m, ← hdigits m h, hdigits m' h', ofDigits_decimal]

theorem BackupName.head_prefix (h : BackupName file matchid ms rs) :
    backupHead matchid <+: file := by
  obtain ⟨us, -, hfile⟩ := h.shape
  rw [hfile]
  exact List.prefix_append _ _

/-- A map number without leading zeros is the one of the prefix. -/
theorem BackupName.prefix_iff (h : BackupName file matchid ms rs) :
    backupPrefix matchid (ofDigits ms) <+: file ↔ ms = decimal (ofDigits ms) := by
  obtain ⟨⟨us, hus, hfile⟩, ⟨hms0, hms3, hms⟩, -, hmap⟩ := h
  have htag : ascii "_round" = byte '_' :: ascii "round" := rfl
  have htext : toDecimal (max 1 (ofDigits ms : ℤ)) = decimal (ofDigits ms) := by
    rw [max_eq_right (by omega)]
    unfold toDecimal
    rw [if_neg (by omega), List.nil_append, Int.natAbs_natCast]
  obtain ⟨rest, hrest⟩ :
      ∃ rest, us ++ (ascii "_round" ++ (rs ++ ascii ".txt")) = byte '_' :: rest := by
    rcases hus with rfl | rfl
    · exact ⟨_, rfl⟩
    · exact ⟨_, rfl⟩
  unfold backupPrefix
  rw [hfile, htext, hrest, List.prefix_append_right_inj]
  constructor
  · rintro ⟨t, ht⟩
    have hunder : ascii "_" = [byte '_'] := rfl
    rw [hunder, List.append_assoc, List.singleton_append] at ht
    have hleft := congrArg (List.takeWhile isDigit) ht
    rw [List.takeWhile_append_of_pos (decimal_isDigit _), List.takeWhile_append_of_pos hms,
      List.takeWhile_cons_of_neg (by simp [isDigit_underscore]),
      List.takeWhile_cons_of_neg (by simp [isDigit_underscore]), List.append_nil,
      List.append_nil] at hleft
    exact hleft.symm
  · intro heq
    rw [← heq]
    exact ⟨rest, by rw [List.append_assoc]; rfl⟩

end Shape

/-! ## The names that the server writes -/

/-- The rounds played, written with at least two digits. -/
def twoDigits (r : ℕ) : Bytes := (if r < 10 then [byte '0'] else []) ++ decimal r

theorem twoDigits_spec {r : ℕ} (hr : r ≤ 999) :
    twoDigits r ≠ [] ∧ (twoDigits r).length ≤ 3 ∧ (∀ c ∈ twoDigits r, isDigit c = true) ∧
    ofDigits (twoDigits r) = r := by
  unfold twoDigits
  by_cases h : r < 10
  · have hlen : (decimal r).length ≤ 1 := length_decimal_le (by decide) (by simpa using h)
    rw [if_pos h]
    refine ⟨by simp, ?_, ?_, ?_⟩
    · rw [List.length_append, List.length_singleton]
      omega
    · intro c hc
      rcases List.mem_append.mp hc with hc | hc
      · rw [List.mem_singleton.mp hc]
        decide
      · exact decimal_isDigit r c hc
    · have hzero : digitValue (byte '0') = 0 := by decide
      rw [List.singleton_append, ofDigits_cons, hzero, Nat.zero_mul, Nat.zero_add, ofDigits_decimal]
  · rw [if_neg h, List.nil_append]
    exact ⟨decimal_ne_nil r, length_decimal_le (by decide) (by omega), decimal_isDigit r,
      ofDigits_decimal r⟩

/-- A name written for a map and a round, with the tag of either form. -/
def backupName (matchid n : ℕ) (tag : Bytes) (r : ℕ) : Bytes :=
  backupPrefix matchid n ++ tag ++ twoDigits r ++ ascii ".txt"

theorem backupName_shape (matchid : ℕ) {n r : ℕ} (hn : 1 ≤ n ∧ n ≤ 999) (hr : r ≤ 999) {tag : Bytes}
    (htag : tag = ascii "_round" ∨ tag = ascii "round") :
    BackupName (backupName matchid n tag r) matchid (decimal n) (twoDigits r) := by
  obtain ⟨hne, hlen, hdigits, -⟩ := twoDigits_spec hr
  have htext : toDecimal (max 1 (n : ℤ)) = decimal n := by
    rw [max_eq_right (by omega)]
    unfold toDecimal
    rw [if_neg (by omega), List.nil_append, Int.natAbs_natCast]
  have hround : ascii "_round" = ascii "_" ++ ascii "round" := rfl
  have hunder : ascii "_" = [byte '_'] := rfl
  refine ⟨?_, ⟨decimal_ne_nil n, length_decimal_le (by decide) (by omega), decimal_isDigit n⟩,
    ⟨hne, hlen, hdigits⟩, ?_⟩
  · unfold backupName backupPrefix
    rw [htext]
    rcases htag with rfl | rfl
    · exact ⟨[byte '_'], .inr rfl, by simp only [List.append_assoc, hunder]⟩
    · exact ⟨[], .inl rfl, by simp only [List.append_assoc, hround, List.nil_append]⟩
  · rw [ofDigits_decimal]
    exact hn.1

/-- What the server writes is read back by both scanners, and no name belongs to two matches. -/
theorem backup_names :
    (∀ (matchid n r : ℕ) (tag : Bytes), 1 ≤ n ∧ n ≤ 999 → r ≤ 999 →
      tag = ascii "_round" ∨ tag = ascii "round" →
      parseBackupFileName (backupName matchid n tag r) matchid =
          some { file := backupName matchid n tag r, mapNumber := n, round := r + 1 } ∧
        backupRoundFromName (backupName matchid n tag r) + 1 = r + 1) ∧
    ∀ (file : Bytes) (m m' : ℕ), (parseBackupFileName file m).isSome = true →
      (parseBackupFileName file m').isSome = true → m = m' := by
  constructor
  · intro matchid n r tag hn hr htag
    have hname := backupName_shape matchid hn hr htag
    obtain ⟨-, -, -, hvalue⟩ := twoDigits_spec hr
    have hparse := parse_eq_some_iff.mpr ⟨_, _, hname, rfl⟩
    rw [hparse, hname.roundFromName, hvalue, ofDigits_decimal]
    exact ⟨rfl, rfl⟩
  · intro file m m' h h'
    obtain ⟨b, hb⟩ := Option.isSome_iff_exists.mp h
    obtain ⟨b', hb'⟩ := Option.isSome_iff_exists.mp h'
    obtain ⟨ms, rs, hname, -⟩ := parse_eq_some_iff.mp hb
    obtain ⟨ms', rs', hname', -⟩ := parse_eq_some_iff.mp hb'
    exact matchid_of_backupHead hname.head_prefix hname'.head_prefix

theorem backup_names_first_round :
    parseBackupFileName (backupName 42 2 (ascii "_round") 7) 42 =
        some { file := backupName 42 2 (ascii "_round") 7, mapNumber := 2, round := 8 } ∧
      (parseBackupFileName (backupName 42 2 (ascii "_round") 7) 421).isSome = false := by
  obtain ⟨hread, -⟩ := backup_names.1 42 2 7 (ascii "_round") (by decide) (by decide) (.inl rfl)
  refine ⟨hread, Bool.eq_false_iff.mpr fun hother => ?_⟩
  have hsame :=
    backup_names.2 (backupName 42 2 (ascii "_round") 7) 42 421 (by rw [hread]; rfl) hother
  exact absurd hsame (by decide)

end ReadyUp.Backups
