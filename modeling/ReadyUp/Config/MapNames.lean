import ReadyUp.Config.Ruleset

/-!
# Map entries

A map of a match is the name of an installed map or a workshop id, with or without the map it
loads. `parseEntry` refuses what cannot go on a command line, so the command that loads an entry
is clean (`clean_loadCommand`).
-/
namespace ReadyUp.Config.MapNames

open Support Command

structure MapRef where
  /-- Empty if the map is no workshop map. -/
  workshopId : Bytes := []
  /-- Empty if only the workshop id is known. -/
  name : Bytes := []

def isDigits (s : Bytes) : Bool := s ≠ [] && s.length ≤ 20 && s.all isDigit

def isNameByte (c : UInt8) : Bool :=
  isAlnum c || c == byte '_' || c == byte '/' || c == byte '.' || c == byte '-'

def safeName (s : Bytes) : Bool :=
  s ≠ [] && s.length ≤ 128 && s.all isNameByte && decide (¬ascii ".." <:+: s) &&
    s.head? != some (byte '/') && s.getLast? != some (byte '/')

def parseEntry (entry : Bytes) : Option MapRef :=
  if (ascii "ws:").isPrefixOf entry then
    let id := entry.drop 3
    if isDigits id then some { workshopId := id } else none
  else if (ascii "workshop/").isPrefixOf entry then
    let rest := entry.drop 9
    let id := rest.takeWhile (· ≠ byte '/')
    if isDigits id then
      match rest.dropWhile (· ≠ byte '/') with
      | [] => some { workshopId := id }
      | _ :: name => if safeName name then some { workshopId := id, name } else none
    else none
  else if entry ≠ [] ∧ entry.all isDigit then
    if isDigits entry then some { workshopId := entry } else none
  else if safeName entry then some { name := entry } else none

def makeEntry (name workshopId : Bytes) : Bytes :=
  let ref := if name = [] then none else parseEntry name
  if workshopId = [] then if ref.isSome then name else []
  else if isDigits workshopId = false then []
  else
    match ref with
    | none => ascii "workshop/" ++ workshopId
    | some r =>
      if r.name = [] then ascii "workshop/" ++ workshopId
      else ascii "workshop/" ++ workshopId ++ ascii "/" ++ r.name

/-- `LoadCommand`; none for an entry that cannot be loaded. -/
def loadCommand (entry : Bytes) : Option Command :=
  (parseEntry entry).map fun r =>
    if r.workshopId ≠ [] then { verb := ascii "host_workshop_map", args := [.bare r.workshopId] }
    else { verb := ascii "changelevel", args := [.bare r.name] }

theorem bareClean_of_isDigits {s : Bytes} (h : isDigits s = true) : bareClean s = true := by
  simp only [isDigits, Bool.and_eq_true, List.all_eq_true] at h
  exact bareClean_digits h.2

theorem isNameByte_clean {c : UInt8} (h : isNameByte c = true) :
    c ≠ byte ';' ∧ c ≠ byte '"' ∧ isLineEnd c = false := by
  rw [isLineEnd, Bool.or_eq_false_iff, beq_eq_false_iff_ne, beq_eq_false_iff_ne]
  refine ⟨?_, ?_, ?_, ?_⟩
  all_goals
    rintro rfl
    exact absurd h (by decide)

theorem bareClean_of_safeName {s : Bytes} (h : safeName s = true) : bareClean s = true := by
  simp only [safeName, Bool.and_eq_true, List.all_eq_true] at h
  exact bareClean_of_forall fun c hc => isNameByte_clean (h.1.1.1.2 c hc)

theorem clean_parseEntry {entry : Bytes} {r : MapRef} (h : parseEntry entry = some r) :
    bareClean r.workshopId = true ∧ bareClean r.name = true := by
  rw [parseEntry] at h
  dsimp only at h
  split_ifs at h with hws hid hworkshop hid hdigits hid hname
  · cases h
    exact ⟨bareClean_of_isDigits hid, rfl⟩
  · split at h
    · cases h
      exact ⟨bareClean_of_isDigits hid, rfl⟩
    · split_ifs at h with hname
      cases h
      exact ⟨bareClean_of_isDigits hid, bareClean_of_safeName hname⟩
  · cases h
    exact ⟨bareClean_of_isDigits hid, rfl⟩
  · cases h
    exact ⟨rfl, bareClean_of_safeName hname⟩

theorem clean_loadCommand {entry : Bytes} {c : Command}
    (h : loadCommand entry = some c) : c.Clean := by
  obtain ⟨r, hr, rfl⟩ := Option.map_eq_some_iff.mp h
  obtain ⟨hid, hname⟩ := clean_parseEntry hr
  have hworkshop : bareClean (ascii "host_workshop_map") = true := by decide
  have hlevel : bareClean (ascii "changelevel") = true := by decide
  split_ifs
  · refine ⟨hworkshop, ?_⟩
    intro a ha
    rw [List.mem_singleton.mp ha]
    exact hid
  · refine ⟨hlevel, ?_⟩
    intro a ha
    rw [List.mem_singleton.mp ha]
    exact hname

end ReadyUp.Config.MapNames
