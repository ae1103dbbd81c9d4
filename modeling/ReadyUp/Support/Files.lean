import ReadyUp.Support.Decimal
import ReadyUp.Support.Table

/-!
# Files that are read and written whole

A file is read in pieces until it ends or is too large (`readUpTo_eq`), and written in pieces until
all of the data is in it (`writeLoop_eq`). `writeBehind` is how a file is replaced: the data goes to
a new file that takes the old one's name at the end, so a reader sees the old content or the whole
new one (`lookup_writeBehind`).
-/
namespace ReadyUp.Support.Files

abbrev Disk := Table Bytes Bytes

def rename (disk : Disk) (old new : Bytes) : Disk :=
  match disk.lookup old with
  | none => disk
  | some content => (disk.erase old).insert new content

theorem lookup_rename {disk : Disk} {old content : Bytes} (h : disk.lookup old = some content)
    (new : Bytes) : (rename disk old new).lookup new = some content := by
  rw [rename, h]
  exact AList.lookup_insert _

section Read

variable (piece limit : ℕ)

/-- The loop over what is left of a file, of which a call of `fread` takes so much at most. -/
def readLoop (out rest : Bytes) : Option Bytes :=
  if _h : rest = [] ∨ piece = 0 then some out
  else if (out ++ rest.take piece).length > limit then none
  else readLoop (out ++ rest.take piece) (rest.drop piece)
termination_by rest.length
decreasing_by
  rw [not_or] at _h
  have hpos := List.length_pos_iff.mpr _h.1
  rw [List.length_drop]
  omega

/-- The content of a file, if it is not larger than the limit. -/
def readUpTo (content : Bytes) : Option Bytes := readLoop piece limit [] content

variable {piece limit}

theorem readLoop_eq (hpiece : 0 < piece) (out rest : Bytes) (h : out.length ≤ limit) :
    readLoop piece limit out rest = if (out ++ rest).length ≤ limit then
      some (out ++ rest) else none := by
  induction out, rest using readLoop.induct piece limit with
  | case1 out rest hend =>
    obtain rfl : rest = [] := hend.resolve_right hpiece.ne'
    rw [readLoop, dif_pos (.inl rfl), List.append_nil, if_pos h]
  | case2 out rest hend hlarge =>
    rw [readLoop, dif_neg hend, if_pos hlarge, if_neg]
    rw [List.length_append] at hlarge ⊢
    have htake := List.length_take_le' piece rest
    omega
  | case3 out rest hend hsmall ih =>
    rw [readLoop, dif_neg hend, if_neg hsmall, ih (not_lt.mp hsmall), List.append_assoc,
      List.take_append_drop]

theorem readUpTo_eq (hpiece : 0 < piece) (content : Bytes) :
    readUpTo piece limit content = if content.length ≤ limit then some content else none :=
  readLoop_eq hpiece [] content (Nat.zero_le _)

end Read

section Write

/-- What one call of `write` does: so many bytes at most, or none and an error. -/
inductive Write where
  | wrote (n : ℕ)
  | interrupted
  | failed

/-- The loop over the calls of `write`: what is in the file when all of the data is. -/
def writeLoop : List Write → (data file : Bytes) → Option Bytes
  | _, [], file => some file
  | [], _ :: _, _ => none
  | .wrote n :: calls, data, file => writeLoop calls (data.drop n) (file ++ data.take n)
  | .interrupted :: calls, data, file => writeLoop calls data file
  | .failed :: _, _ :: _, _ => none

theorem writeLoop_eq {calls : List Write} {data file content : Bytes}
    (h : writeLoop calls data file = some content) : content = file ++ data := by
  induction calls generalizing data file with
  | nil =>
    cases data with
    | nil =>
      rw [List.append_nil]
      exact (Option.some.inj h).symm
    | cons c data => cases h
  | cons call calls ih =>
    cases data with
    | nil =>
      rw [List.append_nil]
      exact (Option.some.inj h).symm
    | cons c data =>
      cases call with
      | wrote n =>
        rw [ih h, List.append_assoc, List.take_append_drop]
      | interrupted => exact ih h
      | failed => cases h

theorem writeLoop_whole (data : Bytes) : writeLoop [.wrote data.length] data [] = some data := by
  cases data with
  | nil => rfl
  | cons c data => simp [writeLoop]

/-- How the calls end that replace a file. -/
structure Calls where
  opened : Bool := true
  writes : List Write
  synced : Bool := true
  renamed : Bool := true

/-- The calls of a write in which nothing fails. -/
def Calls.calm (data : Bytes) : Calls := { writes := [.wrote data.length] }

/-- The data goes to the file `tmp`, which then takes the name of the file. -/
def writeBehind (disk : Disk) (path tmp data : Bytes) (calls : Calls) : Bool × Disk :=
  if !calls.opened then (false, disk)
  else
    match writeLoop calls.writes data [] with
    | none => (false, disk.erase tmp)
    | some file =>
      if !calls.synced then (false, disk.erase tmp)
      else if !calls.renamed then (false, disk.erase tmp)
      else (true, rename (disk.insert tmp file) tmp path)

/-- Who reads the file sees the old content or the whole new one. -/
theorem lookup_writeBehind (disk : Disk) {path tmp : Bytes} (htmp : path ≠ tmp) (data : Bytes)
    (calls : Calls) : (writeBehind disk path tmp data calls).2.lookup path =
      if (writeBehind disk path tmp data calls).1 then some data else disk.lookup path := by
  have hkept := AList.lookup_erase_ne (s := disk) htmp
  unfold writeBehind
  cases hfile : writeLoop calls.writes data [] with
  | none => cases calls.opened <;> simp [hkept]
  | some file =>
    obtain rfl : file = data := (writeLoop_eq hfile).trans (List.nil_append _)
    have hnew := lookup_rename (AList.lookup_insert (a := tmp) (b := file) disk) path
    cases calls.opened <;> cases calls.synced <;> cases calls.renamed <;> simp [hkept, hnew]

theorem writeBehind_calm (disk : Disk) (path tmp data : Bytes) :
    (writeBehind disk path tmp data (.calm data)).1 = true := by
  simp [writeBehind, Calls.calm, writeLoop_whole]

end Write

end ReadyUp.Support.Files
