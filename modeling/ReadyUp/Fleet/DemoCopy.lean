import ReadyUp.Fleet.DemoLife

/-!
# The platform's copy of a demo

While a file is recorded its chunks are sent as they are, and the table of fingerprints says how.
The final pass compares the table with the file, and what was sent otherwise, or is not in the
table, is sent again. `Sound` is what the stream relies on: before the final pass that the table
speaks of what was last sent, after it that whatever differs from the file is still to be sent.
-/
namespace ReadyUp.Fleet.Demo

open Support

section Chunks

variable {α : Type*} {n : ℕ}

/-- The `i`th piece of a list that is cut into pieces of length `n`. -/
def piece (n i : ℕ) (ys : List α) : Option (List α) :=
  if i * n < ys.length then some ((ys.drop (i * n)).take n) else none

theorem piece_zero {ys : List α} (hne : ys ≠ []) : piece n 0 ys = some (ys.take n) := by
  rw [piece, Nat.zero_mul, if_pos (List.length_pos_of_ne_nil hne), List.drop_zero]

theorem piece_succ {ys zs : List α} (h : ys.length = n) (i : ℕ) :
    piece n (i + 1) (ys ++ zs) = piece n i zs := by
  have hlen : (i + 1) * n = ys.length + i * n := by
    rw [h]
    ring
  have hiff : (i + 1) * n < (ys ++ zs).length ↔ i * n < zs.length := by
    rw [List.length_append, hlen, Nat.add_lt_add_iff_left]
  rw [piece, piece, if_congr hiff rfl rfl, hlen, ← List.drop_drop, List.drop_left]

theorem getElem?_go (xs : List α) {acc : Array α} (hpos : 0 < acc.size) (hle : acc.size ≤ n)
    (done : Array (List α)) (i : ℕ) :
    (List.toChunks.go n xs acc done)[i]? =
      if i < done.size then done[i]? else piece n (i - done.size) (acc.toList ++ xs) := by
  induction xs generalizing acc done with
  | nil =>
    have hlength : acc.toList.length ≤ n := by simpa using hle
    have hne : acc.toList ≠ [] := by simpa [← Array.size_eq_zero_iff] using hpos.ne'
    rw [List.toChunks.go, List.append_nil, Array.toList_push, Array.getElem?_toList.symm]
    rcases lt_trichotomy i done.size with hlt | rfl | hgt
    · rw [if_pos hlt, List.getElem?_append_left (by simpa using hlt)]
    · rw [if_neg (lt_irrefl _), Nat.sub_self, piece_zero hne, List.take_of_length_le hlength]
      simp
    · have hlarge : ¬(i - done.size) * n < acc.toList.length := by
        have hone : 1 * n ≤ (i - done.size) * n := Nat.mul_le_mul_right n (by omega)
        omega
      rw [if_neg (by omega), piece, if_neg hlarge, List.getElem?_eq_none]
      simpa using hgt
  | cons x xs ih =>
    rw [List.toChunks.go]
    by_cases hfull : acc.size = n
    · have hn : 1 ≤ n := by omega
      have hne : acc.toList ++ x :: xs ≠ [] := by simp
      have hlength : acc.toList.length = n := by simpa using hfull
      rw [if_pos (beq_iff_eq.mpr hfull), ih (by simp) (by simpa using hn), Array.size_push]
      rcases lt_trichotomy i done.size with hlt | rfl | hgt
      · rw [if_pos (by omega), if_pos hlt, Array.getElem?_push_lt hlt,
          Array.getElem?_eq_getElem hlt]
      · rw [if_pos (by omega), if_neg (lt_irrefl _), Nat.sub_self, piece_zero hne, ← hlength,
          List.take_left]
        simp
      · have hsucc : i - done.size = i - (done.size + 1) + 1 := by omega
        rw [if_neg (by omega), if_neg (by omega), hsucc, piece_succ hlength]
        simp
    · have hsize : (acc.push x).size ≤ n := by
        rw [Array.size_push]
        omega
      rw [if_neg (by simpa using hfull), ih (by simp) hsize, Array.toList_push, List.append_assoc,
        List.singleton_append]

theorem getElem?_toChunks (hn : 0 < n) (ys : List α) (i : ℕ) :
    (ys.toChunks n)[i]? = piece n i ys := by
  cases ys with
  | nil => simp [List.toChunks, piece]
  | cons y ys =>
    obtain ⟨m, rfl⟩ := Nat.exists_eq_add_of_lt hn
    have hgo := @getElem?_go _ (0 + m + 1) ys #[y] (by simp) (by simp) #[] i
    rw [if_neg (by simp)] at hgo
    simpa [List.toChunks] using hgo

end Chunks

section Copy

variable {log : List Action} {file data : Bytes} {s : Stream}

def WasSent (log : List Action) (data : Bytes) : Prop :=
  ∃ id offset size, Action.send (.demoChunk id offset size data) ∈ log

/-- The chunk was last sent whole, as `data`. -/
def SentWhole (log : List Action) (chunk i : ℕ) (data : Bytes) : Prop :=
  data.length = chunk ∧ ∀ j < chunk, copy log (i * chunk + j) = data[j]?

/-- Every fingerprint of the table is the one of the bytes last sent for its chunk. -/
def Noted (log : List Action) (s : Stream) : Prop :=
  ∀ i, s.fps.getD i 0 ≠ 0 → ∃ data, WasSent log data ∧ SentWhole log s.chunk i data ∧ fnv1a64 data =
    s.fps.getD i 0

/-- What of the file was last sent otherwise is still to be sent. -/
def Pending (log : List Action) (file : Bytes) (s : Stream) : Prop :=
  ∀ p b, copy log p = some b → p < file.length →
    file[p]? = some b ∨ s.sent ≤ p ∨ ∃ r ∈ s.rewrites, r ≤ p ∧ (p : ℤ) < r + s.chunk

/-- The final pass was made of this file. -/
structure Stream.Final (sha256 : Bytes → Bytes) (log : List Action) (file : Bytes)
    (s : Stream) : Prop where
  size : s.finalSize = file.length
  digest : s.sha256 = sha256 file
  pending : Pending log file s
  inside : ∀ r ∈ s.rewrites, r < s.finalSize

/-- A stream of chunks of `n` bytes, after what was sent, and with the file that was seen last. -/
structure Stream.Sound (sha256 : Bytes → Bytes) (n : ℕ) (log : List Action) (seen : Option Bytes)
    (s : Stream) : Prop where
  chunk : s.chunk = n
  sent : 0 ≤ s.sent
  noted : s.finalSize < 0 → Noted log s
  aligned : s.finalSize < 0 → s.phase = .stream → (s.chunk : ℤ) ∣ s.sent
  final : 0 ≤ s.finalSize → ∃ file, seen = some file ∧ s.Final sha256 log file

/-- The positions from the one that the platform reported up to the cursor went out. -/
def Covers (log : List Action) (reported sent : ℤ) : Prop :=
  ∀ p : ℕ, reported ≤ p → p < sent → (copy log p).isSome = true

theorem isSome_copy_append {as : List Action} {p : ℕ} (h : (copy as p).isSome = true)
    (bs : List Action) : (copy (as ++ bs) p).isSome = true := by
  rw [copy_append, Option.isSome_or, h, Bool.or_true]

/-- An action that sends nothing of the file. -/
def Action.isSilent (a : Action) : Prop := ∀ p, a.byteAt p = none

theorem copy_append_silent {as : List Action} (h : ∀ a ∈ as, a.isSilent) (p : ℕ) :
    copy (log ++ as) p = copy log p := by
  induction as generalizing log with
  | nil => rw [List.append_nil]
  | cons a as ih =>
    rw [List.append_cons, ih fun b hb => h b (List.mem_cons_of_mem _ hb),
      copy_concat_of_none (h a List.mem_cons_self p)]

theorem WasSent.append (h : WasSent log data) (as : List Action) : WasSent (log ++ as) data := by
  obtain ⟨id, offset, size, hmem⟩ := h
  exact ⟨id, offset, size, List.mem_append_left _ hmem⟩

theorem Noted.append_silent (h : Noted log s) {as : List Action} (has : ∀ a ∈ as, a.isSilent) :
    Noted (log ++ as) s := by
  intro i hi
  obtain ⟨data, hsent, hwhole, hfp⟩ := h i hi
  refine ⟨data, hsent.append as, ⟨hwhole.1, fun j hj => ?_⟩, hfp⟩
  rw [copy_append_silent has]
  exact hwhole.2 j hj

theorem Pending.append_silent (h : Pending log file s) {as : List Action}
    (has : ∀ a ∈ as, a.isSilent) : Pending (log ++ as) file s := by
  intro p b hb
  rw [copy_append_silent has] at hb
  exact h p b hb

theorem Stream.Sound.append_silent {sha256 : Bytes → Bytes} {n : ℕ} {seen : Option Bytes}
    (h : s.Sound sha256 n log seen) {as : List Action} (has : ∀ a ∈ as, a.isSilent) :
    s.Sound sha256 n (log ++ as) seen where
  chunk := h.chunk
  sent := h.sent
  noted hneg := (h.noted hneg).append_silent has
  aligned := h.aligned
  final hfinal := by
    obtain ⟨file, hseen, hsize, hdigest, hpending, hinside⟩ := h.final hfinal
    exact ⟨file, hseen, hsize, hdigest, hpending.append_silent has, hinside⟩

/-- Only the file and the table matter to what the stream relies on. -/
theorem Stream.Sound.frame {sha256 : Bytes → Bytes} {n : ℕ} {seen : Option Bytes} {s' : Stream}
    (h : s.Sound sha256 n log seen) (hchunk : s'.chunk = s.chunk) (hsent : s'.sent = s.sent)
    (hfps : s'.fps = s.fps) (hrewrites : s'.rewrites = s.rewrites)
    (hfinal : s'.finalSize = s.finalSize)
    (hsha : s'.sha256 = s.sha256) (hphase : s'.phase = .stream → s.phase = .stream) :
    s'.Sound sha256 n log seen := by
  constructor
  · exact hchunk.trans h.chunk
  · exact hsent ▸ h.sent
  · rw [hfinal, Noted, hfps, hchunk]
    exact h.noted
  · rw [hfinal, hchunk, hsent]
    exact fun hneg hp => h.aligned hneg (hphase hp)
  · intro hfinal0
    obtain ⟨file, hseen, hsize, hdigest, hpending, hinside⟩ := h.final (hfinal ▸ hfinal0)
    refine ⟨file, hseen, hfinal.trans hsize, hsha.trans hdigest, ?_, ?_⟩
    · rw [Pending, hsent, hrewrites, hchunk]
      exact hpending
    · rw [hrewrites, hfinal]
      exact hinside

end Copy

section Chunk

variable {sha256 : Bytes → Bytes} {log : List Action} {file content data id : Bytes} {s : Stream}
    {offset len : ℤ}

theorem readRange_eq_some (h : readRange (some content) offset len = some data) :
    0 ≤ offset ∧ offset + len ≤ content.length ∧
    data = (content.drop offset.toNat).take len.toNat := by
  rw [readRange, Option.bind_some] at h
  split_ifs at h with hrange
  exact ⟨hrange.1, hrange.2, (Option.some.inj h).symm⟩

theorem exists_of_readRange {content : Option Bytes}
    (h : readRange content offset len = some data) : ∃ c, content = some c := by
  cases content with
  | none => cases h
  | some c => exact ⟨c, rfl⟩

/-- The byte that a chunk sends for a position is the one that the file has there. -/
theorem byteAt_readRange (hlen : 0 ≤ len) (h : readRange (some content) offset len = some data)
    (id : Bytes) (p : ℕ) : Action.byteAt p (.send (.demoChunk id offset len data)) =
      if offset ≤ p ∧ (p : ℤ) < offset + len then content[p]? else none := by
  obtain ⟨hoffset, hbound, rfl⟩ := readRange_eq_some h
  rw [Action.byteAt]
  by_cases hle : offset ≤ p
  · rw [if_pos hle, List.getElem?_take, List.getElem?_drop]
    have hp : offset.toNat + ((p : ℤ) - offset).toNat = p := by omega
    rw [hp]
    exact if_congr (by omega) rfl rfl
  · rw [if_neg hle, if_neg fun hand => hle hand.1]

theorem length_readRange (hlen : 0 ≤ len) (h : readRange (some content) offset len = some data) :
    (data.length : ℤ) = len := by
  obtain ⟨hoffset, hbound, rfl⟩ := readRange_eq_some h
  rw [List.length_take, List.length_drop]
  omega

theorem noteChunk_frame (offset len : ℤ) (data : Bytes) (s : Stream) :
    (s.noteChunk offset len data).sent = s.sent ∧ (s.noteChunk offset len data).chunk = s.chunk ∧
      (s.noteChunk offset len data).phase = s.phase ∧
      (s.noteChunk offset len data).finalSize = s.finalSize ∧
      (s.noteChunk offset len data).sha256 = s.sha256 ∧
      (s.noteChunk offset len data).rewrites = s.rewrites := by
  rw [Stream.noteChunk]
  split_ifs <;> exact ⟨rfl, rfl, rfl, rfl, rfl, rfl⟩

theorem getD_rightpad (fps : List UInt64) (n k : ℕ) :
    (fps.rightpad n 0).getD k 0 = fps.getD k 0 := by
  rw [List.rightpad, List.getD_eq_getElem?_getD, List.getD_eq_getElem?_getD]
  rcases lt_or_ge k fps.length with hlt | hge
  · rw [List.getElem?_append_left hlt]
  · rw [List.getElem?_append_right hge, List.getElem?_eq_none hge, List.getElem?_replicate]
    split_ifs <;> rfl

/-- A full chunk leaves its fingerprint, and the others as they are. -/
theorem getD_noteChunk (hfull : len = s.chunk) (data : Bytes) (k : ℕ) :
    (s.noteChunk offset len data).fps.getD k 0 =
      if (offset / s.chunk).toNat = k then fnv1a64 data else s.fps.getD k 0 := by
  have hlength :
      (offset / s.chunk).toNat < (s.fps.rightpad ((offset / s.chunk).toNat + 1) 0).length := by
    rw [List.length_rightpad]
    omega
  rw [Stream.noteChunk, if_pos hfull, List.getD_eq_getElem?_getD]
  dsimp only
  rw [List.getElem?_set, if_pos hlength]
  split_ifs
  · rfl
  · rw [← List.getD_eq_getElem?_getD, getD_rightpad]

/-- A full chunk that goes out from its own offset is noted as it is. -/
theorem Noted.send (h : Noted log s) (hlen : len = s.chunk) (haligned : (s.chunk : ℤ) ∣ offset)
    (hpos : 0 < s.chunk) (hread : readRange (some content) offset len = some data) (id : Bytes) :
    Noted (log ++ [.send (.demoChunk id offset len data)]) (s.noteChunk offset len data) := by
  have hlen0 : 0 ≤ len := by omega
  have hsize := length_readRange hlen0 hread
  have hoffset := (readRange_eq_some hread).1
  obtain ⟨k, hk⟩ := haligned
  have hk0 : 0 ≤ k := by
    by_contra hneg
    have hmul : (s.chunk : ℤ) * k < 0 :=
      mul_neg_of_pos_of_neg (by exact_mod_cast hpos) (not_le.mp hneg)
    omega
  obtain ⟨m, rfl⟩ := Int.eq_ofNat_of_zero_le hk0
  have hindex : (offset / s.chunk).toNat = m := by
    rw [hk, Int.mul_ediv_cancel_left _ (by omega)]
    rfl
  have hstart : offset = ((m * s.chunk : ℕ) : ℤ) := by
    rw [hk]
    push_cast
    ring
  intro i hi
  rw [getD_noteChunk hlen, hindex] at hi ⊢
  rw [(noteChunk_frame offset len data s).2.1]
  split_ifs at hi ⊢ with heq
  · subst heq
    refine ⟨data, ⟨id, offset, len, List.mem_append_right _ List.mem_cons_self⟩,
      ⟨by omega, fun j hj => ?_⟩, rfl⟩
    have hsome : j < data.length := by omega
    rw [copy_concat, hstart, byteAt_chunk, if_pos (Nat.le_add_right _ _), Nat.add_sub_cancel_left,
      List.getElem?_eq_getElem hsome, Option.some_or]
  · obtain ⟨data', hsent, hwhole, hfp⟩ := h i hi
    refine ⟨data', hsent.append _, ⟨hwhole.1, fun j hj => ?_⟩, hfp⟩
    rw [← hwhole.2 j hj]
    refine copy_concat_of_none ?_
    rw [byteAt_readRange hlen0 hread, if_neg]
    rintro ⟨hlow, hhigh⟩
    have hle : i * s.chunk + j < (i + 1) * s.chunk := by
      rw [Nat.add_mul, Nat.one_mul]
      exact Nat.add_lt_add_left hj _
    have hlt : i * s.chunk + j < (m + 1) * s.chunk := by
      rw [Nat.add_mul, Nat.one_mul]
      omega
    have hmi : m < i + 1 := Nat.lt_of_mul_lt_mul_right (lt_of_le_of_lt (by omega) hle)
    have him : i < m + 1 := Nat.lt_of_mul_lt_mul_right (lt_of_le_of_lt (Nat.le_add_right _ j) hlt)
    omega

/-- What a chunk of the final file covers needs no further sending. -/
theorem Pending.send (h : Pending log file s) (hlen : 0 ≤ len)
    (hread : readRange (some file) offset len = some data) (id : Bytes) {s' : Stream}
    (hs : ∀ p : ℕ, p < file.length → ¬(offset ≤ p ∧ (p : ℤ) < offset + len) →
      (s.sent ≤ p ∨ ∃ r ∈ s.rewrites, r ≤ p ∧ (p : ℤ) < r + s.chunk) →
      s'.sent ≤ p ∨ ∃ r ∈ s'.rewrites, r ≤ p ∧ (p : ℤ) < r + s'.chunk) :
    Pending (log ++ [.send (.demoChunk id offset len data)]) file s' := by
  intro p b hb hp
  rw [copy_concat, byteAt_readRange hlen hread] at hb
  split_ifs at hb with hin
  · rw [List.getElem?_eq_getElem hp, Option.some_or] at hb
    rw [List.getElem?_eq_getElem hp]
    exact .inl hb
  · rw [Option.none_or] at hb
    rcases h p b hb hp with hfile | hlater
    · exact .inl hfile
    · exact .inr (hs p hp hin hlater)

/-- A chunk that goes out extends the part that is covered. -/
theorem Covers.send {reported : ℤ} (h : Covers log reported offset) (hlen : 0 ≤ len)
    (hread : readRange (some content) offset len = some data) (id : Bytes) :
    Covers (log ++ [.send (.demoChunk id offset len data)]) reported (offset + len) := by
  intro p hlow hhigh
  obtain ⟨-, hbound, -⟩ := readRange_eq_some hread
  rw [copy_concat, byteAt_readRange hlen hread]
  split_ifs with hin
  · rw [List.getElem?_eq_getElem (by omega), Option.some_or]
    rfl
  · rw [Option.none_or]
    exact h p hlow (by omega)

end Chunk

section FinalPass

variable {sha256 : Bytes → Bytes} {log : List Action} {content chunk : Bytes} {s : Stream} {i : ℕ}

/-- No bytes that were sent have the fingerprint of another piece of the file. -/
def NoCollision (log : List Action) (n : ℕ) (content : Bytes) : Prop :=
  ∀ data, WasSent log data → ∀ i chunk, piece n i content = some chunk →
    fnv1a64 data = fnv1a64 chunk → data = chunk

theorem NoCollision.append {n : ℕ} (h : NoCollision log n content) {as : List Action}
    (has : ∀ a ∈ as, a = .restart) : NoCollision (log ++ as) n content := by
  rintro data ⟨id, offset, size, hmem⟩
  rcases List.mem_append.mp hmem with hmem | hmem
  · exact h data ⟨id, offset, size, hmem⟩
  · cases has _ hmem

/-- A piece below the cursor is sent again, or the table has its fingerprint. -/
theorem mem_changedChunks (hpos : 0 < s.chunk) (hpiece : piece s.chunk i content = some chunk)
    (hsent : ((i * s.chunk : ℕ) : ℤ) < s.sent) :
    ((i * s.chunk : ℕ) : ℤ) ∈ s.changedChunks content ∨
      s.fps.getD i 0 ≠ 0 ∧ s.fps.getD i 0 = fnv1a64 chunk := by
  have hget := (getElem?_toChunks hpos content i).trans hpiece
  by_cases hknown : chunk.length = s.chunk ∧ s.fps.getD i 0 ≠ 0 ∧ s.fps.getD i 0 = fnv1a64 chunk
  · exact .inr hknown.2
  · refine .inl (List.mem_filterMap.mpr ⟨(chunk, i), List.mk_mem_zipIdx_iff_getElem?.mpr hget, ?_⟩)
    rw [Nat.cast_mul] at hsent ⊢
    dsimp only
    rw [if_pos]
    refine ⟨hsent, ?_⟩
    by_cases hfull : chunk.length = s.chunk
    · rw [if_pos hfull]
      simp only [hfull, true_and] at hknown ⊢
      tauto
    · exact .inl fun hand => hfull hand.1

/-- The final pass finds everything that was last sent otherwise. -/
theorem Noted.finalPass (h : Noted log s) (hpos : 0 < s.chunk)
    (hfresh : NoCollision log s.chunk content) :
    Pending log content (s.finalPass sha256 content) := by
  intro p b hb hp
  have hmod := Nat.div_add_mod' p s.chunk
  have hrest := Nat.mod_lt p hpos
  by_cases hsent : (p : ℤ) < s.sent
  · have hlt : p / s.chunk * s.chunk < content.length := by omega
    have hpiece : piece s.chunk (p / s.chunk) content =
        some ((content.drop (p / s.chunk * s.chunk)).take s.chunk) := if_pos hlt
    rcases mem_changedChunks hpos hpiece (by omega) with hmem | ⟨hknown, hfp⟩
    · refine .inr (.inr ⟨_, hmem, by omega, ?_⟩)
      have hchunk : (s.finalPass sha256 content).chunk = s.chunk := rfl
      rw [hchunk]
      omega
    · obtain ⟨data, hwas, hwhole, hdata⟩ := h _ hknown
      have heq := hfresh data hwas _ _ hpiece (hdata.trans hfp)
      have hcopy := hwhole.2 (p % s.chunk) hrest
      rw [hmod, hb, heq, List.getElem?_take, if_pos hrest, List.getElem?_drop, hmod] at hcopy
      exact .inl hcopy.symm
  · refine .inr (.inl ?_)
    exact (min_le_left s.sent (content.length : ℤ)).trans (not_lt.mp hsent)

end FinalPass

section Sending

variable {sha256 : Bytes → Bytes} {n : ℕ} {log recent : List Action} {reported : ℤ} {data : Bytes}
  {seen content : Option Bytes} {g g' : Sending} {offset len : ℤ}

/-- A stream in the middle of sending: what it relies on, after what was sent so far. -/
structure Sending.Good (sha256 : Bytes → Bytes) (n : ℕ) (log recent : List Action) (reported : ℤ)
    (seen content : Option Bytes) (g : Sending) : Prop where
  phase : g.stream.phase = .stream
  sound : g.stream.Sound sha256 n (log ++ g.sent) seen
  covers : Covers (recent ++ g.sent) reported g.stream.sent
  chunks : ∀ (id : Bytes) (size : ℤ) (sha : Bytes), .send (.demoEnd id size sha) ∉ g.sent
  content : 0 ≤ g.stream.finalSize → ∀ c, content = some c → seen = some c

theorem sendBulk_cases (m : Message) (g : Sending) :
    (g.sendBulk m).2.stream = g.stream ∧
      ((g.sendBulk m).1 = false ∧ (g.sendBulk m).2.sent = g.sent ∨
        (g.sendBulk m).1 = true ∧ (g.sendBulk m).2.sent = g.sent ++ [.send m]) := by
  rw [Sending.sendBulk]
  split
  · exact ⟨rfl, .inl ⟨rfl, rfl⟩⟩
  · exact ⟨rfl, .inl ⟨rfl, rfl⟩⟩
  · exact ⟨rfl, .inr ⟨rfl, rfl⟩⟩

theorem sendChunk_cases (content : Option Bytes) (offset len : ℤ) (g : Sending) :
    (g.sendChunk content offset len).1 = false ∧
    (g.sendChunk content offset len).2.stream = g.stream ∧
        (g.sendChunk content offset len).2.sent = g.sent ∨
      ∃ data, readRange content offset len = some data ∧ (g.sendChunk content offset len).1 = true ∧
        (g.sendChunk content offset len).2.stream = g.stream.noteChunk offset len data ∧
        (g.sendChunk content offset len).2.sent =
          g.sent ++ [.send (.demoChunk g.stream.id offset len data)] := by
  rw [Sending.sendChunk]
  cases hread : readRange content offset len with
  | none => exact .inl ⟨rfl, rfl, rfl⟩
  | some data =>
    dsimp only
    obtain ⟨hstream, ⟨hfail, hsent⟩ | ⟨hok, hsent⟩⟩ :=
      sendBulk_cases (.demoChunk g.stream.id offset len data) g
    · rw [if_neg (by simp [hfail])]
      exact .inl ⟨rfl, hstream, hsent⟩
    · rw [if_pos hok, hstream]
      exact .inr ⟨data, rfl, rfl, rfl, hsent⟩

namespace Sending.Good

theorem congr (h : g.Good sha256 n log recent reported seen content)
    (hstream : g'.stream = g.stream)
    (hsent : g'.sent = g.sent) : g'.Good sha256 n log recent reported seen content := by
  constructor
  · rw [hstream]
    exact h.phase
  · rw [hstream, hsent]
    exact h.sound
  · rw [hstream, hsent]
    exact h.covers
  · rw [hsent]
    exact h.chunks
  · rw [hstream]
    exact h.content

theorem concat_chunk (h : g.Good sha256 n log recent reported seen content) (id id' : Bytes)
    (offset len : ℤ) (data : Bytes) (size : ℤ) (sha : Bytes) :
    .send (.demoEnd id size sha) ∉ g.sent ++ [.send (.demoChunk id' offset len data)] := by
  rw [List.mem_append, not_or]
  refine ⟨h.chunks id size sha, ?_⟩
  rw [List.mem_singleton]
  exact fun heq => by cases heq

/-- A chunk at the cursor: a full one while the file grows, any one of the final file. -/
theorem send (h : g.Good sha256 n log recent reported seen content) (hn : 0 < n)
    (hcursor : offset = g.stream.sent)
    (hlen : 0 ≤ len) (hfull : g.stream.finalSize < 0 → len = g.stream.chunk)
    (hread : readRange content offset len = some data)
    (hstream : g'.stream = { g.stream.noteChunk offset len data with sent := offset + len })
    (hsent : g'.sent = g.sent ++ [.send (.demoChunk g.stream.id offset len data)]) :
    g'.Good sha256 n log recent reported seen content := by
  subst hcursor
  obtain ⟨c, rfl⟩ := exists_of_readRange hread
  obtain ⟨-, hchunk, hphase, hfinal, hsha, hrewrites⟩ :=
    noteChunk_frame g.stream.sent len data g.stream
  have hsound := h.sound
  have hpos : 0 < g.stream.chunk := hsound.chunk ▸ hn
  refine ⟨?_, ⟨?_, ?_, ?_, ?_, ?_⟩, ?_, ?_, ?_⟩
  · rw [hstream]
    exact hphase.trans h.phase
  · rw [hstream]
    exact hchunk.trans hsound.chunk
  · rw [hstream]
    exact add_nonneg hsound.sent hlen
  · rw [hstream, hsent, ← List.append_assoc]
    intro hneg
    have hneg' : g.stream.finalSize < 0 := hfinal ▸ hneg
    exact (hsound.noted hneg').send (hfull hneg')
      (hsound.aligned hneg' h.phase) hpos hread g.stream.id
  · rw [hstream]
    intro hneg _
    have hneg' : g.stream.finalSize < 0 := hfinal ▸ hneg
    dsimp only
    rw [hchunk, hfull hneg']
    exact dvd_add (hsound.aligned hneg' h.phase) dvd_rfl
  · rw [hstream, hsent, ← List.append_assoc]
    intro hfinal0
    have hfinal' : 0 ≤ g.stream.finalSize := hfinal ▸ hfinal0
    obtain ⟨file, hseen, hsize, hdigest, hpending, hinside⟩ := hsound.final hfinal'
    obtain rfl : c = file := Option.some.inj ((h.content hfinal' c rfl).symm.trans hseen)
    refine ⟨c, hseen, hfinal.trans hsize, hsha.trans hdigest,
      hpending.send hlen hread g.stream.id ?_, ?_⟩
    · dsimp only
      rw [hrewrites, hchunk]
      intro p _ hout hlater
      rcases hlater with hlow | hmem
      · exact .inl (by omega)
      · exact .inr hmem
    · dsimp only
      rw [hrewrites, hfinal]
      exact hinside
  · rw [hstream, hsent, ← List.append_assoc]
    exact h.covers.send hlen hread g.stream.id
  · rw [hsent]
    exact fun id => h.concat_chunk id _ _ _ _
  · rw [hstream]
    dsimp only
    rw [hfinal]
    exact h.content

theorem forward (h : g.Good sha256 n log recent reported seen content) (hn : 0 < n) (cfg : Config)
    (nowMs limit : ℤ) (budget : ℕ) :
    (g.forward cfg content nowMs limit budget).2.Good sha256 n log recent reported
      seen content := by
  induction budget generalizing g with
  | zero => exact h
  | succ budget ih =>
    rw [Sending.forward]
    dsimp only
    generalize hg' : (if g.stream.sent = g.stream.acked then
      { g with stream := { g.stream with lastAckMs := nowMs } } else g) = g'
    have hgood :
        g'.Good sha256 n log recent reported seen content ∧ g'.stream.sent = g.stream.sent ∧
        g'.stream.chunk = g.stream.chunk ∧ g'.stream.finalSize = g.stream.finalSize := by
      rw [← hg']
      split_ifs
      · exact ⟨⟨h.phase, h.sound.frame rfl rfl rfl rfl rfl rfl id, h.covers, h.chunks, h.content⟩,
          rfl, rfl, rfl⟩
      · exact ⟨h, rfl, rfl, rfl⟩
    obtain ⟨hgood, hcursor, hchunk, hfinal⟩ := hgood
    by_cases hlimit : g.stream.sent < limit
    · rw [if_pos hlimit]
      by_cases hpart : g.stream.finalSize < 0 ∧
        min (g.stream.chunk : ℤ) (limit - g.stream.sent) < g.stream.chunk
      · rw [if_pos hpart]
        exact h
      · rw [if_neg hpart]
        split_ifs with hwindow hok
        · exact h
        · refine ih ?_
          rcases sendChunk_cases content g.stream.sent
            (min (g.stream.chunk : ℤ) (limit - g.stream.sent)) g' with
            ⟨hfail, -⟩ | ⟨data, hread, -, hstream, hsent⟩
          · rw [hfail] at hok
            cases hok
          · refine hgood.send hn hcursor.symm (by omega) ?_ hread ?_ hsent
            · intro hneg
              rw [hfinal] at hneg
              have hle : ¬min (g.stream.chunk : ℤ) (limit - g.stream.sent) < g.stream.chunk :=
                fun hlt => hpart ⟨hneg, hlt⟩
              rw [hchunk]
              omega
            · dsimp only
              rw [hstream]
        · rcases sendChunk_cases content g.stream.sent
            (min (g.stream.chunk : ℤ) (limit - g.stream.sent)) g' with
            ⟨-, hstream, hsent⟩ | ⟨data, -, htrue, -⟩
          · exact hgood.congr hstream hsent
          · exact absurd htrue hok
    · rw [if_neg hlimit]
      exact h

theorem sendAgain (h : g.Good sha256 n log recent reported seen content)
    (hfinal : 0 ≤ g.stream.finalSize)
    {rest : List ℤ} (hrewrites : g.stream.rewrites = offset :: rest)
    (hlen : len = min (g.stream.chunk : ℤ) (g.stream.finalSize - offset))
    (hread : readRange content offset len = some data)
    (hstream : g'.stream = { g.stream.noteChunk offset len data with rewrites := rest })
    (hsent : g'.sent = g.sent ++ [.send (.demoChunk g.stream.id offset len data)]) :
    g'.Good sha256 n log recent reported seen content ∧ g'.stream.finalSize = g.stream.finalSize ∧
      g'.stream.sent = g.stream.sent := by
  obtain ⟨c, rfl⟩ := exists_of_readRange hread
  obtain ⟨hcursor, hchunk, hphase, hsize, hsha, -⟩ := noteChunk_frame offset len data g.stream
  have hsound := h.sound
  obtain ⟨file, hseen, hfile, hdigest, hpending, hinside⟩ := hsound.final hfinal
  obtain rfl : c = file := Option.some.inj ((h.content hfinal c rfl).symm.trans hseen)
  rw [hrewrites, List.forall_mem_cons] at hinside
  have hlen0 : 0 ≤ len := by omega
  have hnotneg : ¬g.stream.finalSize < 0 := not_lt.mpr hfinal
  refine ⟨⟨?_, ⟨?_, ?_, ?_, ?_, ?_⟩, ?_, ?_, ?_⟩, ?_, ?_⟩
  · rw [hstream]
    exact hphase.trans h.phase
  · rw [hstream]
    exact hchunk.trans hsound.chunk
  · rw [hstream]
    exact hcursor.symm ▸ hsound.sent
  · rw [hstream]
    exact fun hneg => absurd (hsize ▸ hneg) hnotneg
  · rw [hstream]
    exact fun hneg => absurd (hsize ▸ hneg) hnotneg
  · rw [hstream, hsent, ← List.append_assoc]
    refine fun _ =>
      ⟨c, hseen, hsize.trans hfile, hsha.trans hdigest,
        hpending.send hlen0 hread g.stream.id ?_, ?_⟩
    · dsimp only
      rw [hcursor, hchunk, hrewrites]
      intro p hp hout hlater
      rcases hlater with hlow | ⟨r, hr, hlow, hhigh⟩
      · exact .inl hlow
      · rcases List.mem_cons.mp hr with rfl | hr
        · exact absurd ⟨hlow, by omega⟩ hout
        · exact .inr ⟨r, hr, hlow, hhigh⟩
    · dsimp only
      rw [hsize]
      exact hinside.2
  · rw [hstream, hsent, ← List.append_assoc]
    dsimp only
    rw [hcursor]
    exact fun p hlow hhigh => isSome_copy_append (h.covers p hlow hhigh) _
  · rw [hsent]
    exact fun id => h.concat_chunk id _ _ _ _
  · rw [hstream]
    dsimp only
    rw [hsize]
    exact h.content
  · rw [hstream]
    exact hsize
  · rw [hstream]
    exact hcursor

theorem resend (h : g.Good sha256 n log recent reported seen content)
    (hfinal : 0 ≤ g.stream.finalSize) (budget : ℕ) :
    (g.resend content budget).Good sha256 n log recent reported seen content ∧
      (g.resend content budget).stream.finalSize = g.stream.finalSize ∧
      (g.resend content budget).stream.sent = g.stream.sent := by
  induction budget generalizing g with
  | zero => exact ⟨h, rfl, rfl⟩
  | succ budget ih =>
    rw [Sending.resend]
    split
    · exact ⟨h, rfl, rfl⟩
    · rename_i offset rest hrewrites
      dsimp only
      rcases sendChunk_cases content offset
        (min (g.stream.chunk : ℤ) (g.stream.finalSize - offset)) g with
        ⟨hfail, hstream, hsent⟩ | ⟨data, hread, hok, hstream, hsent⟩
      · rw [if_neg (by simp [hfail])]
        exact ⟨h.congr hstream hsent, congrArg Stream.finalSize hstream,
          congrArg Stream.sent hstream⟩
      · rw [if_pos hok]
        generalize (g.sendChunk content offset
          (min (g.stream.chunk : ℤ) (g.stream.finalSize - offset))).2 = g' at hstream hsent
        set g'' : Sending := { g' with stream := { g'.stream with rewrites := rest } } with hg''
        have hstream' : g''.stream =
            { g.stream.noteChunk offset (min (g.stream.chunk : ℤ) (g.stream.finalSize - offset))
              data with rewrites := rest } := by
          rw [hg'', ← hstream]
        obtain ⟨hgood, hsize, hcursor⟩ := h.sendAgain hfinal hrewrites rfl hread hstream' hsent
        obtain ⟨hgood', hsize', hcursor'⟩ := ih hgood (hsize ▸ hfinal)
        exact ⟨hgood', hsize'.trans hsize, hcursor'.trans hcursor⟩

end Sending.Good

/-- What the platform has of the file: nothing of it was last sent otherwise, and from the offset
that it reported everything was sent. -/
structure Delivered (log recent : List Action) (reported : ℤ) (file : Bytes) : Prop where
  same : ∀ p b, copy log p = some b → p < file.length → file[p]? = some b
  whole : Covers recent reported file.length

/-- The end of a demo is only sent when the platform has the file. -/
def EndsRight (sha256 : Bytes → Bytes) (log recent : List Action) (reported : ℤ)
    (seen : Option Bytes) (actions : List Action) : Prop :=
  ∀ (id : Bytes) (size : ℤ) (sha : Bytes), .send (.demoEnd id size sha) ∈ actions →
    ∃ file, seen = some file ∧ size = file.length ∧ sha = sha256 file ∧
      Delivered (log ++ actions) (recent ++ actions) reported file

/-- What a tick leaves of a stream that is not over. -/
structure Leaves (sha256 : Bytes → Bytes) (n : ℕ) (log recent : List Action) (reported : ℤ)
    (seen : Option Bytes) (r : Stream × List Action) : Prop where
  sound : r.1.isOver = false → r.1.Sound sha256 n (log ++ r.2) seen
  covers : r.1.phase = .stream → Covers (recent ++ r.2) reported r.1.sent
  ends : EndsRight sha256 log recent reported seen r.2

namespace Sending.Good

theorem leaves (h : g.Good sha256 n log recent reported seen content) :
    Leaves sha256 n log recent reported seen (g.stream, g.sent) where
  sound _ := h.sound
  covers _ := h.covers
  ends id size sha hmem := absurd hmem (h.chunks id size sha)

theorem sendEnd (h : g.Good sha256 n log recent reported seen content)
    (hfinal : 0 ≤ g.stream.finalSize)
    (hsent : g.stream.finalSize ≤ g.stream.sent) (hrewrites : g.stream.rewrites = []) (cfg : Config)
    (nowMs : ℤ) :
    Leaves sha256 n log recent reported seen
      ((g.sendEnd cfg nowMs).stream, (g.sendEnd cfg nowMs).sent) := by
  obtain ⟨file, hseen, hfile, hdigest, hpending, -⟩ := h.sound.final hfinal
  have hdelivered : Delivered (log ++ g.sent) (recent ++ g.sent) reported file := by
    refine ⟨fun p b hb hp => ?_, fun p hlow hhigh => h.covers p hlow (by omega)⟩
    rcases hpending p b hb hp with hsame | hlater | ⟨r, hr, -⟩
    · exact hsame
    · omega
    · rw [hrewrites] at hr
      cases hr
  rw [Sending.sendEnd]
  by_cases hdue : g.stream.endSentMs = 0 ∨ cfg.endRetryMs ≤ nowMs - g.stream.endSentMs
  · dsimp only
    rw [if_pos hdue]
    obtain ⟨hstream, ⟨hfail, hsame⟩ | ⟨hok, hlog⟩⟩ :=
      sendBulk_cases (.demoEnd g.stream.id g.stream.finalSize g.stream.sha256) g
    · rw [if_neg (by simp [hfail])]
      exact (h.congr hstream hsame).leaves
    · rw [if_pos hok]
      dsimp only
      rw [hstream, hlog]
      set last := Action.send (.demoEnd g.stream.id g.stream.finalSize g.stream.sha256) with hlast
      have hsilent : ∀ a ∈ [last], a.isSilent := by
        intro a ha p
        rw [List.mem_singleton.mp ha]
        rfl
      refine ⟨fun _ => ?_, fun _ p hlow hhigh => ?_, fun id size sha hmem => ?_⟩
      · rw [← List.append_assoc]
        exact (h.sound.append_silent hsilent).frame rfl rfl rfl rfl rfl rfl id
      · rw [← List.append_assoc]
        exact isSome_copy_append (h.covers p hlow hhigh) _
      · rcases List.mem_append.mp hmem with hmem | hmem
        · exact absurd hmem (h.chunks id size sha)
        · injection List.mem_singleton.mp hmem with hend
          injection hend with _ hsize hsha
          refine ⟨file, hseen, hsize.trans hfile, hsha.trans hdigest, ?_⟩
          rw [← List.append_assoc, ← List.append_assoc]
          refine ⟨fun p b hb hp => ?_, fun p hlow hhigh =>
            isSome_copy_append (hdelivered.whole p hlow hhigh) _⟩
          rw [copy_append_silent hsilent] at hb
          exact hdelivered.same p b hb hp
  · dsimp only
    rw [if_neg hdue]
    exact h.leaves

theorem sendAll (h : g.Good sha256 n log recent reported seen content) (hn : 0 < n) (cfg : Config)
    (nowMs size : ℤ) :
    Leaves sha256 n log recent reported seen
      ((g.sendAll cfg content nowMs size).stream, (g.sendAll cfg content nowMs size).sent) := by
  rw [Sending.sendAll]
  dsimp only
  generalize hlimit : (if 0 ≤ g.stream.finalSize then g.stream.finalSize else size) = limit
  have hforward := h.forward hn cfg nowMs limit 16
  generalize g.forward cfg content nowMs limit 16 = r at hforward
  obtain ⟨budget, g'⟩ := r
  dsimp only at hforward ⊢
  by_cases hearly : g'.stream.finalSize < 0 ∨ g'.stream.sent < g'.stream.finalSize
  · rw [if_pos hearly]
    exact hforward.leaves
  · rw [if_neg hearly]
    rw [not_or, not_lt, not_lt] at hearly
    obtain ⟨hgood, hsize, hcursor⟩ := hforward.resend hearly.1 budget
    split_ifs with hdone
    · exact hgood.sendEnd (hsize ▸ hearly.1) (by rw [hsize, hcursor]; exact hearly.2)
        (List.isEmpty_iff.mp hdone) cfg nowMs
    · exact hgood.leaves

end Sending.Good

end Sending

end ReadyUp.Fleet.Demo
