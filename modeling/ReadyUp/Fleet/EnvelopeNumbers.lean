import ReadyUp.Fleet.Envelope
import ReadyUp.Fleet.JsonSyntax
import ReadyUp.Support.WholeDoubles

/-!
# The numbers of a frame

The integer that is written in a frame is the exact value of the number at its key (`written`), read
off the text with `memberAt`. `Decode` keeps `seq` and `ack` as they are written; it cuts `v` to 32
bits, and `ts` and `epoch` go through a double when they have a fraction or an exponent or are too
large (`Unaltered`, `Narrow`).
-/
namespace ReadyUp.Fleet

open Support JsonScan JsonText JsonTree

section Tokens

def exactValue (t : NumToken) : ℚ := if t.neg then -t.value else t.value

/-- The integer that the number is, if it is one. -/
def exactInt (t : NumToken) : Option ℤ :=
  if (exactValue t).den = 1 then some (exactValue t).num else none

variable {t : NumToken} {i : ℤ}

theorem exactInt_iff : exactInt t = some i ↔ exactValue t = i := by
  unfold exactInt
  constructor
  · intro h
    split_ifs at h with hden
    rw [← Option.some.inj h]
    exact (Rat.den_eq_one_iff _).mp hden |>.symm
  · intro h
    rw [h]
    simp

theorem value_nonneg (t : NumToken) : 0 ≤ t.value := by
  unfold NumToken.value
  positivity

theorem exactInt_of_plain (h : t.isFloat = false) : exactInt t = some t.toInt := by
  rw [NumToken.isFloat, Bool.or_eq_false_iff] at h
  have hfrac : t.frac = none := by simpa using h.1
  have hexp : t.exp = none := by simpa using h.2
  have hvalue : t.value = ofDigits t.int := by
    simp [NumToken.value, NumToken.expValue, hfrac, hexp]
  rw [exactInt_iff, exactValue, NumToken.toInt, hvalue]
  split_ifs <;> simp

theorem value_of_exactInt (h : exactInt t = some i) :
    t.value = (i.natAbs : ℕ) ∧ i = if t.neg then -(i.natAbs : ℤ) else i.natAbs := by
  have hnonneg := value_nonneg t
  have hexact := exactInt_iff.mp h
  unfold exactValue at hexact
  split_ifs at hexact ⊢ with hneg
  · have hi : i ≤ 0 := by
      have hle : (i : ℚ) ≤ 0 := by linarith
      exact_mod_cast hle
    have habs : (i.natAbs : ℤ) = -i := by omega
    refine ⟨?_, by omega⟩
    rw [← Int.cast_natCast, habs]
    push_cast
    linarith
  · have hi : 0 ≤ i := by
      have hle : (0 : ℚ) ≤ i := by linarith
      exact_mod_cast hle
    have habs : (i.natAbs : ℤ) = i := by omega
    refine ⟨?_, by omega⟩
    rw [← Int.cast_natCast, habs]
    exact hexact

theorem toInt_int64_iff : (Int64.ofInt i).toInt = i ↔ InInt64 i := by
  constructor
  · intro h
    rw [← h]
    exact Envelope.inInt64_toInt _
  · rintro ⟨hlow, hhigh⟩
    rw [Int64.toInt_ofInt]
    have hsize : Int64.size = 2 ^ 64 := rfl
    rw [hsize]
    exact Int.bmod_eq_of_le (by push_cast; omega) (by push_cast; omega)

theorem toInt_int32_iff : (Int32.ofInt i).toInt = i ↔ InInt32 i := by
  constructor
  · intro h
    rw [← h]
    exact ⟨Int32.le_toInt _, Int32.toInt_lt _⟩
  · rintro ⟨hlow, hhigh⟩
    rw [Int32.toInt_ofInt]
    have hsize : Int32.size = 2 ^ 32 := rfl
    rw [hsize]
    exact Int.bmod_eq_of_le (by push_cast; omega) (by push_cast; omega)

theorem bmod_signed_iff {f : ℤ} {a : ℕ} {neg : Bool} (ha : a < 2 ^ 64)
    (hrange : InInt64 (if neg then -(a : ℤ) else a)) :
    (if neg then -f else f).bmod (2 ^ 64) = (if neg then -(a : ℤ) else a) ↔
      f % 2 ^ 64 = (a : ℤ) := by
  obtain ⟨hlow, hhigh⟩ := hrange
  rw [Int.bmod_def]
  cases neg with
  | true =>
    simp only [if_true] at hlow hhigh ⊢
    split_ifs with h <;> push_cast at h ⊢ <;> omega
  | false =>
    simp only [Bool.false_eq_true, if_false] at hlow hhigh ⊢
    split_ifs with h <;> push_cast at h ⊢ <;> omega

/-- `AsInt` keeps the integer when it has 64 bits and either no fraction and no exponent or a double
of its own. -/
theorem asInt_numValue_iff (h : exactInt t = some i) :
    (Int64.ofInt (asInt 0 (numValue t))).toInt = i ↔
    InInt64 i ∧ (t.isFloat = true → Binary64.IsDouble i.natAbs) := by
  by_cases hrange : InInt64 i
  · by_cases hfloat : t.isFloat = true
    · obtain ⟨hvalue, hi⟩ := value_of_exactInt h
      have ha : i.natAbs < 2 ^ 64 := by
        obtain ⟨hlow, hhigh⟩ := hrange
        omega
      have hfinite : t.strtod.isFinite = true := by
        rw [NumToken.strtod, hvalue]
        exact decide_eq_true (Binary64.nearest_lt_infMag (by positivity) (by exact_mod_cast ha))
      have hasInt : asInt 0 (numValue t) =
          if t.neg then -⌊Binary64.magnitude (Binary64.nearest i.natAbs)⌋
          else ⌊Binary64.magnitude (Binary64.nearest i.natAbs)⌋ := by
        rw [numValue, if_neg (by simp [hfloat]), asInt, if_pos hfinite, NumToken.strtod, hvalue]
        rfl
      have hiff :=
        @bmod_signed_iff ⌊Binary64.magnitude (Binary64.nearest i.natAbs)⌋ i.natAbs t.neg ha
          (hi ▸ hrange)
      have hsize : Int64.size = 2 ^ 64 := rfl
      rw [← hi, Binary64.floor_nearest_mod_iff ha] at hiff
      rw [hasInt, Int64.toInt_ofInt, hsize, hiff]
      simp [hrange, hfloat]
    · rw [Bool.not_eq_true] at hfloat
      have hexact := exactInt_of_plain hfloat
      rw [h, Option.some.injEq] at hexact
      rw [numValue, if_pos ⟨hfloat, hexact ▸ hrange⟩, asInt, ← hexact, toInt_int64_iff]
      simp [hrange, hfloat]
  · constructor
    · intro heq
      exact absurd (heq ▸ Envelope.inInt64_toInt _) hrange
    · rintro ⟨h, -⟩
      exact absurd h hrange

end Tokens

section Members

variable {num : NumToken → Value}

/-- The value at the key of an object, the last one when it comes twice. -/
def memberAt (key : Bytes) : Node → Option Node
  | .obj _ ms => (ms.reverse.find? fun m => decode pairOf alone m.1.val = key).map fun m => m.2.val
  | _ => none

theorem lookup_evalMembers (ms : List (Padded (List Chr) × Padded Node)) (key : Bytes)
    (o : List (Bytes × Value)) : ((lexisBy num).evalMembers o ms).lookup key =
      ((ms.reverse.find? fun m => decode pairOf alone m.1.val = key).map fun m =>
        (lexisBy num).eval m.2.val).or (o.lookup key) := by
  induction ms generalizing o with
  | nil => simp [Lexis.evalMembers]
  | cons m ms ih =>
    obtain ⟨k, w, v, w'⟩ := m
    have hinsert : (dialectBy num).insert o ((lexisBy num).decode k.val) ((lexisBy num).eval v) =
        assign o (decode pairOf alone k.val) ((lexisBy num).eval v) := rfl
    rw [Lexis.evalMembers, ih, hinsert, lookup_assign, List.reverse_cons, List.find?_append]
    cases ms.reverse.find? fun m => decode pairOf alone m.1.val = key with
    | some m => simp
    | none =>
      by_cases hk : decode pairOf alone k.val = key
      · simp [hk]
      · simp [hk, Ne.symm hk]

theorem get_eval (hnum : ∀ t, (num t).get = fun _ => none) (t : Node) (key : Bytes) :
    ((lexisBy num).eval t).get key = (memberAt key t).map (lexisBy num).eval := by
  cases t with
  | obj gap ms =>
    rw [Lexis.eval]
    have hget : ((dialectBy num).obj ((lexisBy num).evalMembers [] ms)).get key =
        ((lexisBy num).evalMembers [] ms).lookup key := rfl
    rw [hget, lookup_evalMembers]
    simp [memberAt, Function.comp_def]
  | num n =>
    rw [Lexis.eval]
    cases hn : (lexisBy num).number n with
    | none => rfl
    | some v =>
      obtain ⟨t, -, rfl⟩ := Option.map_eq_some_iff.mp hn
      rw [Option.getD_some, hnum]
      rfl
  | arr gap as =>
    rw [Lexis.eval]
    rfl
  | _ => rw [Lexis.eval]; rfl

end Members

section Frames

variable (t : Node) (key : String)

def numberAt : Option NumToken :=
  match memberAt (ascii key) t with
  | some (.num n) => wholeNumber n
  | _ => none

/-- The integer that is written at the key. -/
def written : Option ℤ := (numberAt t key).bind exactInt

/-- The frame says so, and the envelope does. -/
structure Unaltered (e : Envelope) : Prop where
  v : ∃ i, written t "v" = some i ∧ e.v.toInt = i
  seq : ∀ i, written t "seq" = some i → e.seq.toInt = i
  ack : ∀ i, written t "ack" = some i → e.ack.toInt = i
  ts : ∀ i, written t "ts" = some i → e.ts.toInt = i
  epoch : ∀ i, written t "epoch" = some i → e.epoch.toInt = i

/-- The integer at the key has 64 bits, and is a double if it has a fraction or an exponent. -/
def Converts : Prop := ∀ n i, numberAt t key = some n → exactInt n = some i →
  InInt64 i ∧ (n.isFloat = true → Binary64.IsDouble i.natAbs)

/-- The numbers are of the size that they are decoded to. -/
structure Narrow : Prop where
  v : ∀ i, written t "v" = some i → InInt32 i
  ts : Converts t "ts"
  epoch : Converts t "epoch"

variable {t} {key}

theorem numValue_get (n : NumToken) : (numValue n).get = fun _ => none := by
  unfold numValue
  split_ifs <;> rfl

theorem get_of_numberAt {n : NumToken} (h : numberAt t key = some n) :
    ((lexisBy numValue).eval t).get (ascii key) = some (numValue n) := by
  unfold numberAt at h
  split at h
  · rename_i m hm
    rw [get_eval numValue_get, hm, Option.map_some, Lexis.eval]
    have hread : (lexisBy numValue).number m = some (numValue n) := by
      show (wholeNumber m).map numValue = _
      rw [h, Option.map_some]
    rw [hread, Option.getD_some]
  · cases h

theorem written_of_get {i : ℤ}
    (h : ((lexisBy numValue).eval t).get (ascii key) = some (.int i)) :
    written t key = some i ∧ InInt64 i := by
  rw [get_eval numValue_get] at h
  obtain ⟨w, hw, heval⟩ := Option.map_eq_some_iff.mp h
  cases w with
  | num m =>
    rw [Lexis.eval] at heval
    cases hm : wholeNumber m with
    | none =>
      have hread : (lexisBy numValue).number m = none := by
        show (wholeNumber m).map numValue = _
        rw [hm, Option.map_none]
      rw [hread] at heval
      cases heval
    | some n =>
      have hread : (lexisBy numValue).number m = some (numValue n) := by
        show (wholeNumber m).map numValue = _
        rw [hm, Option.map_some]
      rw [hread, Option.getD_some, numValue] at heval
      split_ifs at heval with hint
      obtain rfl := Value.int.inj heval
      refine ⟨?_, hint.2⟩
      rw [written, numberAt, hw]
      simp only [hm, Option.bind_some]
      exact exactInt_of_plain hint.1
  | _ =>
    rw [Lexis.eval] at heval
    cases heval

variable {v : Value} {e : Envelope}

theorem intField_ok {least dflt : ℤ} {err : DecodeError} {x : Int64}
    (h : Envelope.intField v key least dflt err = .ok x) :
    (v.get (ascii key) = none ∨ v.get (ascii key) = some .null) ∨
      ∃ i, v.get (ascii key) = some (.int i) ∧ x = .ofInt i := by
  unfold Envelope.intField at h
  split at h
  · rename_i hget
    exact .inl (.inl hget)
  · rename_i hget
    exact .inl (.inr hget)
  · rename_i i hget
    split_ifs at h
    cases h
    exact .inr ⟨i, hget, rfl⟩
  · cases h

theorem ofValue_ok (h : Envelope.ofValue v = .ok e) :
    (∃ i, v.get (ascii "v") = some (.int i) ∧ e.v = .ofInt i) ∧
    Envelope.intField v "seq" 1 0 .invalidSeq = .ok e.seq ∧
    Envelope.intField v "ack" 0 (-1) .invalidAck = .ok e.ack ∧
    e.ts = .ofInt ((v.get (ascii "ts")).elim 0 (asInt 0)) ∧
    e.epoch = .ofInt ((v.get (ascii "epoch")).elim 0 (asInt 0)) := by
  unfold Envelope.ofValue at h
  simp only [bind, Except.bind, pure, Except.pure] at h
  split at h
  · rename_i i hver
    split at h
    · split_ifs at h
      split at h
      · cases h
      · rename_i seq hseq
        split at h
        · cases h
        · rename_i ack hack
          split at h
          · split_ifs at h
            cases h
            exact ⟨⟨i, hver, rfl⟩, hseq, hack, rfl, rfl⟩
          · cases h
    · cases h
  · cases h

/-- A field that is read as an integer only is never altered. -/
theorem intField_unaltered {least dflt : ℤ} {err : DecodeError} {x : Int64}
    (h : Envelope.intField ((lexisBy numValue).eval t) key least dflt err = .ok x) {i : ℤ}
    (hi : written t key = some i) : x.toInt = i := by
  obtain ⟨n, hn, hexact⟩ := Option.bind_eq_some_iff.mp hi
  have hget := get_of_numberAt hn
  rcases intField_ok h with (hnone | hnull) | ⟨j, hint, rfl⟩
  · rw [hget] at hnone
    cases hnone
  · rw [hget, Option.some.injEq, numValue] at hnull
    split_ifs at hnull
  · obtain ⟨hj, hrange⟩ := written_of_get hint
    rw [hi, Option.some.injEq] at hj
    rw [← hj] at hrange ⊢
    exact toInt_int64_iff.mpr hrange

theorem converts_iff : Converts t key ↔ ∀ i, written t key = some i →
    (Int64.ofInt ((((lexisBy numValue).eval t).get (ascii key)).elim 0 (asInt 0))).toInt = i := by
  constructor
  · intro h i hi
    obtain ⟨n, hn, hexact⟩ := Option.bind_eq_some_iff.mp hi
    rw [get_of_numberAt hn, Option.elim_some]
    exact (asInt_numValue_iff hexact).mpr (h n i hn hexact)
  · intro h n i hn hexact
    have hi : written t key = some i := by
      rw [written, hn, Option.bind_some, hexact]
    have hread := h i hi
    rw [get_of_numberAt hn, Option.elim_some] at hread
    exact (asInt_numValue_iff hexact).mp hread

/-- The numbers of a frame that is accepted are decoded to what is written exactly when they are of
the size that they are decoded to. -/
theorem unaltered_iff {s : Bytes} (h : Envelope.decode s = .ok e) :
    (∃ t, Spells (IsNumberBy Digits) 65 t s) ∧
      ∀ t, Spells (IsNumberBy Digits) 65 t s → (Unaltered t.val e ↔ Narrow t.val) := by
  have hnumber : (lexisBy numValue).Number = IsNumberBy Digits :=
    funext fun n => propext (number_lexisBy _)
  unfold Envelope.decode at h
  split_ifs at h
  split at h
  · cases h
  · rename_i v hparse
    split_ifs at h with hobj
    rw [parse_eq] at hparse
    have hspells := (lexisBy numValue).parse_iff.mp hparse
    rw [hnumber] at hspells
    refine ⟨hspells.imp fun _ ht => ht.1, fun t ht => ?_⟩
    have hread := (lexisBy numValue).parse_iff.mpr ⟨t, hnumber ▸ ht, rfl⟩
    have hv : (lexisBy numValue).eval t.val = v := Option.some.inj (hread.symm.trans hparse)
    subst hv
    obtain ⟨⟨i, hget, hver⟩, hseq, hack, hts, hepoch⟩ := ofValue_ok h
    obtain ⟨hi, -⟩ := written_of_get hget
    constructor
    · intro hun
      refine ⟨fun j hj => ?_, ?_, ?_⟩
      · obtain ⟨k, hk, heq⟩ := hun.v
        rw [hj, Option.some.injEq] at hk
        rw [hj, Option.some.injEq] at hi
        rw [hver, ← hk, hi] at heq
        rw [hi]
        exact toInt_int32_iff.mp heq
      · rw [converts_iff, ← hts]
        exact hun.ts
      · rw [converts_iff, ← hepoch]
        exact hun.epoch
    · intro hnarrow
      refine ⟨⟨i, hi, ?_⟩, fun j hj => intField_unaltered hseq hj, fun j hj =>
        intField_unaltered hack hj, ?_, ?_⟩
      · rw [hver]
        exact toInt_int32_iff.mpr (hnarrow.v i hi)
      · rw [hts]
        exact converts_iff.mp hnarrow.ts
      · rw [hepoch]
        exact converts_iff.mp hnarrow.epoch

end Frames

section Wide

/-- The smallest frame with the number as its version. -/
def pingFrame (n : Bytes) : Bytes :=
  ascii "\x7b\"v\":" ++ (n ++ ascii ",\"type\":\"ping\",\"payload\":\x7b\x7d\x7d")

def rawString (s : Bytes) : List Chr := s.map .raw

def pingNode (n : Bytes) : Node :=
  .obj [] [(⟨[], rawString (ascii "v"), []⟩, ⟨[], .num n, []⟩),
    (⟨[], rawString (ascii "type"), []⟩, ⟨[], .str (rawString (ascii "ping")), []⟩),
    (⟨[], rawString (ascii "payload"), []⟩, ⟨[], .obj [] [], []⟩)]

theorem ok_rawString {s : Bytes}
    (h : (s.all fun c => 0x20 ≤ c && c != byte '"' && c != byte '\\') = true) :
    ∀ c ∈ rawString s, Chr.Ok c := by
  intro k hk
  obtain ⟨c, hc, rfl⟩ := List.mem_map.mp hk
  have hall := List.all_eq_true.mp h c hc
  simpa [Chr.Ok, and_assoc] using hall

theorem spells_pingNode {n : Bytes} (h : IsNumberBy Digits n) :
    Spells (IsNumberBy Digits) 65 ⟨[], pingNode n, []⟩ (pingFrame n) := by
  refine ⟨blank_nil, blank_nil, ?_, ?_⟩
  · refine .obj blank_nil ?_ ?_ ?_
    · simp [blank_nil]
    · rw [List.forall_mem_cons, List.forall_mem_cons, List.forall_mem_singleton]
      exact ⟨ok_rawString (by decide), ok_rawString (by decide), ok_rawString (by decide)⟩
    · rw [List.forall_mem_cons, List.forall_mem_cons, List.forall_mem_singleton]
      refine ⟨.num h, .str (ok_rawString (by decide)), .obj blank_nil ?_ ?_ ?_⟩
      · exact fun _ hm => by cases hm
      · exact fun _ hm => by cases hm
      · exact fun _ hm => by cases hm
  · simp only [pingNode, Node.text, Node.textMembers, List.isEmpty_cons, List.isEmpty_nil,
      List.append_assoc, List.cons_append, List.nil_append, List.append_nil, Bool.false_eq_true,
      if_false, if_true]
    rfl

/-- A frame of the version of the protocol. -/
theorem unaltered_iff_ping :
    Envelope.decode (pingFrame (ascii "1")) = .ok { type := ascii "ping", id := [] } ∧
    Spells (IsNumberBy Digits) 65 ⟨[], pingNode (ascii "1"), []⟩ (pingFrame (ascii "1")) ∧
      Unaltered (pingNode (ascii "1")) { type := ascii "ping", id := [] } := by
  have hdecode :
      Envelope.decode (pingFrame (ascii "1")) = .ok { type := ascii "ping", id := [] } := rfl
  have hnumber : IsNumberBy Digits (ascii "1") :=
    exists_numText_iff.mp ⟨{ neg := false, int := ascii "1" }, wholeNumber_iff.mp (by decide)⟩
  have hread :
      numberAt (pingNode (ascii "1")) "v" = some { neg := false, int := ascii "1" } := by decide
  have hnone : ∀ key ∈ ["ts", "epoch"], numberAt (pingNode (ascii "1")) key = none := by decide
  have hspells := spells_pingNode hnumber
  refine ⟨hdecode, hspells, ((unaltered_iff hdecode).2 _ hspells).mpr ⟨fun i hi => ?_, ?_, ?_⟩⟩
  · rw [written, hread, Option.bind_some, exactInt_of_plain rfl] at hi
    obtain rfl := Option.some.inj hi
    decide
  · intro n i hn
    rw [hnone "ts" (by decide)] at hn
    cases hn
  · intro n i hn
    rw [hnone "epoch" (by decide)] at hn
    cases hn

/-- A version beyond 32 bits comes out as the version of the protocol. -/
theorem wide_version_altered :
    ∃ t e, Spells (IsNumberBy Digits) 65 t (pingFrame (ascii "4294967297")) ∧
    Envelope.decode (pingFrame (ascii "4294967297")) = .ok e ∧ written t.val "v" = some 4294967297 ∧
    e.v.toInt = 1 ∧ ¬Unaltered t.val e := by
  have hnumber : IsNumberBy Digits (ascii "4294967297") :=
    exists_numText_iff.mp ⟨{ neg := false, int := ascii "4294967297" },
      wholeNumber_iff.mp (by decide)⟩
  have hread :
      numberAt (pingNode (ascii "4294967297")) "v" =
        some { neg := false, int := ascii "4294967297" } := by
    decide
  have hwritten : written (pingNode (ascii "4294967297")) "v" = some 4294967297 := by
    rw [written, hread, Option.bind_some, exactInt_of_plain rfl]
    decide
  have hdecode :
      Envelope.decode (pingFrame (ascii "4294967297")) = .ok { type := ascii "ping", id := [] } :=
        rfl
  refine ⟨⟨[], pingNode (ascii "4294967297"), []⟩, { type := ascii "ping", id := [] },
    spells_pingNode hnumber, hdecode, hwritten, rfl, fun h => ?_⟩
  obtain ⟨i, hi, hv⟩ := h.v
  rw [hwritten, Option.some.injEq] at hi
  rw [← hi] at hv
  exact absurd hv (by decide)

end Wide

end ReadyUp.Fleet
