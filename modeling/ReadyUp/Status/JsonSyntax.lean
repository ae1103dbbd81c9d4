import ReadyUp.Status.JsonText
import ReadyUp.Support.JsonUnicode

/-!
# What the reader of the status library takes for JSON

`Parse` collects the bytes that a number may have and leaves them to `strtoll` and `strtod`, so it
takes numbers that the grammar does not have: with a plus sign, with zeros in front, with no digit
on one side of the dot (`IsLooseNumber`). It does not look at the bytes of a string either. Apart
from that it reads exactly the texts of the grammar (`parse_decides_iff`), and its loops end by
themselves (`LoopsEnd`).
-/
namespace ReadyUp.Status.Json

open Support JsonScan JsonGrammar JsonTree

section Strings

/-- A high surrogate takes the next escape with it, whatever it is. -/
def pairOf (u v : ℕ) : Option Bytes :=
  if isHighSurrogate u
  then
    some (if isLowSurrogate v then putUtf8 (0x10000 + (u - 0xD800) * 1024 + (v - 0xDC00))
      else putUtf8 u)
  else none

theorem decodes_escape : Decodes pairOf putUtf8 escape where
  nil := rfl
  simple e s he := by
    rw [escape, if_neg he]
  bad s hs := by
    rw [escape, if_pos rfl, hs]
    rfl
  pair {s u r v r'} hs hr := by
    have hlen : 6 ≤ (byte '\\' :: byte 'u' :: r).length := by
      obtain ⟨a, b, c, d, rfl, -⟩ := hex4_eq_some_iff.mp hr
      simp
    rw [escape, if_pos rfl, hs, Option.bind_some]
    unfold pairOf
    by_cases hhigh : isHighSurrogate u = true
    · simp only [hhigh, hlen, List.cons_prefix_cons, List.nil_prefix, and_self, if_true,
        List.drop_succ_cons, List.drop_zero, hr, Option.map_some]
      split_ifs <;> rfl
    · simp [hhigh]
  broken {s u r} hs hr := by
    rw [escape, if_pos rfl, hs, Option.bind_some]
    dsimp only
    split_ifs with hpair
    · left
      simp [hr]
    · right
      rfl
  lone {s u r} hs hr := by
    have hpre : ¬[byte '\\', byte 'u'] <+: r := by
      rintro ⟨t, rfl⟩
      exact hr t rfl
    rw [escape, if_pos rfl, hs, Option.bind_some]
    simp [hpre]

theorem isRaw_iff (c : UInt8) : isRaw c = true ↔ 0x20 ≤ c := by
  simp [isRaw]

end Strings

section Numbers

/-- What `strtod` takes, out of the bytes that `Num` collects. -/
def IsLooseNumber (n : Bytes) : Prop :=
  ∃ m i f e : Bytes, n = m ++ (i ++ (f ++ e)) ∧ (m = [] ∨ m = [byte '-'] ∨ m = [byte '+']) ∧
    (∀ d ∈ i, isDigit d = true) ∧ (f = [] ∨ ∃ ds, f = byte '.' :: ds ∧ ∀ d ∈ ds, isDigit d = true) ∧
    (i ≠ [] ∨ 2 ≤ f.length) ∧ IsExp e

theorem exists_sign (t : Bytes) :
    ∃ m, (m = [] ∨ m = [byte '-'] ∨ m = [byte '+']) ∧ t = m ++ (sign t).2 := by
  cases t with
  | nil => exact ⟨[], .inl rfl, rfl⟩
  | cons c t =>
    simp only [sign]
    split_ifs with hminus hplus
    · exact ⟨[byte '-'], .inr (.inl rfl), by rw [hminus, List.singleton_append]⟩
    · exact ⟨[byte '+'], .inr (.inr rfl), by rw [hplus, List.singleton_append]⟩
    · exact ⟨[], .inl rfl, rfl⟩

theorem sign_append {m t : Bytes} (hm : m = [] ∨ m = [byte '-'] ∨ m = [byte '+'])
    (ht : ∀ c ∈ t.head?, c ≠ byte '-' ∧ c ≠ byte '+') : (sign (m ++ t)).2 = t := by
  rcases hm with rfl | rfl | rfl
  · cases t with
    | nil => rfl
    | cons c t =>
      obtain ⟨hminus, hplus⟩ := ht c rfl
      simp [sign, hminus, hplus]
  · rfl
  · rfl

theorem exists_fraction (t : Bytes) :
    ∃ f, (f = [] ∨ ∃ ds, f = byte '.' :: ds ∧ ∀ d ∈ ds, isDigit d = true) ∧
      t = f ++ (fractionPart t).2 ∧ (fractionPart t).1.getD [] = f.tail := by
  cases t with
  | nil => exact ⟨[], .inl rfl, rfl, rfl⟩
  | cons c t =>
    simp only [fractionPart]
    split_ifs with hdot
    · refine ⟨byte '.' :: t.takeWhile isDigit,
        .inr ⟨_, rfl, fun d hd => List.mem_takeWhile_imp hd⟩, ?_, rfl⟩
      rw [hdot, List.cons_append, List.takeWhile_append_dropWhile]
    · exact ⟨[], .inl rfl, rfl, rfl⟩

theorem fractionPart_append {f t : Bytes}
    (hf : f = [] ∨ ∃ ds, f = byte '.' :: ds ∧ ∀ d ∈ ds, isDigit d = true)
    (ht : ∀ c ∈ t.head?, isDigit c = false ∧ c ≠ byte '.') :
    (fractionPart (f ++ t)).2 = t ∧ (fractionPart (f ++ t)).1.getD [] = f.tail := by
  rcases hf with rfl | ⟨ds, rfl, hds⟩
  · cases t with
    | nil => exact ⟨rfl, rfl⟩
    | cons c t => simp [fractionPart, (ht c rfl).2]
  · obtain ⟨htake, hdrop⟩ := takeWhile_digits hds fun c hc => (ht c hc).1
    simp [fractionPart, htake, hdrop]

theorem head_isExp {e : Bytes} (h : IsExp e) : ∀ c ∈ e.head?, c = byte 'e' ∨ c = byte 'E' := by
  rcases h with rfl | ⟨x, sign, ds, rfl, hx, -, -⟩
  · simp
  · simpa using hx

theorem wholeFloat_iff {n : Bytes} : (wholeFloat n).isSome = true ↔ IsLooseNumber n := by
  constructor
  · intro h
    obtain ⟨m, hm, hn⟩ := exists_sign n
    obtain ⟨f, hf, hrest, hfrac⟩ := exists_fraction ((sign n).2.dropWhile isDigit)
    have hsplit := (List.takeWhile_append_dropWhile (p := isDigit) (l := (sign n).2)).symm
    have hempty : ¬((sign n).2.takeWhile isDigit = [] ∧ f.tail = []) := by
      intro hempty
      rw [← hfrac] at hempty
      simp [wholeFloat, hempty] at h
    have hdigit : (sign n).2.takeWhile isDigit ≠ [] ∨ 2 ≤ f.length := by
      by_contra hnone
      rw [not_or, not_not, not_le] at hnone
      refine hempty ⟨hnone.1, ?_⟩
      rw [← List.length_eq_zero_iff, List.length_tail]
      omega
    refine ⟨m, (sign n).2.takeWhile isDigit, f,
      (fractionPart ((sign n).2.dropWhile isDigit)).2, ?_, hm,
      fun d hd => List.mem_takeWhile_imp hd, hf, hdigit, ?_⟩
    · rw [← hrest, ← hsplit]
      exact hn
    · simp only [wholeFloat, hfrac, if_neg hempty] at h
      split at h
      · rename_i hnil
        exact .inl hnil
      · rename_i c s hcons
        have hexp :
            (c = byte 'e' ∨ c = byte 'E') ∧ (sign s).2 ≠ [] ∧ (sign s).2.all isDigit = true := by
          by_contra hexp
          rw [if_neg hexp] at h
          cases h
        obtain ⟨hc, hne, hall⟩ := hexp
        obtain ⟨g, hg, hs⟩ := exists_sign s
        refine .inr ⟨c, g, (sign s).2, ?_, hc, ?_, hne, List.all_eq_true.mp hall⟩
        · rw [hcons, ← hs]
        · exact hg.imp_right Or.symm
  · rintro ⟨m, i, f, e, rfl, hm, hi, hf, hdigit, he⟩
    have hhead := head_isExp he
    have hexpHead : ∀ c ∈ e.head?, isDigit c = false ∧ c ≠ byte '.' := by
      intro c hc
      rcases hhead c hc with rfl | rfl <;> decide
    have hfracHead : ∀ c ∈ (f ++ e).head?, isDigit c = false := by
      rcases hf with rfl | ⟨ds, rfl, -⟩
      · intro c hc
        exact (hexpHead c hc).1
      · intro c hc
        obtain rfl : byte '.' = c := by simpa using hc
        decide
    have hsignHead : ∀ c ∈ (i ++ (f ++ e)).head?, c ≠ byte '-' ∧ c ≠ byte '+' := by
      intro c hc
      cases i with
      | cons d i =>
        obtain rfl : d = c := by simpa using hc
        obtain ⟨k, hk, rfl⟩ := exists_digit (hi d List.mem_cons_self)
        interval_cases k <;> decide
      | nil =>
        rcases hf with rfl | ⟨ds, rfl, -⟩
        · rcases hhead c hc with rfl | rfl <;> decide
        · obtain rfl : byte '.' = c := by simpa using hc
          decide
    obtain ⟨htake, hdrop⟩ := takeWhile_digits hi hfracHead
    obtain ⟨hrest, hfrac⟩ := fractionPart_append hf hexpHead
    unfold wholeFloat
    simp only [sign_append hm hsignHead, htake, hdrop, hrest, hfrac]
    have hsome : ¬(i = [] ∧ f.tail = []) := by
      rintro ⟨hi, hf⟩
      rcases hdigit with h | h
      · exact h hi
      · have hlen := congrArg List.length hf
        rw [List.length_tail, List.length_nil] at hlen
        omega
    rw [if_neg hsome]
    rcases he with rfl | ⟨x, g, ds, rfl, hx, hg, hne, hds⟩
    · rfl
    · have hg' : g = [] ∨ g = [byte '-'] ∨ g = [byte '+'] := hg.imp_right Or.symm
      have hdsHead : ∀ c ∈ ds.head?, c ≠ byte '-' ∧ c ≠ byte '+' := by
        intro c hc
        obtain ⟨k, hk, rfl⟩ := exists_digit (hds c (List.mem_of_mem_head? hc))
        interval_cases k <;> decide
      simp only [sign_append hg' hdsHead]
      rw [if_pos ⟨hx, hne, List.all_eq_true.mpr hds⟩]
      rfl

theorem wholeFloat_of_wholeInt {n : Bytes} {t : NumToken} (h : wholeInt n = some t) :
    (wholeFloat n).isSome = true := by
  unfold wholeInt at h
  simp only [] at h
  split_ifs at h with hds
  obtain ⟨hne, hall⟩ := hds
  obtain ⟨m, hm, hn⟩ := exists_sign n
  rw [wholeFloat_iff]
  refine ⟨m, (sign n).2, [], [], ?_, hm, List.all_eq_true.mp hall, .inl rfl, .inl hne, .inl rfl⟩
  simpa using hn

theorem numValue_iff {n : Bytes} : (numValue n).isSome = true ↔ IsLooseNumber n := by
  rw [← wholeFloat_iff]
  unfold numValue
  cases hint : wholeInt n with
  | none => simp
  | some t =>
    simp only [wholeFloat_of_wholeInt hint, iff_true]
    split_ifs <;> rfl

theorem isNumByte_of_mem {n : Bytes} (h : IsLooseNumber n) : ∀ c ∈ n, isNumByte c = true := by
  obtain ⟨m, i, f, e, rfl, hm, hi, hf, -, he⟩ := h
  intro c hc
  rw [List.mem_append, List.mem_append, List.mem_append] at hc
  rcases hc with hc | hc | hc | hc
  · rcases hm with rfl | rfl | rfl
    · cases hc
    · rw [List.mem_singleton.mp hc]
      decide
    · rw [List.mem_singleton.mp hc]
      decide
  · exact isNumByte_digit (hi c hc)
  · rcases hf with rfl | ⟨ds, rfl, hds⟩
    · cases hc
    · rcases List.mem_cons.mp hc with rfl | hc
      · decide
      · exact isNumByte_digit (hds c hc)
  · rcases he with rfl | ⟨x, g, ds, rfl, hx, hg, -, hds⟩
    · cases hc
    · rw [List.mem_cons, List.mem_append] at hc
      rcases hc with rfl | hc | hc
      · rcases hx with rfl | rfl <;> decide
      · rcases hg with rfl | rfl | rfl
        · cases hc
        · rw [List.mem_singleton.mp hc]
          decide
        · rw [List.mem_singleton.mp hc]
          decide
      · exact isNumByte_digit (hds c hc)

theorem startsNumber_of_isNumByte {c : UInt8} (h : isNumByte c = true) : startsNumber c = true := by
  simp only [isNumByte, Bool.or_eq_true, beq_iff_eq] at h
  rcases h with ((((h | rfl) | rfl) | rfl) | rfl) | rfl
  · obtain ⟨k, hk, rfl⟩ := exists_digit h
    interval_cases k <;> decide
  all_goals decide

theorem isNumByte_of_stops {r : Bytes} (h : Stops r) : ∀ c ∈ r.head?, isNumByte c = false := by
  intro c hc
  rcases h c hc with h | rfl | rfl | rfl
  · simp only [isWs, Bool.or_eq_true, beq_iff_eq] at h
    rcases h with ((rfl | rfl) | rfl) | rfl <;> decide
  all_goals decide

theorem takeWhile_of_stops {n r : Bytes} (hn : ∀ c ∈ n, isNumByte c = true) (hr : Stops r) :
    (n ++ r).takeWhile isNumByte = n ∧ (n ++ r).dropWhile isNumByte = r := by
  have hhead := isNumByte_of_stops hr
  cases r with
  | nil =>
    rw [List.append_nil, List.takeWhile_eq_self_iff.mpr hn, List.dropWhile_eq_nil_iff.mpr hn]
    exact ⟨rfl, rfl⟩
  | cons c r =>
    have hc := hhead c rfl
    rw [List.takeWhile_append_of_pos hn, List.dropWhile_append_of_pos hn]
    simp [hc]

end Numbers

section Grammar

def lexis : Lexis dialect where
  decode := decode pairOf putUtf8
  number := numValue
  string_sound := string_sound decodes_escape isRaw_iff
  string_complete := string_complete decodes_escape isRaw_iff
  number_sound {s v r} h := by
    obtain ⟨x, hx, heq⟩ := Option.map_eq_some_iff.mp h
    obtain ⟨rfl, rfl⟩ := Prod.mk.inj heq
    exact ⟨_, List.takeWhile_append_dropWhile.symm, hx⟩
  number_complete {n v r} h hr := by
    have hn := isNumByte_of_mem (numValue_iff.mp (Option.isSome_of_eq_some h))
    obtain ⟨htake, hdrop⟩ := takeWhile_of_stops hn hr
    show number (n ++ r) = some (v, r)
    unfold number
    rw [htake, hdrop, h, Option.map_some]
  number_head {n v} h := by
    have hloose := numValue_iff.mp (Option.isSome_of_eq_some h)
    have hn := isNumByte_of_mem hloose
    cases n with
    | nil => cases h
    | cons c n => exact ⟨c, n, rfl, startsNumber_of_isNumByte (hn c List.mem_cons_self)⟩

theorem number_lexis {n : Bytes} : lexis.Number n ↔ IsLooseNumber n := numValue_iff

theorem isLooseNumber_of_isNumber {n : Bytes} (h : IsNumber n) : IsLooseNumber n := by
  obtain ⟨m, i, f, e, rfl, hm, hi, hf, he⟩ := h
  refine ⟨m, i, f, e, rfl, hm.imp_right .inl, hi.1.2, ?_, .inl hi.1.1, he⟩
  rcases hf with rfl | ⟨ds, rfl, hds⟩
  · exact .inl rfl
  · exact .inr ⟨ds, rfl, hds.2⟩

/-- No loop of the reader is stopped by the length of the text, which bounds it in the model. -/
structure LoopsEnd (s : Bytes) : Prop where
  string : ∀ fuel, s.length ≤ fuel → strBody escape isRaw fuel s = strBody escape isRaw s.length s
  members : ∀ levels o fuel, s.length ≤ fuel →
    dialect.members (dialect.value levels) fuel o s =
      dialect.members (dialect.value levels) s.length o s
  items : ∀ levels a fuel, s.length ≤ fuel →
    dialect.items (dialect.value levels) fuel a s =
      dialect.items (dialect.value levels) s.length a s

theorem loopsEnd (s : Bytes) : LoopsEnd s where
  string _ h := strBody_bound (fun _ _ he => decodes_escape.length_lt he) h le_rfl
  members levels o _ h := lexis.members_bound (lexis.shrinks_value levels) h le_rfl o
  items levels a _ h := Lexis.items_bound (lexis.shrinks_value levels) h le_rfl a

/-- `Parse` takes the text exactly when it is JSON in UTF-8 that is not nested too deep. -/
def Exact (s : Bytes) : Prop := (parse s).isSome = true ↔ IsUtf8 s ∧ IsJson 64 s

theorem number_of_isNumber (n : Bytes) (h : IsNumber n) : lexis.Number n :=
  number_lexis.mpr (isLooseNumber_of_isNumber h)

/-- The reader ends, and decides the grammar exactly where a text of that shape is in UTF-8 and has
no number that only the reader takes. -/
theorem parse_decides_iff (s : Bytes) : LoopsEnd s ∧
    (Exact s ↔ ∀ t, Spells IsLooseNumber 65 t s → IsUtf8 s ∧ ∀ n ∈ t.val.numbers, IsNumber n) := by
  refine ⟨loopsEnd s, ?_⟩
  have hnumber : lexis.Number = IsLooseNumber := funext fun n => propext number_lexis
  rw [← hnumber]
  exact lexis.decides_utf8_iff number_of_isNumber 64 s

/-- A zero in front is taken. -/
theorem leading_zero_taken : ¬(LoopsEnd (ascii "01") ∧ Exact (ascii "01")) := by
  have hparse : (parse (ascii "01")).isSome = true := by decide
  have hloose : lexis.Number (ascii "01") := number_lexis.mpr (numValue_iff.mp (by decide))
  rintro ⟨-, h⟩
  exact lexis.not_isJson number_of_isNumber hloose (not_isNumber_leading_zero (by decide)) 64
    (h.mp hparse).2

end Grammar

end ReadyUp.Status.Json
