import Mathlib.Data.List.DropRight
import ReadyUp.Support.Strto

/-!
# The public address of a server

`normalizePublicAddr` makes `host:port` of what an operator or a console variable says: quotes and
blanks around it go, an IPv6 address is put in brackets, and a missing port becomes the game port.
`address` is what it makes of the text before it is written out again; it takes what `Says` says,
unless the host is on the list of wildcards.

A written address is read as the same address (`address_text`) as long as it is not longer than what
the reader takes; the limit is checked before brackets and port are added.
-/
namespace ReadyUp.Fleet.PublicAddr

open Support

def isJunk (c : UInt8) : Bool :=
  c == byte ' ' || c == 9 || c == 13 || c == 10 || c == byte '"' || c == byte '\''

/-- Without quotes and blanks around it. -/
def trim (s : Bytes) : Bytes := (s.dropWhile isJunk).rdropWhile isJunk

def isNameChar (c : UInt8) : Bool := isAlnum c || c == byte '.' || c == byte '-'

def isAddrChar (c : UInt8) : Bool := isNameChar c || c == byte ':' || c == byte '[' || c == byte ']'

def isHex (c : UInt8) : Bool :=
  isDigit c || (byte 'a' ≤ c && c ≤ byte 'f') || (byte 'A' ≤ c && c ≤ byte 'F')

def isV6Char (c : UInt8) : Bool := isHex c || c == byte ':' || c == byte '.'

/-- The texts that are refused as a wildcard. -/
def wildcards : List Bytes := [ascii "0.0.0.0", ascii "::", ascii "0"]

def maxLength : ℕ := 253

structure Address where
  v6 : Bool
  host : Bytes
  port : ℤ

def Address.text (a : Address) : Bytes :=
  (if a.v6 then byte '[' :: (a.host ++ [byte ']']) else a.host) ++ byte ':' :: toDecimal a.port

/-- Whether the host is an IPv6 address, the host and the text of the port. -/
def cut (s : Bytes) : Option (Bool × Bytes × Bytes) :=
  if s.head? = some (byte '[') then
    let host := s.tail.takeWhile (· != byte ']')
    match s.tail.dropWhile (· != byte ']') with
    | [] => none
    | _ :: [] => some (true, host, [])
    | _ :: c :: port => if c = byte ':' then some (true, host, port) else none
  else if byte '[' ∈ s ∨ byte ']' ∈ s then none
  else if s.count (byte ':') = 0 then some (false, s, [])
  else if s.count (byte ':') = 1 then
    some (false, s.takeWhile (· != byte ':'), (s.dropWhile (· != byte ':')).tail)
  else some (true, s, [])

def portOf (s port : Bytes) (gamePort : ℤ) : Option ℤ :=
  if port ≠ [] ∨ s.getLast? = some (byte ':') then
    if port = [] ∨ 5 < port.length ∨ port.all isDigit = false then none else some (ofDigits port)
  else some gamePort

/-- The address that a trimmed text says. -/
def addressOf (s : Bytes) (gamePort : ℤ) : Option Address :=
  if s = [] ∨ maxLength < s.length ∨ s.all isAddrChar = false then none
  else
    match cut s with
    | none => none
    | some (v6, host, port) =>
      if host = [] then none
      else if v6 = true ∧ host.all isV6Char = false then none
      else if v6 = false ∧ byte ':' ∈ host then none
      else if host ∈ wildcards then none
      else
        match portOf s port gamePort with
        | none => none
        | some p => if p < 1 ∨ 65535 < p then none else some { v6, host, port := p }

def address (raw : Bytes) (gamePort : ℤ) : Option Address := addressOf (trim raw) gamePort

def normalizePublicAddr (raw : Bytes) (gamePort : ℤ) : Bytes :=
  match address raw gamePort with
  | none => []
  | some a => a.text

example :
    normalizePublicAddr (ascii " \"2001:db8::7\" ") 27015 = ascii "[2001:db8::7]:27015" := by decide

section Chars

variable {s : Bytes} {c : UInt8}

theorem isNameChar_of_isAddrChar (h : isAddrChar c = true) (hcolon : c ≠ byte ':')
    (hopen : c ≠ byte '[') (hclose : c ≠ byte ']') : isNameChar c = true := by
  simpa [isAddrChar, hcolon, hopen, hclose] using h

theorem isAddrChar_of_isNameChar (h : isNameChar c = true) : isAddrChar c = true := by
  simp [isAddrChar, h]

theorem isNameChar_of_isDigit (h : isDigit c = true) : isNameChar c = true := by
  simp [isNameChar, isAlnum, h]

theorem isAddrChar_of_isV6Char (h : isV6Char c = true) : isAddrChar c = true := by
  simp only [isV6Char, isHex, Bool.or_eq_true, Bool.and_eq_true, decide_eq_true_eq, beq_iff_eq] at h
  have hlower : byte 'a' ≤ c → c ≤ byte 'f' → isLower c = true := fun hlow hhigh => by
    simp only [isLower, Bool.and_eq_true, decide_eq_true_eq]
    exact ⟨hlow, UInt8.le_trans hhigh (by decide)⟩
  have hupper : byte 'A' ≤ c → c ≤ byte 'F' → isUpper c = true := fun hlow hhigh => by
    simp only [isUpper, Bool.and_eq_true, decide_eq_true_eq]
    exact ⟨hlow, UInt8.le_trans hhigh (by decide)⟩
  obtain (((hdigit | ⟨hlow, hhigh⟩) | ⟨hlow, hhigh⟩) | rfl) | rfl := h
  · exact isAddrChar_of_isNameChar (isNameChar_of_isDigit hdigit)
  · simp [isAddrChar, isNameChar, isAlnum, hlower hlow hhigh]
  · simp [isAddrChar, isNameChar, isAlnum, hupper hlow hhigh]
  · decide
  · decide

theorem not_isJunk_of_isAddrChar (h : isAddrChar c = true) : isJunk c = false := by
  by_contra hjunk
  simp only [Bool.not_eq_false, isJunk, Bool.or_eq_true, beq_iff_eq] at hjunk
  obtain ((((rfl | rfl) | rfl) | rfl) | rfl) | rfl := hjunk <;> exact absurd h (by decide)

theorem trim_eq_self (h : ∀ c ∈ s, isAddrChar c = true) : trim s = s := by
  have hfront : s.dropWhile isJunk = s := by
    cases s with
    | nil => rfl
    | cons c s => simp [not_isJunk_of_isAddrChar (h c List.mem_cons_self)]
  rw [trim, hfront, List.rdropWhile_eq_self_iff]
  intro hne
  simp [not_isJunk_of_isAddrChar (h _ (List.getLast_mem hne))]

/-- No character of a class is in a text that holds others only. -/
theorem notMem_of_forall {p : UInt8 → Bool} (h : ∀ c ∈ s, p c = true) {x : UInt8}
    (hx : p x = false) : x ∉ s := by
  intro hmem
  rw [h x hmem] at hx
  cases hx

theorem cut_at {x : UInt8} (h : x ∉ s) (rest : Bytes) :
    (s ++ x :: rest).takeWhile (· != x) = s ∧ (s ++ x :: rest).dropWhile (· != x) = x :: rest := by
  have hkeep : ∀ c ∈ s, (c != x) = true := by
    intro c hc
    rw [bne_iff_ne]
    rintro rfl
    exact h hc
  rw [List.takeWhile_append_of_pos hkeep, List.dropWhile_append_of_pos hkeep]
  simp

/-- A text with the character in it, taken apart at the first one. -/
theorem eq_cut_at {x y : UInt8} {rest : Bytes} (h : s.dropWhile (· != x) = y :: rest) :
    y = x ∧ s = s.takeWhile (· != x) ++ x :: rest ∧ x ∉ s.takeWhile (· != x) := by
  have hy : y = x := by
    have hhead := List.head?_dropWhile_not (· != x) s
    rw [h] at hhead
    simpa using hhead
  subst hy
  refine ⟨rfl, ?_, fun hmem => ?_⟩
  · rw [← h, List.takeWhile_append_dropWhile]
  · simpa using List.mem_takeWhile_imp hmem

end Chars

section Says

def IsName (s : Bytes) : Prop := s ≠ [] ∧ ∀ c ∈ s, isNameChar c = true

def IsV6 (s : Bytes) : Prop := s ≠ [] ∧ ∀ c ∈ s, isV6Char c = true

def IsPort (s : Bytes) : Prop := s ≠ [] ∧ s.length ≤ 5 ∧ ∀ c ∈ s, isDigit c = true

/-- What a text says: a name or an IPv6 address, which stands in brackets before a port and may
stand in brackets without one. -/
inductive Says (gamePort : ℤ) : Bytes → Address → Prop
  | name {host : Bytes} (hhost : IsName host) : Says gamePort host ⟨false, host, gamePort⟩
  | namePort {host port : Bytes} (hhost : IsName host) (hport : IsPort port) :
    Says gamePort (host ++ byte ':' :: port) ⟨false, host, ofDigits port⟩
  | v6 {host : Bytes} (hhost : IsV6 host) (hcolons : 2 ≤ host.count (byte ':'))
    (hlast : host.getLast? ≠ some (byte ':')) : Says gamePort host ⟨true, host, gamePort⟩
  | bracket {host : Bytes} (hhost : IsV6 host) :
    Says gamePort (byte '[' :: (host ++ [byte ']'])) ⟨true, host, gamePort⟩
  | bracketPort {host port : Bytes} (hhost : IsV6 host) (hport : IsPort port) :
    Says gamePort (byte '[' :: (host ++ byte ']' :: byte ':' :: port)) ⟨true, host, ofDigits port⟩

variable {s host port : Bytes} {gamePort p : ℤ} {v6 : Bool} {a : Address}

theorem IsName.notMem (h : IsName host) {x : UInt8} (hx : isNameChar x = false) : x ∉ host :=
  notMem_of_forall h.2 hx

theorem IsPort.notMem (h : IsPort port) {x : UInt8} (hx : isDigit x = false) : x ∉ port :=
  notMem_of_forall h.2.2 hx

theorem IsName.addr (h : IsName host) : ∀ c ∈ host, isAddrChar c = true :=
  fun c hc => isAddrChar_of_isNameChar (h.2 c hc)

theorem IsV6.addr (h : IsV6 host) : ∀ c ∈ host, isAddrChar c = true :=
  fun c hc => isAddrChar_of_isV6Char (h.2 c hc)

theorem IsPort.addr (h : IsPort port) : ∀ c ∈ port, isAddrChar c = true :=
  fun c hc => isAddrChar_of_isNameChar (isNameChar_of_isDigit (h.2.2 c hc))

theorem Says.addr (h : Says gamePort s a) : ∀ c ∈ s, isAddrChar c = true := by
  cases h with
  | name hhost => exact hhost.addr
  | namePort hhost hport =>
    rw [List.forall_mem_append, List.forall_mem_cons]
    exact ⟨hhost.addr, by decide, hport.addr⟩
  | v6 hhost => exact hhost.addr
  | bracket hhost =>
    rw [List.forall_mem_cons, List.forall_mem_append, List.forall_mem_singleton]
    exact ⟨by decide, hhost.addr, by decide⟩
  | bracketPort hhost hport =>
    rw [List.forall_mem_cons, List.forall_mem_append, List.forall_mem_cons, List.forall_mem_cons]
    exact ⟨by decide, hhost.addr, by decide, by decide, hport.addr⟩

theorem Says.ne_nil (h : Says gamePort s a) : s ≠ [] := by
  cases h with
  | name hhost => exact hhost.1
  | v6 hhost => exact hhost.1
  | namePort | bracket | bracketPort => simp

theorem Says.host_ne_nil (h : Says gamePort s a) : a.host ≠ [] := by
  cases h with
  | name hhost | namePort hhost | v6 hhost | bracket hhost | bracketPort hhost => exact hhost.1

theorem Says.isV6 (h : Says gamePort s a) (hv6 : a.v6 = true) : IsV6 a.host := by
  cases h with
  | v6 hhost | bracket hhost | bracketPort hhost => exact hhost
  | name | namePort => cases hv6

theorem Says.isName (h : Says gamePort s a) (hv6 : a.v6 = false) : IsName a.host := by
  cases h with
  | name hhost | namePort hhost => exact hhost
  | v6 | bracket | bracketPort => cases hv6

theorem Says.cut (h : Says gamePort s a) :
    ∃ port, cut s = some (a.v6, a.host, port) ∧ portOf s port gamePort = some a.port := by
  have hdigits :
      ∀ {port : Bytes}, IsPort port → ∀ s, portOf s port gamePort = some (ofDigits port) := by
    intro port hport s
    simp [portOf, hport.1, not_lt.mpr hport.2.1, List.all_eq_true.mpr hport.2.2]
  have hplain : ∀ {s : Bytes}, byte '[' ∉ s → s.head? ≠ some (byte '[') :=
    fun hopen heq => hopen (List.mem_of_head? heq)
  have hnone : ∀ {x : UInt8} {s : Bytes}, s.getLast? = some x → x ∈ s := List.mem_of_getLast?
  cases h with
  | name hhost =>
    have hopen := hhost.notMem (x := byte '[') (by decide)
    have hclose := hhost.notMem (x := byte ']') (by decide)
    have hcolon := hhost.notMem (x := byte ':') (by decide)
    refine ⟨[], ?_, ?_⟩
    · simp [PublicAddr.cut, hplain hopen, hopen, hclose, List.count_eq_zero.mpr hcolon]
    · simp [portOf, mt hnone hcolon]
  | @namePort host port hhost hport =>
    have hstray : ∀ x, isNameChar x = false → isDigit x = false → x ≠ byte ':' →
        x ∉ host ++ byte ':' :: port := by
      intro x hname hdigit hne hmem
      rcases List.mem_append.mp hmem with hmem | hmem
      · exact hhost.notMem hname hmem
      · exact (List.mem_cons.mp hmem).elim hne (hport.notMem hdigit)
    have hopen := hstray (byte '[') (by decide) (by decide) (by decide)
    have hclose := hstray (byte ']') (by decide) (by decide) (by decide)
    have hcolon := hhost.notMem (x := byte ':') (by decide)
    have hcount : (host ++ byte ':' :: port).count (byte ':') = 1 := by
      rw [List.count_append, List.count_cons_self, List.count_eq_zero.mpr hcolon,
        List.count_eq_zero.mpr (hport.notMem (by decide))]
    obtain ⟨htake, hdrop⟩ := cut_at hcolon port
    refine ⟨port, ?_, hdigits hport _⟩
    simp only [PublicAddr.cut, hplain hopen, hopen, hclose, or_self, hcount, one_ne_zero,
      if_true, if_false, htake, hdrop, List.tail_cons]
  | v6 hhost hcolons hlast =>
    have hopen := notMem_of_forall hhost.2 (x := byte '[') (by decide)
    have hclose := notMem_of_forall hhost.2 (x := byte ']') (by decide)
    refine ⟨[], ?_, ?_⟩
    · have hzero : ¬List.count (byte ':') s = 0 := by omega
      have hone : ¬List.count (byte ':') s = 1 := by omega
      simp only [PublicAddr.cut, hplain hopen, hopen, hclose, or_self, hzero, hone, if_false]
    · simp [portOf, hlast]
  | @bracket host hhost =>
    obtain ⟨htake, hdrop⟩ := cut_at (notMem_of_forall hhost.2 (x := byte ']') (by decide)) []
    have hlast : (byte '[' :: (host ++ [byte ']'])).getLast? ≠ some (byte ':') := by
      rw [← List.cons_append, List.getLast?_concat]
      decide
    refine ⟨[], ?_, ?_⟩
    · simp only [PublicAddr.cut, List.head?_cons, if_true, List.tail_cons, htake, hdrop]
    · simp only [portOf, ne_eq, not_true_eq_false, hlast, or_self, if_false]
  | @bracketPort host port hhost hport =>
    obtain ⟨htake, hdrop⟩ :=
      cut_at (notMem_of_forall hhost.2 (x := byte ']') (by decide)) (byte ':' :: port)
    refine ⟨port, ?_, hdigits hport _⟩
    simp only [PublicAddr.cut, List.head?_cons, if_true, List.tail_cons, htake, hdrop]

/-- The port is read, or it is the game port where there is none. -/
theorem portOf_eq_some (h : portOf s port gamePort = some p) :
    (IsPort port ∧ p = ofDigits port) ∨
    (port = [] ∧ s.getLast? ≠ some (byte ':') ∧ p = gamePort) := by
  rw [portOf] at h
  split_ifs at h with hgiven hbad
  · simp only [not_or, Bool.not_eq_false, List.all_eq_true] at hbad
    exact .inl ⟨⟨hbad.1, not_lt.mp hbad.2.1, hbad.2.2⟩, (Option.some.inj h).symm⟩
  · simp only [not_or, not_not] at hgiven
    exact .inr ⟨hgiven.1, hgiven.2, (Option.some.inj h).symm⟩

theorem cut_bracket (hopen : s.head? = some (byte '[')) (h : cut s = some (v6, host, port)) :
    v6 = true ∧ ((port = [] ∧ s = byte '[' :: (host ++ [byte ']'])) ∨
      s = byte '[' :: (host ++ byte ']' :: byte ':' :: port)) := by
  obtain ⟨t, rfl⟩ := List.head?_eq_some_iff.mp hopen
  simp only [cut, List.head?_cons, if_true, List.tail_cons] at h
  split at h
  · cases h
  · rename_i c hdrop
    simp only [Option.some.injEq, Prod.mk.injEq] at h
    obtain ⟨rfl, rfl, rfl⟩ := h
    exact ⟨rfl, .inl ⟨rfl, congrArg _ (eq_cut_at hdrop).2.1⟩⟩
  · rename_i c d rest hdrop
    split_ifs at h with hd
    simp only [Option.some.injEq, Prod.mk.injEq] at h
    obtain ⟨rfl, rfl, rfl⟩ := h
    exact ⟨rfl, .inr (congrArg _ (hd ▸ (eq_cut_at hdrop).2.1))⟩

/-- The parts of a text without brackets: the colons decide what they are. -/
theorem cut_plain (hopen : s.head? ≠ some (byte '[')) (h : cut s = some (v6, host, port)) :
    (byte '[' ∉ s ∧ byte ']' ∉ s) ∧
      ((v6 = false ∧ host = s ∧ port = []) ∨ (v6 = false ∧ s = host ++ byte ':' :: port) ∨
        (v6 = true ∧ host = s ∧ port = [] ∧ 2 ≤ s.count (byte ':'))) := by
  unfold cut at h
  rw [if_neg hopen] at h
  split_ifs at h with hstray hnone hone
  · simp only [Option.some.injEq, Prod.mk.injEq] at h
    exact ⟨not_or.mp hstray, .inl ⟨h.1.symm, h.2.1.symm, h.2.2.symm⟩⟩
  · simp only [Option.some.injEq, Prod.mk.injEq] at h
    obtain ⟨rfl, rfl, rfl⟩ := h
    refine ⟨not_or.mp hstray, .inr (.inl ⟨rfl, ?_⟩)⟩
    cases hdrop : s.dropWhile (· != byte ':') with
    | nil =>
      -- a text with a colon does not end before it
      have hall := List.dropWhile_eq_nil_iff.mp hdrop
      have hzero : s.count (byte ':') = 0 :=
        List.count_eq_zero.mpr fun hmem => by simpa using hall _ hmem
      omega
    | cons c rest => exact (eq_cut_at hdrop).2.1
  · simp only [Option.some.injEq, Prod.mk.injEq] at h
    exact ⟨not_or.mp hstray, .inr (.inr ⟨h.1.symm, h.2.1.symm, h.2.2.symm, by omega⟩)⟩

/-- What the parts are of, when the checks let them through. -/
theorem says_of_cut (hchars : ∀ c ∈ s, isAddrChar c = true) (hcut : cut s = some (v6, host, port))
    (hhost : host ≠ []) (hv6 : v6 = true → ∀ c ∈ host, isV6Char c = true)
    (hcolon : v6 = false → byte ':' ∉ host) (hport : portOf s port gamePort = some p) :
    Says gamePort s ⟨v6, host, p⟩ := by
  by_cases hopen : s.head? = some (byte '[')
  · obtain ⟨rfl, ⟨rfl, rfl⟩ | rfl⟩ := cut_bracket hopen hcut
    · obtain ⟨⟨hne, -⟩, -⟩ | ⟨-, -, rfl⟩ := portOf_eq_some hport
      · exact absurd rfl hne
      · exact .bracket ⟨hhost, hv6 rfl⟩
    · obtain ⟨hdigits, rfl⟩ | ⟨rfl, hlast, -⟩ := portOf_eq_some hport
      · exact .bracketPort ⟨hhost, hv6 rfl⟩ hdigits
      · refine absurd ?_ hlast
        rw [← List.cons_append, List.getLast?_append_cons]
        rfl
  · obtain ⟨⟨hno, hnc⟩, ⟨rfl, rfl, rfl⟩ | ⟨rfl, rfl⟩ | ⟨rfl, rfl, rfl, hcount⟩⟩ :=
      cut_plain hopen hcut
    · obtain ⟨⟨hne, -⟩, -⟩ | ⟨-, -, rfl⟩ := portOf_eq_some hport
      · exact absurd rfl hne
      · refine .name ⟨hhost, fun c hc => isNameChar_of_isAddrChar (hchars c hc) ?_ ?_ ?_⟩
        · exact fun heq => hcolon rfl (heq ▸ hc)
        · exact fun heq => hno (heq ▸ hc)
        · exact fun heq => hnc (heq ▸ hc)
    · have hsub : ∀ c ∈ host, c ∈ host ++ byte ':' :: port := fun c hc => List.mem_append_left _ hc
      obtain ⟨hdigits, rfl⟩ | ⟨rfl, hlast, -⟩ := portOf_eq_some hport
      · refine .namePort ⟨hhost, fun c hc =>
          isNameChar_of_isAddrChar (hchars c (hsub c hc)) ?_ ?_ ?_⟩ hdigits
        · exact fun heq => hcolon rfl (heq ▸ hc)
        · exact fun heq => hno (heq ▸ hsub c hc)
        · exact fun heq => hnc (heq ▸ hsub c hc)
      · exact absurd (List.getLast?_append_cons ..) hlast
    · obtain ⟨⟨hne, -⟩, -⟩ | ⟨-, hlast, rfl⟩ := portOf_eq_some hport
      · exact absurd rfl hne
      · exact .v6 ⟨hhost, hv6 rfl⟩ hcount hlast

/-- The reader takes what a text says, up to a length, with a port in range and a host that is not
on the list. -/
theorem addressOf_eq_some_iff :
    addressOf s gamePort = some a ↔ Says gamePort s a ∧ s.length ≤ maxLength ∧
      (1 ≤ a.port ∧ a.port ≤ 65535) ∧ a.host ∉ wildcards := by
  constructor
  · intro h
    unfold addressOf at h
    split_ifs at h with htext
    simp only [not_or, not_lt, Bool.not_eq_false, List.all_eq_true] at htext
    obtain ⟨-, hlength, hchars⟩ := htext
    split at h
    · cases h
    · rename_i v6 host port hcut
      split_ifs at h with hhost hv6 hname hwild
      split at h
      · cases h
      · rename_i p hport
        split_ifs at h with hrange
        obtain rfl := Option.some.inj h
        rw [not_or, not_lt, not_lt] at hrange
        refine ⟨says_of_cut hchars hcut hhost ?_ ?_ hport, hlength, hrange, hwild⟩
        · intro hbr c hc
          by_contra hfail
          exact hv6 ⟨hbr, List.all_eq_false.mpr ⟨c, hc, hfail⟩⟩
        · exact fun hbr hmem => hname ⟨hbr, hmem⟩
  · rintro ⟨hstated, hlength, hrange, hwild⟩
    obtain ⟨port, hcut, hport⟩ := hstated.cut
    have hv6 : ¬(a.v6 = true ∧ a.host.all isV6Char = false) := by
      rintro ⟨hbr, hall⟩
      rw [List.all_eq_true.mpr (hstated.isV6 hbr).2] at hall
      cases hall
    have hname : ¬(a.v6 = false ∧ byte ':' ∈ a.host) :=
      fun ⟨hbr, hmem⟩ => (hstated.isName hbr).notMem (by decide) hmem
    have hport' : ¬(a.port < 1 ∨ 65535 < a.port) := by omega
    rw [addressOf, if_neg (by simp [hstated.ne_nil, hlength, List.all_eq_true.mpr hstated.addr]),
      hcut]
    dsimp only
    rw [if_neg hstated.host_ne_nil, if_neg hv6, if_neg hname, if_neg hwild, hport]
    dsimp only
    rw [if_neg hport']

end Says

section Valid

variable {s : Bytes} {a : Address}

/-- An address as the reader lets it through. -/
structure Address.Valid (a : Address) : Prop where
  v6 : a.v6 = true → IsV6 a.host
  name : a.v6 = false → IsName a.host
  port : 1 ≤ a.port ∧ a.port ≤ 65535
  wildcard : a.host ∉ wildcards

theorem valid_of_addressOf {gamePort : ℤ} (h : addressOf s gamePort = some a) : a.Valid := by
  obtain ⟨hstated, -, hrange, hwild⟩ := addressOf_eq_some_iff.mp h
  exact ⟨hstated.isV6, hstated.isName, hrange, hwild⟩

theorem Address.text_ne_nil (a : Address) : a.text ≠ [] := by
  simp [text]

namespace Address.Valid

theorem toDecimal_port (h : a.Valid) : toDecimal a.port = decimal a.port.toNat := by
  have hlow := h.port.1
  have hneg : ¬a.port < 0 := by omega
  have habs : a.port.natAbs = a.port.toNat := by omega
  rw [toDecimal, if_neg hneg, List.nil_append, habs]

theorem isPort (h : a.Valid) : IsPort (decimal a.port.toNat) := by
  obtain ⟨hlow, hhigh⟩ := h.port
  have hne : a.port.toNat ≠ 0 := by omega
  refine ⟨decimal_ne_nil _, ?_, decimal_isDigit _⟩
  rw [decimal, if_neg hne, List.length_map, List.length_reverse,
    Nat.digits_length_le_iff (by decide)]
  omega

/-- A written address says that address, whatever the game port is. -/
theorem says_text (h : a.Valid) (gamePort : ℤ) : Says gamePort a.text a := by
  obtain ⟨v6, host, port⟩ := a
  have hport : ((ofDigits (decimal port.toNat) : ℕ) : ℤ) = port := by
    have hlow : 1 ≤ port := h.port.1
    rw [ofDigits_decimal]
    omega
  rw [text, h.toDecimal_port]
  cases v6 with
  | true =>
    have hstated := @Says.bracketPort gamePort _ _ (h.v6 rfl) h.isPort
    simp only [hport] at hstated
    simpa using hstated
  | false =>
    have hstated := @Says.namePort gamePort _ _ (h.name rfl) h.isPort
    simp only [hport] at hstated
    simpa using hstated

theorem address_text (h : a.Valid) (hlength : a.text.length ≤ maxLength) (gamePort : ℤ) :
    address a.text gamePort = some a := by
  have hstated := h.says_text gamePort
  rw [address, trim_eq_self hstated.addr]
  exact addressOf_eq_some_iff.mpr ⟨hstated, hlength, h.port, h.wildcard⟩

end Address.Valid

theorem address_of_long (hchars : ∀ c ∈ s, isAddrChar c = true) (h : maxLength < s.length)
    (gamePort : ℤ) : address s gamePort = none := by
  rw [address, trim_eq_self hchars, addressOf, if_pos (.inr (.inl h))]

end Valid

section Unspecified

/-- A part of an address that is zero. -/
def IsZero (s : Bytes) : Prop := s ≠ [] ∧ ∀ c ∈ s, c = byte '0'

/-- Up to four numbers with dots between them, all of them zero. -/
def IsUnspecified4 (s : Bytes) : Prop :=
  ∃ ps : List Bytes, 1 ≤ ps.length ∧ ps.length ≤ 4 ∧ (∀ p ∈ ps, IsZero p) ∧
  s = [byte '.'].intercalate ps

/-- So many groups of an IPv6 address, all of them zero. -/
def ZeroGroups (n : ℕ) (s : Bytes) : Prop :=
  ∃ gs : List Bytes, gs.length = n ∧ (∀ g ∈ gs, IsZero g ∧ g.length ≤ 4) ∧
  s = [byte ':'].intercalate gs

/-- The same at the end of the address, where four numbers may stand for the last two groups. -/
def ZeroTail (n : ℕ) (s : Bytes) : Prop :=
  ZeroGroups n s ∨ ∃ (gs : List Bytes) (p : Bytes), gs.length + 2 = n ∧
    (∀ g ∈ gs, IsZero g ∧ g.length ≤ 4) ∧ IsUnspecified4 p ∧ p.count (byte '.') = 3 ∧
      s = [byte ':'].intercalate (gs ++ [p])

/-- Eight groups, or fewer with a gap between them. -/
def IsUnspecified6 (s : Bytes) : Prop :=
  ZeroTail 8 s ∨ ∃ (l r : Bytes) (m n : ℕ), m + n ≤ 7 ∧ ZeroGroups m l ∧ ZeroTail n r ∧
    s = l ++ byte ':' :: byte ':' :: r

/-- The text spells the address that stands for every interface. -/
def IsUnspecified (s : Bytes) : Prop := IsUnspecified4 s ∨ IsUnspecified6 s

theorem isUnspecified_of_mem_wildcards {s : Bytes} (h : s ∈ wildcards) : IsUnspecified s := by
  have hzero : IsZero (ascii "0") := ⟨by decide, List.forall_mem_singleton.mpr (by decide)⟩
  simp only [wildcards, List.mem_cons, List.not_mem_nil, or_false] at h
  obtain rfl | rfl | rfl := h
  · refine .inl ⟨List.replicate 4 (ascii "0"), by simp, by simp, ?_, by decide⟩
    intro p hp
    rw [List.eq_of_mem_replicate hp]
    exact hzero
  · have hnone : ZeroGroups 0 [] := ⟨[], rfl, fun g hg => (by cases hg), by decide⟩
    exact .inr (.inr ⟨[], [], 0, 0, by omega, hnone, .inl hnone, by decide⟩)
  · exact .inl ⟨[ascii "0"], by simp, by simp, List.forall_mem_singleton.mpr hzero, by decide⟩

end Unspecified

section Again

/-- A host that players can connect to, in brackets if it is an IPv6 address, and its port. -/
structure Address.Proper (a : Address) : Prop where
  v6 : a.v6 = true → IsV6 a.host
  name : a.v6 = false → IsName a.host
  port : 1 ≤ a.port ∧ a.port ≤ 65535
  unspecified : ¬IsUnspecified a.host

theorem Address.Proper.valid {a : Address} (h : a.Proper) : a.Valid :=
  ⟨h.v6, h.name, h.port, fun hmem => h.unspecified (isUnspecified_of_mem_wildcards hmem)⟩

/-- An address comes out proper and stays the same when it is normalized again. -/
def Settles (raw : Bytes) (gamePort : ℤ) : Prop :=
  normalizePublicAddr raw gamePort ≠ [] →
    (∃ a : Address, a.Proper ∧ normalizePublicAddr raw gamePort = a.text) ∧
      ∀ gamePort' : ℤ, normalizePublicAddr (normalizePublicAddr raw gamePort) gamePort' =
        normalizePublicAddr raw gamePort

variable {raw : Bytes} {gamePort : ℤ} {a : Address}

theorem normalizePublicAddr_of_address (h : address raw gamePort = some a) :
    normalizePublicAddr raw gamePort = a.text := by
  rw [normalizePublicAddr, h]

theorem normalizePublicAddr_of_long (ha : a.Valid) (h : maxLength < a.text.length) (gamePort : ℤ) :
    normalizePublicAddr a.text gamePort = [] := by
  rw [normalizePublicAddr, address_of_long (ha.says_text gamePort).addr h]

end Again

end ReadyUp.Fleet.PublicAddr
