import ReadyUp.Support.Strto

/-!
# URLs of the platform

The bearer token goes to the URL that these functions make, so they look for the scheme, the host
and the port of a URL themselves. `upgradeSameHostWs` keeps the host and the port of the base
(`upgrade_stays`).

`checkUrlAllowed` does not tell letter cases of the scheme apart, but `joinUrl` changes it to that
of a WebSocket only in lower case and only where something follows the slashes
(`stays_and_joins_iff`).
-/
namespace ReadyUp.Fleet.Urls

open Support

section Code

/-- What stands before the first `://`, and behind it. -/
def splitScheme : Bytes → Option (Bytes × Bytes)
  | [] => none
  | c :: s =>
    if (ascii "://").isPrefixOf (c :: s) then some ([], (c :: s).drop 3)
    else (splitScheme s).map fun r => (c :: r.1, r.2)

def schemeOf (url : Bytes) : Bytes :=
  match splitScheme url with
  | some (s, _) => s.map toLower
  | none => []

def isPathStart (c : UInt8) : Bool := c == byte '/' || c == byte '?' || c == byte '#'

/-- `AuthorityOf`: host[:port] of a URL, without user info. -/
def authorityOf (url : Bytes) : Bytes :=
  match splitScheme url with
  | some (_, rest) => (rest.takeWhile (!isPathStart ·)).rtakeWhile (· != byte '@')
  | none => []

def hostOf (url : Bytes) : Bytes :=
  let auth := authorityOf url
  if auth.head? = some (byte '[') then
    if byte ']' ∈ auth then (auth.takeWhile (· != byte ']')).drop 1 else []
  else (auth.takeWhile (· != byte ':')).map toLower

def portOf (url : Bytes) : Bytes :=
  let auth := authorityOf url
  let auth := if auth.head? = some (byte '[') then auth.dropWhile (· != byte ']') else auth
  (auth.dropWhile (· != byte ':')).drop 1

/-- `CheckUrlAllowed`: nothing when the URL is allowed, otherwise the reason. -/
def checkUrlAllowed (url : Bytes) (insecure : Bool) : Bytes :=
  let s := schemeOf url
  if s = ascii "https" ∨ s = ascii "wss" then []
  else if s = ascii "http" ∨ s = ascii "ws" then
    if insecure then []
    else
      ascii "plain " ++ s ++ ascii ":// is refused: use " ++
        (if s = ascii "http" then ascii "https" else ascii "wss") ++
        ascii ("://, or opt in with \x60insecure = 1\x60 in fleet.cfg or " ++
          "\x60ru fleet enroll <url> <code> --insecure\x60 (the token then travels unencrypted)")
  else ascii "unsupported URL scheme (want https:// or wss://)"

/-- The base without the slashes at its end. -/
def withoutSlashes (base : Bytes) : Bytes := base.rdropWhile (· == byte '/')

def joinUrl (base path : Bytes) (ws : Bool) : Bytes :=
  let b := withoutSlashes base
  let b :=
    if ws then
      if (ascii "https://").isPrefixOf b then ascii "wss://" ++ b.drop 8
      else if (ascii "http://").isPrefixOf b then ascii "ws://" ++ b.drop 7
      else b
    else b
  b ++ path

/-- `UpgradeSameHostWs`: nothing when the URL is not one to upgrade. -/
def upgradeSameHostWs (base wsUrl : Bytes) : Bytes :=
  let host := hostOf base
  let bp := portOf base
  let wp := portOf wsUrl
  if schemeOf base ≠ ascii "https" ∨ schemeOf wsUrl ≠ ascii "ws" then []
  else if host = [] ∨ host ≠ hostOf wsUrl then []
  else if ¬(wp = [] ∨ wp = ascii "80" ∨ wp = bp ∨ (wp = ascii "443" ∧ bp = [])) then []
  else
    let rest := ((splitScheme wsUrl).map (·.2)).getD []
    ascii "wss://" ++ authorityOf base ++ rest.dropWhile (!isPathStart ·)

end Code

section Scheme

variable {s t url base path : Bytes}

theorem splitScheme_cons_of_ne {c : UInt8} (h : c ≠ byte ':') (s : Bytes) :
    splitScheme (c :: s) = (splitScheme s).map fun r => (c :: r.1, r.2) := by
  have hpre : (ascii "://").isPrefixOf (c :: s) = false := by
    show (byte ':' == c && (ascii "//").isPrefixOf s) = false
    rw [beq_eq_false_iff_ne.mpr h.symm, Bool.false_and]
  rw [splitScheme, if_neg (by simp [hpre])]

theorem splitScheme_sep (s : Bytes) : splitScheme (ascii "://" ++ s) = some ([], s) := rfl

theorem splitScheme_append (hs : byte ':' ∉ s) (t : Bytes) :
    splitScheme (s ++ (ascii "://" ++ t)) = some (s, t) := by
  induction s with
  | nil => exact splitScheme_sep t
  | cons c s ih =>
    simp only [List.mem_cons, not_or] at hs
    rw [List.cons_append, splitScheme_cons_of_ne (Ne.symm hs.1), ih hs.2]
    rfl

theorem splitScheme_eq_some {a b : Bytes} (h : splitScheme url = some (a, b)) :
    url = a ++ (ascii "://" ++ b) := by
  induction url generalizing a with
  | nil => cases h
  | cons c s ih =>
    unfold splitScheme at h
    split_ifs at h with hpre
    · rw [Option.some.injEq, Prod.mk.injEq] at h
      obtain ⟨rfl, rfl⟩ := h
      obtain ⟨t, ht⟩ := List.isPrefixOf_iff_prefix.mp hpre
      rw [← ht]
      rfl
    · obtain ⟨r, hr, heq⟩ := Option.map_eq_some_iff.mp h
      rw [Prod.mk.injEq] at heq
      obtain ⟨rfl, rfl⟩ := heq
      rw [List.cons_append, ← ih hr]

end Scheme

section Upgrade

variable {base wsUrl : Bytes}

structure Stays (base wsUrl url : Bytes) : Prop where
  scheme : schemeOf url = ascii "wss"
  host : hostOf url = hostOf base
  port : portOf url = portOf base
  named : hostOf wsUrl = hostOf base
  allowed : checkUrlAllowed url false = []

theorem authorityOf_spec (url : Bytes) :
    (∀ c ∈ authorityOf url, isPathStart c = false) ∧
    ∀ c ∈ authorityOf url, (c != byte '@') = true := by
  unfold authorityOf
  split
  · rename_i rest hrest
    constructor
    · intro c hc
      have hmem := List.mem_takeWhile_imp ((List.rtakeWhile_suffix _ _).mem hc)
      simpa using hmem
    · intro c hc
      exact @List.mem_rtakeWhile_imp _ (fun x => x != byte '@') _ _ hc
  · simp

theorem dropWhile_startsPath (s : Bytes) :
    (s.dropWhile (!isPathStart ·)).takeWhile (!isPathStart ·) = [] := by
  induction s with
  | nil => rfl
  | cons c s ih =>
    rw [List.dropWhile_cons]
    split_ifs with hc
    · exact ih
    · rw [List.takeWhile_cons, if_neg hc]

/-- A URL that is put together of an authority and a path has the authority. -/
theorem authorityOf_wss {auth tail : Bytes} (hpath : ∀ c ∈ auth, isPathStart c = false)
    (huser : ∀ c ∈ auth, (c != byte '@') = true) (htail : tail.takeWhile (!isPathStart ·) = []) :
    authorityOf (ascii "wss://" ++ auth ++ tail) = auth := by
  have hsplit : splitScheme (ascii "wss://" ++ auth ++ tail) = some (ascii "wss", auth ++ tail) :=
    splitScheme_append (s := ascii "wss") (by decide) (auth ++ tail)
  unfold authorityOf
  simp only [hsplit]
  rw [List.takeWhile_append_of_pos (by simpa using hpath), htail, List.append_nil]
  exact List.rtakeWhile_eq_self_iff.mpr huser

theorem schemeOf_wss (s : Bytes) : schemeOf (ascii "wss://" ++ s) = ascii "wss" := by
  have hsplit : splitScheme (ascii "wss://" ++ s) = some (ascii "wss", s) :=
    splitScheme_append (s := ascii "wss") (by decide) s
  unfold schemeOf
  rw [hsplit]
  rfl

/-- An upgraded URL is at the host and the port of the base. -/
theorem upgrade_stays (h : upgradeSameHostWs base wsUrl ≠ []) :
    Stays base wsUrl (upgradeSameHostWs base wsUrl) := by
  unfold upgradeSameHostWs at h ⊢
  simp only at h ⊢
  split_ifs at h ⊢ with hscheme hhost hport
  · exact absurd rfl h
  · exact absurd rfl h
  · obtain ⟨hpath, huser⟩ := authorityOf_spec base
    have hauth :=
      authorityOf_wss hpath huser (dropWhile_startsPath (((splitScheme wsUrl).map (·.2)).getD []))
    have hwss :=
      schemeOf_wss (authorityOf base ++ (((splitScheme wsUrl).map (·.2)).getD []).dropWhile
        (!isPathStart ·))
    rw [← List.append_assoc] at hwss
    refine ⟨hwss, ?_, ?_, ?_, ?_⟩
    · unfold hostOf
      rw [hauth]
    · unfold portOf
      rw [hauth]
    · rw [not_or, not_not] at hhost
      exact hhost.2.symm
    · unfold checkUrlAllowed
      rw [hwss]
      rfl
  · exact absurd rfl h

end Upgrade

section Join

variable {a b base path : Bytes}

/-- Something follows the slashes behind the scheme. -/
def Bodied (base : Bytes) : Prop := ∃ a b, splitScheme base = some (a, b) ∧ ∃ c ∈ b, c ≠ byte '/'

/-- A WebSocket URL that is made of the base has the scheme that the base asks for. -/
def Joined (base path : Bytes) (insecure : Bool) : Prop :=
  checkUrlAllowed base insecure = [] →
    (schemeOf base = ascii "https" → schemeOf (joinUrl base path true) = ascii "wss") ∧
      (schemeOf (joinUrl base path true) = ascii "ws" → schemeOf base = ascii "http")

/-- An encrypted base is written in lower case and has a host, and no base is one of a WebSocket
already. -/
def Fine (base path : Bytes) : Prop :=
  (schemeOf base = ascii "https" → ascii "https://" <+: base ∧ Bodied base) ∧
    (schemeOf base = ascii "ws" → ¬ Bodied base ∧ ¬ ascii "//" <+: path)

theorem colon_notMem {s : Bytes} (hs : byte ':' ∉ s) (h : a.map toLower = s) : byte ':' ∉ a := by
  intro hmem
  apply hs
  rw [← h]
  exact List.mem_map_of_mem hmem

/-- A URL with a scheme is the scheme, the separator and the rest. -/
theorem schemeOf_cases {s : Bytes} (hne : s ≠ []) (hs : byte ':' ∉ s) (h : schemeOf base = s) :
    ∃ a b, splitScheme base = some (a, b) ∧ base = a ++ (ascii "://" ++ b) ∧ a.map toLower = s ∧
    byte ':' ∉ a := by
  unfold schemeOf at h
  split at h
  · rename_i a b hab
    exact ⟨a, b, hab, splitScheme_eq_some hab, h, colon_notMem hs h⟩
  · exact absurd h.symm hne

theorem withoutSlashes_append {x : Bytes} (h : ∃ c ∈ b, c ≠ byte '/') (hx : x = a ++ b) :
    withoutSlashes x = a ++ withoutSlashes b := by
  have hne : b.rdropWhile (· == byte '/') ≠ [] := by
    intro hnil
    obtain ⟨c, hc, hslash⟩ := h
    have hall := List.rdropWhile_eq_nil_iff.mp hnil c hc
    exact hslash (by simpa using hall)
  unfold withoutSlashes
  rw [hx, List.rdropWhile, List.rdropWhile, List.reverse_append, List.dropWhile_append, if_neg]
  · rw [List.reverse_append, List.reverse_reverse]
  · rw [List.isEmpty_iff]
    intro hnil
    apply hne
    rw [List.rdropWhile, hnil]
    rfl

theorem withoutSlashes_slashes {x : Bytes} (h : ∀ c ∈ b, c = byte '/')
    (hx : x = a ++ (ascii "://" ++ b)) : withoutSlashes x = a ++ [byte ':'] := by
  have hsep : ascii "://" = byte ':' :: ascii "//" := rfl
  have hshape : x = (a ++ [byte ':']) ++ (ascii "//" ++ b) := by
    rw [hx, hsep]
    simp
  have hslashes : ∀ c ∈ (ascii "//" ++ b).reverse, (c == byte '/') = true := by
    have htwo : ∀ c ∈ ascii "//", c = byte '/' := by
      have hshape : ascii "//" = [byte '/', byte '/'] := rfl
      rw [hshape]
      simp
    intro c hc
    rw [beq_iff_eq]
    rcases List.mem_append.mp (List.mem_reverse.mp hc) with hc | hc
    · exact htwo c hc
    · exact h c hc
  unfold withoutSlashes
  rw [hshape, List.rdropWhile, List.reverse_append,
    List.dropWhile_append_of_pos hslashes, ← List.rdropWhile]
  exact List.rdropWhile_concat_neg _ _ _ (by decide)

/-- A text with a colon that is not part of the separator has no scheme of its own. -/
theorem schemeOf_colon {s : Bytes} (ha : byte ':' ∉ a) (hne : s ≠ []) (hs : byte ':' ∉ s)
    (h : schemeOf (a ++ (byte ':' :: path)) = s) : a.map toLower = s ∧ ascii "//" <+: path := by
  obtain ⟨a', b', -, heq, hlower, ha'⟩ := schemeOf_cases hne hs h
  have hsep : ascii "://" ++ b' = byte ':' :: (ascii "//" ++ b') := rfl
  rw [hsep] at heq
  -- both texts are cut at their first colon
  have htake : ∀ (x y : Bytes), byte ':' ∉ x → (x ++ byte ':' :: y).takeWhile (· != byte ':') = x ∧
      (x ++ byte ':' :: y).dropWhile (· != byte ':') = byte ':' :: y := by
    intro x y hx
    have hall : ∀ c ∈ x, (c != byte ':') = true := by
      intro c hc
      rw [bne_iff_ne]
      rintro rfl
      exact hx hc
    rw [List.takeWhile_append_of_pos hall, List.dropWhile_append_of_pos hall]
    simp
  have hfirst := (htake a path ha).1
  have hrest := (htake a path ha).2
  rw [heq, (htake a' _ ha').1] at hfirst
  rw [heq, (htake a' _ ha').2, List.cons.injEq] at hrest
  rw [← hfirst]
  exact ⟨hlower, b', hrest.2⟩

theorem joinUrl_of_https (h : ascii "https://" <+: withoutSlashes base) :
    schemeOf (joinUrl base path true) = ascii "wss" := by
  unfold joinUrl
  simp only [if_true]
  rw [if_pos (List.isPrefixOf_iff_prefix.mpr h), List.append_assoc]
  exact schemeOf_wss _

theorem schemeOf_ws (s : Bytes) : schemeOf (ascii "ws://" ++ s) = ascii "ws" := by
  have hsplit : splitScheme (ascii "ws://" ++ s) = some (ascii "ws", s) :=
    splitScheme_append (s := ascii "ws") (by decide) s
  unfold schemeOf
  rw [hsplit]
  rfl

theorem joinUrl_of_http (h : ascii "http://" <+: withoutSlashes base) :
    schemeOf (joinUrl base path true) = ascii "ws" := by
  have hnot : ¬ ascii "https://" <+: withoutSlashes base := by
    obtain ⟨t, ht⟩ := h
    rw [← ht]
    show ¬ [byte 'h', byte 't', byte 't', byte 'p', byte 's', byte ':', byte '/', byte '/'] <+:
      [byte 'h', byte 't', byte 't', byte 'p', byte ':', byte '/', byte '/'] ++ t
    simp only [List.cons_append, List.cons_prefix_cons, not_and]
    intro _ _ _ _ hc
    exact absurd hc (by decide)
  unfold joinUrl
  simp only [if_true]
  rw [if_neg (by rwa [List.isPrefixOf_iff_prefix]), if_pos (List.isPrefixOf_iff_prefix.mpr h),
    List.append_assoc]
  exact schemeOf_ws _

theorem joinUrl_of_neither (hs : ¬ ascii "https://" <+: withoutSlashes base)
    (h : ¬ ascii "http://" <+: withoutSlashes base) :
    joinUrl base path true = withoutSlashes base ++ path := by
  unfold joinUrl
  simp only [if_true]
  rw [if_neg (by rwa [List.isPrefixOf_iff_prefix]), if_neg (by rwa [List.isPrefixOf_iff_prefix])]

/-- The scheme is all that stands before the first colon of the separator. -/
theorem prefix_iff {s : Bytes} (hs : byte ':' ∉ s) (ha : byte ':' ∉ a) :
    s ++ ascii "://" <+: a ++ (ascii "://" ++ b) ↔ a = s := by
  constructor
  · rintro ⟨t, ht⟩
    have hleft := splitScheme_append hs t
    rw [← List.append_assoc, ht, splitScheme_append ha b, Option.some.injEq, Prod.mk.injEq] at hleft
    exact hleft.1
  · rintro rfl
    exact ⟨b, by simp⟩

theorem short_not_prefix {s : Bytes} (hne : s ≠ []) (hs : byte ':' ∉ s) (hlower : s.map toLower = s)
    (ha : byte ':' ∉ a) : ¬ s ++ ascii "://" <+: a ++ [byte ':'] := by
  rintro ⟨t, ht⟩
  have hscheme : schemeOf (a ++ byte ':' :: []) = s := by
    unfold schemeOf
    rw [← ht, List.append_assoc, splitScheme_append hs]
    exact hlower
  obtain ⟨r, hr⟩ := (schemeOf_colon ha hne hs hscheme).2
  cases hr

theorem joinUrl_cases {s : Bytes} (hne : s ≠ []) (hs : byte ':' ∉ s) (h : schemeOf base = s) :
    (ascii "https://" <+: base ∧ Bodied base ∧ schemeOf (joinUrl base path true) = ascii "wss") ∨
      (ascii "http://" <+: base ∧ Bodied base ∧ schemeOf (joinUrl base path true) = ascii "ws") ∨
      (Bodied base ∧ ¬ ascii "https://" <+: base ∧ ¬ ascii "http://" <+: base ∧
        schemeOf (joinUrl base path true) = s) ∨
      (¬ Bodied base ∧ ∃ a, byte ':' ∉ a ∧ a.map toLower = s ∧
        joinUrl base path true = a ++ byte ':' :: path) := by
  obtain ⟨a, b, hsplit, hbase, hlower, hcolon⟩ := schemeOf_cases hne hs h
  have hhttps : ascii "https://" = ascii "https" ++ ascii "://" := rfl
  have hhttp : ascii "http://" = ascii "http" ++ ascii "://" := rfl
  by_cases hbody : ∃ c ∈ b, c ≠ byte '/'
  · have hbodied : Bodied base := ⟨a, b, hsplit, hbody⟩
    have hcut : withoutSlashes base = a ++ (ascii "://" ++ withoutSlashes b) := by
      rw [← List.append_assoc]
      exact withoutSlashes_append hbody (by rw [hbase, List.append_assoc])
    by_cases hs' : ascii "https://" <+: base
    · refine .inl ⟨hs', hbodied, joinUrl_of_https ?_⟩
      rw [hbase, hhttps, prefix_iff (by decide) hcolon] at hs'
      rw [hcut, hhttps, prefix_iff (by decide) hcolon]
      exact hs'
    · by_cases hh : ascii "http://" <+: base
      · refine .inr (.inl ⟨hh, hbodied, joinUrl_of_http ?_⟩)
        rw [hbase, hhttp, prefix_iff (by decide) hcolon] at hh
        rw [hcut, hhttp, prefix_iff (by decide) hcolon]
        exact hh
      · refine .inr (.inr (.inl ⟨hbodied, hs', hh, ?_⟩))
        rw [hbase, hhttps, prefix_iff (by decide) hcolon] at hs'
        rw [hbase, hhttp, prefix_iff (by decide) hcolon] at hh
        rw [joinUrl_of_neither, hcut]
        · unfold schemeOf
          rw [List.append_assoc, List.append_assoc, splitScheme_append hcolon]
          exact hlower
        · rwa [hcut, hhttps, prefix_iff (by decide) hcolon]
        · rwa [hcut, hhttp, prefix_iff (by decide) hcolon]
  · refine .inr (.inr (.inr ⟨?_, a, hcolon, hlower, ?_⟩))
    · rintro ⟨a', b', hsplit', hbody'⟩
      rw [hsplit, Option.some.injEq, Prod.mk.injEq] at hsplit'
      rw [hsplit'.2] at hbody
      exact hbody hbody'
    · have hslashes : ∀ c ∈ b, c = byte '/' := by
        intro c hc
        by_contra hcne
        exact hbody ⟨c, hc, hcne⟩
      have hcut := withoutSlashes_slashes hslashes hbase
      rw [joinUrl_of_neither, hcut]
      · simp
      · rw [hcut, hhttps]
        exact short_not_prefix (by decide) (by decide) (by decide) hcolon
      · rw [hcut, hhttp]
        exact short_not_prefix (by decide) (by decide) (by decide) hcolon

theorem schemeOf_of_prefix {s : Bytes} (hs : byte ':' ∉ s) (h : s ++ ascii "://" <+: base) :
    schemeOf base = s.map toLower := by
  obtain ⟨t, rfl⟩ := h
  unfold schemeOf
  rw [List.append_assoc, splitScheme_append hs]

theorem allowed_iff {insecure : Bool} :
    checkUrlAllowed base insecure = [] ↔
      schemeOf base = ascii "https" ∨ schemeOf base = ascii "wss" ∨
      insecure = true ∧ (schemeOf base = ascii "http" ∨ schemeOf base = ascii "ws") := by
  have hplain : ∀ t : Bytes, ascii "plain " ++ t ≠ [] := by
    intro t h
    cases h
  have hunsupported : ascii "unsupported URL scheme (want https:// or wss://)" ≠ [] := by
    intro h
    cases h
  unfold checkUrlAllowed
  simp only
  by_cases htls : schemeOf base = ascii "https" ∨ schemeOf base = ascii "wss"
  · rw [if_pos htls]
    exact iff_of_true rfl (htls.imp_right .inl)
  rw [if_neg htls]
  by_cases hplainScheme : schemeOf base = ascii "http" ∨ schemeOf base = ascii "ws"
  · rw [if_pos hplainScheme]
    cases insecure
    · rw [if_neg Bool.false_ne_true]
      simp only [List.append_assoc]
      refine iff_of_false (hplain _) ?_
      rintro (h | h | ⟨h, -⟩)
      · exact htls (.inl h)
      · exact htls (.inr h)
      · cases h
    · exact iff_of_true rfl (.inr (.inr ⟨rfl, hplainScheme⟩))
  · rw [if_neg hplainScheme]
    refine iff_of_false hunsupported ?_
    rintro (h | h | ⟨-, h⟩)
    · exact htls (.inl h)
    · exact htls (.inr h)
    · exact hplainScheme h

/-- A base with TLS gives a WebSocket URL with TLS exactly when it is written in lower case and has
a host. -/
theorem https_joined_iff (h : schemeOf base = ascii "https") :
    schemeOf (joinUrl base path true) = ascii "wss" ↔ ascii "https://" <+: base ∧ Bodied base := by
  rcases @joinUrl_cases base path _ (by decide) (by decide) h with
    ⟨hs, hbody, hwss⟩ | ⟨hh, -, -⟩ | ⟨-, hnot, -, hsame⟩ | ⟨hnot, a, ha, hlower, hjoin⟩
  · exact iff_of_true hwss ⟨hs, hbody⟩
  · have hhttp : schemeOf base = ascii "http" :=
      schemeOf_of_prefix (s := ascii "http") (by decide) hh
    rw [h] at hhttp
    exact absurd hhttp (by decide)
  · refine iff_of_false ?_ (fun hc => hnot hc.1)
    rw [hsame]
    decide
  · refine iff_of_false ?_ (fun hc => hnot hc.2)
    intro hwss
    rw [hjoin] at hwss
    have hclash := (schemeOf_colon ha (by decide) (by decide) hwss).1
    rw [hlower] at hclash
    exact absurd hclash (by decide)

/-- A base of a plain WebSocket gives a plain one unless it has lost its slashes. -/
theorem ws_joined_iff (h : schemeOf base = ascii "ws") :
    schemeOf (joinUrl base path true) ≠ ascii "ws" ↔ ¬ Bodied base ∧ ¬ ascii "//" <+: path := by
  rcases @joinUrl_cases base path _ (by decide) (by decide) h with
    ⟨hs, -, -⟩ | ⟨-, hbody, hws⟩ | ⟨hbody, -, -, hsame⟩ | ⟨hnot, a, ha, hlower, hjoin⟩
  · have hhttps : schemeOf base = ascii "https" :=
      schemeOf_of_prefix (s := ascii "https") (by decide) hs
    rw [h] at hhttps
    exact absurd hhttps (by decide)
  · exact iff_of_false (fun hc => hc hws) (fun hc => hc.1 hbody)
  · exact iff_of_false (fun hc => hc hsame) (fun hc => hc.1 hbody)
  · rw [hjoin]
    constructor
    · intro hc
      refine ⟨hnot, ?_⟩
      rintro ⟨t, rfl⟩
      apply hc
      have hshape : a ++ byte ':' :: (ascii "//" ++ t) = a ++ (ascii "://" ++ t) := rfl
      unfold schemeOf
      rw [hshape, splitScheme_append ha]
      exact hlower
    · rintro ⟨-, hpath⟩ hws
      exact hpath (schemeOf_colon ha (by decide) (by decide) hws).2

/-- A base of a WebSocket with TLS never gives a plain one. -/
theorem wss_joined (h : schemeOf base = ascii "wss") :
    schemeOf (joinUrl base path true) ≠ ascii "ws" := by
  rcases @joinUrl_cases base path _ (by decide) (by decide) h with
    ⟨-, -, hwss⟩ | ⟨hh, -, -⟩ | ⟨-, -, -, hsame⟩ | ⟨-, a, ha, hlower, hjoin⟩
  · rw [hwss]
    decide
  · have hhttp : schemeOf base = ascii "http" :=
      schemeOf_of_prefix (s := ascii "http") (by decide) hh
    rw [h] at hhttp
    exact absurd hhttp (by decide)
  · rw [hsame]
    decide
  · intro hws
    rw [hjoin] at hws
    have hclash := (schemeOf_colon ha (by decide) (by decide) hws).1
    rw [hlower] at hclash
    exact absurd hclash (by decide)

/-- An upgraded URL always stays; whether a joined one keeps the encryption of its base is decided
by `Fine`. -/
theorem stays_and_joins_iff (base wsUrl path : Bytes) (insecure : Bool) :
    ((upgradeSameHostWs base wsUrl ≠ [] → Stays base wsUrl (upgradeSameHostWs base wsUrl)) ∧
        Joined base path insecure) ↔
      (checkUrlAllowed base insecure = [] → Fine base path) := by
  rw [and_iff_right upgrade_stays]
  unfold Joined Fine
  constructor
  · intro h hallowed
    obtain ⟨hsecure, hplain⟩ := h hallowed
    constructor
    · intro hs
      exact (https_joined_iff hs).mp (hsecure hs)
    · intro hs
      rw [← ws_joined_iff hs]
      intro hws
      rw [hs] at hplain
      exact absurd (hplain hws) (by decide)
  · intro h hallowed
    obtain ⟨hsecure, hplain⟩ := h hallowed
    refine ⟨fun hs => (https_joined_iff hs).mpr (hsecure hs), ?_⟩
    intro hws
    rcases allowed_iff.mp hallowed with hs | hs | ⟨-, hs | hs⟩
    · rw [(https_joined_iff hs).mpr (hsecure hs)] at hws
      exact absurd hws (by decide)
    · exact absurd hws (wss_joined hs)
    · exact hs
    · exact absurd hws ((ws_joined_iff hs).mpr (hplain hs))

/-- The platform's URL in capital letters is accepted, but its WebSocket URL is none. -/
theorem capital_scheme_joined :
    checkUrlAllowed (ascii "HTTPS://a.b") false = [] ∧
    schemeOf (ascii "HTTPS://a.b") = ascii "https" ∧
      joinUrl (ascii "HTTPS://a.b") (ascii "/ws") true = ascii "HTTPS://a.b/ws" ∧
      ¬ Joined (ascii "HTTPS://a.b") (ascii "/ws") false := by
  refine ⟨by decide, by decide, by decide, ?_⟩
  intro h
  have hscheme : schemeOf (joinUrl (ascii "HTTPS://a.b") (ascii "/ws") true) = ascii "wss" :=
    (h (by decide)).1 (by decide)
  exact absurd hscheme (by decide)

end Join

end ReadyUp.Fleet.Urls
