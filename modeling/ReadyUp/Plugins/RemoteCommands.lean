import ReadyUp.Plugins.ConsoleLines

/-!
# Commands from afar

The filters of `exec` and `.rcon` cut a line at blanks, tabs and quotes, the dispatcher at
everything that `isspace` knows, and it takes `ru;` for `ru`. `masked` says where that makes a
difference: there a command of the fleet plugin gets past the filters.
-/
namespace ReadyUp.Plugins

open Support

section Masked

/-- The vertical tab and the form feed. -/
def isHidden (c : UInt8) : Bool := c == 11 || c == 12

/-- A vertical tab or a form feed stands before the first word or right behind it, or a semicolon
right behind it. -/
def masked (line : Bytes) : Bool :=
  (line.takeWhile isSpace).any isHidden ||
    ((line.dropWhile isSpace).dropWhile fun c => !isSpace c && c != byte ';').head?.any fun c =>
      isHidden c || c == byte ';'

theorem hasText_iff {w l : Bytes} : hasText w l = true ↔ w <:+: l := by
  simp only [hasText, List.any_eq_true, List.mem_tails, List.isPrefixOf_iff_prefix,
    List.infix_iff_prefix_suffix, and_comm]

/-- A part that begins with a command of the fleet plugin, as the filters see it. -/
def FleetPart (part : Bytes) : Prop :=
  ∃ w tail, (lower part).dropWhile isStripped = w ++ tail ∧
    (w = ascii "fleet" ∧ tail.head?.all isStripped = true ∨
      w = ascii "ru" ∧ tail.head?.all isStripped = true ∧ ascii "fleet" <:+: tail ∨
      w = ascii "ru_fleet")

theorem startsWord_append {w tail : Bytes} (h : tail.head?.all isStripped = true) :
    startsWord w (w ++ tail) = true := by
  rw [startsWord, List.drop_left, h, Bool.and_true]
  exact List.isPrefixOf_iff_prefix.mpr (List.prefix_append _ _)

theorem FleetPart.execRefused {part : Bytes} (h : FleetPart part) : execRefused part = true := by
  obtain ⟨w, tail, hl, hcases⟩ := h
  simp only [Plugins.execRefused, hl, Bool.or_eq_true, Bool.and_eq_true]
  rcases hcases with ⟨rfl, htail⟩ | ⟨rfl, htail, hfleet⟩ | rfl
  · exact .inl (.inl (startsWord_append htail))
  · exact .inl
      (.inr ⟨startsWord_append htail,
        hasText_iff.mpr (hfleet.trans (List.suffix_append _ _).isInfix)⟩)
  · exact .inr (List.isPrefixOf_iff_prefix.mpr (List.prefix_append _ _))

theorem takeWhile_stripped {w tail : Bytes} (hw : ∀ c ∈ w, isStripped c = false)
    (h : tail.head?.all isStripped = true) : (w ++ tail).takeWhile (!isStripped ·) = w := by
  rw [List.takeWhile_append_of_pos fun c hc => by rw [hw c hc, Bool.not_false]]
  cases tail with
  | nil => rw [List.takeWhile_nil, List.append_nil]
  | cons c tail =>
    have hc : isStripped c = true := h
    rw [List.takeWhile_cons_of_neg (by rw [hc]; decide), List.append_nil]

theorem FleetPart.rconPart {part : Bytes} (h : FleetPart part) : rconPart part ≠ none := by
  obtain ⟨w, tail, hl, hcases⟩ := h
  simp only [Plugins.rconPart, hl]
  rcases hcases with ⟨rfl, htail⟩ | ⟨rfl, htail, hfleet⟩ | rfl
  · rw [takeWhile_stripped (forall_of_all (by decide)) htail, if_neg (by decide),
      if_neg (by decide), if_pos (.inl rfl)]
    exact Option.some_ne_none _
  · have htext : hasText (ascii "fleet") (lower part) = true := by
      refine hasText_iff.mpr
        (hfleet.trans ((List.suffix_append (ascii "ru") tail).trans ?_).isInfix)
      rw [← hl]
      exact List.dropWhile_suffix _
    rw [takeWhile_stripped (forall_of_all (by decide)) htail, htext]
    decide
  · rw [List.takeWhile_append_of_pos (forall_of_all (by decide))]
    split_ifs with hnil hrefused hfleet
    · exact absurd hnil (by simp [ascii])
    · exact Option.some_ne_none _
    · exact Option.some_ne_none _
    · exact absurd (.inr (.inl (List.isPrefixOf_iff_prefix.mpr (List.prefix_append _ _)))) hfleet

/-- A blank or a tab, where the other white space is ruled out. -/
theorem isSpace_cases {c : UInt8} (hspace : isSpace c = true) (hn : c ≠ byte '\n')
    (hr : c ≠ byte '\r') (hhidden : isHidden c = false) : c = byte ' ' ∨ c = byte '\t' := by
  simp only [isHidden, Bool.or_eq_false_iff, beq_eq_false_iff_ne,
    ne_eq, ← UInt8.toNat_inj] at hhidden hn hr
  rw [isSpace_iff] at hspace
  rw [← UInt8.toNat_inj, ← UInt8.toNat_inj]
  change c.toNat = 32 ∨ c.toNat = 9
  change ¬c.toNat = 11 ∧ ¬c.toNat = 12 at hhidden
  change ¬c.toNat = 10 at hn
  change ¬c.toNat = 13 at hr
  omega

/-- The filters look at the part before the first semicolon. -/
theorem takeWhile_mem_splitOn (command : Bytes) :
    command.takeWhile (· ≠ byte ';') ∈ command.splitOn (byte ';') := by
  have hnot : byte ';' ∉ command.takeWhile (· ≠ byte ';') :=
    fun hmem => by simpa using List.mem_takeWhile_imp hmem
  have hsplit :=
    List.takeWhile_append_dropWhile (p := fun c => decide (c ≠ byte ';')) (l := command)
  cases hrest : command.dropWhile (· ≠ byte ';') with
  | nil =>
    rw [hrest, List.append_nil] at hsplit
    rw [hsplit] at hnot
    rw [List.splitOn_eq_singleton hnot, hsplit]
    exact List.mem_singleton_self _
  | cons c rest =>
    have hc : c = byte ';' := by
      have hhead := List.head?_dropWhile_not (fun c => decide (c ≠ byte ';')) command
      rw [hrest] at hhead
      simpa using hhead
    rw [hrest, hc] at hsplit
    have hparts := List.splitOn_append_cons_self_of_not_mem hnot rest
    rw [hsplit] at hparts
    rw [hparts]
    exact List.mem_cons_self

theorem rconPart_ne_nil {part reason : Bytes} (h : rconPart part = some reason) : reason ≠ [] := by
  rw [rconPart] at h
  split_ifs at h
  · rw [← Option.some.inj h]
    exact List.cons_ne_nil _ _
  · rw [← Option.some.inj h]
    exact List.cons_ne_nil _ _

/-- What a filter lets through is one line that does not begin with a command of the fleet
plugin. -/
theorem accepted_cases {command : Bytes}
    (h : validateExec command = .ok () ∨ rconRefusal command = []) :
    command ≠ [] ∧ isOneLine command = true ∧ ¬FleetPart (command.takeWhile (· ≠ byte ';')) := by
  rcases h with h | h
  · rw [validateExec] at h
    split_ifs at h with hnil hlong hline hrefused
    refine ⟨hnil, Bool.not_eq_false _ ▸ hline, fun hpart => hrefused ?_⟩
    exact List.any_eq_true.mpr ⟨_, takeWhile_mem_splitOn command, hpart.execRefused⟩
  · rw [rconRefusal] at h
    split_ifs at h with hblank hlong hline
    · cases h
    · cases h
    · cases h
    · refine ⟨fun hnil => hblank (hnil ▸ rfl), Bool.not_eq_false _ ▸ hline, fun hpart => ?_⟩
      have hsome : ((command.splitOn (byte ';')).findSome? rconPart).isSome = true :=
        List.findSome?_isSome_iff.mpr ⟨_, takeWhile_mem_splitOn command,
          Option.isSome_iff_ne_none.mpr hpart.rconPart⟩
      obtain ⟨reason, hreason⟩ := Option.isSome_iff_exists.mp hsome
      obtain ⟨part, -, hfound⟩ := List.exists_of_findSome?_eq_some hreason
      rw [hreason, Option.getD_some] at h
      exact rconPart_ne_nil hfound h

/-- A word that the filters and the dispatcher cut at the same places. -/
def IsPlain (w : Bytes) : Prop :=
  w ≠ [] ∧ ∀ c ∈ w, c ≠ byte ';' ∧ isSpace c = false ∧ isStripped (toLower c) = false

instance (w : Bytes) : Decidable (IsPlain w) :=
  decidable_of_iff (w ≠ [] ∧ w.all
    (fun c => c ≠ byte ';' ∧ isSpace c = false ∧ isStripped (toLower c) = false) = true)
    (by simp [IsPlain])

theorem le_of_isNameByte {c : UInt8} (h : Host.isNameByte c = true) : 48 ≤ c.toNat := by
  simp only [Host.isNameByte, isLower, isDigit, Bool.or_eq_true, Bool.and_eq_true,
    decide_eq_true_eq, beq_iff_eq] at h
  rcases h with (⟨h, -⟩ | ⟨h, -⟩) | rfl
  · exact le_trans (by decide) (UInt8.le_iff_toNat_le.mp h)
  · exact UInt8.le_iff_toNat_le.mp h
  · decide

theorem lt_of_isStripped {c : UInt8} (h : isStripped c = true) : c.toNat < 48 := by
  simp only [isStripped, Bool.or_eq_true, beq_iff_eq] at h
  rcases h with (rfl | rfl) | rfl <;> decide

theorem isPlain_of_isFleetCommand {w : Bytes}
    (h : isFleetCommand (lower w) = true) : IsPlain w := by
  have hbytes : lower w ≠ [] ∧ ∀ c ∈ lower w, Host.isNameByte c = true := by
    rw [isFleetCommand, Bool.or_eq_true, decide_eq_true_eq, Bool.and_eq_true] at h
    rcases h with h | ⟨-, h⟩
    · rw [h]
      exact ⟨by decide, forall_of_all (by decide)⟩
    · simp only [Host.validName, Bool.and_eq_true, decide_eq_true_eq] at h
      obtain ⟨⟨⟨hlow, -⟩, hfirst⟩, hrest⟩ := h
      refine ⟨fun hnil => ?_, fun c hc => ?_⟩
      · rw [hnil] at hlow
        cases hlow
      · rw [← List.take_append_drop 1 (lower w), List.mem_append] at hc
        rcases hc with hc | hc
        · rw [Host.isNameByte, List.all_eq_true.mp hfirst c hc, Bool.true_or, Bool.true_or]
        · exact List.all_eq_true.mp hrest c hc
  refine ⟨fun hnil => hbytes.1 (by rw [hnil]; rfl), fun c hc => ?_⟩
  have hname := hbytes.2 (toLower c) (List.mem_map_of_mem hc)
  refine ⟨?_, ?_, ?_⟩
  · rintro rfl
    exact absurd hname (by decide)
  · rw [← isSpace_toLower, Bool.eq_false_iff]
    intro hspace
    have hle := le_of_isNameByte hname
    rw [isSpace_iff] at hspace
    omega
  · rw [Bool.eq_false_iff]
    exact fun hstripped =>
      absurd (le_of_isNameByte hname) (Nat.not_le.mpr (lt_of_isStripped hstripped))

theorem dropWhile_lower {b w r : Bytes} (hb : ∀ c ∈ b, c = byte ' ' ∨ c = byte '\t')
    (hw : IsPlain w) : (lower ((b ++ (w ++ r)).takeWhile (· ≠ byte ';'))).dropWhile isStripped =
      lower w ++ lower (r.takeWhile (· ≠ byte ';')) := by
  have hblank : ∀ c ∈ b, decide (c ≠ byte ';') = true := by
    intro c hc
    rcases hb c hc with rfl | rfl <;> decide
  have hstripped : ∀ c ∈ lower b, isStripped c = true := by
    intro c hc
    obtain ⟨c', hc', rfl⟩ := List.mem_map.mp hc
    rcases hb c' hc' with rfl | rfl <;> decide
  rw [List.takeWhile_append_of_pos hblank, List.takeWhile_append_of_pos fun c hc =>
    decide_eq_true (hw.2 c hc).1, lower, List.map_append,
    List.map_append, ← lower, ← lower, ← lower, List.dropWhile_append_of_pos hstripped]
  obtain ⟨c, w', rfl⟩ := List.exists_cons_of_ne_nil hw.1
  have hc := (hw.2 c List.mem_cons_self).2.2
  rw [lower, List.map_cons, List.cons_append, List.dropWhile_cons_of_neg (by rw [hc]; decide)]

/-- Behind a word that is followed by a blank, a tab or nothing. -/
theorem head_stripped {r : Bytes} (h : ∀ c ∈ r.head?, c = byte ' ' ∨ c = byte '\t') :
    (lower (r.takeWhile (· ≠ byte ';'))).head?.all isStripped = true := by
  cases r with
  | nil => rfl
  | cons c r =>
    rcases h c rfl with rfl | rfl <;> rfl

theorem infix_takeWhile {x y w : Bytes} (hx : ∀ c ∈ x, c ≠ byte ';') (h : w <:+: lower x) :
    w <:+: lower ((x ++ y).takeWhile (· ≠ byte ';')) := by
  rw [List.takeWhile_append_of_pos fun c hc => decide_eq_true (hx c hc), lower, List.map_append]
  exact h.trans (List.prefix_append _ _).isInfix

/-- Where nothing is masked, there are blanks and tabs around the first word. -/
theorem blank_of_not_masked {b w r : Bytes} (hb : ∀ c ∈ b, isSpace c = true) (hw : IsPlain w)
    (hr : ∀ c ∈ r.head?, isSpace c = true ∨ c = byte ';') (hline : isOneLine (b ++ (w ++ r)) = true)
    (hplain : masked (b ++ (w ++ r)) = false) :
    (∀ c ∈ b, c = byte ' ' ∨ c = byte '\t') ∧ ∀ c ∈ r.head?, c = byte ' ' ∨ c = byte '\t' := by
  have hbytes : ∀ c ∈ b ++ (w ++ r), c ≠ byte '\n' ∧ c ≠ byte '\r' := by
    intro c hc
    have hone := List.all_eq_true.mp hline c hc
    simp only [Bool.not_eq_true', Bool.or_eq_false_iff, beq_eq_false_iff_ne] at hone
    exact hone.1
  have hword : ∀ c ∈ w, (!isSpace c && c != byte ';') = true := by
    intro c hc
    obtain ⟨hne, hspace, -⟩ := hw.2 c hc
    rw [hspace, Bool.not_false, Bool.true_and]
    exact bne_iff_ne.mpr hne
  have hrest : r.dropWhile (fun c => !isSpace c && c != byte ';') = r := by
    cases r with
    | nil => rfl
    | cons c r =>
      refine List.dropWhile_cons_of_neg fun hneg => ?_
      rw [Bool.and_eq_true, bne_iff_ne, Bool.not_eq_true'] at hneg
      rcases hr c rfl with h | h
      · rw [h] at hneg
        cases hneg.1
      · exact hneg.2 h
  obtain ⟨c, w', rfl⟩ := List.exists_cons_of_ne_nil hw.1
  have hneg : ¬isSpace c = true := by
    rw [(hw.2 c List.mem_cons_self).2.1]
    decide
  have htake : (b ++ (c :: w' ++ r)).takeWhile isSpace = b := by
    rw [List.takeWhile_append_of_pos hb, List.cons_append, List.takeWhile_cons_of_neg hneg,
      List.append_nil]
  have hdrop : (b ++ (c :: w' ++ r)).dropWhile isSpace = c :: w' ++ r := by
    rw [List.dropWhile_append_of_pos hb, List.cons_append, List.dropWhile_cons_of_neg hneg]
  rw [masked, htake, hdrop, List.dropWhile_append_of_pos hword, hrest,
    Bool.or_eq_false_iff] at hplain
  refine ⟨fun a ha => ?_, fun a ha => ?_⟩
  · obtain ⟨hn, hr⟩ := hbytes a (List.mem_append_left _ ha)
    exact isSpace_cases (hb a ha) hn hr (by simpa using List.any_eq_false.mp hplain.1 a ha)
  · obtain ⟨hn, hr'⟩ :=
      hbytes a (List.mem_append_right _ (List.mem_append_right _ (List.mem_of_mem_head? ha)))
    have hhead := hplain.2
    rw [Option.mem_def.mp ha, Option.any_some, Bool.or_eq_false_iff] at hhead
    exact isSpace_cases ((hr a ha).resolve_right (by simpa using hhead.2)) hn hr' hhead.1

theorem eq_of_startsWithToken {line : Bytes} (h : startsWithToken (trim line) (ascii "ru") = true) :
    ∃ b r, line = b ++ (ascii "ru" ++ r) ∧ (∀ c ∈ b, isSpace c = true) ∧
      ∀ c ∈ r.head?, isSpace c = true ∨ c = byte ';' := by
  rw [startsWithToken, Bool.and_eq_true, List.isPrefixOf_iff_prefix] at h
  obtain ⟨⟨r, hr⟩, hhead⟩ := h
  obtain ⟨e, he, hspace⟩ := dropWhile_eq_trimBy isSpace line
  have hline : line = line.takeWhile isSpace ++ (ascii "ru" ++ (r ++ e)) := by
    rw [← List.append_assoc (ascii "ru"), hr, trim, ← he, List.takeWhile_append_dropWhile]
  refine ⟨_, _, hline, fun c hc => List.mem_takeWhile_imp hc, fun c hc => ?_⟩
  rw [← hr, List.drop_left] at hhead
  cases r with
  | nil => exact .inl (hspace c (List.mem_of_mem_head? hc))
  | cons a r =>
    obtain rfl : a = c := Option.some.inj hc
    simpa using hhead

theorem ne_semicolon_of_isSpace {c : UInt8} (h : isSpace c = true) : c ≠ byte ';' := by
  rintro rfl
  cases h

theorem infix_fleet {w : Bytes} (h : isFleetCommand w = true) : ascii "fleet" <:+: w := by
  rw [isFleetCommand, Bool.or_eq_true, decide_eq_true_eq, Bool.and_eq_true,
    List.isPrefixOf_iff_prefix] at h
  rcases h with rfl | ⟨⟨v, rfl⟩, -⟩
  · exact List.infix_rfl
  · exact ⟨ascii "ru_", v, rfl⟩

/-- The words behind `ru` stand before the first semicolon. -/
theorem infix_of_ruNamesFleet {r : Bytes} (h : ruNamesFleet (splitWS r) = true) :
    ascii "fleet" <:+: lower (r.takeWhile (· ≠ byte ';')) := by
  generalize hwords : splitWS r = ws at h
  cases ws with
  | nil => cases h
  | cons sub args =>
    obtain ⟨b, r', rfl, hb, -, -, -, hargs⟩ := words_eq_cons hwords
    rw [ruNamesFleet, Bool.or_eq_true, Bool.and_eq_true, decide_eq_true_eq] at h
    rw [← List.append_assoc]
    rcases h with h | ⟨rfl, h⟩
    · refine infix_takeWhile (List.forall_mem_append.mpr
        ⟨fun c hc => ne_semicolon_of_isSpace (hb c hc),
        fun c hc => ((isPlain_of_isFleetCommand h).2 c hc).1⟩) ?_
      rw [lower, List.map_append]
      exact (infix_fleet h).trans (List.suffix_append _ _).isInfix
    · cases args with
      | nil => cases h
      | cons topic args =>
        obtain ⟨b', r'', rfl, hb', -, -, -, -⟩ := words_eq_cons hargs
        have htopic : lower topic = ascii "fleet" := by simpa using h
        have hfleet : isFleetCommand (lower topic) = true := by
          rw [htopic]
          decide
        rw [← List.append_assoc b', ← List.append_assoc]
        refine infix_takeWhile ?_ ?_
        · have hhelp : IsPlain (ascii "help") := by decide
          simp only [List.forall_mem_append]
          exact ⟨⟨fun c hc => ne_semicolon_of_isSpace (hb c hc), fun c hc => (hhelp.2 c hc).1⟩,
            fun c hc => ne_semicolon_of_isSpace (hb' c hc), fun c hc =>
              ((isPlain_of_isFleetCommand hfleet).2 c hc).1⟩
        · simp only [lower, List.map_append]
          refine List.IsInfix.trans ?_ (List.suffix_append _ _).isInfix
          exact (infix_fleet hfleet).trans (List.suffix_append _ _).isInfix

/-- A filter refuses a line with the words of the fleet plugin, unless they are masked. -/
theorem fleetPart_of_namesFleet {command : Bytes} (hline : isOneLine command = true)
    (hplain : masked command = false) (hnames : namesFleet command = true) :
    FleetPart (command.takeWhile (· ≠ byte ';')) := by
  rw [namesFleet] at hnames
  split at hnames
  · cases hnames
  · rename_i first rest hwords
    rw [Bool.or_eq_true, Bool.and_eq_true] at hnames
    rcases hnames with hfirst | ⟨htoken, hru⟩
    · obtain ⟨b, r, rfl, hb, -, -, hended, -⟩ := words_eq_cons hwords
      have hword := isPlain_of_isFleetCommand hfirst
      obtain ⟨hblank, hhead⟩ :=
        blank_of_not_masked hb hword (fun c hc => .inl (hended c hc)) hline hplain
      have hdrop := dropWhile_lower (r := r) hblank hword
      rw [isFleetCommand, Bool.or_eq_true, decide_eq_true_eq, Bool.and_eq_true,
        List.isPrefixOf_iff_prefix] at hfirst
      rcases hfirst with hfirst | ⟨⟨v, hv⟩, -⟩
      · exact ⟨_, _, hdrop, .inl ⟨hfirst, head_stripped hhead⟩⟩
      · refine ⟨ascii "ru_fleet", v ++ lower (r.takeWhile (· ≠ byte ';')), ?_, .inr (.inr rfl)⟩
        rw [hdrop, ← hv, List.append_assoc]
    · obtain ⟨b, r, rfl, hb, hr⟩ := eq_of_startsWithToken htoken
      have hword : IsPlain (ascii "ru") := by decide
      obtain ⟨hblank, hhead⟩ := blank_of_not_masked hb hword hr hline hplain
      have hended : Ended isSpace r := by
        intro c hc
        rcases hhead c hc with rfl | rfl <;> decide
      rw [splitWS, words_append_of_sep hb,
        words_append (by decide) (forall_of_all (by decide)) hended, List.cons.injEq] at hwords
      refine ⟨_, _, dropWhile_lower hblank hword, .inr (.inl ⟨by decide, head_stripped hhead, ?_⟩)⟩
      refine infix_of_ruNamesFleet ?_
      rw [splitWS, hwords.2]
      exact hru

end Masked

namespace Host

section Registered

/-- One command is registered, and nothing is queued. -/
structure Only (s : Host) (r : Reg) : Prop where
  regs : s.regs = [r]
  cmds : s.cmds = []
  live : (s.live r.owner).isSome = true
  observe : r.flags.observe = false

variable {s : Host} {r : Reg}

theorem Only.hit (h : Only s r) {kind : RegKind} {token : Bytes} (hkind : r.kind = kind)
    (hname : r.name = token) (c : QueuedCmd) : s.queueCommand kind token c =
      ({ s with cmds := [{ c with reg := r.id, owner := r.owner }] }, true) := by
  have hfind :
      s.regs.find? (fun r => r.kind = kind ∧ r.name = token ∧ r.flags.observe = false) =
        some r := by
    rw [h.regs, List.find?_cons_of_pos]
    exact decide_eq_true ⟨hkind, hname, h.observe⟩
  rw [queueCommand, hfind]
  dsimp only
  rw [if_neg (by rw [Option.isNone_iff_eq_none]; exact Option.isSome_iff_ne_none.mp h.live), h.cmds]
  rfl

theorem Only.miss (h : Only s r) {kind : RegKind} (hkind : r.kind ≠ kind) (token : Bytes)
    (c : QueuedCmd) : s.queueCommand kind token c = (s, false) := by
  have hfind :
      s.regs.find? (fun r => r.kind = kind ∧ r.name = token ∧ r.flags.observe = false) = none := by
    rw [h.regs, List.find?_cons_of_neg]
    · rfl
    · simp [hkind]
  rw [queueCommand, hfind]

theorem Only.observeConsole (h : Only s r) (line : Bytes) : s.observeConsole line = s := by
  rw [Host.observeConsole]
  split
  · rfl
  · rw [h.regs, List.foldl_cons, List.foldl_nil, Host.observe, if_neg]
    rw [h.observe]
    exact fun hobserve => by cases hobserve.2.1

theorem Only.hitConsole (h : Only s r) (hkind : r.kind = .console) {line first : Bytes}
    {rest : List Bytes} (hwords : splitWS line = first :: rest) (hname : r.name = lower first) :
    (s.tryDispatchConsole line).1.cmds.map (·.reg) = [r.id] := by
  rw [tryDispatchConsole, hwords]
  dsimp only
  rw [h.hit hkind hname]
  rfl

theorem Only.hitRu (h : Only s r) (hkind : r.kind = .ruSub) {text first sub : Bytes}
    {rest : List Bytes} (hwords : splitWS text = first :: sub :: rest) (hname : r.name = lower sub) :
    (s.tryDispatchRu true 0 (ascii "Console") text (-1)).1.cmds.map (·.reg) = [r.id] := by
  rw [tryDispatchRu, hwords]
  dsimp only
  rw [if_neg (by decide), h.hit hkind hname]
  rfl

theorem Only.missRu (h : Only s r) (hkind : r.kind = .console) (text : Bytes) :
    s.tryDispatchRu true 0 (ascii "Console") text (-1) = (s, false) := by
  unfold tryDispatchRu
  split
  · rw [if_neg (by decide), h.miss (by rw [hkind]; decide)]
  · rfl

def fleetLoaded : List Event := [.frame false [ascii "fleet"], .game {}]

theorem exists_only_console {w : Bytes} (h : isFleetCommand (lower w) = true) :
    ∃ es r, Only (run step {} es) r ∧ r.kind = .console ∧ r.name = lower w := by
  have hvalid : validName 2 48 isLower isNameByte (lower (lower w)) = true ∧
      lower (lower w) ≠ ascii "ru" := by
    rw [lower_lower]
    refine ⟨?_, fun hru => by rw [hru] at h; cases h⟩
    rw [isFleetCommand, Bool.or_eq_true, decide_eq_true_eq, Bool.and_eq_true] at h
    rcases h with h | h
    · rw [h]
      decide
    · exact h.2
  have hrun : run step {} (fleetLoaded ++ [.api 1 (.registerConsole (lower w) {} 7 0)]) =
      { run step {} fleetLoaded with
        nextHandle := 1
        regs := [{ id := 1, owner := 1, kind := .console, name := lower (lower w),
                   fn := 7, user := 0 }] } := by
    rw [run_append, run_cons, run_nil, step, onGameThread, if_neg (by decide),
      if_pos (by decide), apply, registerConsole, if_pos ⟨by decide, hvalid⟩, addReg,
      if_neg (fun hany => by cases hany.2.2)]
    rfl
  refine ⟨fleetLoaded ++ [.api 1 (.registerConsole (lower w) {} 7 0)],
    { id := 1, owner := 1, kind := .console, name := lower (lower w), fn := 7, user := 0 }, ?_, rfl,
    lower_lower w⟩
  rw [hrun]
  have hlive : ((run step {} fleetLoaded).live 1).isSome = true := by decide
  exact ⟨rfl, (by decide : (run step {} fleetLoaded).cmds = []), hlive, rfl⟩

theorem exists_only_ruSub :
    ∃ es r, Only (run step {} es) r ∧ r.kind = .ruSub ∧ r.name = ascii "fleet" := by
  refine ⟨fleetLoaded ++ [.api 1 (.registerRuSub (ascii "fleet") 7 0)],
    { id := 1, owner := 1, kind := .ruSub, name := ascii "fleet", fn := 7, user := 0 },
    ⟨?_, ?_, ?_, ?_⟩, rfl, rfl⟩
  all_goals decide

theorem isLicenseLine_eq_false {line first : Bytes} {rest : List Bytes}
    (hwords : splitWS line = first :: rest)
    (h : ¬ascii "re" <+: first) : isLicenseLine line = false := by
  rw [isLicenseLine, List.any_eq_false]
  intro name hname hparse
  have hprefix : ∀ name ∈ licenseSettings, ascii "re" <+: name ∧ IsWord name := by
    simp only [licenseSettings, List.forall_mem_cons]
    exact ⟨⟨by decide, by decide⟩, ⟨by decide, by decide⟩, ⟨by decide, by decide⟩,
      ⟨by decide, by decide⟩, ⟨by decide, by decide⟩, ⟨by decide, by decide⟩, fun _ h => by cases h⟩
  obtain ⟨hre, hword⟩ := hprefix name hname
  rw [parseSetting, Bool.and_eq_true, List.isPrefixOf_iff_prefix] at hparse
  obtain ⟨⟨tail, htail⟩, -⟩ := hparse
  rw [← splitWS_trimBy (p := fun c => c == byte ' ' || c == byte '\t' || c == byte '\r' ||
    c == byte '\n') (by
    intro c hc
    simp only [Bool.or_eq_true, beq_iff_eq] at hc
    rcases hc with ((rfl | rfl) | rfl) | rfl <;> decide), ← htail] at hwords
  obtain ⟨v, ws, hv⟩ := exists_words_append hword.1 hword.2 tail
  rw [splitWS, hv, List.cons.injEq] at hwords
  exact h (hwords.1 ▸ hre.trans (List.prefix_append _ _))

theorem toLower_ne_underscore {c : UInt8} (h : isSpace c = true ∨ c = byte ';') :
    toLower c ≠ byte '_' := by
  intro hlow
  rcases h with h | rfl
  · rw [← isSpace_toLower, hlow] at h
    cases h
  · cases hlow

theorem first_of_startsWithToken {line first : Bytes} {rest : List Bytes}
    (hwords : splitWS line = first :: rest)
    (htoken : startsWithToken (trim line) (ascii "ru") = true) :
    ∃ v, first = ascii "ru" ++ v ∧ ∀ c ∈ v.head?, toLower c ≠ byte '_' := by
  obtain ⟨b, r, rfl, hb, hr⟩ := eq_of_startsWithToken htoken
  rw [splitWS, words_append_of_sep hb] at hwords
  obtain ⟨v, ws, hv⟩ :=
    @exists_words_append _ isSpace (ascii "ru") (by decide) (forall_of_all (by decide)) r
  obtain ⟨b', r', heq, hb', -, hword, -, -⟩ := words_eq_cons hv
  -- the word begins where the text does
  have hnil : b' = [] := by
    cases b' with
    | nil => rfl
    | cons c b' =>
      have hc : c = byte 'r' := (List.cons.inj heq).1.symm
      have hspace := hb' c List.mem_cons_self
      rw [hc] at hspace
      cases hspace
  rw [hnil, List.nil_append, List.append_assoc] at heq
  rw [hv, List.cons.injEq] at hwords
  refine ⟨v, hwords.1.symm, fun c hc => toLower_ne_underscore (hr c ?_)⟩
  rw [List.append_cancel_left heq]
  cases v with
  | nil => cases hc
  | cons a v => exact hc

theorem alias_eq_none {line first : Bytes} {rest : List Bytes}
    (hwords : splitWS line = first :: rest)
    (h : ∀ name ∈ [ascii "ru_version", ascii "ru_reload_config"], ¬name <+: lower first) :
    coreConsoleAliasToRu ((trim line).takeWhile fun c => !(c == byte ' ' || c == byte '\t')) =
      none := by
  have hne : ∀ name ∈ [ascii "ru_version", ascii "ru_reload_config"],
      lower ((trim line).takeWhile fun c => !(c == byte ' ' || c == byte '\t')) ≠ name := by
    intro name hname heq
    have hword : ∀ name ∈ [ascii "ru_version", ascii "ru_reload_config"], IsWord name := by
      simp only [List.forall_mem_cons]
      exact ⟨by decide, by decide, fun _ h => by cases h⟩
    generalize htoken : (trim line).takeWhile (fun c => !(c == byte ' ' || c == byte '\t')) =
      token at heq
    have htokenWord : IsWord token := by
      have hw := heq ▸ hword name hname
      refine ⟨fun hnil => hw.1 (by rw [hnil]; rfl), fun c hc => ?_⟩
      rw [← isSpace_toLower]
      exact hw.2 _ (List.mem_map_of_mem hc)
    obtain ⟨tail, htail⟩ : token <+: trim line := htoken ▸ List.takeWhile_prefix _
    obtain ⟨v, ws, hv⟩ := exists_words_append htokenWord.1 htokenWord.2 tail
    rw [← splitWS_trim, ← htail, splitWS, hv, List.cons.injEq] at hwords
    refine h name hname ⟨lower v, ?_⟩
    rw [← heq, ← hwords.1, lower, lower, lower, List.map_append]
  rw [coreConsoleAliasToRu, if_neg (hne _ List.mem_cons_self),
    if_neg (hne _ (List.mem_cons_of_mem _ List.mem_cons_self))]

/-- The beginnings of the lines that the core takes itself. -/
def coreBeginnings : List Bytes := [ascii "re", ascii "ru_version", ascii "ru_reload_config"]

theorem handleObserved_eq {line first : Bytes} {rest : List Bytes}
    (hwords : splitWS line = first :: rest) (h : ∀ name ∈ coreBeginnings, ¬name <+: lower first) :
    s.handleObserved line =
      let ru := s.handleRuCommandLine line
      if ru.2 = .notOurs then
        let console := ru.1.tryDispatchConsole (trim line)
        (console.1, if console.2 then .queued else .notOurs)
      else ru := by
  have hre : ¬ascii "re" <+: first := by
    rintro ⟨v, rfl⟩
    refine h _ List.mem_cons_self ⟨lower v, ?_⟩
    rw [lower, lower, List.map_append]
    rfl
  rw [handleObserved, isLicenseLine_eq_false hwords hre, if_neg Bool.false_ne_true,
    alias_eq_none hwords fun name hname => h name (List.mem_cons_of_mem _ hname)]

theorem not_prefix_of_isFleetCommand {w : Bytes} (h : isFleetCommand w = true) :
    ∀ name ∈ coreBeginnings, ¬name <+: w := by
  rw [isFleetCommand, Bool.or_eq_true, decide_eq_true_eq, Bool.and_eq_true,
    List.isPrefixOf_iff_prefix] at h
  rcases h with rfl | ⟨hru, -⟩
  · simp only [coreBeginnings, List.forall_mem_cons]
    exact ⟨by decide, by decide, by decide, fun _ h => by cases h⟩
  · simp only [coreBeginnings, List.forall_mem_cons]
    refine ⟨fun hpre => ?_, fun hpre => ?_, fun hpre => ?_, fun _ h => by cases h⟩
    · exact absurd (List.prefix_of_prefix_length_le hpre hru (by decide)) (by decide)
    · exact absurd (List.prefix_of_prefix_length_le hru hpre (by decide)) (by decide)
    · exact absurd (List.prefix_of_prefix_length_le hru hpre (by decide)) (by decide)

theorem not_underscore {v l : Bytes} (hv : ∀ c ∈ v.head?, toLower c ≠ byte '_') :
    ¬byte '_' :: l <+: lower v := by
  rintro ⟨t, ht⟩
  cases v with
  | nil => cases ht
  | cons c v => exact hv c rfl (List.cons.inj ht).1.symm

theorem not_prefix_of_ru {v : Bytes} (hv : ∀ c ∈ v.head?, toLower c ≠ byte '_') :
    ∀ name ∈ coreBeginnings, ¬name <+: lower (ascii "ru" ++ v) := by
  have hlower : lower (ascii "ru" ++ v) = byte 'r' :: byte 'u' :: lower v := rfl
  simp only [coreBeginnings, List.forall_mem_cons, hlower]
  refine ⟨fun hpre => ?_, fun hpre => ?_, fun hpre => ?_, fun _ h => by cases h⟩
  · obtain ⟨t, ht⟩ := hpre
    cases (List.cons.inj (List.cons.inj ht).2).1
  · exact not_underscore hv (List.prefix_cons_inj _ |>.mp (List.prefix_cons_inj _ |>.mp hpre))
  · exact not_underscore hv (List.prefix_cons_inj _ |>.mp (List.prefix_cons_inj _ |>.mp hpre))

/-- A name of the fleet plugin in the place of a subcommand goes to the plugins. -/
theorem handleRuCommandLine_eq {line first sub : Bytes} {args : List Bytes}
    (htoken : startsWithToken (trim line) (ascii "ru") = true)
    (hwords : splitWS line = first :: sub :: args) (hsub : isFleetCommand (lower sub) = true) :
    s.handleRuCommandLine line = s.consolePlugin (trim line) sub args := by
  have hne : ∀ name, isFleetCommand (lower name) = false → sub ≠ name := by
    rintro name hname rfl
    rw [hsub] at hname
    cases hname
  rw [handleRuCommandLine, htoken, if_neg (by decide), splitWS_trim, hwords]
  dsimp only
  rw [if_neg (hne _ (by decide)), if_neg (hne _ (by decide)), if_neg (hne _ (by decide)),
    if_neg (not_or.mpr ⟨hne _ (by decide), hne _ (by decide)⟩), if_neg (hne _ (by decide)),
    if_neg (hne _ (by decide)), if_neg (hne _ (by decide)), if_neg (hne _ (by decide)),
    if_neg (hne _ (by decide))]

theorem handleRuCommandLine_help {line first main : Bytes} {args : List Bytes}
    (htoken : startsWithToken (trim line) (ascii "ru") = true)
    (hwords : splitWS line = first :: ascii "help" :: main :: args) :
    s.handleRuCommandLine line = s.consoleHelp main := by
  rw [handleRuCommandLine, htoken, if_neg (by decide), splitWS_trim, hwords]
  dsimp only
  rw [if_neg (by decide), if_pos rfl]

/-- A command is queued for a registration that it finds alone. -/
theorem Only.hitPlugin (h : Only s r) (hkind : r.kind = .console) (t : Bytes) {sub : Bytes}
    {args : List Bytes}
    (hsub : IsWord sub) (hargs : ∀ w ∈ args, IsWord w) (hname : r.name = lower sub) :
    (s.consolePlugin t sub args).1.cmds.map (·.reg) = [r.id] ∧
    (s.consolePlugin t sub args).2 ≠ .notOurs := by
  rw [consolePlugin, h.missRu hkind]
  dsimp only
  rw [if_neg Bool.false_ne_true]
  refine ⟨h.hitConsole hkind (splitWS_join hsub hargs) hname, ?_⟩
  dsimp only
  split_ifs <;> decide

theorem Only.hitHelp (h : Only s r) (hkind : r.kind = .ruSub) {main : Bytes} (hword : IsWord main)
    (hmain : lower main = ascii "fleet") (hname : r.name = ascii "fleet") :
    (s.consoleHelp main).1.cmds.map (·.reg) = [r.id] ∧ (s.consoleHelp main).2 ≠ .notOurs := by
  have hne :
      ∀ l : List Bytes, (∀ name ∈ l, lower name ≠ ascii "fleet") → l.contains main = false := by
    intro l hl
    rw [Bool.eq_false_iff]
    exact fun hcontains => hl main (List.contains_iff_mem.mp hcontains) hmain
  rw [consoleHelp, hasCoreHelp, hne _ (by decide), if_neg Bool.false_ne_true, isCoreRuSubcommand,
    hne _ (by decide), if_neg Bool.false_ne_true]
  refine ⟨h.hitRu hkind (splitWS_consoleHelp hword) (hname.trans hmain.symm), ?_⟩
  dsimp only
  split_ifs <;> decide

/-- A line with the words of the fleet plugin reaches it, where it has registered the command. -/
theorem exists_dispatched {line : Bytes} (hnames : namesFleet line = true) :
    ∃ es r, Only (run step {} es) r ∧ IsFleetReg r ∧
      ((run step {} es).handleReadyUpConsoleCommandLine line).1.cmds.map (·.reg) = [r.id] := by
  rw [namesFleet] at hnames
  split at hnames
  · cases hnames
  · rename_i first rest hwords
    have hargs : ∀ w ∈ first :: rest, IsWord w := fun w hw => isWord_of_mem (hwords ▸ hw)
    rw [Bool.or_eq_true, Bool.and_eq_true] at hnames
    rcases hnames with hfirst | ⟨htoken, hru⟩
    · obtain ⟨es, r, honly, hkind, hname⟩ := exists_only_console hfirst
      refine ⟨es, r, honly, .inr ⟨hkind, hname ▸ hfirst⟩, ?_⟩
      have htoken : startsWithToken (trim line) (ascii "ru") = false := by
        rw [Bool.eq_false_iff]
        intro htoken
        obtain ⟨v, rfl, hv⟩ := first_of_startsWithToken hwords htoken
        rw [isFleetCommand, Bool.or_eq_true, decide_eq_true_eq, Bool.and_eq_true,
          List.isPrefixOf_iff_prefix] at hfirst
        rcases hfirst with hfirst | ⟨hfirst, -⟩
        · cases hfirst
        · exact not_underscore hv (List.prefix_cons_inj _ |>.mp
            (List.prefix_cons_inj _ |>.mp hfirst))
      rw [handleReadyUpConsoleCommandLine, honly.observeConsole,
        handleObserved_eq hwords (not_prefix_of_isFleetCommand hfirst), handleRuCommandLine,
        htoken, if_pos rfl]
      exact honly.hitConsole hkind ((splitWS_trim line).trans hwords) hname
    · obtain ⟨v, hv, hnot⟩ := first_of_startsWithToken hwords htoken
      have hcore := not_prefix_of_ru hnot
      rw [← hv] at hcore
      cases rest with
      | nil => cases hru
      | cons sub args =>
        simp only [List.forall_mem_cons] at hargs
        rw [ruNamesFleet, Bool.or_eq_true, Bool.and_eq_true, decide_eq_true_eq] at hru
        rcases hru with hsub | ⟨rfl, htopic⟩
        · obtain ⟨es, r, honly, hkind, hname⟩ := exists_only_console hsub
          refine ⟨es, r, honly, .inr ⟨hkind, hname ▸ hsub⟩, ?_⟩
          obtain ⟨hcmds, hours⟩ := honly.hitPlugin hkind (trim line) hargs.2.1 hargs.2.2 hname
          rw [handleReadyUpConsoleCommandLine, honly.observeConsole, handleObserved_eq hwords hcore,
            handleRuCommandLine_eq htoken hwords hsub]
          dsimp only
          rw [if_neg hours]
          exact hcmds
        · cases args with
          | nil => cases htopic
          | cons main args =>
            obtain ⟨es, r, honly, hkind, hname⟩ := exists_only_ruSub
            refine ⟨es, r, honly, .inl ⟨hkind, hname⟩, ?_⟩
            have hmain : lower main = ascii "fleet" := by simpa using htopic
            obtain ⟨hcmds, hours⟩ :=
              honly.hitHelp hkind (hargs.2.2 main List.mem_cons_self) hmain hname
            rw [handleReadyUpConsoleCommandLine, honly.observeConsole,
              handleObserved_eq hwords hcore, handleRuCommandLine_help htoken hwords]
            dsimp only
            rw [if_neg hours]
            exact hcmds

end Registered

end Host

section Filtered

theorem not_neverFleet {command : Bytes} (hne : command ≠ []) (hline : isOneLine command = true)
    (hnames : namesFleet command = true) : ¬NeverFleet command := by
  intro hnever
  obtain ⟨es, r, honly, hfleet, hcmds⟩ := Host.exists_dispatched hnames
  obtain ⟨l, hl, hreach⟩ := hnever es true
  rw [Host.enqueueServerCommand_oneLine hne hline, honly.cmds, List.nil_append] at hl
  rw [hl] at hcmds
  obtain ⟨c, hc, hid⟩ := List.mem_map.mp (hcmds ▸ List.mem_singleton_self r.id)
  exact hreach c hc r (honly.regs ▸ List.mem_singleton_self r) hid.symm hfleet

/-- A command that a filter lets through never reaches the fleet plugin, if and only if it does not
have the words of the fleet plugin with a vertical tab or a form feed around the first of them, or
with a semicolon right behind `ru`. -/
theorem neverFleet_iff {command : Bytes}
    (h : validateExec command = .ok () ∨ rconRefusal command = []) :
    NeverFleet command ↔ ¬(namesFleet command = true ∧ masked command = true) := by
  obtain ⟨hne, hline, hpart⟩ := accepted_cases h
  constructor
  · rintro hnever ⟨hnames, -⟩
    exact not_neverFleet hne hline hnames hnever
  · intro hcond es ready
    have hnames : namesFleet command = false := by
      rw [Bool.eq_false_iff]
      intro hnames
      refine hpart (fleetPart_of_namesFleet hline ?_ hnames)
      exact Bool.not_eq_true _ ▸ fun hmasked => hcond ⟨hnames, hmasked⟩
    cases ready with
    | false =>
      refine ⟨[], ?_, fun _ hc => by cases hc⟩
      rw [Host.enqueueServerCommand]
      dsimp only
      rw [if_pos (.inr rfl), List.append_nil]
    | true =>
      rw [Host.enqueueServerCommand_oneLine hne hline]
      obtain ⟨l, hl, hreach⟩ :=
        Host.handleReadyUpConsoleCommandLine_only (s := run Host.step {} es) command
      refine ⟨l, congrArg Host.cmds hl, fun c hc r hr hid hfleet => ?_⟩
      obtain ⟨r', hr', hid', hnot⟩ := hreach c hc
      -- a handle is of one registration
      have hhandles := (Host.run_keeps {} es Host.alive_empty).1.handles
      rw [List.inj_on_of_nodup_map hhandles hr hr' (hid.trans hid')] at hfleet
      rw [hnot hfleet] at hnames
      cases hnames

theorem neverFleet_plain : NeverFleet (ascii "ru status; say the fleet") :=
  (neverFleet_iff (.inl (by decide))).mpr (by decide)

/-- Both filters let the commands through, and the dispatcher has them for the fleet plugin. -/
theorem filters_passed :
    (validateExec (ascii "ru;x fleet unlink") = .ok () ∧
      rconRefusal (ascii "ru;x fleet unlink") = [] ∧ ¬NeverFleet (ascii "ru;x fleet unlink")) ∧
    (validateExec (11 :: ascii "fleet unlink") = .ok () ∧
      rconRefusal (11 :: ascii "fleet unlink") = [] ∧ ¬NeverFleet (11 :: ascii "fleet unlink")) :=
  ⟨⟨by decide, by decide, not_neverFleet (by decide) (by decide) (by decide)⟩,
    by decide, by decide, not_neverFleet (by decide) (by decide) (by decide)⟩

end Filtered

end ReadyUp.Plugins
