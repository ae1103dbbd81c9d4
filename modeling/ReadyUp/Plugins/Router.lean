import ReadyUp.Plugins.Lifecycle

/-!
# The chat router

`RouteChatCommand` takes a chat line apart and runs a command of the core, or queues one for a
plugin. What a player may run is decided once, on the words of the line; help, aliases and the
forwarding to chat commands write the line anew after that.

Left out are the texts of the replies. Whether chat commands are a feature of the build and whether
the line was seen before are given.
-/
namespace ReadyUp.Plugins

open Support

/-- A line of chat and who wrote it; the console has the id 0. -/
structure ChatLine where
  steamid64 : ℕ
  playerName : Bytes := []
  text : Bytes
  slot : ℤ := -1

/-- What a line of chat leads to, besides a command in the queue. -/
inductive Routed where
  | ignored
  | queued
  | lang (args : List Bytes)
  | version
  | refused
  | plugin (args : List Bytes)
  | license
  | help (topic : Option Bytes)
  | selftest
  | reload
  | unknown (cmd : Bytes)
  deriving DecidableEq

/-- The words of a command of the core that is not for every player. -/
def Routed.words : Routed → Option (List Bytes)
  | plugin args => some (ascii "plugin" :: args)
  | license => some [ascii "license"]
  | selftest => some [ascii "selftest"]
  | reload => some [ascii "reload"]
  | _ => none

namespace Host

section Router

variable (s : Host) (isAdmin : ℕ → Bool) (line : ChatLine)

/-- `.ru help <main>`: the lines of the core, or the plugin is asked. -/
def routeHelp (main : Bytes) : Host × Routed :=
  if hasCoreHelp main then (s, .help (some main))
  else if isCoreRuSubcommand main then (s, .unknown main)
  else
    let ru :=
      s.tryDispatchRu false line.steamid64 line.playerName
        (ascii ".ru " ++ main ++ ascii " help") line.slot
    (ru.1, if ru.2 then .queued else .unknown main)

/-- `.ru <cmd> ...` for a chat command of a plugin. -/
def routeForward (cmd : Bytes) (args : List Bytes) : Host × Routed :=
  if line.steamid64 = 0 then (s, .ignored)
  else if isCoreChatCommand (byte '.' :: cmd) then (s, .unknown cmd)
  else
    let chat := s.tryDispatchChat line.steamid64 line.playerName
      ((byte '.' :: cmd) ++ args.flatMap (byte ' ' :: ·)) line.slot
    (chat.1, if chat.2 then .queued else .unknown cmd)

/-- The commands of the core behind `.ru`, and what is forwarded. -/
def routeCore (cmd : Bytes) (args : List Bytes) : Host × Routed :=
  let requireAdmin (r : Routed) : Routed :=
    if line.steamid64 = 0 ∨ isAdmin line.steamid64 then r else .refused
  if cmd = ascii "plugin" ∨ cmd = ascii "plugins" then (s, requireAdmin (.plugin args))
  else if cmd = ascii "version" then (s, .version)
  else if cmd = ascii "license" then (s, requireAdmin .license)
  else if cmd = ascii "help" then
    match args with
    | [] => (s, .help none)
    | main :: _ => s.routeHelp line (lower main)
  else if cmd = ascii "list" then (s, .help none)
  else if cmd = ascii "selftest" then (s, requireAdmin .selftest)
  else if cmd = ascii "reload" then (s, requireAdmin .reload)
  else s.routeForward line cmd args

/-- `.ru <sub> ...`; the text is the whole line. -/
def routeRu (t sub : Bytes) (args : List Bytes) : Host × Routed :=
  let cmd := lower sub
  if ruCommandAllowed (sub :: args) (line.steamid64 = 0 ∨ isAdmin line.steamid64) = false then
    (s, .refused)
  else
    let ru := if isCoreRuSubcommand cmd then (s, false)
      else s.tryDispatchRu false line.steamid64 line.playerName t line.slot
    if ru.2 then (ru.1, .queued) else ru.1.routeCore isAdmin line cmd args

/-- The words of a line, with the names of the old plugin replaced. -/
def chatParts (t : Bytes) : List Bytes :=
  match splitWS t with
  | [] => []
  | first :: args =>
    match coreChatAliasToRu first with
    | some sub => [ascii ".ru", sub]
    | none => first :: args

def routeChatCommand (chatCommands fresh : Bool) : Host × Routed :=
  let t := trim line.text
  if t = [] ∨ (line.steamid64 ≠ 0 ∧ chatCommands = false) ∨ fresh = false then (s, .ignored)
  else
    match chatParts t with
    | [] => (s, .ignored)
    | first :: args =>
      if lower first = ascii ".lang" then (s, .lang args)
      else
        let chat := if isCoreChatCommand first then (s, false)
          else s.tryDispatchChat line.steamid64 line.playerName t line.slot
        if chat.2 then (chat.1, .queued)
        else if first ≠ ascii ".ru" then (chat.1, .ignored)
        else
          match args with
          | [] => (chat.1, .version)
          | sub :: rest => chat.1.routeRu isAdmin line t sub rest

end Router

section Deny

variable {s t u : Host} {line : ChatLine}

/-- How the line of a player who is no admin reaches a command of a plugin. -/
inductive Reachable (line : ChatLine) (c : QueuedCmd) (r : Reg) : Prop where
  /-- `.ru <main> ...`, as it was typed -/
  | sub {main : Bytes} {args : List Bytes} (hline : splitWS line.text = ascii ".ru" :: main :: args)
      (htext : c.text = trim line.text) (hkind : r.kind = .ruSub) (hname : r.name = lower main)
      (hpublic : ruCommandPublic (main :: args) = true)
  /-- `.ru help <main>`, for which the plugin gets `.ru <main> help` -/
  | help {help main : Bytes} {args : List Bytes}
      (hline : splitWS line.text = ascii ".ru" :: help :: main :: args)
        (hhelp : lower help = ascii "help")
      (htext : splitWS c.text = [ascii ".ru", lower main, ascii "help"]) (hkind : r.kind = .ruSub)
      (hname : r.name = lower main) (hpublic : ruCommandPublic [lower main, ascii "help"] = true)
  /-- a chat command in its own name, as it was typed -/
  | own {first : Bytes} {args : List Bytes} (hline : splitWS line.text = first :: args)
      (hfirst : first ≠ ascii ".ru") (htext : c.text = trim line.text) (hkind : r.kind = .chat)
      (hname : r.name = lower first)
  /-- `.ru <main> ...`, forwarded to the chat command `.<main>` -/
  | forward {main : Bytes} {args : List Bytes}
      (hline : splitWS line.text = ascii ".ru" :: main :: args)
      (htext : splitWS c.text = (byte '.' :: lower main) :: args) (hkind : r.kind = .chat)
      (hname : r.name = byte '.' :: lower main) (hpublic : ruCommandPublic (main :: args) = true)

/-- Only what a player may reach is queued, and no other command of the core runs. -/
def Denies (line : ChatLine) (s : Host) (r : Host × Routed) : Prop :=
  QueuesOnly (Reachable line) s r.1 ∧ ∀ words, r.2.words = some words → ruCommandPublic words = true

theorem QueuesOnly.denies {r : Routed} (h : QueuesOnly (Reachable line) s t) (hr : r.words = none) :
    Denies line s (t, r) := by
  refine ⟨h, fun words hwords => ?_⟩
  rw [hr] at hwords
  cases hwords

section Words

theorem splitWS_forward {cmd : Bytes} {args : List Bytes} (hcmd : IsWord cmd)
    (hargs : ∀ w ∈ args, IsWord w) :
    splitWS ((byte '.' :: cmd) ++ args.flatMap (byte ' ' :: ·)) = (byte '.' :: cmd) :: args :=
  splitWS_join ⟨List.cons_ne_nil _ _, List.forall_mem_cons.mpr ⟨by decide, hcmd.2⟩⟩ hargs

theorem splitWS_help {main : Bytes} (h : IsWord main) :
    splitWS (ascii ".ru " ++ main ++ ascii " help") = [ascii ".ru", main, ascii "help"] := by
  have hline : ascii ".ru " ++ main ++ ascii " help" =
      ascii ".ru" ++ [main, ascii "help"].flatMap (byte ' ' :: ·) := by
    rw [List.flatMap_cons, List.flatMap_cons, List.flatMap_nil, List.append_nil, List.append_assoc]
    rfl
  rw [hline]
  exact splitWS_join (by decide)
    (List.forall_mem_cons.mpr ⟨h, List.forall_mem_singleton.mpr (by decide)⟩)

theorem ruCommandPublic_lower (main : Bytes) (args : List Bytes) :
    ruCommandPublic (lower main :: args) = ruCommandPublic (main :: args) := by
  simp only [ruCommandPublic, lower_lower]

/-- Help about a command that every player may ask for leads to words that are public. -/
theorem public_help {help main : Bytes} {args : List Bytes} (hhelp : lower help = ascii "help")
    (h : ruCommandPublic (help :: main :: args) = true) (hcore : hasCoreHelp (lower main) = false) :
    ruCommandPublic [lower main, ascii "help"] = true := by
  have hplugin : (findPublicPlugin (lower main)).isSome = true := by
    simp only [ruCommandPublic, hhelp, if_true] at h
    rw [if_neg (by decide)] at h
    simp only [Bool.or_eq_true, decide_eq_true_eq] at h
    rcases h with ((h | h) | h) | h
    · rw [h] at hcore
      cases hcore
    · rw [h] at hcore
      cases hcore
    · rw [h] at hcore
      cases hcore
    · exact h
  obtain ⟨subs, hsubs⟩ := Option.isSome_iff_exists.mp hplugin
  simp only [ruCommandPublic, lower_lower, hsubs]
  split_ifs with hcommon htopic
  · rfl
  · rw [htopic] at hsubs
    cases hsubs
  · rfl

end Words

section Steps

variable {isAdmin : ℕ → Bool}

theorem routeHelp_denies {help main : Bytes} {args : List Bytes}
    (hline : splitWS line.text = ascii ".ru" :: help :: main :: args)
    (hhelp : lower help = ascii "help") (h : ruCommandPublic (help :: main :: args) = true) :
    Denies line s (s.routeHelp line (lower main)) := by
  have hmain : IsWord main := isWord_of_mem (s := line.text) (by rw [hline]; simp)
  rw [routeHelp]
  split_ifs with hcore
  · exact (QueuesOnly.refl s).denies rfl
  · exact (QueuesOnly.refl s).denies rfl
  · rw [Bool.not_eq_true] at hcore
    refine QueuesOnly.denies (tryDispatchRu_only _ _ _ _ ?_).1 ?_
    · intro first sub rest hwords g _ hkind hname c hc
      rw [splitWS_help hmain.lower] at hwords
      obtain ⟨-, rfl, -⟩ : ascii ".ru" = first ∧ lower main = sub ∧ [ascii "help"] = rest := by
        simpa using hwords
      rw [lower_lower] at hname
      refine .help hline hhelp ?_ hkind hname (public_help hhelp h hcore)
      rw [hc, splitWS_help hmain.lower]
    · split_ifs <;> rfl

theorem routeForward_denies {main : Bytes} {args : List Bytes}
    (hline : splitWS line.text = ascii ".ru" :: main :: args)
    (h : ruCommandPublic (main :: args) = true) :
    Denies line s (s.routeForward line (lower main) args) := by
  have hmain : IsWord main := isWord_of_mem (s := line.text) (by rw [hline]; simp)
  have hargs : ∀ w ∈ args, IsWord w :=
    fun w hw => isWord_of_mem (s := line.text) (by rw [hline]; simp [hw])
  rw [routeForward]
  split_ifs
  · exact (QueuesOnly.refl s).denies rfl
  · exact (QueuesOnly.refl s).denies rfl
  · refine QueuesOnly.denies (tryDispatchChat_only _ _ _ ?_).1 ?_
    · intro first rest hwords g _ hkind hname c hc
      rw [splitWS_forward hmain.lower hargs] at hwords
      obtain ⟨rfl, -⟩ := List.cons.inj hwords
      refine .forward hline ?_ hkind ?_ h
      · rw [hc, splitWS_forward hmain.lower hargs]
      · rw [hname, lower, List.map_cons, ← lower, lower_lower]
        rfl
    · split_ifs <;> rfl

/-- The commands of the core that a player gets to are public. An alias stands for a command that is
answered here. -/
theorem routeCore_denies {main : Bytes} {args : List Bytes} (hplayer : line.steamid64 ≠ 0)
    (hadmin : isAdmin line.steamid64 = false)
    (hline : main = ascii "version" ∨ main = ascii "reload" ∨
      splitWS line.text = ascii ".ru" :: main :: args)
    (h : ruCommandPublic (main :: args) = true) :
    Denies line s (s.routeCore isAdmin line (lower main) args) := by
  have hnot : ¬(line.steamid64 = 0 ∨ isAdmin line.steamid64 = true) := by
    rw [hadmin]
    exact fun hor => hor.elim hplayer fun hfalse => by cases hfalse
  -- the line is as it was typed where the command is neither of the two
  have htyped : lower main ≠ ascii "version" → lower main ≠ ascii "reload" →
      splitWS line.text = ascii ".ru" :: main :: args := by
    intro hversion hreload
    rcases hline with rfl | rfl | hline
    · exact absurd (by decide) hversion
    · exact absurd (by decide) hreload
    · exact hline
  simp only [routeCore, if_neg hnot]
  split_ifs with _ hversion _ hhelp _ _ hreload
  · exact (QueuesOnly.refl s).denies rfl
  · exact (QueuesOnly.refl s).denies rfl
  · exact (QueuesOnly.refl s).denies rfl
  · cases args with
    | nil => exact (QueuesOnly.refl s).denies rfl
    | cons topic args => exact routeHelp_denies (htyped hversion (by rw [hhelp]; decide)) hhelp h
  · exact (QueuesOnly.refl s).denies rfl
  · exact (QueuesOnly.refl s).denies rfl
  · exact (QueuesOnly.refl s).denies rfl
  · exact routeForward_denies (htyped hversion hreload) h

theorem routeRu_denies {sub : Bytes} {args : List Bytes} (hplayer : line.steamid64 ≠ 0)
    (hadmin : isAdmin line.steamid64 = false)
    (hline : sub = ascii "version" ∨ sub = ascii "reload" ∨
      splitWS line.text = ascii ".ru" :: sub :: args) :
    Denies line s (s.routeRu isAdmin line (trim line.text) sub args) := by
  have hnot : decide (line.steamid64 = 0 ∨ isAdmin line.steamid64 = true) = false := by
    rw [hadmin]
    simpa using hplayer
  rw [routeRu, hnot, ruCommandAllowed, Bool.false_or]
  by_cases hpublic : ruCommandPublic (sub :: args) = false
  · rw [if_pos hpublic]
    exact (QueuesOnly.refl s).denies rfl
  · rw [if_neg hpublic]
    rw [Bool.not_eq_false] at hpublic
    have hcoreDenies := routeCore_denies (s := s) hplayer hadmin hline hpublic
    by_cases hcore : isCoreRuSubcommand (lower sub) = true
    · rw [if_pos hcore, if_neg Bool.false_ne_true]
      exact hcoreDenies
    · rw [if_neg hcore]
      have htyped : splitWS line.text = ascii ".ru" :: sub :: args := by
        rcases hline with rfl | rfl | hline
        · exact absurd (by decide) hcore
        · exact absurd (by decide) hcore
        · exact hline
      have hdispatch :
          ∀ first main rest, splitWS (trim line.text) = first :: main :: rest → ∀ g ∈ s.regs,
          g.kind = .ruSub → g.name = lower main → ∀ c : QueuedCmd, c.text = trim line.text →
            Reachable line c g := by
        intro first main rest hwords g _ hkind hname c hc
        rw [splitWS_trim, htyped] at hwords
        obtain ⟨-, hrest⟩ := List.cons.inj hwords
        obtain ⟨rfl, -⟩ := List.cons.inj hrest
        exact .sub htyped hc hkind hname hpublic
      obtain ⟨hsends, hsame⟩ :=
        tryDispatchRu_only false line.steamid64 line.playerName line.slot hdispatch
      dsimp only
      split_ifs with hqueued
      · exact hsends.denies rfl
      · rw [hsame (Bool.not_eq_true _ ▸ hqueued)]
        exact hcoreDenies

theorem chatParts_eq_cons {t first : Bytes} {args : List Bytes} (h : chatParts t = first :: args) :
    (first = ascii ".ru" ∧ (args = [ascii "version"] ∨ args = [ascii "reload"])) ∨
    splitWS t = first :: args := by
  rw [chatParts] at h
  split at h
  · cases h
  · rename_i first' args' _
    split at h
    · rename_i sub halias
      obtain ⟨rfl, rfl⟩ := List.cons.inj h
      refine .inl ⟨rfl, ?_⟩
      rw [coreChatAliasToRu] at halias
      split_ifs at halias
      · exact .inl (congrArg (fun w => [w]) (Option.some.inj halias).symm)
      · exact .inr (congrArg (fun w => [w]) (Option.some.inj halias).symm)
    · exact .inr (h ▸ ‹_›)

theorem routeChatCommand_denies (hplayer : line.steamid64 ≠ 0)
    (hadmin : isAdmin line.steamid64 = false)
    (chatCommands fresh : Bool) :
    Denies line s (s.routeChatCommand isAdmin line chatCommands fresh) := by
  rw [routeChatCommand]
  split_ifs
  · exact (QueuesOnly.refl s).denies rfl
  · split
    · exact (QueuesOnly.refl s).denies rfl
    · rename_i first args hparts
      have hru : ∀ sub rest, args = sub :: rest → first = ascii ".ru" →
          Denies line s (s.routeRu isAdmin line (trim line.text) sub rest) := by
        rintro sub rest rfl rfl
        refine routeRu_denies hplayer hadmin ?_
        rcases chatParts_eq_cons hparts with ⟨-, heq | heq⟩ | heq
        · exact .inl (List.cons.inj heq).1
        · exact .inr (.inl (List.cons.inj heq).1)
        · exact .inr (.inr (by rw [← splitWS_trim, heq]))
      by_cases hlang : lower first = ascii ".lang"
      · rw [if_pos hlang]
        exact (QueuesOnly.refl s).denies rfl
      · rw [if_neg hlang]
        by_cases hcore : isCoreChatCommand first = true
        · rw [if_pos hcore]
          dsimp only
          rw [if_neg Bool.false_ne_true]
          split_ifs with hfirst
          · exact (QueuesOnly.refl s).denies rfl
          · rw [ne_eq, not_not] at hfirst
            cases args with
            | nil => exact (QueuesOnly.refl s).denies rfl
            | cons sub rest => exact hru sub rest rfl hfirst
        · rw [if_neg hcore]
          have hfirst : first ≠ ascii ".ru" := by
            rintro rfl
            exact hcore (by decide)
          have hwords : splitWS (trim line.text) = first :: args :=
            (chatParts_eq_cons hparts).resolve_left fun h => hfirst h.1
          have hdispatch : ∀ first' rest, splitWS (trim line.text) = first' :: rest → ∀ g ∈ s.regs,
              g.kind = .chat → g.name = lower first' → ∀ c : QueuedCmd, c.text = trim line.text →
                Reachable line c g := by
            intro first' rest hwords' g _ hkind hname c hc
            rw [hwords] at hwords'
            obtain ⟨rfl, -⟩ := List.cons.inj hwords'
            exact .own (by rw [← splitWS_trim, hwords]) hfirst hc hkind hname
          have hsends :=
            (tryDispatchChat_only line.steamid64 line.playerName line.slot hdispatch).1
          dsimp only
          rw [if_pos hfirst]
          split_ifs
          · exact hsends.denies rfl
          · exact hsends.denies rfl

end Steps

/-- A player who is no admin reaches subcommands of plugins, and what `.ru` is forwarded to, only
with words that are public, and of the core no command that is not. -/
theorem default_deny (es : List Event) (isAdmin : ℕ → Bool) (line : ChatLine)
    (chatCommands fresh : Bool)
    (hplayer : line.steamid64 ≠ 0) (hadmin : isAdmin line.steamid64 = false) :
    let s := run step {} es
    let r := s.routeChatCommand isAdmin line chatCommands fresh
    (∀ words, r.2.words = some words → ruCommandPublic words = true) ∧
      ∃ l, r.1.cmds = s.cmds ++ l ∧ ∀ c ∈ l, ∀ g ∈ s.regs, g.id = c.reg → Reachable line c g := by
  intro s r
  obtain ⟨⟨l, hl, hreach⟩, hwords⟩ :=
    routeChatCommand_denies (s := s) hplayer hadmin chatCommands fresh
  refine ⟨hwords, l, congrArg Host.cmds hl, fun c hc g hg hid => ?_⟩
  obtain ⟨g', hg', hid', hreach⟩ := hreach c hc
  -- a handle is of one registration
  have hhandles := (run_keeps {} es alive_empty).1.handles
  rw [List.inj_on_of_nodup_map hhandles hg hg' (hid.trans hid')]
  exact hreach

/-- A plugin with a subcommand and a chat command that every player may run. -/
def deathmatchLoaded : List Event :=
  [.frame false [ascii "dm"], .game {}, .api 1 (.registerRuSub (ascii "deathmatch") 7 0),
    .api 1 (.registerChat (ascii ".dm") {} 8 0)]

/-- Help about the subcommand, a forwarded command, and one that is refused. -/
theorem default_deny_deathmatch :
    let s := run step {} deathmatchLoaded
    let routed (text : Bytes) :=
      s.routeChatCommand (fun _ => false) { steamid64 := 5, text } true true
    let Denied (text : Bytes) :=
      (∀ words, (routed text).2.words = some words → ruCommandPublic words = true) ∧
      ∃ l, (routed text).1.cmds = s.cmds ++ l ∧
        ∀ c ∈ l, ∀ g ∈ s.regs, g.id = c.reg → Reachable { steamid64 := 5, text } c g
    (Denied (ascii ".ru help Deathmatch") ∧
        (routed (ascii ".ru help Deathmatch")).1.cmds.map (·.text) =
        [ascii ".ru deathmatch help"]) ∧
      (Denied (ascii ".ru DM top 3") ∧
        (routed (ascii ".ru DM top 3")).1.cmds.map (·.text) = [ascii ".dm top 3"]) ∧
        (Denied (ascii ".ru dm reset") ∧ (routed (ascii ".ru dm reset")).1.cmds = []) := by
  refine ⟨⟨default_deny deathmatchLoaded (fun _ => false)
    { steamid64 := 5, text := ascii ".ru help Deathmatch" }
    true true (by decide) rfl, by decide⟩, ⟨default_deny deathmatchLoaded (fun _ => false)
      { steamid64 := 5, text := ascii ".ru DM top 3" } true true (by decide) rfl, by decide⟩,
    default_deny deathmatchLoaded (fun _ => false)
    { steamid64 := 5, text := ascii ".ru dm reset" } true true
      (by decide) rfl, by decide⟩

end Deny

end Host

end ReadyUp.Plugins
