import ReadyUp.Plugins.Router

/-!
# Lines of the server console

A platform runs console commands with `exec`, an admin with `.rcon`. Two filters keep the commands
of the fleet link away from them: `ValidateExec` and `RconRefusal`. What they let through goes to
`EnqueueServerCommand`, which hands lines of Ready Up to the plugins before the engine sees them.

The lines that the dispatcher has for the fleet plugin are those with its words (`namesFleet`).
-/
namespace ReadyUp.Plugins

open Support

section Filters

/-- The bytes that the filters cut words at. -/
def isStripped (c : UInt8) : Bool := c == byte ' ' || c == byte '\t' || c == byte '"'

def hasText (w l : Bytes) : Bool := l.tails.any w.isPrefixOf

/-- `startsWord` in `ValidateExec` -/
def startsWord (w l : Bytes) : Bool := w.isPrefixOf l && (l.drop w.length).head?.all isStripped

def isOneLine (command : Bytes) : Bool :=
  command.all fun c => !(c == byte '\n' || c == byte '\r' || c == 0)

/-- A part of a command that `ValidateExec` does not let through. -/
def execRefused (part : Bytes) : Bool :=
  let l := (lower part).dropWhile isStripped
  startsWord (ascii "fleet") l || (startsWord (ascii "ru") l && hasText (ascii "fleet") l) ||
    (ascii "ru_fleet").isPrefixOf l

def validateExec (command : Bytes) : Except Bytes Unit :=
  if command = [] then .error (ascii "empty command")
  else if 512 < command.length then .error (ascii "longer than 512 bytes")
  else if isOneLine command = false then .error (ascii "more than one line")
  else if (command.splitOn (byte ';')).any execRefused then
    .error (ascii "the fleet link's own commands are not allowed over exec")
  else .ok ()

/-- The commands that `.rcon` does not run. -/
def rconRefused : List Bytes :=
  [ascii "quit", ascii "exit", ascii "_restart", ascii "restart", ascii "killserver",
    ascii "shutdown", ascii "sv_setsteamaccount", ascii "rcon_password", ascii "rcon",
    ascii "readyup_license_key", ascii "alias"]

/-- Why `RconRefusal` refuses a part of a command. -/
def rconPart (part : Bytes) : Option Bytes :=
  let part := lower part
  let word := (part.dropWhile isStripped).takeWhile (!isStripped ·)
  if word = [] then none
  else if rconRefused.contains word then
    some (ascii "`" ++ word ++ ascii "` is not allowed over .rcon")
  else if word = ascii "fleet" ∨ (ascii "ru_fleet").isPrefixOf word ∨
      (word = ascii "ru" ∧ hasText (ascii "fleet") part) then
    some (ascii "the fleet link's own commands are not allowed over .rcon")
  else none

def rconRefusal (command : Bytes) : Bytes :=
  if command.all fun c => c == byte ' ' || c == byte '\t' then ascii "usage: .rcon <command>"
  else if 512 < command.length then ascii "the command is longer than 512 bytes"
  else if isOneLine command = false then ascii "one line only"
  else ((command.splitOn (byte ';')).findSome? rconPart).getD []

end Filters

section License

/-- The settings that `license::HandleConsoleLine` takes. -/
def licenseSettings : List Bytes :=
  [ascii "readyup_license_key", ascii "readyup_license_lease", ascii "readyup_license_state",
    ascii "readyup_license_accepted", ascii "readyup_license_accepted_at",
    ascii "readyup_show_license"]

/-- `ParseSetting`, without the value. -/
def parseSetting (line name : Bytes) : Bool :=
  let l :=
    trimBy (fun c => c == byte ' ' || c == byte '\t' || c == byte '\r' || c == byte '\n') line
  name.isPrefixOf l && (l.drop name.length).head?.all fun c =>
    c == byte ' ' || c == byte '\t' || c == byte ';'

def isLicenseLine (line : Bytes) : Bool := licenseSettings.any (parseSetting line)

end License

/-- What a line of the server console leads to. -/
inductive ConsoleRun where
  | notOurs
  | queued
  | setting
  | help
  | helpFor (main : Bytes)
  | plugin (args : List Bytes)
  | sigtest
  | selftest
  | statusHttp
  | reload
  | license
  | version
  | unknown
  deriving DecidableEq

def startsWithToken (s tok : Bytes) : Bool :=
  tok.isPrefixOf s && (s.drop tok.length).head?.all fun c => isSpace c || c == byte ';'

namespace Host

section Console

variable (s : Host)

/-- `ru help <main>` -/
def consoleHelp (main : Bytes) : Host × ConsoleRun :=
  if hasCoreHelp main then (s, .helpFor main)
  else if isCoreRuSubcommand main then (s, .unknown)
  else
    let ru := s.tryDispatchRu true 0 (ascii "Console") (ascii "ru " ++ main ++ ascii " help") (-1)
    (ru.1, if ru.2 then .queued else .unknown)

/-- `ru <sub> ...` that is no command of the core. -/
def consolePlugin (t sub : Bytes) (args : List Bytes) : Host × ConsoleRun :=
  let ru := s.tryDispatchRu true 0 (ascii "Console") t (-1)
  if ru.2 then (ru.1, .queued)
  else
    let console := ru.1.tryDispatchConsole (sub ++ args.flatMap (byte ' ' :: ·))
    (console.1, if console.2 then .queued else if sub = ascii "version" then .version else .unknown)

def handleRuCommandLine (line : Bytes) : Host × ConsoleRun :=
  let t := trim line
  if startsWithToken t (ascii "ru") = false then (s, .notOurs)
  else
    match splitWS t with
    | [] => (s, .notOurs)
    | [_] => (s, .help)
    | _ :: sub :: args =>
      if sub = ascii "list" then (s, .help)
      else if sub = ascii "help" then
        match args with
        | [] => (s, .help)
        | main :: _ => s.consoleHelp main
      else if sub = ascii "perf" then (s, .plugin (sub :: args))
      else if sub = ascii "plugin" ∨ sub = ascii "plugins" then (s, .plugin args)
      else if sub = ascii "sigtest" then (s, .sigtest)
      else if sub = ascii "selftest" then (s, .selftest)
      else if sub = ascii "status_http" then (s, .statusHttp)
      else if sub = ascii "reload" then (s, .reload)
      else if sub = ascii "license" then (s, .license)
      else s.consolePlugin t sub args

/-- `HandleReadyUpConsoleCommandLine` behind `ObserveConsole` -/
def handleObserved (line : Bytes) : Host × ConsoleRun :=
  if isLicenseLine line then (s, .setting)
  else
    match coreConsoleAliasToRu ((trim line).takeWhile fun c =>
      !(c == byte ' ' || c == byte '\t')) with
    | some sub => s.handleRuCommandLine (ascii "ru " ++ sub)
    | none =>
      let ru := s.handleRuCommandLine line
      if ru.2 = .notOurs then
        let console := ru.1.tryDispatchConsole (trim line)
        (console.1, if console.2 then .queued else .notOurs)
      else ru

def handleReadyUpConsoleCommandLine (line : Bytes) : Host × ConsoleRun :=
  (s.observeConsole (trim line)).handleObserved line

/-- `EnqueueServerCommand`: what it returns, and the text that goes to the engine. -/
def enqueueServerCommand (ready : Bool) (text : Bytes) : Host × Bool × Option Bytes :=
  let text := text.takeWhile (· ≠ 0)
  if text = [] ∨ ready = false then (s, false, none)
  else
    let full := if text.getLast? = some (byte '\n') then text else text ++ [byte '\n']
    if full.dropLast.any fun c => c == byte '\r' || c == byte '\n' then (s, true, some full)
    else
      let r := s.handleReadyUpConsoleCommandLine full.dropLast
      (r.1, true, if r.2 = .notOurs then some full else none)

end Console

end Host

section Fleet

/-- A name that a console command of the fleet plugin can have. -/
def isFleetCommand (name : Bytes) : Bool :=
  name = ascii "fleet" ||
    ((ascii "ru_fleet").isPrefixOf name && Host.validName 2 48 isLower Host.isNameByte name)

def IsFleetReg (r : Reg) : Prop :=
  (r.kind = .ruSub ∧ r.name = ascii "fleet") ∨ (r.kind = .console ∧ isFleetCommand r.name = true)

theorem IsFleetReg.of_ruSub {r : Reg} (h : IsFleetReg r) (hkind : r.kind = .ruSub) :
    r.name = ascii "fleet" := by
  rcases h with h | h
  · exact h.2
  · rw [hkind] at h
    cases h.1

theorem IsFleetReg.of_console {r : Reg} (h : IsFleetReg r) (hkind : r.kind = .console) :
    isFleetCommand r.name = true := by
  rcases h with h | h
  · rw [hkind] at h
    cases h.1
  · exact h.2

/-- Whatever the plugins have registered, the command is not queued for the fleet plugin. -/
def NeverFleet (command : Bytes) : Prop :=
  ∀ es ready, ∃ l, ((run Host.step {} es).enqueueServerCommand ready command).1.cmds =
    (run Host.step {} es).cmds ++ l ∧
      ∀ c ∈ l, ∀ r ∈ (run Host.step {} es).regs, r.id = c.reg → ¬IsFleetReg r

/-- The words behind `ru` are those of a command of the fleet plugin. -/
def ruNamesFleet : List Bytes → Bool
  | [] => false
  | sub :: args =>
    isFleetCommand (lower sub) || (sub = ascii "help" && args.head?.any (lower · = ascii "fleet"))

/-- The words of a line are those of a command of the fleet plugin. -/
def namesFleet (line : Bytes) : Bool :=
  match splitWS line with
  | [] => false
  | first :: rest =>
    isFleetCommand (lower first) || (startsWithToken (trim line) (ascii "ru") && ruNamesFleet rest)

end Fleet

namespace Host

section Dispatched

variable {s : Host} {Q : Prop}

/-- The line that a plugin is asked for its help with from the console. -/
theorem splitWS_consoleHelp {main : Bytes} (h : IsWord main) :
    splitWS (ascii "ru " ++ main ++ ascii " help") = [ascii "ru", main, ascii "help"] := by
  have hline :
      ascii "ru " ++ main ++ ascii " help" = ascii "ru" ++ [main, ascii "help"].flatMap
        (byte ' ' :: ·) := by
    rw [List.flatMap_cons, List.flatMap_cons, List.flatMap_nil, List.append_nil, List.append_assoc]
    rfl
  rw [hline]
  exact splitWS_join (by decide)
    (List.forall_mem_cons.mpr ⟨h, List.forall_mem_singleton.mpr (by decide)⟩)

theorem consoleHelp_only {main : Bytes} (hword : IsWord main)
    (hQ : lower main = ascii "fleet" → Q) :
    QueuesOnly (fun _ r => IsFleetReg r → Q) s (s.consoleHelp main).1 := by
  rw [consoleHelp]
  split_ifs
  · exact .refl s
  · exact .refl s
  · refine (tryDispatchRu_only _ _ _ _ ?_).1
    intro first sub rest hwords r _ hkind hname c _ hfleet
    rw [splitWS_consoleHelp hword, List.cons.injEq, List.cons.injEq] at hwords
    obtain ⟨-, rfl, -⟩ := hwords
    exact hQ (hname.symm.trans (hfleet.of_ruSub hkind))

theorem consolePlugin_only {t first sub : Bytes} {args : List Bytes}
    (ht : splitWS t = first :: sub :: args) (hQ : isFleetCommand (lower sub) = true → Q) :
    QueuesOnly (fun _ r => IsFleetReg r → Q) s (s.consolePlugin t sub args).1 := by
  have hwords : ∀ w ∈ sub :: args, IsWord w :=
    fun w hw => isWord_of_mem (ht ▸ List.mem_cons_of_mem _ hw)
  rw [List.forall_mem_cons] at hwords
  have hreg :
      ∀ first' sub' rest, splitWS t = first' :: sub' :: rest → ∀ r ∈ s.regs, r.kind = .ruSub →
      r.name = lower sub' → ∀ c : QueuedCmd, c.text = t → IsFleetReg r → Q := by
    intro first' sub' rest hwords' r _ hkind hname c _ hfleet
    rw [ht, List.cons.injEq, List.cons.injEq] at hwords'
    obtain ⟨-, rfl, -⟩ := hwords'
    refine hQ ?_
    rw [← hname, hfleet.of_ruSub hkind]
    rfl
  have hru :=
    @tryDispatchRu_only _ (fun _ r => IsFleetReg r → Q) t true 0 (ascii "Console") (-1) hreg
  rw [consolePlugin]
  dsimp only
  by_cases hqueued : (s.tryDispatchRu true 0 (ascii "Console") t (-1)).2 = true
  · rw [if_pos hqueued]
    exact hru.1
  · rw [if_neg hqueued, hru.2 (Bool.not_eq_true _ ▸ hqueued)]
    refine (tryDispatchConsole_only ?_).1
    intro first' rest hwords' r _ hkind hname c _ hfleet
    rw [splitWS_join hwords.1 hwords.2, List.cons.injEq] at hwords'
    obtain ⟨rfl, -⟩ := hwords'
    exact hQ (hname ▸ hfleet.of_console hkind)

theorem handleRuCommandLine_only (line : Bytes)
    (hQ : startsWithToken (trim line) (ascii "ru") = true →
      ∀ first rest, splitWS line = first :: rest → ruNamesFleet rest = true → Q) :
    QueuesOnly (fun _ r => IsFleetReg r → Q) s (s.handleRuCommandLine line).1 := by
  rw [handleRuCommandLine]
  split_ifs with htoken
  · exact .refl s
  · rw [Bool.not_eq_false] at htoken
    split
    · exact .refl s
    · exact .refl s
    · rename_i first sub args hwords
      have hQ' : ruNamesFleet (sub :: args) = true → Q :=
        hQ htoken first _ (splitWS_trim line ▸ hwords)
      have hargs : ∀ w ∈ args, IsWord w := fun w hw =>
        isWord_of_mem (hwords ▸ List.mem_cons_of_mem _ (List.mem_cons_of_mem _ hw))
      split_ifs with _ hhelp
      · exact .refl s
      · cases args with
        | nil => exact .refl s
        | cons main args =>
          rw [List.forall_mem_cons] at hargs
          refine consoleHelp_only hargs.1 fun hmain => hQ' ?_
          rw [ruNamesFleet, hhelp, List.head?_cons, Option.any_some, hmain]
          rfl
      all_goals try exact .refl s
      refine consolePlugin_only hwords fun hsub => hQ' ?_
      rw [ruNamesFleet, hsub, Bool.true_or]

theorem namesFleet_of_first {line first : Bytes} {rest : List Bytes}
    (hwords : splitWS line = first :: rest)
    (h : isFleetCommand (lower first) = true) : namesFleet line = true := by
  rw [namesFleet, hwords]
  dsimp only
  rw [h, Bool.true_or]

theorem namesFleet_of_ru {line first : Bytes} {rest : List Bytes}
    (hwords : splitWS line = first :: rest)
    (htoken : startsWithToken (trim line) (ascii "ru") = true) (h : ruNamesFleet rest = true) :
    namesFleet line = true := by
  rw [namesFleet, hwords]
  dsimp only
  rw [htoken, h, Bool.and_true, Bool.or_true]

theorem direct_only (line : Bytes) :
    QueuesOnly (fun _ r => IsFleetReg r → namesFleet line = true) s
      (s.tryDispatchConsole (trim line)).1 := by
  refine (tryDispatchConsole_only ?_).1
  intro first rest hwords r _ hkind hname c _ hfleet
  exact namesFleet_of_first (splitWS_trim line ▸ hwords) (hname ▸ hfleet.of_console hkind)

theorem handleObserved_only (line : Bytes) :
    QueuesOnly (fun _ r => IsFleetReg r → namesFleet line = true) s (s.handleObserved line).1 := by
  rw [handleObserved]
  split_ifs
  · exact .refl s
  · split
    · rename_i sub halias
      refine handleRuCommandLine_only _ fun _ first rest hwords hnames => ?_
      have hcore : ∀ sub ∈ [ascii "version", ascii "reload"], ∀ first rest,
          splitWS (ascii "ru " ++ sub) = first :: rest → ruNamesFleet rest = false := by
        simp only [List.forall_mem_cons]
        refine ⟨fun _ _ h => ?_, fun _ _ h => ?_, fun _ h => by cases h⟩
        · obtain ⟨-, rfl⟩ :=
            List.cons.inj (h.symm.trans (by decide : _ = [ascii "ru", ascii "version"]))
          decide
        · obtain ⟨-, rfl⟩ :=
            List.cons.inj (h.symm.trans (by decide : _ = [ascii "ru", ascii "reload"]))
          decide
      have hsub : sub ∈ [ascii "version", ascii "reload"] := by
        rw [coreConsoleAliasToRu] at halias
        split_ifs at halias
        · rw [← Option.some.inj halias]
          exact List.mem_cons_self
        · rw [← Option.some.inj halias]
          exact List.mem_cons_of_mem _ List.mem_cons_self
      rw [hcore sub hsub first rest hwords] at hnames
      cases hnames
    · have hru :
          QueuesOnly (fun _ r => IsFleetReg r → namesFleet line = true) s
            (s.handleRuCommandLine line).1 :=
        handleRuCommandLine_only line fun htoken _ _ hwords hnames =>
          namesFleet_of_ru hwords htoken hnames
      dsimp only
      split_ifs
      · exact hru.trans (direct_only line)
      · exact hru.trans (direct_only line)
      · exact hru

/-- Only a line with the words of the fleet plugin is queued for it. -/
theorem handleReadyUpConsoleCommandLine_only (line : Bytes) :
    QueuesOnly (fun _ r => IsFleetReg r → namesFleet line = true) s
      (s.handleReadyUpConsoleCommandLine line).1 := by
  rw [handleReadyUpConsoleCommandLine]
  refine QueuesOnly.trans (observeConsole_only ?_) (handleObserved_only line)
  intro first rest hwords r _ hkind hname c _ hfleet
  exact namesFleet_of_first (splitWS_trim line ▸ hwords) (hname ▸ hfleet.of_console hkind)

theorem enqueueServerCommand_oneLine {command : Bytes} (hne : command ≠ [])
    (hline : isOneLine command = true) :
    (s.enqueueServerCommand true command).1 = (s.handleReadyUpConsoleCommandLine command).1 := by
  have hbytes : ∀ c ∈ command, c ≠ byte '\n' ∧ c ≠ byte '\r' ∧ c ≠ 0 := by
    intro c hc
    simpa [isOneLine, not_or, and_assoc] using List.all_eq_true.mp hline c hc
  have htext : command.takeWhile (· ≠ 0) = command :=
    List.takeWhile_eq_self_iff.mpr fun c hc => decide_eq_true (hbytes c hc).2.2
  have hlast : command.getLast? ≠ some (byte '\n') :=
    fun h => (hbytes _ (List.mem_of_getLast? h)).1 rfl
  have hends : (command.any fun c => c == byte '\r' || c == byte '\n') = false := by
    rw [List.any_eq_false]
    intro c hc
    obtain ⟨hn, hr, -⟩ := hbytes c hc
    simp [hn, hr]
  have hready : ¬(command = [] ∨ true = false) := by simp [hne]
  simp only [enqueueServerCommand, htext, if_neg hready, if_neg hlast, List.dropLast_concat, hends]
  rfl

end Dispatched

end Host

end ReadyUp.Plugins
