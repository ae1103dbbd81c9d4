import ReadyUp.Support.Strto
import ReadyUp.Support.Words

/-!
# The commands of the core

What belongs to the core itself among the chat commands, the console commands and the `ru`
subcommands, and which of them every player may run.
-/
namespace ReadyUp.Plugins

open Support

section Text

def lower (s : Bytes) : Bytes := s.map toLower

def splitWS (s : Bytes) : List Bytes := words isSpace s

def trim (s : Bytes) : Bytes := trimBy isSpace s

theorem splitWS_trimBy {p : UInt8 → Bool} (hp : ∀ a, p a = true → isSpace a = true) (s : Bytes) :
    splitWS (trimBy p s) = splitWS s := by
  obtain ⟨e, he, hsep⟩ := dropWhile_eq_trimBy p s
  have hs : s = s.takeWhile p ++ (trimBy p s ++ e) := by rw [← he, List.takeWhile_append_dropWhile]
  conv_rhs => rw [hs]
  rw [splitWS, splitWS, words_append_of_sep fun a ha => hp a (List.mem_takeWhile_imp ha),
    words_append_sep fun a ha => hp a (hsep a ha)]

/-- A word, in the sense of `splitWS`. -/
def IsWord (w : Bytes) : Prop := w ≠ [] ∧ ∀ a ∈ w, isSpace a = false

instance (w : Bytes) : Decidable (IsWord w) :=
  decidable_of_iff (w ≠ [] ∧ w.all (fun a => !isSpace a) = true) (by simp [IsWord])

theorem splitWS_join {w : Bytes} {args : List Bytes} (hw : IsWord w)
    (hargs : ∀ v ∈ args, IsWord v) : splitWS (w ++ args.flatMap (byte ' ' :: ·)) = w :: args := by
  obtain ⟨hended, hwords⟩ := words_flatMap (b := byte ' ') (by decide) hargs
  rw [splitWS, words_append hw.1 hw.2 hended, hwords]

theorem lower_lower (w : Bytes) : lower (lower w) = lower w := by
  rw [lower, lower, List.map_map]
  exact List.map_congr_left fun c _ => toLower_toLower c

theorem IsWord.lower {w : Bytes} (h : IsWord w) : IsWord (lower w) := by
  refine ⟨fun hnil => h.1 (List.map_eq_nil_iff.mp hnil), List.forall_mem_map.mpr fun a ha => ?_⟩
  rw [isSpace_toLower]
  exact h.2 a ha

theorem isWord_of_mem {s w : Bytes} (h : w ∈ splitWS s) : IsWord w := mem_words h

theorem splitWS_trim (s : Bytes) : splitWS (trim s) = splitWS s := splitWS_trimBy (fun _ h => h) s

end Text

def isCoreRuSubcommand (sub : Bytes) : Bool :=
  [ascii "help", ascii "list", ascii "plugin", ascii "plugins", ascii "version", ascii "selftest",
    ascii "sigtest", ascii "reload", ascii "status_http", ascii "license"].contains sub

/-- `CoreChatAliasToRu`; none where there is no alias. -/
def coreChatAliasToRu (firstToken : Bytes) : Option Bytes :=
  if lower firstToken = ascii ".ruversion" ∨ lower firstToken = ascii ".version" then
    some (ascii "version")
  else if lower firstToken = ascii ".reload_config" then some (ascii "reload")
  else none

/-- `CoreConsoleAliasToRu`; none where there is no alias. -/
def coreConsoleAliasToRu (firstToken : Bytes) : Option Bytes :=
  if lower firstToken = ascii "ru_version" then some (ascii "version")
  else if lower firstToken = ascii "ru_reload_config" then some (ascii "reload")
  else none

def isCoreChatCommand (firstToken : Bytes) : Bool :=
  firstToken = ascii ".ru" || firstToken = ascii ".lang" || (coreChatAliasToRu firstToken).isSome

/-- `CoreRuSubHelpLines` has lines for these commands. -/
def hasCoreHelp (main : Bytes) : Bool :=
  [ascii "plugin", ascii "plugins", ascii "reload", ascii "selftest", ascii "version",
    ascii "license", ascii "help", ascii "list"].contains main

section Public

/-- `PublicPluginCommands`: the subcommands of a plugin that every player may run. -/
def publicPluginCommands : List (Bytes × List Bytes) :=
  [(ascii "dm", [ascii "top", ascii "status", ascii "hud"]),
    (ascii "deathmatch", [ascii "top", ascii "status", ascii "hud"])]

def findPublicPlugin (main : Bytes) : Option (List Bytes) := publicPluginCommands.lookup main

def ruCommandPublic : List Bytes → Bool
  | [] => true
  | main :: args =>
    if lower main = ascii "version" ∨ lower main = ascii "list" then true
    else if lower main = ascii "help" then
      match args with
      | [] => true
      | topic :: _ =>
        lower topic = ascii "version" || lower topic = ascii "list" || lower topic = ascii "help" ||
          (findPublicPlugin (lower topic)).isSome
    else
      match findPublicPlugin (lower main), args with
      | none, _ => false
      | some _, [] => true
      | some subs, sub :: _ => lower sub = ascii "help" || subs.contains (lower sub)

def ruCommandAllowed (words : List Bytes) (isAdmin : Bool) : Bool :=
  isAdmin || ruCommandPublic words

end Public

end ReadyUp.Plugins
