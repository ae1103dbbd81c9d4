import ReadyUp.Mapvote.Plugin
import ReadyUp.Support.Since

/-!
# What the log of the map votes says

What is asked of a vote is said about the log alone: who has a voice, which vote runs, what was
decided, and that the commands of the console and the admins are theirs. A log is lawful when each
sign in it may follow what was before.
-/
namespace ReadyUp.Mapvote

open Support

section History

def settingsOf : List Sign → Settings
  | [] => {}
  | .settings s :: _ => s
  | _ :: log => settingsOf log

/-- The map that is on, and since when. -/
def mapOf : List Sign → Bytes × ℚ
  | [] => ([], 0)
  | .mapStart map now :: _ => (map, now)
  | _ :: log => mapOf log

def wanting : List Sign → Finset ℕ
  | [] => ∅
  | .rtv who :: log => insert who (wanting log)
  | .unrtv who :: log => (wanting log).erase who
  | .left who :: log => (wanting log).erase who
  | .closed _ _ :: _ => ∅
  | .mapStart _ _ :: _ => ∅
  | _ :: log => wanting log

/-- The map that a player has nominated. -/
def nomineeOf (who : ℕ) : List Sign → Option Bytes
  | [] => none
  | .nominated p entry :: log => if who = p then some entry else nomineeOf who log
  | .left p :: log => if who = p then none else nomineeOf who log
  | .closed _ option :: log => if option = [] then nomineeOf who log else none
  | .mapStart _ _ :: _ => none
  | _ :: log => nomineeOf who log

/-- The options of the vote that runs. -/
def ballotOf : List Sign → Option (List Bytes)
  | [] => none
  | .opened _ _ options :: _ => some options
  | .closed _ _ :: _ => none
  | .dropped :: _ => none
  | .cancelled _ :: _ => none
  | .mapStart _ _ :: _ => none
  | _ :: log => ballotOf log

/-- The last vote of a player in the vote that runs. -/
def choice (who : ℕ) : List Sign → Option ℕ
  | [] => none
  | .voted p i :: log => if who = p then some i else choice who log
  | .left p :: log => if who = p then none else choice who log
  | .opened _ _ _ :: _ => none
  | .closed _ _ :: _ => none
  | .dropped :: _ => none
  | .cancelled _ :: _ => none
  | .mapStart _ _ :: _ => none
  | _ :: log => choice who log

def voters : List Sign → Finset ℕ
  | [] => ∅
  | .voted who _ :: log => insert who (voters log)
  | _ :: log => voters log

/-- Those whose vote is for the option. -/
def supporters (i : ℕ) (log : List Sign) : Finset ℕ :=
  (voters log).filter fun who => choice who log = some i

def decided : List Sign → Option Bytes
  | [] => none
  | .closed _ option :: log => if option = [] then decided log else some option
  | .changed _ map :: _ => some map
  | .cancelled _ :: _ => none
  | .mapStart _ _ :: _ => none
  | _ :: log => decided log

def picked : List Sign → Bool
  | [] => false
  | .closed _ option :: _ => option ≠ []
  | .changed _ _ :: _ => true
  | .cancelled _ :: _ => false
  | .mapStart _ _ :: _ => false
  | _ :: log => picked log

def extensions : List Sign → ℕ
  | [] => 0
  | .closed _ option :: log => if option = [] then extensions log + 1 else extensions log
  | .mapStart _ _ :: _ => 0
  | _ :: log => extensions log

def Sign.giver : Sign → Option Caller
  | .started who => some who
  | .cancelled who => some who
  | .changed who _ => some who
  | _ => none

/-- What must have happened for a vote. -/
def Asked (c : Scene) (log : List Sign) : Why → Prop
  | .rtv => rtvNeeded c.humans (settingsOf log).rtvRatio ≤ (wanting log).card ∧
      (settingsOf log).rtvMinPlayers ≤ c.humans
  | .admin => ∃ who before, log = .started who :: before ∧ who.admin = true
  | .endOfMap =>
    0 < c.humans ∧ picked log = false ∧
      ∃ left, secondsLeft (settingsOf log) (mapOf log).2 (extensions log) c.now = some left ∧
        left ≤ (settingsOf log).voteBeforeEndSeconds

structure Opened (c : Scene) (why : Why) (options : List Bytes) (log : List Sign) : Prop where
  allowed : c.matchOwnsMap = false ∧ (settingsOf log).enabled = true
  free : ballotOf log = none
  asked : Asked c log why
  numbered : options ≠ [] ∧ options.length ≤ 9
  distinct : (options.map lower).Nodup
  known : ∀ e ∈ options, e ≠ [] →
    (e ∈ (settingsOf log).maps ∨ ∃ who, nomineeOf who log = some e) ∧
    isCurrent (mapOf log).1 e = false
  extension : [] ∈ options → why = .endOfMap ∧ (extensions log : ℤ) < (settingsOf log).maxExtends

/-- An option of the vote that runs, for which no fewer voted than for any other; to extend the map
somebody must have voted, or there is nothing else. -/
def Elected (w : ℕ) (option : Bytes) (log : List Sign) : Prop :=
  ∃ options, ballotOf log = some options ∧ options[w]? = some option ∧
    (∀ i, (supporters i log).card ≤ (supporters w log).card) ∧
      (option = [] → (supporters w log).Nonempty ∨ options = [[]])

/-- The last decision, when no match owns the map and no vote runs; nobody but the console and the
admins changed or cancelled anything. -/
structure Decided (c : Scene) (map : Bytes) (log : List Sign) : Prop where
  last : decided log = some map ∧ map ≠ []
  allowed : c.matchOwnsMap = false ∧ (settingsOf log).enabled = true
  free : ballotOf log = none
  given : ∀ sign ∈ log, ∀ who ∈ sign.giver, who.admin = true

/-- What holds of a sign, with what was before it. -/
def Sign.Lawful : Sign → List Sign → Prop
  | .settings s, _ => s.Valid
  | .started who, _ => who.admin = true
  | .cancelled who, _ => who.admin = true
  | .changed who _, _ => who.admin = true
  | .opened c why options, log => Opened c why options log
  | .closed w option, log => Elected w option log
  | .loaded c map, log => Decided c map log
  | _, _ => True

end History

structure Vote.Sound (v : Vote) : Prop where
  nonempty : v.options ≠ []
  extend : ∀ i, v.extendIndex = some i ↔ v.options[i]? = some []
  range : ∀ who i, v.votes.lookup who = some i → i < v.options.length

def LawfulLog (log : List Sign) : Prop :=
  ∀ sign before, (sign :: before) <:+ log → sign.Lawful before

theorem lawful_nil : LawfulLog [] := by
  intro sign before h
  simp at h

theorem LawfulLog.cons {sign : Sign} {log : List Sign} (h : LawfulLog log)
    (hsign : sign.Lawful log) : LawfulLog (sign :: log) :=
  forall_suffix_cons (P := fun before (sign : Sign) => sign.Lawful before) h hsign

theorem LawfulLog.tail {sign : Sign} {log : List Sign} (h : LawfulLog (sign :: log)) :
    LawfulLog log :=
  fun sign' before hbefore => h sign' before (hbefore.trans (List.suffix_cons sign log))

theorem LawfulLog.head {sign : Sign} {log : List Sign} (h : LawfulLog (sign :: log)) :
    sign.Lawful log :=
  h sign log (List.suffix_refl _)

/-- The commands in a lawful log are those of the console and the admins. -/
theorem LawfulLog.given {log : List Sign} (h : LawfulLog log) :
    ∀ sign ∈ log, ∀ who ∈ sign.giver, who.admin = true := by
  intro sign hsign who hwho
  obtain ⟨later, before, rfl⟩ := List.append_of_mem hsign
  have hlawful : sign.Lawful before := h sign before (List.suffix_append later _)
  cases sign with
  | started _ | cancelled _ | changed _ _ =>
    cases hwho
    exact hlawful
  | _ => cases hwho

section Voices

variable {log : List Sign} {who i : ℕ}

theorem mem_voters_of_choice (h : choice who log = some i) : who ∈ voters log := by
  induction log with
  | nil => cases h
  | cons sign log ih =>
    cases sign with
    | voted p j =>
      simp only [choice] at h
      simp only [voters, Finset.mem_insert]
      split_ifs at h with hwho
      · exact .inl hwho
      · exact .inr (ih h)
    | left p =>
      simp only [choice] at h
      split_ifs at h with hwho
      exact ih h
    | opened c why options => cases h
    | closed w option => cases h
    | dropped => cases h
    | cancelled who => cases h
    | mapStart map now => cases h
    | _ => exact ih h

theorem mem_supporters : who ∈ supporters i log ↔ choice who log = some i := by
  simp only [supporters, Finset.mem_filter, and_iff_right_iff_imp]
  exact mem_voters_of_choice

/-- The votes for an option are counted once for each of those who gave them. -/
theorem count_votes {votes : Table ℕ ℕ} (h : ∀ who, votes.lookup who = choice who log) (i : ℕ) :
    (votes.entries.map (·.2)).count i = (supporters i log).card := by
  have hnodup : ((votes.entries.filter fun e => e.2 = i).map (·.1)).Nodup :=
    (List.filter_sublist.map Sigma.fst).nodup votes.nodupKeys
  have hset : ((votes.entries.filter fun e => e.2 = i).map (·.1)).toFinset = supporters i log := by
    ext who
    rw [mem_supporters, ← h who, ← Option.mem_def, AList.mem_lookup_iff]
    simp only [List.mem_toFinset, List.mem_map, List.mem_filter, decide_eq_true_eq]
    constructor
    · rintro ⟨⟨p, j⟩, ⟨hmem, rfl⟩, rfl⟩
      exact hmem
    · exact fun hmem => ⟨⟨who, i⟩, ⟨hmem, rfl⟩, rfl⟩
  rw [← hset, List.toFinset_card_of_nodup hnodup, List.length_map, List.count_eq_countP,
    List.countP_map, List.countP_eq_length_filter]
  rfl

end Voices

section Extensions

theorem LawfulLog.valid {log : List Sign} (h : LawfulLog log) : (settingsOf log).Valid := by
  induction log with
  | nil => exact valid_default
  | cons sign log ih =>
    cases sign with
    | settings s => exact h.head
    | _ => exact ih h.tail

/-- A vote on more time runs only while there is some left to give. -/
theorem LawfulLog.extensions_le {log : List Sign} (h : LawfulLog log) :
    extensions log ≤ 10 ∧ ∀ options, ballotOf log = some options → [] ∈ options →
      extensions log < 10 := by
  induction log with
  | nil => simp [extensions, ballotOf]
  | cons sign log ih =>
    obtain ⟨hle, hrunning⟩ := ih h.tail
    cases sign with
    | mapStart map now => simp [extensions, ballotOf]
    | opened c why options =>
      refine ⟨hle, fun options' hoptions hmem => ?_⟩
      cases hoptions
      have hallowed := (h.head.extension hmem).2
      have hmax := h.tail.valid.maxExtends.2
      simp only [extensions]
      omega
    | closed w option =>
      refine ⟨?_, fun options hoptions => by cases hoptions⟩
      obtain ⟨options, hballot, hoption, -⟩ := h.head
      simp only [extensions]
      split_ifs with hextend
      · have hmore := hrunning options hballot (hextend ▸ List.mem_of_getElem? hoption)
        omega
      · exact hle
    | dropped => exact ⟨hle, fun options hoptions => by cases hoptions⟩
    | cancelled who => exact ⟨hle, fun options hoptions => by cases hoptions⟩
    | _ => exact ⟨hle, hrunning⟩

end Extensions

end ReadyUp.Mapvote
