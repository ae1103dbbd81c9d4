import ReadyUp.Mapvote.History
import ReadyUp.Support.Runs

/-!
# Runs of the map votes

Over any run the log says what the state is and is lawful (`Kept`): a vote is started only for a
reason, its winner has the most voices of those who are there (`winner_elected`), and a map is
loaded only if it is the last decision (`loaded_decided`).
-/
namespace ReadyUp.Mapvote

open Support

namespace Plugin

variable {g : Plugin} {c : Scene} {v : Vote}

/-- The log says what the state is, and all that is in it is lawful. -/
structure Kept (g : Plugin) : Prop where
  valid : g.s.Valid
  settings : settingsOf g.log = g.s
  map : mapOf g.log = (g.currentMap, g.mapStartedAt)
  wanting : Mapvote.wanting g.log = g.rtv
  nodup : (keys g.nominations).Nodup
  nominees : ∀ who, g.nominations.lookup who = nomineeOf who g.log
  named : ∀ n ∈ g.nominations, n.2 ≠ []
  ballot : ballotOf g.log = g.vote.map (·.options)
  votes : ∀ v, g.vote = some v → v.Sound ∧ ∀ who, v.votes.lookup who = choice who g.log
  decided : (Mapvote.decided g.log).getD [] = g.nextMap
  picked : Mapvote.picked g.log = g.voted
  extended : extensions g.log = g.extended
  lawful : LawfulLog g.log

theorem kept_load (get : Bytes → Option Bytes) (currentMap : Bytes) (now : ℚ) :
    (load get currentMap now).Kept where
  valid := valid_loadedSettings get currentMap
  settings := rfl
  map := rfl
  wanting := rfl
  nodup := List.nodup_nil
  nominees _ := rfl
  named _ h := by cases h
  ballot := rfl
  votes _ h := by cases h
  decided := rfl
  picked := rfl
  extended := rfl
  lawful :=
    have hstart : LawfulLog [.mapStart currentMap now] := lawful_nil.cons trivial
    hstart.cons (valid_loadedSettings get currentMap)

theorem Kept.schedule (h : g.Kept) (t : ℚ) : ({ g with changeAt := t } : Plugin).Kept := { h with }

theorem Kept.wantRtv (h : g.Kept) (who : ℕ) : (g.wantRtv who).Kept :=
  { h with
    wanting := by simp only [Plugin.wantRtv, Mapvote.wanting, h.wanting]
    lawful := h.lawful.cons trivial }

theorem Kept.onUnrtv (h : g.Kept) (c : Scene) (who : ℕ) : (g.onUnrtv c who).Kept := by
  unfold Plugin.onUnrtv
  split_ifs
  · exact
      { h with
        wanting := by simp only [Mapvote.wanting, h.wanting]
        lawful := h.lawful.cons trivial }
  · exact h

theorem Kept.setNomination (h : g.Kept) (who : ℕ) {entry : Bytes} (hentry : entry ≠ []) :
    (g.setNomination who entry).Kept :=
  { h with
    nodup := nodup_keys_assign h.nodup who entry
    nominees := by
      intro p
      simp only [Plugin.setNomination, lookup_assign, nomineeOf, h.nominees]
    named := by
      intro n hn
      obtain rfl | hold := mem_assign hn
      · exact hentry
      · exact h.named n hold
    lawful := h.lawful.cons trivial }

theorem Kept.castVote (h : g.Kept) (hv : g.vote = some v) (who : ℕ) {i : ℕ}
    (hi : i < v.options.length) : (g.castVote v who i).Kept := by
  obtain ⟨hsound, hchoice⟩ := h.votes v hv
  have hlookup :
      ∀ p, (v.votes.insert who i).lookup p = if p = who then some i else v.votes.lookup p := by
    intro p
    split_ifs with hp
    · rw [hp, AList.lookup_insert]
    · exact AList.lookup_insert_ne hp
  exact
    { h with
      ballot := by simpa only [Plugin.castVote, ballotOf, hv, Option.map_some] using h.ballot
      votes := by
        intro v' hv'
        cases hv'
        refine ⟨⟨hsound.nonempty, hsound.extend, fun p j hj => ?_⟩, fun p => ?_⟩
        · rw [hlookup] at hj
          split_ifs at hj
          · cases hj
            exact hi
          · exact hsound.range p j hj
        · rw [hlookup, hchoice p]
          rfl
      lawful := h.lawful.cons trivial }

theorem Kept.dropped (h : g.Kept) :
    ({ g with vote := none, log := .dropped :: g.log } : Plugin).Kept :=
  { h with
    ballot := rfl
    votes := fun _ hv => by cases hv
    lawful := h.lawful.cons trivial }

theorem Kept.started (h : g.Kept) {who : Caller} (hwho : who.admin = true) : (g.started who).Kept :=
  { h with lawful := h.lawful.cons hwho }

theorem Kept.cancel (h : g.Kept) {who : Caller} (hwho : who.admin = true) : (g.cancel who).Kept :=
  { h with
    ballot := rfl
    votes := fun _ hv => by cases hv
    decided := rfl
    picked := rfl
    lawful := h.lawful.cons hwho }

theorem Kept.change (h : g.Kept) (c : Scene) {who : Caller} (hwho : who.admin = true)
    (entry : Bytes) : (g.change c who entry).Kept :=
  { h with
    decided := rfl
    picked := rfl
    lawful := h.lawful.cons hwho }

theorem Kept.reload (h : g.Kept) (get : Bytes → Option Bytes) : (g.reload get).Kept :=
  { h with
    valid := valid_loadedSettings get g.currentMap
    settings := rfl
    lawful := h.lawful.cons (valid_loadedSettings get g.currentMap) }

theorem Kept.onMapStart (h : g.Kept) (map : Bytes) (get : Bytes → Option Bytes) (now : ℚ) :
    (g.onMapStart map get now).Kept where
  valid := valid_loadedSettings get map
  settings := rfl
  map := rfl
  wanting := rfl
  nodup := List.nodup_nil
  nominees _ := rfl
  named _ hn := by cases hn
  ballot := rfl
  votes _ hv := by cases hv
  decided := rfl
  picked := rfl
  extended := rfl
  lawful :=
    have hstart : LawfulLog (.mapStart map now :: g.log) := h.lawful.cons trivial
    hstart.cons (valid_loadedSettings get map)

theorem Kept.leave (h : g.Kept) (who : ℕ) : (g.leave who).Kept :=
  { h with
    wanting := by simp only [Plugin.leave, Mapvote.wanting, h.wanting]
    nodup := nodup_keys_filter h.nodup _
    nominees := by
      intro p
      simp only [Plugin.leave, lookup_filter_ne, nomineeOf, h.nominees]
    named := fun n hn => h.named n (List.mem_of_mem_filter hn)
    ballot := by
      simp only [Plugin.leave, ballotOf, h.ballot]
      cases g.vote <;> rfl
    votes := by
      intro v' hv'
      obtain ⟨v, hv, rfl⟩ := Option.map_eq_some_iff.mp hv'
      obtain ⟨hsound, hchoice⟩ := h.votes v hv
      have hlookup :
          ∀ p, (v.votes.erase who).lookup p = if p = who then none else v.votes.lookup p := by
        intro p
        split_ifs with hp
        · rw [hp, AList.lookup_erase]
        · exact AList.lookup_erase_ne hp
      refine ⟨⟨hsound.nonempty, hsound.extend, fun p j hj => ?_⟩, fun p => ?_⟩
      · rw [hlookup] at hj
        split_ifs at hj
        exact hsound.range p j hj
      · rw [hlookup, hchoice p]
        rfl
    lawful := h.lawful.cons trivial }

theorem active_spec (h : g.active c = true) : g.s.enabled = true ∧ c.matchOwnsMap = false := by
  simp only [active, Bool.and_eq_true, Bool.not_eq_true'] at h
  exact ⟨h.1.1, h.2⟩

section Opening

variable {pick : ℕ → (n : ℕ) → Fin (n + 1)} {why : Why}

/-- The maps of a ballot are known, and none of them is on. -/
theorem Kept.ballot_spec (h : g.Kept) (pick : ℕ → (n : ℕ) → Fin (n + 1)) :
    (g.ballot pick).length ≤ 8 ∧ ((g.ballot pick).map lower).Nodup ∧ ∀ e ∈ g.ballot pick, e ≠ [] ∧
      (e ∈ g.s.maps ∨ ∃ who, nomineeOf who g.log = some e) ∧ isCurrent g.currentMap e = false := by
  obtain ⟨hlow, hhigh⟩ := h.valid.voteOptions
  obtain ⟨count, hcount⟩ := Int.eq_ofNat_of_zero_le (show 0 ≤ g.s.voteOptions by omega)
  unfold Plugin.ballot
  rw [hcount]
  have hsub := @buildBallot_subperm g.s.maps (g.nominations.map (·.2)) g.currentMap
    (g.recent.take g.s.recentMapsExcluded.toNat) count pick h.valid.distinct
  refine ⟨?_, ?_, fun e he => ?_⟩
  · rw [length_buildBallot h.valid.distinct]
    omega
  · obtain ⟨l, hperm, hl⟩ := hsub
    exact (hperm.map lower).nodup_iff.mp ((nodup_eligible h.valid.distinct).sublist (hl.map lower))
  · have hmem := hsub.subset he
    refine ⟨?_, ?_, isCurrent_eligible hmem⟩
    all_goals
      obtain hnominee | hdrawn := List.mem_append.mp hmem
      · obtain ⟨n, hn, rfl⟩ :=
          List.mem_map.mp (List.mem_of_mem_filter ((firsts_sublist lower [] _).subset hnominee))
        first
          | exact h.named n hn
          | exact .inr ⟨n.1, (h.nominees n.1).symm.trans (lookup_of_mem h.nodup hn)⟩
      · have hpool := List.mem_of_mem_filter hdrawn
        first
          | exact h.valid.named e hpool
          | exact .inl hpool

theorem Kept.openVote (h : g.Kept) {options : List Bytes} {extendIndex : Option ℕ}
    (hextend : ∀ i, extendIndex = some i ↔ options[i]? = some [])
    (hopened : Opened c why options g.log) : (g.openVote c why options extendIndex).Kept :=
  { h with
    ballot := rfl
    votes := by
      intro v hv
      cases hv
      exact ⟨⟨hopened.numbered.1, hextend, fun who i hi => by simp at hi⟩, fun who => rfl⟩
    lawful := h.lawful.cons hopened }

/-- The extension is the last option. -/
theorem extension_iff {l : List Bytes} (h : [] ∉ l) (i : ℕ) :
    some l.length = some i ↔ (l ++ [[]])[i]? = some [] := by
  rw [List.getElem?_append]
  split_ifs with hi
  · constructor
    · intro heq
      cases heq
      omega
    · intro heq
      exact absurd (List.mem_of_getElem? heq) h
  · rw [List.getElem?_singleton]
    constructor
    · intro heq
      cases heq
      simp
    · intro heq
      have hzero : i - l.length = 0 := by
        by_contra hne
        rw [if_neg hne] at heq
        cases heq
      rw [show i = l.length by omega]

theorem no_extension_iff {l : List Bytes} (h : [] ∉ l) (i : ℕ) : none = some i ↔ l[i]? = some [] := by
  constructor
  · intro heq
    cases heq
  · intro heq
    exact absurd (List.mem_of_getElem? heq) h

theorem nodup_with_extension {l : List Bytes} (h : [] ∉ l) (hl : (l.map lower).Nodup) :
    ((l ++ [[]]).map lower).Nodup := by
  rw [List.map_append, List.nodup_append']
  refine ⟨hl, by simp, ?_⟩
  intro k hk hk'
  obtain ⟨e, he, rfl⟩ := List.mem_map.mp hk
  have hempty : e = [] := by simpa [lower] using hk'
  exact h (hempty ▸ he)

theorem Kept.startVote (h : g.Kept) (hactive : g.active c = true) (hfree : g.vote = none)
    (hasked : Asked c g.log why) : (g.startVote c pick why).Kept := by
  obtain ⟨hlength, hdistinct, hknown⟩ := h.ballot_spec pick
  obtain ⟨henabled, howned⟩ := active_spec hactive
  have hnamed : [] ∉ g.ballot pick := fun hmem => (hknown [] hmem).1 rfl
  have hallowed : c.matchOwnsMap = false ∧ (settingsOf g.log).enabled = true :=
    ⟨howned, by rw [h.settings, henabled]⟩
  have hballot : ballotOf g.log = none := by rw [h.ballot, hfree, Option.map_none]
  have hmaps :
      ∀ e ∈ g.ballot pick, (e ∈ (settingsOf g.log).maps ∨ ∃ who, nomineeOf who g.log = some e) ∧
        isCurrent (mapOf g.log).1 e = false := by
    intro e he
    rw [h.settings, h.map]
    exact (hknown e he).2
  unfold Plugin.startVote
  dsimp only
  split_ifs with hextend hnone
  · simp only [extendAllowed, Bool.and_eq_true, decide_eq_true_eq] at hextend
    refine h.openVote (extension_iff hnamed) ⟨hallowed, hballot, hasked, ⟨by simp, ?_⟩,
      nodup_with_extension hnamed hdistinct, ?_, ?_⟩
    · simp only [List.length_append, List.length_cons, List.length_nil]
      omega
    · intro e he hne
      refine hmaps e ((List.mem_append.mp he).resolve_right fun hlast => hne ?_)
      simpa using hlast
    · intro _
      rw [h.settings, h.extended]
      exact ⟨hextend.1.1, hextend.2⟩
  · exact { h with ballot := hballot, votes := fun _ hv => by cases hv }
  · exact h.openVote (no_extension_iff hnamed) ⟨hallowed, hballot, hasked, ⟨hnone, by omega⟩,
      hdistinct, fun e he _ => hmaps e he, fun hmem => absurd hmem hnamed⟩

theorem Kept.tryRtv (h : g.Kept) (hactive : g.active c = true) : (g.tryRtv c pick).Kept := by
  unfold Plugin.tryRtv
  split_ifs with hready
  · refine h.startVote hactive (Option.isNone_iff_eq_none.mp hready.2.2) ⟨?_, ?_⟩
    · rw [h.settings, h.wanting]
      exact hready.1
    · rw [h.settings]
      exact hready.2.1
  · exact h

end Opening

section Closing

theorem Kept.elected (h : g.Kept) (hv : g.vote = some v) {pick : (n : ℕ) → Fin (n + 1)} {w : ℕ}
    (hw : winner v.options.length (v.votes.entries.map (·.2)) v.extendIndex pick = some w) :
    Elected w (v.options.getD w []) g.log := by
  obtain ⟨hsound, hchoice⟩ := h.votes v hv
  have hrange : ∀ i ∈ v.extendIndex, i < v.options.length := by
    intro i hi
    obtain ⟨hlt, -⟩ := List.getElem?_eq_some_iff.mp ((hsound.extend i).mp hi)
    exact hlt
  obtain ⟨hlt, hmost, hext⟩ := winner_spec hrange hw
  have hoption : v.options[w]? = some (v.options.getD w []) := by
    simp [List.getD_eq_getElem?_getD, List.getElem?_eq_getElem hlt]
  refine ⟨v.options, by rw [h.ballot, hv, Option.map_some], hoption, fun i => ?_, fun hempty => ?_⟩
  · rw [← count_votes hchoice, ← count_votes hchoice]
    by_cases hi : i < v.options.length
    · exact hmost i hi
    · have hnone : (v.votes.entries.map (·.2)).count i = 0 := by
        rw [count_votes hchoice, Finset.card_eq_zero, Finset.eq_empty_iff_forall_notMem]
        intro who hwho
        rw [mem_supporters, ← hchoice who] at hwho
        exact hi (hsound.range who i hwho)
      omega
  · rw [hempty] at hoption
    obtain hpos | hone := hext ((hsound.extend w).mpr hoption)
    · rw [count_votes hchoice] at hpos
      exact .inl (Finset.card_pos.mp hpos)
    · obtain ⟨e, he⟩ := List.length_eq_one_iff.mp hone
      obtain rfl : w = 0 := by omega
      rw [he] at hoption
      cases hoption
      exact .inr he

theorem Kept.closeVote (h : g.Kept) {w : ℕ}
    (helected : Elected w (v.options.getD w []) g.log) (now : ℚ) : (g.closeVote v w now).Kept := by
  unfold Plugin.closeVote
  generalize v.options.getD w [] = option at helected
  dsimp only
  split_ifs with hextend
  all_goals
    constructor
    case valid => exact h.valid
    case settings => exact h.settings
    case map => exact h.map
    case wanting => rfl
    case ballot => rfl
    case votes => exact fun _ hv => by cases hv
    case lawful => exact h.lawful.cons helected
    case picked => simp [Mapvote.picked, hextend]
    case extended => simp [extensions, hextend, h.extended]
    case decided => simp [Mapvote.decided, hextend, h.decided]
    case nominees => simp [nomineeOf, hextend, h.nominees]
    case nodup => first | exact h.nodup | exact List.nodup_nil
    case named => first | exact h.named | exact fun _ hn => by cases hn

theorem Kept.finishVote (h : g.Kept) (hv : g.vote = some v)
    (pick : ℕ → (n : ℕ) → Fin (n + 1)) (now : ℚ) : (g.finishVote pick v now).Kept := by
  unfold Plugin.finishVote
  split
  · rename_i hnone
    have hcount : v.options.length ≠ 0 := by simpa using (h.votes v hv).1.nonempty
    exact absurd hnone (winner_ne_none hcount)
  · rename_i w hw
    exact h.closeVote (h.elected hv hw) now

end Closing

theorem Kept.changeMap (h : g.Kept) (hfree : g.vote = none) (c : Scene) : (g.changeMap c).Kept := by
  unfold Plugin.changeMap
  dsimp only
  split_ifs with hload
  · simp only [Bool.and_eq_true, decide_eq_true_eq] at hload
    obtain ⟨henabled, howned⟩ := active_spec hload.2
    have hdecided : Mapvote.decided g.log = some g.nextMap := by
      have hnext := h.decided
      cases hlast : Mapvote.decided g.log with
      | none =>
        rw [hlast] at hnext
        exact absurd hnext.symm hload.1
      | some map =>
        rw [hlast] at hnext
        exact congrArg some hnext
    have henabled : (settingsOf g.log).enabled = true := by rw [h.settings]; exact henabled
    have hballot : ballotOf g.log = none := by rw [h.ballot, hfree, Option.map_none]
    exact
      { h with
        lawful := h.lawful.cons ⟨⟨hdecided, hload.1⟩, ⟨howned, henabled⟩, hballot, h.lawful.given⟩ }
  · exact h.schedule 0

theorem Kept.endOfMap (h : g.Kept) (hactive : g.active c = true) (hfree : g.vote = none)
    (pick : ℕ → (n : ℕ) → Fin (n + 1)) {left : ℤ}
    (hleft : secondsLeft g.s g.mapStartedAt g.extended c.now = some left) :
    (g.endOfMap c pick left).Kept := by
  have hstart :
      (if !g.voted && left ≤ g.s.voteBeforeEndSeconds && 0 < c.humans then
        g.startVote c pick .endOfMap else g).Kept := by
    split_ifs with hlate
    · simp only [Bool.and_eq_true, Bool.not_eq_true', decide_eq_true_eq] at hlate
      refine h.startVote hactive hfree ⟨hlate.2, by rw [h.picked, hlate.1.1], left, ?_, ?_⟩
      · rw [h.settings, h.map, h.extended]
        exact hleft
      · rw [h.settings]
        exact hlate.1.2
    · exact h
  have hend : ∀ g' : Plugin, g'.Kept →
      (if left = 0 ∧ g'.voted ∧ g'.nextMap ≠ [] ∧ g'.changeAt = 0 then
        { g' with changeAt := c.now + 3 } else g').Kept := by
    intro g' h'
    split_ifs
    · exact h'.schedule _
    · exact h'
  exact hend _ hstart

section Run

theorem Kept.onRtv (h : g.Kept) (c : Scene) (pick : ℕ → (n : ℕ) → Fin (n + 1)) (who : ℕ) :
    (g.onRtv c pick who).Kept := by
  unfold Plugin.onRtv
  split_ifs with hactive
  case neg =>
    simp only [Bool.or_eq_true, Bool.not_eq_true', decide_eq_true_eq, not_or,
      Bool.not_eq_false] at hactive
    exact (h.wantRtv who).tryRtv hactive.1
  all_goals exact h

theorem Kept.onNominate (h : g.Kept) (c : Scene) (who : ℕ) (args : List Bytes) :
    (g.onNominate c who args).Kept := by
  unfold Plugin.onNominate
  split_ifs
  · exact h
  · split
    · exact h
    · rename_i entry hentry
      split_ifs
      · exact h
      · exact h
      · exact h.setNomination who (h.valid.named entry (findMap_mem hentry))

theorem Kept.onVoteNumber (h : g.Kept) (who n : ℕ) : (g.onVoteNumber who n).Kept := by
  unfold Plugin.onVoteNumber
  split
  · exact h
  · rename_i v hv
    split_ifs with hrange
    · exact h
    · simp only [Bool.or_eq_true, decide_eq_true_eq, not_or] at hrange
      exact h.castVote hv who (by omega)

theorem Kept.onRu (h : g.Kept) (c : Scene) (pick : ℕ → (n : ℕ) → Fin (n + 1)) (who : Caller)
    (command : RuCommand) : (g.onRu c pick who command).Kept := by
  cases command with
  | reload get =>
    simp only [Plugin.onRu]
    split_ifs
    · exact h.reload get
    · exact h
  | start =>
    simp only [Plugin.onRu]
    split_ifs with hfree
    · exact h
    · simp only [Bool.or_eq_true, Bool.not_eq_true', not_or, Bool.not_eq_false] at hfree
      obtain ⟨⟨hadmin, hactive⟩, hvote⟩ := hfree
      exact (h.started hadmin).startVote hactive (show g.vote = none by simpa using hvote)
        ⟨who, g.log, rfl, hadmin⟩
  | cancel =>
    simp only [Plugin.onRu]
    split_ifs with hnothing
    · exact h
    · simp only [Bool.or_eq_true, Bool.not_eq_true', not_or, Bool.not_eq_false] at hnothing
      exact h.cancel hnothing.1
  | change arg =>
    simp only [Plugin.onRu]
    split_ifs with hadmin
    · exact h.change c hadmin _
    · exact h

theorem Kept.onTick (h : g.Kept) (c : Scene) (pick : ℕ → (n : ℕ) → Fin (n + 1)) :
    (g.onTick c pick).Kept := by
  unfold Plugin.onTick
  split
  · rename_i v hv
    split_ifs
    · exact h.dropped
    · exact h.finishVote hv pick c.now
    · exact h
  · rename_i hfree
    split_ifs with hdue hactive
    · exact h.changeMap hfree c
    · exact h
    · split
      · exact h
      · rename_i left hleft
        exact h.endOfMap (by simpa using hactive) hfree pick hleft

theorem Kept.onDisconnect (h : g.Kept) (c : Scene) (pick : ℕ → (n : ℕ) → Fin (n + 1)) (who : ℕ) :
    (g.onDisconnect c pick who).Kept := by
  unfold Plugin.onDisconnect
  dsimp only
  split_ifs with hactive
  · simp only [Bool.and_eq_true] at hactive
    exact (h.leave who).tryRtv hactive.1.1
  · exact h.leave who

theorem Kept.step (h : g.Kept) (e : Event) : (g.step e).Kept := by
  cases e with
  | rtv c pick who => exact h.onRtv c pick who
  | unrtv c who => exact h.onUnrtv c who
  | nominate c who args => exact h.onNominate c who args
  | number who n => exact h.onVoteNumber who n
  | ru c pick who command => exact h.onRu c pick who command
  | mapStart map get now => exact h.onMapStart map get now
  | tick c pick => exact h.onTick c pick
  | disconnect c pick who => exact h.onDisconnect c pick who

theorem kept_run (get : Bytes → Option Bytes) (map : Bytes) (now : ℚ) (es : List Event) :
    (run step (load get map now) es).Kept :=
  run_invariant (kept_load get map now) fun e _ _ h => h.step e

variable {get : Bytes → Option Bytes} {map : Bytes} {now : ℚ} {es : List Event} {before : List Sign}

/-- A vote is started only while none runs and no match owns the map: by an admin's command, by
enough of those who want another map, or when the time of the map runs out without a decision. Every
option has a number that can be typed, none is there twice or is on, and the map can be extended
only as often as the settings allow. -/
theorem vote_opened {c : Scene} {why : Why} {options : List Bytes}
    (h : (.opened c why options :: before) <:+ (run step (load get map now) es).log) :
    Opened c why options before :=
  (kept_run get map now es).lawful _ _ h

def twoMaps (key : Bytes) : Option Bytes := if key = ascii "maps" then some (ascii "a,b") else none

def quiet (now : ℚ) : Scene where
  matchOwnsMap := false
  humans := 1
  now := now

def console : Caller where
  isConsole := true
  isAdmin := false

theorem vote_opened_admin :
    Opened (quiet 1) .admin [ascii "a", ascii "b"]
      (.started console :: (load twoMaps (ascii "x") 0).log) :=
  @vote_opened twoMaps (ascii "x") 0 [.ru (quiet 1) (fun _ _ => 0) console .start] _ _ _ _
    (List.suffix_refl _)

/-- The winner of a vote has the most voices of those who are there. -/
theorem winner_elected {w : ℕ} {option : Bytes}
    (h : (.closed w option :: before) <:+ (run step (load get map now) es).log) :
    Elected w option before :=
  (kept_run get map now es).lawful _ _ h

theorem winner_elected_one :
    Elected 1 (ascii "b")
      (.voted 7 1 :: .opened (quiet 1) .admin [ascii "a", ascii "b"] :: .started console ::
        (load twoMaps (ascii "x") 0).log) := by
  have hvoted :
      run step (load twoMaps (ascii "x") 0)
        [.ru (quiet 1) (fun _ _ => 0) console .start, .number 7 2] =
      (((load twoMaps (ascii "x") 0).started console).openVote (quiet 1) .admin
        [ascii "a", ascii "b"] none).onVoteNumber 7 2 := rfl
  have hend : (1 + ((20 : ℤ) : ℚ)) ≤ 30 := by norm_num
  have hlog :
      (run step (load twoMaps (ascii "x") 0)
        ([.ru (quiet 1) (fun _ _ => 0) console .start, .number 7 2] ++
          [.tick (quiet 30) fun _ _ => 0])).log =
        .closed 1 (ascii "b") :: .voted 7 1 ::
          .opened (quiet 1) .admin [ascii "a", ascii "b"] :: .started console ::
            (load twoMaps (ascii "x") 0).log := by
    rw [run_append, hvoted]
    exact congrArg Plugin.log (if_pos hend)
  exact winner_elected ⟨[], hlog.symm⟩

/-- A map is loaded only if it is the last decision since the map started, of a vote or of an admin,
while no vote runs and no match owns the map. -/
theorem loaded_decided {c : Scene} {next : Bytes}
    (h : (.loaded c next :: before) <:+ (run step (load get map now) es).log) :
    Decided c next before :=
  (kept_run get map now es).lawful _ _ h

theorem loaded_decided_change :
    Decided (quiet 9) (ascii "b")
      (.changed console (ascii "b") :: (load twoMaps (ascii "x") 0).log) := by
  have hdue : (0 : ℚ) < 1 + 3 ∧ (1 + 3 : ℚ) ≤ 9 := by norm_num
  have hlog :
      (run step (load twoMaps (ascii "x") 0)
        [.ru (quiet 1) (fun _ _ => 0) console (.change (ascii "B")),
          .tick (quiet 9) fun _ _ => 0]).log =
        .loaded (quiet 9) (ascii "b") :: .changed console (ascii "b") ::
          (load twoMaps (ascii "x") 0).log := congrArg Plugin.log (if_pos hdue)
  exact loaded_decided ⟨[], hlog.symm⟩

end Run

end Plugin

/-- No map is extended more than ten times, whatever the file says and however the votes go. -/
theorem extended_le_ten (get : Bytes → Option Bytes) (map : Bytes) (now : ℚ) (es : List Event) :
    extensions (run Plugin.step (Plugin.load get map now) es).log ≤ 10 :=
  (Plugin.kept_run get map now es).lawful.extensions_le.1

end ReadyUp.Mapvote
