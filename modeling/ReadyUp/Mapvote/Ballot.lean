import ReadyUp.Support.Draws
import ReadyUp.Support.Strto

/-!
# The ballot of a map vote

`buildBallot` takes the nominations first and fills the ballot with random maps of the pool. Maps
that were played recently are left out of the draw, unless the ballot would stay short: then they
are put beside the others, and one of them can be drawn while one of the others is not. Everything
else that is asked of a ballot holds for every draw; that holds exactly when there are enough maps
without the recent ones, none at all, or not enough with them (`lawful_iff`).
-/
namespace ReadyUp.Mapvote

open Support

section Code

def lower (s : Bytes) : Bytes := s.map toLower

def mapDisplayName (entry : Bytes) : Bytes :=
  if (ascii "workshop/").isPrefixOf entry then
    let rest := entry.drop 9
    match rest.findIdx? (· == byte '/') with
    | some slash =>
      if slash + 1 < rest.length then rest.drop (slash + 1) else ascii "workshop " ++ rest
    | none => ascii "workshop " ++ rest
  else entry

/-- The names of an entry, without case. -/
def names (entry : Bytes) : List Bytes := [lower entry, lower (mapDisplayName entry)]

def isCurrent (currentMap e : Bytes) : Bool := lower currentMap ≠ [] && lower currentMap ∈ names e

/-- The maps taken so far, and their names without case. -/
structure Picked where
  out : List Bytes
  used : List Bytes

def nominate (currentMap : Bytes) (count : ℤ) (p : Picked) : List Bytes → Picked
  | [] => p
  | n :: rest =>
    if count ≤ p.out.length then p
    else if isCurrent currentMap n ∨ lower n ∈ p.used then nominate currentMap count p rest
    else nominate currentMap count { out := p.out ++ [n], used := lower n :: p.used } rest

def recentSet (recent : List Bytes) : List Bytes := recent.flatMap names

def isRecent (recent : List Bytes) (e : Bytes) : Bool := (names e).any (· ∈ recentSet recent)

/-- The loop over the pool when the ballot would stay short. -/
def comeBack (currentMap : Bytes) (used rest : List Bytes) : List Bytes → List Bytes
  | [] => rest
  | e :: pool =>
    if isCurrent currentMap e ∨ lower e ∈ used ∨ e ∈ rest then comeBack currentMap used rest pool
    else comeBack currentMap used (rest ++ [e]) pool

/-- The loop of the draws, for the maps that are left. -/
def fill (pick : ℕ → (n : ℕ) → Fin (n + 1)) (count : ℤ) : ℕ → List Bytes → List Bytes → List Bytes
  | 0, out, _ => out
  | _ + 1, out, [] => out
  | rounds + 1, out, e :: rest =>
    if count ≤ out.length then out
    else
      let i := pick out.length rest.length
      fill pick count rounds (out ++ [(e :: rest).get i]) ((e :: rest).eraseIdx i)

/-- `BuildBallot`. Every call of the random numbers adds a map, so the maps on the ballot count the
calls. -/
def buildBallot (pool nominations : List Bytes) (currentMap : Bytes)
    (recent : List Bytes) (count : ℤ) (pick : ℕ → (n : ℕ) → Fin (n + 1)) : List Bytes :=
  let p := nominate currentMap count { out := [], used := [] } nominations
  let fresh :=
    pool.filter fun e => !(isCurrent currentMap e || lower e ∈ p.used || isRecent recent e)
  let rest :=
    if (p.out.length + fresh.length : ℕ) < count then
      comeBack currentMap p.used fresh pool
    else fresh
  fill pick count rest.length p.out rest

end Code

section Spec

variable (pool nominations : List Bytes) (currentMap : Bytes) (recent : List Bytes) (count : ℤ)

/-- The nominations that count, each map once. -/
def nominees : List Bytes := firsts lower [] (nominations.filter fun n => !isCurrent currentMap n)

/-- The maps of the pool that can be drawn. -/
def drawable : List Bytes :=
  pool.filter fun e =>
    !isCurrent currentMap e && !decide (lower e ∈ (nominees nominations currentMap).map lower)

/-- Those that were not played recently. -/
def fresh : List Bytes := (drawable pool nominations currentMap).filter fun e => !isRecent recent e

def again : List Bytes := (drawable pool nominations currentMap).filter fun e => isRecent recent e

def eligible : List Bytes := nominees nominations currentMap ++ drawable pool nominations currentMap

structure Lawful (ballot : List Bytes) : Prop where
  distinct : (ballot.map lower).Nodup
  length_eq : (ballot.length : ℤ) = min count (eligible pool nominations currentMap).length
  notCurrent : currentMap ≠ [] → ∀ e ∈ ballot, lower currentMap ∉ names e
  nominated_first : ∃ drawn, ballot = (nominees nominations currentMap).take count.toNat ++ drawn ∧
    ∀ e ∈ drawn, e ∈ drawable pool nominations currentMap
  recent_last : ∀ e ∈ ballot, e ∈ again pool nominations currentMap recent →
    ∀ f ∈ eligible pool nominations currentMap, isRecent recent f = false → f ∈ ballot

/-- The maps that were not played recently are enough, there are none of them, or all maps together
are not too many. -/
def Settled : Prop :=
  count ≤ (nominees nominations currentMap).length +
    (fresh pool nominations currentMap recent).length ∨
    fresh pool nominations currentMap recent = [] ∨
    (nominees nominations currentMap).length + (fresh pool nominations currentMap recent).length +
      (again pool nominations currentMap recent).length ≤ count

end Spec

section Loops

variable {currentMap : Bytes} {count : ℕ} {pick : ℕ → (n : ℕ) → Fin (n + 1)}

/-- The loop takes the first nominations that count, as many as there is room for. -/
theorem nominate_spec (p : Picked) (ns : List Bytes) :
    ∃ taken, taken = (firsts lower p.used (ns.filter fun n => !isCurrent currentMap n)).take
      (count - p.out.length) ∧ (nominate currentMap count p ns).out = p.out ++ taken ∧
      ∀ k, k ∈ (nominate currentMap count p ns).used ↔ k ∈ p.used ∨ k ∈ taken.map lower := by
  induction ns generalizing p with
  | nil => exact ⟨[], by simp [firsts], by simp [nominate], by simp [nominate]⟩
  | cons n ns ih =>
    unfold nominate
    by_cases hfull : (count : ℤ) ≤ p.out.length
    · have hzero : count - p.out.length = 0 := by omega
      exact ⟨[], by simp [hzero], by simp [hfull], by simp [hfull]⟩
    · rw [if_neg hfull]
      by_cases hcur : isCurrent currentMap n = true
      · rw [if_pos (.inl hcur)]
        simpa [hcur] using ih p
      · have hcur := Bool.eq_false_iff.mpr hcur
        by_cases hused : lower n ∈ p.used
        · rw [if_pos (.inr hused)]
          simpa [hcur, firsts, hused] using ih p
        · obtain ⟨taken, htaken, hout, hkeys⟩ :=
            ih { out := p.out ++ [n], used := lower n :: p.used }
          have hroom : count - p.out.length = (count - (p.out.length + 1)) + 1 := by omega
          rw [if_neg (by simp [hcur, hused])]
          refine ⟨n :: taken, ?_, by simp [hout], ?_⟩
          · rw [htaken]
            simp [hcur, firsts, hused, hroom]
          · intro k
            rw [hkeys]
            simp only [List.mem_cons, List.map_cons]
            tauto

theorem fill_eq (out rest : List Bytes) (rounds : ℕ) (h : rest.length ≤ rounds) :
    fill pick count rounds out rest = out ++ draws pick (count - out.length) out.length rest := by
  induction rounds generalizing out rest with
  | zero =>
    obtain rfl : rest = [] := List.length_eq_zero_iff.mp (by omega)
    cases hn : count - out.length <;> simp [fill, draws]
  | succ rounds ih =>
    cases rest with
    | nil => cases hn : count - out.length <;> simp [fill, draws]
    | cons e rest =>
      unfold fill
      by_cases hfull : (count : ℤ) ≤ out.length
      · have hzero : count - out.length = 0 := by omega
        simp [hfull, hzero, draws]
      · have hroom : count - out.length = (count - (out.length + 1)) + 1 := by omega
        have hless : ((e :: rest).eraseIdx (pick out.length rest.length)).length ≤ rounds := by
          rw [List.length_eraseIdx_of_lt (pick out.length rest.length).isLt]
          simp only [List.length_cons] at h ⊢
          omega
        simp only [if_neg hfull]
        rw [ih _ _ hless, hroom]
        simp [draws]

/-- In a pool without duplicates the maps that come back are those that are not there yet. -/
theorem comeBack_eq (currentMap : Bytes) (used rest : List Bytes) {pool : List Bytes}
    (h : pool.Nodup) : comeBack currentMap used rest pool =
      rest ++ pool.filter fun e =>
        !(isCurrent currentMap e || decide (lower e ∈ used) || decide (e ∈ rest)) := by
  induction pool generalizing rest with
  | nil => simp [comeBack]
  | cons e pool ih =>
    obtain ⟨he, hpool⟩ := List.nodup_cons.mp h
    have hiff : (!(isCurrent currentMap e || decide (lower e ∈ used) || decide (e ∈ rest))) = true ↔
        ¬(isCurrent currentMap e = true ∨ lower e ∈ used ∨ e ∈ rest) := by simp [and_assoc]
    unfold comeBack
    by_cases hskip : isCurrent currentMap e ∨ lower e ∈ used ∨ e ∈ rest
    · rw [if_pos hskip, ih rest hpool, List.filter_cons, if_neg fun h => hiff.mp h hskip]
    · have hsame :
          pool.filter (fun f =>
            !(isCurrent currentMap f || decide (lower f ∈ used) || decide (f ∈ rest ++ [e]))) =
          pool.filter fun f =>
            !(isCurrent currentMap f || decide (lower f ∈ used) || decide (f ∈ rest)) := by
        apply List.filter_congr
        intro f hf
        have hne : f ≠ e := fun heq => he (heq ▸ hf)
        simp [hne]
      rw [if_neg hskip, ih _ hpool, hsame, List.filter_cons, if_pos (hiff.mpr hskip)]
      simp

end Loops

section Result

variable {pool nominations : List Bytes} {currentMap : Bytes} {recent : List Bytes} {count : ℕ}
  {pick : ℕ → (n : ℕ) → Fin (n + 1)}

theorem length_drawable (pool nominations : List Bytes) (currentMap : Bytes) (recent : List Bytes) :
    (fresh pool nominations currentMap recent).length +
      (again pool nominations currentMap recent).length =
      (drawable pool nominations currentMap).length := by
  have hparts :=
    List.length_eq_length_filter_add (l := drawable pool nominations currentMap) (isRecent recent)
  rw [hparts]
  exact Nat.add_comm _ _

def drawnFrom (pool nominations : List Bytes) (currentMap : Bytes) (recent : List Bytes)
    (count : ℕ) : List Bytes :=
  if (nominees nominations currentMap).length +
    (fresh pool nominations currentMap recent).length < count then
    fresh pool nominations currentMap recent ++ again pool nominations currentMap recent
  else fresh pool nominations currentMap recent

/-- The nominations come first, and what is missing is drawn. -/
theorem buildBallot_eq (hpool : (pool.map lower).Nodup) :
    buildBallot pool nominations currentMap recent count pick =
      (nominees nominations currentMap).take count ++
      draws pick (count - (nominees nominations currentMap).length)
        (nominees nominations currentMap).length
        (drawnFrom pool nominations currentMap recent count) := by
  obtain ⟨taken, htaken, hout, hused⟩ :=
    @nominate_spec currentMap count { out := [], used := [] } nominations
  have htake : taken = (nominees nominations currentMap).take count := htaken
  simp only [List.nil_append, List.not_mem_nil, false_or] at hout hused
  unfold buildBallot
  simp only
  rw [fill_eq _ _ _ le_rfl, hout, htake]
  by_cases hfull : count ≤ (nominees nominations currentMap).length
  · -- the nominations fill the ballot
    have hlength : ((nominees nominations currentMap).take count).length = count := by simp [hfull]
    have hzero : count - (nominees nominations currentMap).length = 0 := by omega
    simp [hlength, hzero, draws]
  · have hall : (nominees nominations currentMap).take count = nominees nominations currentMap :=
      List.take_of_length_le (by omega)
    rw [htake, hall] at hused
    have hfresh : (pool.filter fun e => !(isCurrent currentMap e ||
        decide (lower e ∈ (nominate currentMap count { out := [], used := [] } nominations).used) ||
        isRecent recent e)) =
        fresh pool nominations currentMap recent := by
      simp only [fresh, drawable, List.filter_filter, hused]
      apply List.filter_congr
      intro e _
      simp only [Bool.not_or, Bool.and_comm]
    have hagain :
        comeBack currentMap (nominate currentMap count { out := [], used := [] } nominations).used
        (fresh pool nominations currentMap recent) pool =
        fresh pool nominations currentMap recent ++ again pool nominations currentMap recent := by
      rw [comeBack_eq _ _ _ (List.Nodup.of_map _ hpool)]
      congr 1
      simp only [again, drawable, List.filter_filter, hused]
      apply List.filter_congr
      intro e he
      by_cases hdraw : e ∈ drawable pool nominations currentMap
      · have hmem : e ∈ fresh pool nominations currentMap recent ↔ isRecent recent e = false := by
          simp [fresh, hdraw]
        obtain ⟨-, hdraw⟩ := List.mem_filter.mp hdraw
        simp only [Bool.and_eq_true, Bool.not_eq_true', decide_eq_false_iff_not] at hdraw
        cases hrecent : isRecent recent e <;> simp [hdraw, hmem, hrecent]
      · have hnot :
            ¬(isCurrent currentMap e = false ∧
              lower e ∉ (nominees nominations currentMap).map lower) := by
          intro hboth
          exact hdraw (List.mem_filter.mpr ⟨he, by simpa using hboth⟩)
        cases hcur : isCurrent currentMap e with
        | true => simp
        | false =>
          have hin : lower e ∈ (nominees nominations currentMap).map lower := by
            by_contra hout
            exact hnot ⟨hcur, hout⟩
          simp [hin]
    simp only [hall, hfresh, hagain, drawnFrom, Nat.cast_lt]

theorem drawnFrom_sublist (pool nominations : List Bytes) (currentMap : Bytes) (recent : List Bytes)
    (count : ℕ) :
    (drawnFrom pool nominations currentMap recent count).Subperm
      (drawable pool nominations currentMap) := by
  unfold drawnFrom
  split_ifs
  · have hperm :=
      (List.filter_append_perm (isRecent recent) (drawable pool nominations currentMap)).symm
    exact (hperm.trans List.perm_append_comm).symm.subperm
  · exact List.filter_sublist.subperm

/-- Every map of the draw counts as one of the pool that is not nominated. -/
theorem mem_drawable_of_drawn {m k : ℕ} {e : Bytes}
    (h : e ∈ draws pick m k (drawnFrom pool nominations currentMap recent count)) :
    e ∈ drawable pool nominations currentMap :=
  (drawnFrom_sublist pool nominations currentMap recent count).subset (mem_of_mem_draws h)

theorem notMem_nominees {e : Bytes} (h : e ∈ drawable pool nominations currentMap) :
    lower e ∉ (nominees nominations currentMap).map lower := by
  have hkept := (List.mem_filter.mp h).2
  simp only [Bool.and_eq_true, Bool.not_eq_true', decide_eq_false_iff_not] at hkept
  exact hkept.2

theorem isCurrent_eligible {e : Bytes} (h : e ∈ eligible pool nominations currentMap) :
    isCurrent currentMap e = false := by
  rcases List.mem_append.mp h with hnominee | hdraw
  · have hkept := (firsts_sublist lower [] _).subset hnominee
    simpa using (List.mem_filter.mp hkept).2
  · have hkept := (List.mem_filter.mp hdraw).2
    simp only [Bool.and_eq_true, Bool.not_eq_true'] at hkept
    exact hkept.1

theorem nodup_eligible (hpool : (pool.map lower).Nodup) :
    ((eligible pool nominations currentMap).map lower).Nodup := by
  rw [eligible, List.map_append, List.nodup_append']
  refine ⟨nodup_map_firsts lower [] _, hpool.sublist (List.filter_sublist.map lower), ?_⟩
  intro k hk hk'
  obtain ⟨e, he, rfl⟩ := List.mem_map.mp hk'
  exact notMem_nominees he hk

/-- The ballot is a part of the eligible maps, whatever is drawn. -/
theorem buildBallot_subperm (hpool : (pool.map lower).Nodup) :
    (buildBallot pool nominations currentMap recent count pick).Subperm
      (eligible pool nominations currentMap) := by
  rw [buildBallot_eq hpool, eligible]
  apply List.Subperm.append
  · exact (List.take_sublist _ _).subperm
  · obtain ⟨left, hperm, -⟩ :=
      exists_perm_draws pick (count - (nominees nominations currentMap).length)
      (nominees nominations currentMap).length (drawnFrom pool nominations currentMap recent count)
    have hdrawn :=
      (List.sublist_append_left (draws pick (count - (nominees nominations currentMap).length)
      (nominees nominations currentMap).length (drawnFrom pool nominations currentMap recent count))
      left).subperm
    exact hdrawn.trans (hperm.subperm.trans (drawnFrom_sublist ..))

theorem length_buildBallot (hpool : (pool.map lower).Nodup) :
    (buildBallot pool nominations currentMap recent count pick).length =
      min count (eligible pool nominations currentMap).length := by
  have hparts := length_drawable pool nominations currentMap recent
  rw [buildBallot_eq hpool, List.length_append, length_draws, List.length_take, eligible,
    List.length_append, drawnFrom]
  split_ifs
  · rw [List.length_append]
    omega
  · omega

/-- A map that was played recently is drawn only when there is room for more than the others. -/
theorem recent_last (hpool : (pool.map lower).Nodup)
    (h : Settled pool nominations currentMap recent count) :
    ∀ e ∈ buildBallot pool nominations currentMap recent count pick, e ∈
      again pool nominations currentMap recent →
      ∀ f ∈ eligible pool nominations currentMap, isRecent recent f = false →
        f ∈ buildBallot pool nominations currentMap recent count pick := by
  intro e he hagain f hf hfresh
  obtain ⟨hdraw, hrecent⟩ := List.mem_filter.mp hagain
  have hparts := length_drawable pool nominations currentMap recent
  rw [buildBallot_eq hpool] at he ⊢
  have hdrawn : e ∈ draws pick (count - (nominees nominations currentMap).length)
      (nominees nominations currentMap).length
        (drawnFrom pool nominations currentMap recent count) := by
    refine (List.mem_append.mp he).resolve_left fun hnominee => notMem_nominees hdraw ?_
    exact List.mem_map_of_mem (List.mem_of_mem_take hnominee)
  have hshort :
      (nominees nominations currentMap).length +
        (fresh pool nominations currentMap recent).length < count := by
    by_contra hlong
    have hmem := mem_of_mem_draws hdrawn
    rw [drawnFrom, if_neg hlong] at hmem
    have hnot := (List.mem_filter.mp hmem).2
    simp [hrecent] at hnot
  rw [List.mem_append]
  rcases List.mem_append.mp hf with hnominee | hfdraw
  · exact .inl (by rwa [List.take_of_length_le (by omega)])
  · have hffresh : f ∈ fresh pool nominations currentMap recent :=
      List.mem_filter.mpr ⟨hfdraw, by simp [hfresh]⟩
    rcases h with henough | hnone | hall
    · omega
    · rw [hnone] at hffresh
      cases hffresh
    · right
      have hlength : (drawnFrom pool nominations currentMap recent count).length ≤
          count - (nominees nominations currentMap).length := by
        rw [drawnFrom, if_pos hshort, List.length_append]
        omega
      apply (draws_perm hlength pick _).symm.subset
      rw [drawnFrom, if_pos hshort]
      exact List.mem_append_left _ hffresh

theorem lawful_of_settled (hpool : (pool.map lower).Nodup)
    (h : Settled pool nominations currentMap recent count) :
    Lawful pool nominations currentMap recent count
      (buildBallot pool nominations currentMap recent count pick) where
  distinct := by
    obtain ⟨l, hperm, hsub⟩ :=
      @buildBallot_subperm pool nominations currentMap recent count pick hpool
    exact (hperm.map lower).nodup_iff.mp ((nodup_eligible hpool).sublist (hsub.map lower))
  length_eq := by rw [length_buildBallot hpool, Nat.cast_min]
  notCurrent := by
    intro hne e he hcur
    have hnot := isCurrent_eligible ((buildBallot_subperm hpool).subset he)
    have hlower : lower currentMap ≠ [] := by simpa [lower] using hne
    simp [isCurrent, hcur, hlower] at hnot
  nominated_first := ⟨_, buildBallot_eq hpool, fun e he => mem_drawable_of_drawn he⟩
  recent_last := recent_last hpool h

/-- The draw that takes the last map every time leaves out a map that was not played recently for
one that was. -/
theorem settled_of_lawful (hpool : (pool.map lower).Nodup)
    (h : Lawful pool nominations currentMap recent count
      (buildBallot pool nominations currentMap recent count fun _ n => Fin.last n)) :
    Settled pool nominations currentMap recent count := by
  by_contra hnot
  obtain ⟨hmany, hsome, hfew⟩ : ¬_ ∧ ¬_ ∧ ¬_ := by simpa only [Settled, not_or] using hnot
  obtain ⟨f, others, hf⟩ := List.exists_cons_of_ne_nil hsome
  have hagain : again pool nominations currentMap recent ≠ [] := by
    intro hnil
    rw [hnil] at hfew
    simp only [List.length_nil] at hfew
    omega
  -- the last map of the draw was played recently, the first one was not
  obtain ⟨before, e, he⟩ :=
    (List.eq_nil_or_concat (again pool nominations currentMap recent)).resolve_left hagain
  rw [List.concat_eq_append] at he
  have hfrom :
      drawnFrom pool nominations currentMap recent count = f :: (others ++ before ++ [e]) := by
    rw [drawnFrom, if_pos (by omega), hf, he]
    simp
  have hballot :=
    @buildBallot_eq pool nominations currentMap recent count (fun _ n => Fin.last n) hpool
  obtain ⟨m, hm⟩ : ∃ m, count - (nominees nominations currentMap).length = m + 1 :=
    Nat.exists_eq_succ_of_ne_zero (by omega)
  have hdrawn : draws (fun _ n => Fin.last n) (count - (nominees nominations currentMap).length)
      (nominees nominations currentMap).length
        (drawnFrom pool nominations currentMap recent count) =
      e :: ((others ++ before).reverse ++ [f]).take m := by
    rw [draws_last, hfrom, hm]
    simp [List.reverse_append]
  have hlength : m ≤ (others ++ before).length := by
    rw [hf, he] at hfew
    simp only [List.length_append, List.length_cons, List.length_nil] at hfew ⊢
    omega
  rw [List.take_append_of_le_length (by rwa [List.length_reverse])] at hdrawn
  rw [hdrawn] at hballot
  have hfdraw : f ∈ drawable pool nominations currentMap := by
    have hmem : f ∈ fresh pool nominations currentMap recent := by simp [hf]
    exact (List.mem_filter.mp hmem).1
  have hffresh : isRecent recent f = false := by
    have hmem : f ∈ fresh pool nominations currentMap recent := by simp [hf]
    simpa using (List.mem_filter.mp hmem).2
  have hon :=
    h.recent_last e (by simp [hballot]) (by simp [he]) f (List.mem_append_right _ hfdraw) hffresh
  have hnodup : (f :: (others ++ before ++ [e])).Nodup := by
    have hdraws := (nodup_eligible hpool).of_map (l := eligible pool nominations currentMap)
    rw [eligible] at hdraws
    obtain ⟨l, hperm, hsub⟩ := drawnFrom_sublist pool nominations currentMap recent count
    have hfromNodup := hperm.nodup_iff.mp (hdraws.of_append_right.sublist hsub)
    rwa [hfrom] at hfromNodup
  have hfnot := (List.nodup_cons.mp hnodup).1
  rw [hballot, List.mem_append, List.mem_cons] at hon
  rcases hon with hnominee | rfl | htail
  · exact notMem_nominees hfdraw (List.mem_map_of_mem (List.mem_of_mem_take hnominee))
  · simp at hfnot
  · have hmem := List.mem_of_mem_take htail
    simp only [List.mem_reverse] at hmem
    exact hfnot (List.mem_append_left _ hmem)

end Result

/-- Every draw gives a lawful ballot exactly when the maps that were not played recently are enough,
there are none of them, or all maps together are not too many. -/
theorem lawful_iff (pool nominations : List Bytes) (currentMap : Bytes)
    (recent : List Bytes) (count : ℤ) (hpool : (pool.map lower).Nodup) (hcount : 0 ≤ count) :
    (∀ pick, Lawful pool nominations currentMap recent count
        (buildBallot pool nominations currentMap recent count pick)) ↔
      Settled pool nominations currentMap recent count := by
  lift count to ℕ using hcount
  constructor
  · intro h
    exact settled_of_lawful hpool (h _)
  · intro h pick
    exact lawful_of_settled hpool h

/-- Of four maps one is on, one is nominated and one was played recently. -/
theorem lawful_four_maps :
    Lawful [ascii "a", ascii "b", ascii "c", ascii "d"] [ascii "B"] (ascii "a") [ascii "c"] 2
      (buildBallot [ascii "a", ascii "b", ascii "c", ascii "d"] [ascii "B"] (ascii "a")
        [ascii "c"] 2 fun _ n => Fin.last n) := by
  have hsettled :
      Settled [ascii "a", ascii "b", ascii "c", ascii "d"] [ascii "B"] (ascii "a") [ascii "c"] 2 :=
    .inl (by decide)
  exact (lawful_iff _ _ _ _ 2 (by decide) (by decide)).mpr hsettled _

/-- Two maps were played recently and two were not; of three draws two can go to the recent ones. -/
theorem recent_drawn_before_fresh :
    let pool := [ascii "a", ascii "b", ascii "c", ascii "d"]
    let recent := [ascii "c", ascii "d"]
    let ballot := buildBallot pool [] (ascii "x") recent 3 fun _ n => Fin.last n
    (pool.map lower).Nodup ∧ ballot = [ascii "d", ascii "c", ascii "b"] ∧
      ¬Lawful pool [] (ascii "x") recent 3 ballot := by
  refine ⟨by decide, by decide, ?_⟩
  intro h
  have hon := h.recent_last (ascii "d") (by decide) (by decide) (ascii "a") (by decide) (by decide)
  exact absurd hon (by decide)

end ReadyUp.Mapvote
