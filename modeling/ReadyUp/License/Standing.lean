import ReadyUp.License.Key

/-!
# Where a paid license stands

`standingFor` takes the terms of the key, or of a lease that renews it, and the state that the
license server last told. The end of a monthly license is in its terms, so it is known without
the server; what the server says is meant to make it stricter only. Of the states, `replaced`
with a stop date to come is the one that does not look at the terms (`onlyStricter_iff`).
-/
namespace ReadyUp.License

open Support

inductive StandingStatus where
  | free
  | invalid
  | active
  | pastDue
  | expired
  deriving DecidableEq

namespace StandingStatus

/-- The rank that a state of the server is compared by. -/
def rank : StandingStatus → ℕ
  | .expired => 2
  | .pastDue => 1
  | _ => 0

/-- How much a status allows: a license that is not paid for is not looked at. -/
def strictness : StandingStatus → ℕ
  | .free => 0
  | .active => 1
  | .pastDue => 2
  | .expired => 3
  | .invalid => 4

/-- Of two statuses of a paid license, the one of the higher rank is the stricter. -/
theorem strictness_of_rank_lt (a b : StandingStatus) (h : a.rank < b.rank) :
    a.strictness ≤ b.strictness ∨ a = .invalid := by
  revert h
  cases a <;> cases b <;> decide

/-- The states of the server that are statuses too. -/
def ofState (state : Bytes) : Option StandingStatus :=
  if state = ascii "past_due" then some .pastDue
  else if state = ascii "expired" then some .expired
  else none

end StandingStatus

structure Standing where
  paid : Bool := false
  status : StandingStatus := .free
  reason : Bytes := []
  stopsOn : Bytes := []
  maxServers : ℤ := 0

namespace Payload

/-- The first day on which a monthly license no longer works, after fourteen days of grace. -/
def stopsOn (p : Payload) : Bytes := addDays p.updatesUntil 15

/-- The period and its grace are over. -/
def PeriodOver (p : Payload) (today : Bytes) : Prop :=
  p.kind = ascii "month" ∧ p.stopsOn ≠ [] ∧ ¬today < p.stopsOn

instance (p : Payload) (today : Bytes) : Decidable (p.PeriodOver today) :=
  inferInstanceAs (Decidable (_ ∧ _))

def standing (p : Payload) (today : Bytes) : Standing :=
  let st : Standing := { paid := true, status := .active, maxServers := p.maxServers }
  if p.kind = ascii "month" then
    if p.stopsOn ≠ [] ∧ ¬today < p.stopsOn then { st with status := .expired, stopsOn := p.stopsOn }
    else if p.updatesUntil < today then { st with status := .pastDue, stopsOn := p.stopsOn }
    else st
  else st

end Payload

namespace Standing

def told (st : Standing) (state stopsOn : Bytes) : Standing :=
  match StandingStatus.ofState state with
  | some s =>
    if st.status.rank < s.rank then
      { st with status := s, stopsOn := if stopsOn ≠ [] then stopsOn else st.stopsOn }
    else st
  | none => st

/-- A license that is not active is not paid. -/
def explained (st : Standing) : Standing :=
  if st.status ≠ .active then { st with reason := ascii "unpaid" } else st

end Standing

section StandingFor

variable (check : Bytes → Bytes → Bytes → Bool)

/-- The terms of a genuine key, or those of a lease of the same license. -/
def terms (key lease today : Bytes) (keys : List PublicKey) : Option Payload :=
  let o : Options := { lineDate := [], today, keys }
  let k := verify check key o
  if !k.valid || k.license.lease then none
  else if lease = [] then some k.license
  else
    let l := verify check lease o
    if l.valid && l.license.lease && l.license.id = k.license.id && l.license.kind =
      k.license.kind &&
        !(l.license.issuedAt < k.license.issuedAt) then some l.license
    else some k.license

def standingFor (key lease state stopsOn today : Bytes) (keys : List PublicKey) : Standing :=
  if key = [] then {}
  else match terms check key lease today keys with
    | none => { status := .invalid }
    | some p =>
      let st : Standing := { paid := true, status := .active, maxServers := p.maxServers }
      if state = ascii "in_use_elsewhere" then
        { st with status := .expired, reason := ascii "in_use_elsewhere", stopsOn }
      else if state = ascii "replaced" then
        { st with
          reason := ascii "replaced", stopsOn
          status := if stopsOn = [] ∨ ¬today < stopsOn then .expired else .pastDue }
      else if state = ascii "revoked" then { status := .invalid }
      else ((p.standing today).told state stopsOn).explained

variable (key lease state stopsOn today : Bytes) (keys : List PublicKey)

/-- What the server says makes the status at least as strict as saying nothing. -/
def OnlyStricter : Prop :=
  ∀ stopsOn₀, (standingFor check key lease [] stopsOn₀ today keys).status.strictness ≤
    (standingFor check key lease state stopsOn today keys).status.strictness

end StandingFor

namespace Payload

variable {p : Payload} {today : Bytes}

theorem status_standing_of_over (h : p.PeriodOver today) :
    (p.standing today).status = .expired := by
  rw [standing, if_pos h.1, if_pos h.2]

theorem strictness_standing_le_two (h : ¬p.PeriodOver today) :
    (p.standing today).status.strictness ≤ 2 := by
  rw [standing]
  split_ifs with hmonth hover hpast
  · exact absurd ⟨hmonth, hover⟩ h
  · exact le_refl 2
  · exact one_le_two
  · exact one_le_two

theorem strictness_standing_le (p : Payload) (today : Bytes) :
    (p.standing today).status.strictness ≤ 3 := by
  by_cases h : p.PeriodOver today
  · rw [status_standing_of_over h]
    decide
  · exact (strictness_standing_le_two h).trans (by decide)

end Payload

namespace Standing

@[simp] theorem status_explained (st : Standing) : st.explained.status = st.status := by
  rw [explained]
  split_ifs <;> rfl

theorem told_nil (st : Standing) (stopsOn : Bytes) : st.told [] stopsOn = st := rfl

theorem strictness_told (st : Standing) (state stopsOn : Bytes) :
    st.status.strictness ≤ (st.told state stopsOn).status.strictness ∨ st.status = .invalid := by
  rw [told]
  cases StandingStatus.ofState state with
  | none => exact Or.inl le_rfl
  | some s =>
    by_cases hrank : st.status.rank < s.rank
    · simp only [if_pos hrank]
      exact StandingStatus.strictness_of_rank_lt st.status s hrank
    · simp only [if_neg hrank]
      exact Or.inl le_rfl

end Standing

section Stricter

variable {check : Bytes → Bytes → Bytes → Bool} {key lease state stopsOn today : Bytes}
  {keys : List PublicKey}

theorem standingFor_nil (hkey : key ≠ []) {p : Payload}
    (hp : terms check key lease today keys = some p) (stopsOn : Bytes) :
    (standingFor check key lease [] stopsOn today keys).status = (p.standing today).status := by
  rw [standingFor, if_neg hkey, hp]
  dsimp only
  rw [if_neg (by decide), if_neg (by decide), if_neg (by decide), Standing.told_nil,
    Standing.status_explained]

/-- The server makes a license stricter only, unless it has a replaced key work on to a day that
the terms of the license do not reach. -/
theorem onlyStricter_iff (check : Bytes → Bytes → Bytes → Bool)
    (key lease state stopsOn today : Bytes) (keys : List PublicKey) :
    OnlyStricter check key lease state stopsOn today keys ↔
      ¬(key ≠ [] ∧ state = ascii "replaced" ∧ stopsOn ≠ [] ∧ today < stopsOn ∧
        ∃ p, terms check key lease today keys = some p ∧ p.PeriodOver today) := by
  by_cases hkey : key = []
  · have hfree : ∀ state stopsOn, standingFor check key lease state stopsOn today keys = {} := by
      intro state stopsOn
      rw [standingFor, if_pos hkey]
    refine ⟨fun _ hbad => hbad.1 hkey, fun _ stopsOn₀ => ?_⟩
    rw [hfree, hfree]
  cases hp : terms check key lease today keys with
  | none =>
    have hinvalid :
        ∀ state stopsOn, (standingFor check key lease state stopsOn today keys).status =
          .invalid := by
      intro state stopsOn
      rw [standingFor, if_neg hkey, hp]
    simp [OnlyStricter, hinvalid]
  | some p =>
    have hnil := standingFor_nil hkey hp
    have hle := p.strictness_standing_le today
    rw [OnlyStricter]
    simp only [hnil, forall_const]
    rw [standingFor, if_neg hkey, hp]
    dsimp only
    by_cases helse : state = ascii "in_use_elsewhere"
    · rw [if_pos helse]
      refine ⟨fun _ hbad => ?_, fun _ => hle⟩
      exact absurd (helse.symm.trans hbad.2.1) (by decide)
    rw [if_neg helse]
    by_cases hreplaced : state = ascii "replaced"
    · rw [if_pos hreplaced]
      by_cases hstop : stopsOn = [] ∨ ¬today < stopsOn
      · rw [if_pos hstop]
        refine ⟨fun _ hbad => ?_, fun _ => hle⟩
        rcases hstop with hstop | hstop
        · exact hbad.2.2.1 hstop
        · exact hstop hbad.2.2.2.1
      · rw [if_neg hstop]
        rw [not_or, not_not] at hstop
        by_cases hover : p.PeriodOver today
        · rw [Payload.status_standing_of_over hover]
          refine ⟨fun h => ?_, fun h => ?_⟩
          · have hless : StandingStatus.expired.strictness ≤ StandingStatus.pastDue.strictness := h
            exact absurd hless (by decide)
          · exact absurd ⟨hkey, hreplaced, hstop.1, hstop.2, p, rfl, hover⟩ h
        · refine ⟨?_, fun _ => Payload.strictness_standing_le_two hover⟩
          rintro - ⟨-, -, -, -, q, hq, hqover⟩
          exact hover (Option.some.inj hq ▸ hqover)
    · rw [if_neg hreplaced]
      refine ⟨fun _ hbad => hreplaced hbad.2.1, fun _ => ?_⟩
      by_cases hrevoked : state = ascii "revoked"
      · rw [if_pos hrevoked]
        exact hle.trans (by decide)
      · rw [if_neg hrevoked, Standing.status_explained]
        rcases Standing.strictness_told (p.standing today) state stopsOn with h | h
        · exact h
        · rw [h] at hle
          exact absurd hle (by decide)

end Stricter

section Replaced

/-- A key of the test vectors: ten servers, monthly, paid until 2027-03-15. -/
def monthKey : Bytes :=
  ["ATL1.eyJ2IjoxLCJ", "raWQiOiJYUGNNR1Z", "jUE9rZ2FoeUVKIiw", "iaWQiOiJMLXRlc3Q",
    "iLCJjdXN0b21lciI", "6ImN1c19URVNUMTI", "zIiwibGljZW5zZWU", "iOiJFeGFtcGxlIEx",
    "BTiBBUyIsInByb2R", "1Y3QiOiJzZXJ2ZXJ", "zIiwicGFjayI6Ik0", "iLCJtYXhfc2VydmV",
    "ycyI6MTAsImtpbmQ", "iOiJtb250aCIsIml", "zc3VlZF9hdCI6IjI",
    "wMjctMDItMTVUMTA", "6MDA6MDBaIiwidXB", "kYXRlc191bnRpbCI", "6IjIwMjctMDMtMTU",
    "ifQ.KuiwRCVIC3ug", "Zzg5UZ7D_-BzkMB6", "H6gad1eD4-2U1vdJ", "gpMCu_EuU6tyzjeY",
    "_F8zvicXF0IR7qjO", "T3BCoB88Ag"].flatMap ascii

def vectorKeys : List PublicKey :=
  [⟨ascii "XPcMGVcPOkgahyEJ", ascii "uNf4nDKi6ygsAgGBzVtkP0Q8ycz-FbwS_dtcJQRhlVY"⟩]

/-- The signature check, for this key. -/
def vectorCheck (sig pub signed : Bytes) : Bool :=
  some sig = base64UrlDecode (monthKey.drop (5 + 302 + 1)) &&
    (vectorKeys.map fun k => base64UrlDecode k.x) = [some pub] &&
    signed = monthKey.take (5 + 302)

theorem monthKey_terms :
    ∃ p, terms vectorCheck monthKey [] (ascii "2027-03-30") vectorKeys = some p ∧
    p.kind = ascii "month" ∧
      p.updatesUntil = ascii "2027-03-15" := by
  have hterms : (terms vectorCheck monthKey [] (ascii "2027-03-30") vectorKeys).map
      (fun p => (p.kind, p.updatesUntil)) =
        some (ascii "month", ascii "2027-03-15") := by decide +kernel
  obtain ⟨p, hp, heq⟩ := Option.map_eq_some_iff.mp hterms
  rw [Prod.mk.injEq] at heq
  exact ⟨p, hp, heq⟩

/-- Fifteen days after it ended, a key that was replaced works on until its stop date. -/
theorem replaced_key_late :
    ¬OnlyStricter vectorCheck monthKey
      [] (ascii "replaced") (ascii "2027-03-31") (ascii "2027-03-30") vectorKeys := by
  intro h
  obtain ⟨p, hp, hmonth, huntil⟩ := monthKey_terms
  have hkey : monthKey ≠ [] := by decide
  have hstops : p.stopsOn = ascii "2027-03-30" := by
    rw [Payload.stopsOn, huntil]
    decide
  have hover : p.PeriodOver (ascii "2027-03-30") := by
    rw [Payload.PeriodOver, hstops]
    exact ⟨hmonth, by decide, by decide⟩
  have hsilent :
      (standingFor vectorCheck monthKey [] [] [] (ascii "2027-03-30") vectorKeys).status =
        .expired := by
    rw [standingFor_nil hkey hp, Payload.status_standing_of_over hover]
  have hreplaced : (standingFor vectorCheck monthKey [] (ascii "replaced") (ascii "2027-03-31")
      (ascii "2027-03-30") vectorKeys).status = .pastDue := by
    rw [standingFor, if_neg hkey, hp]
    dsimp only
    have hworks : ¬(ascii "2027-03-31" = [] ∨ ¬ascii "2027-03-30" < ascii "2027-03-31") := by decide
    rw [if_neg (by decide), if_pos rfl, if_neg hworks]
  have hlate := h []
  rw [hsilent, hreplaced] at hlate
  exact absurd hlate (by decide)

end Replaced

end ReadyUp.License
