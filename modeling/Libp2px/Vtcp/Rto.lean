import Libp2px.Vtcp.Congestion

/-!
# The range of the RTT estimator

`Sample` and `Backoff` of `vtcp/rto.go` with every operation on durations checked to stay within 64 bits.  For samples of
at most `2^59` ns no check fails, the smoothed time stays between the samples, and the timeout between its bounds.
-/

namespace Libp2px.Vtcp.RTOCalculator

/-- The result of an operation on `int64`, unless it overflows. -/
def fit (x : Int) : Option Int := if -2 ^ 63 ≤ x ∧ x < 2 ^ 63 then some x else none

def sample? (r : RTOCalculator) (rtt : Int) : Option RTOCalculator := do
  let r ←
    if !r.measured then some { r with srtt := rtt, rttvar := rtt.tdiv 2, measured := true }
    else do
      let diff ← fit (r.srtt - rtt)
      let diff ← fit (if diff < 0 then -diff else diff)
      let v ← fit (3 * r.rttvar)
      let v ← fit (v + diff)
      let s ← fit (7 * r.srtt)
      let s ← fit (s + rtt)
      some { r with rttvar := v.tdiv 4, srtt := s.tdiv 8 }
  let v ← fit (4 * r.rttvar)
  let rto ← fit (r.srtt + v)
  some (clamp { r with rto := rto })

def backoff? (r : RTOCalculator) : Option RTOCalculator := do
  let rto ← fit (r.rto * 2)
  some (clamp { r with rto := rto })

inductive Call
  | sample (rtt : Int)
  | backoff

def run (r : RTOCalculator) : Call → RTOCalculator
  | .sample rtt => r.sample rtt
  | .backoff => r.backoff

def run? (r : RTOCalculator) : Call → Option RTOCalculator
  | .sample rtt => r.sample? rtt
  | .backoff => r.backoff?

/-- The estimates after samples between `m` and `n`, and the timeout. -/
structure InRange (m n : Int) (r : RTOCalculator) : Prop where
  srtt : r.measured = true → m ≤ r.srtt ∧ r.srtt ≤ n
  rttvar : r.measured = true → 0 ≤ r.rttvar ∧ r.rttvar ≤ n
  rto : minRTO ≤ r.rto ∧ r.rto ≤ maxRTO

variable {r : RTOCalculator} {m n rtt : Int}

theorem fit_eq {x : Int} (hlo : -2 ^ 63 ≤ x) (hhi : x < 2 ^ 63) : fit x = some x := if_pos ⟨hlo, hhi⟩

theorem InRange.clamp (hs : r.measured = true → m ≤ r.srtt ∧ r.srtt ≤ n)
    (hv : r.measured = true → 0 ≤ r.rttvar ∧ r.rttvar ≤ n) : InRange m n r.clamp := by
  unfold RTOCalculator.clamp
  simp only
  split <;> split <;> refine ⟨hs, hv, ?_⟩ <;> simp_all [minRTO, maxRTO, second]

theorem InRange.sample (h : InRange m n r) (hm : 0 ≤ m) (hn : n ≤ 2 ^ 59) (hlo : m ≤ rtt) (hhi : rtt ≤ n) :
    r.sample? rtt = some (r.sample rtt) ∧ InRange m n (r.sample rtt) := by
  unfold sample? RTOCalculator.sample
  cases hr : r.measured with
  | false =>
    have hv : rtt.tdiv 2 = rtt / 2 := Int.tdiv_eq_ediv_of_nonneg (by omega)
    refine ⟨?_, .clamp (fun _ => ⟨hlo, hhi⟩) fun _ => ?_⟩
    · simp only [Bool.not_false, ↓reduceIte, Option.bind_eq_bind, Option.bind_some]
      rw [hv, fit_eq (by omega) (by omega), Option.bind_some, fit_eq (by omega) (by omega), Option.bind_some]
    · simp only [Bool.not_false, ↓reduceIte]
      omega
  | true =>
    obtain ⟨hslo, hshi⟩ := h.srtt hr
    obtain ⟨hvlo, hvhi⟩ := h.rttvar hr
    -- both terms of the difference are between 0 and `n`, hence so is its absolute value
    obtain ⟨d, hd, hdlo, hdhi⟩ : ∃ d, (if r.srtt - rtt < 0 then -(r.srtt - rtt) else r.srtt - rtt) = d ∧ 0 ≤ d ∧ d ≤ n := by
      refine ⟨_, rfl, ?_⟩
      split <;> omega
    have hv : (3 * r.rttvar + d).tdiv 4 = (3 * r.rttvar + d) / 4 := Int.tdiv_eq_ediv_of_nonneg (by omega)
    have hs : (7 * r.srtt + rtt).tdiv 8 = (7 * r.srtt + rtt) / 8 := Int.tdiv_eq_ediv_of_nonneg (by omega)
    simp only [Bool.not_true, Bool.false_eq_true, ↓reduceIte, Option.bind_eq_bind, hd, hv, hs]
    refine ⟨?_, .clamp (fun _ => ?_) fun _ => ?_⟩
    · rw [fit_eq (by omega) (by omega), Option.bind_some, hd, fit_eq (by omega) (by omega)]
      iterate 4 rw [Option.bind_some, fit_eq (by omega) (by omega)]
      simp only [Option.bind_some, hv, hs]
      rw [fit_eq (by omega) (by omega), Option.bind_some, fit_eq (by omega) (by omega), Option.bind_some]
    all_goals simp only; omega

theorem InRange.backoff (h : InRange m n r) : r.backoff? = some r.backoff ∧ InRange m n r.backoff := by
  obtain ⟨hlo, hhi⟩ := h.rto
  refine ⟨?_, .clamp h.srtt h.rttvar⟩
  simp only [minRTO, maxRTO, second] at hlo hhi
  rw [backoff?, fit_eq (by omega) (by omega)]
  rfl

theorem InRange.call {c : Call} (h : InRange m n r) (hm : 0 ≤ m) (hn : n ≤ 2 ^ 59)
    (hc : ∀ rtt, c = .sample rtt → m ≤ rtt ∧ rtt ≤ n) : r.run? c = some (r.run c) ∧ InRange m n (r.run c) := by
  cases c with
  | sample rtt => exact h.sample hm hn (hc rtt rfl).1 (hc rtt rfl).2
  | backoff => exact h.backoff

theorem InRange.runs (hm : 0 ≤ m) (hn : n ≤ 2 ^ 59) (calls : List Call)
    (hc : ∀ rtt, .sample rtt ∈ calls → m ≤ rtt ∧ rtt ≤ n) (h : InRange m n r) :
    calls.foldlM run? r = some (calls.foldl run r) ∧ InRange m n (calls.foldl run r) := by
  induction calls generalizing r with
  | nil => exact ⟨rfl, h⟩
  | cons c calls ih =>
    obtain ⟨hfit, hnext⟩ := h.call hm hn (c := c) fun rtt heq => hc rtt (heq ▸ List.mem_cons_self)
    rw [List.foldlM_cons, hfit]
    exact ih (fun rtt hmem => hc rtt (List.mem_cons_of_mem _ hmem)) hnext

theorem measured_sample (r : RTOCalculator) (rtt : Int) : (r.sample rtt).measured = true := by
  unfold RTOCalculator.sample clamp
  grind

theorem measured_runs (calls : List Call) (h : r.measured = true ∨ ∃ rtt, .sample rtt ∈ calls) :
    (calls.foldl run r).measured = true := by
  induction calls generalizing r with
  | nil => simpa using h
  | cons c calls ih =>
    apply ih
    cases c with
    | sample rtt => exact .inl (measured_sample r rtt)
    | backoff =>
      refine h.imp (fun hr => ?_) fun ⟨rtt, hmem⟩ => ⟨rtt, by simpa using hmem⟩
      unfold run backoff clamp
      grind

/-- From a new calculator, calls with samples between 0 and `2^59` never overflow; the estimates are bounded by any bounds
of the samples, if there was one. -/
theorem estimator_in_range (calls : List Call) (hc : ∀ rtt, .sample rtt ∈ calls → 0 ≤ rtt ∧ rtt ≤ 2 ^ 59) :
    ∃ r, calls.foldlM run? {} = some r ∧ r = calls.foldl run {} ∧ minRTO ≤ r.rto ∧ r.rto ≤ maxRTO ∧
      ∀ m n, (∃ rtt, .sample rtt ∈ calls) → (∀ rtt, .sample rtt ∈ calls → m ≤ rtt ∧ rtt ≤ n) →
        m ≤ r.srtt ∧ r.srtt ≤ n ∧ r.rttvar ≤ n := by
  have hnew (m n : Int) : InRange m n {} := ⟨by simp, by simp, by decide⟩
  obtain ⟨hfit, hr⟩ := (hnew 0 (2 ^ 59)).runs le_rfl le_rfl calls hc
  refine ⟨_, hfit, rfl, hr.rto.1, hr.rto.2, fun m n hsome hmn => ?_⟩
  have hbetween : ∀ rtt, .sample rtt ∈ calls → max m 0 ≤ rtt ∧ rtt ≤ min n (2 ^ 59) := by
    intro rtt hmem
    have := hc rtt hmem
    have := hmn rtt hmem
    omega
  have hin := ((hnew _ _).runs (le_max_right m 0) (min_le_right n _) calls hbetween).2
  have hmeasured := measured_runs (r := {}) calls (.inr hsome)
  have := hin.srtt hmeasured
  have := hin.rttvar hmeasured
  omega

theorem estimator_in_range_two : ∃ r, [Call.sample 5, .backoff].foldlM run? {} = some r ∧
    r = [Call.sample 5, .backoff].foldl run {} ∧ minRTO ≤ r.rto ∧ r.rto ≤ maxRTO ∧
      ∀ m n, (∃ rtt, .sample rtt ∈ [Call.sample 5, .backoff]) →
        (∀ rtt, .sample rtt ∈ [Call.sample 5, .backoff] → m ≤ rtt ∧ rtt ≤ n) →
          m ≤ r.srtt ∧ r.srtt ≤ n ∧ r.rttvar ≤ n :=
  estimator_in_range _ (by simp)

end Libp2px.Vtcp.RTOCalculator
