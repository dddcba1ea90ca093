import Mathlib.Algebra.Order.Field.Rat
import Mathlib.Tactic.Ring
import Libp2px.Lib.Sorter

/-!
# The relay pool

`p2put/relaypool.go`: relay peers in two tiers, probation and main, of which `prune` keeps `lowWater` when there are
more than `highWater`.  Peer ids are of any type; times and durations are nanoseconds; a clock reading is an argument.
The exponential averages are taken as exact rationals, and the weighted sum of `calcScore` is an argument of `prune`,
which may differ at each call.
-/

namespace Libp2px.Relays

variable {ι : Type}

def poolHighWater : Nat := 50

def poolLowWater : Nat := 40

def demoteThreshold : Nat := 3

/-- The number of consecutive failures that opens the circuit of a relay. -/
def circuitThreshold : Nat := 5

def minute : Int := 60 * 10 ^ 9

/-- The zero `time.Time`, in the year 1. -/
def zeroTime : Int := -62135596800 * 10 ^ 9

/-! ### Items -/

structure RelayItem (ι : Type) where
  peerID : ι
  addr : String
  inMain : Bool
  successScore : ℚ
  avgRTT : Int
  limitDuration : Int
  limitData : Int
  rateLimitHits : Nat
  consecutiveFails : Nat
  circuitOpen : Bool
  reservationExpires : Int
  connectedSince : Int
  lastResult : Int
  deriving DecidableEq

/-- The errors of a relay, as far as `classifyError` tells them apart. -/
inductive RelayError
  | nil
  | reset
  | reservation (refused : Bool)
  | other
  deriving DecidableEq, Repr

inductive ErrType
  | errOK
  | errRateLimited
  | errFailed
  deriving DecidableEq, Repr

def classifyError : RelayError → ErrType
  | .nil => .errOK
  | .reset => .errRateLimited
  | .reservation refused => if refused then .errRateLimited else .errFailed
  | .other => .errFailed

def ema (old newVal alpha : ℚ) : ℚ := alpha * newVal + (1 - alpha) * old

/-- `emaRTT` with `alpha = 0.3`, in whole nanoseconds. -/
def emaRTT (old newVal : Int) : Int := (3 * newVal + 7 * old).tdiv 10

namespace RelayItem

/-- The item that `Add` makes. -/
def new (pid : ι) (addr : String) (now : Int) : RelayItem ι where
  peerID := pid
  addr := addr
  inMain := false
  successScore := 7 / 10
  avgRTT := 0
  limitDuration := 0
  limitData := 0
  rateLimitHits := 0
  consecutiveFails := 0
  circuitOpen := false
  reservationExpires := zeroTime
  connectedSince := now
  lastResult := zeroTime

/-- A failure: at `demoteThreshold` an item of main is demoted with its score set back, and at `circuitThreshold` the
circuit opens. -/
def fail (item : RelayItem ι) : RelayItem ι :=
  let fails := item.consecutiveFails + 1
  let demoted := item.inMain && decide (fails ≥ demoteThreshold)
  { item with
    successScore := if demoted then 7 / 10 else ema item.successScore 0 (3 / 10)
    consecutiveFails := fails
    inMain := item.inMain && !demoted
    circuitOpen := item.circuitOpen || decide (fails ≥ circuitThreshold) }

/-- What `RecordResult` does to the item, before its time. -/
def result (item : RelayItem ι) (err : RelayError) : RelayItem ι :=
  match classifyError err with
  | .errOK =>
    { item with
      successScore := ema item.successScore 1 (3 / 10), consecutiveFails := 0, circuitOpen := false, inMain := true }
  | .errRateLimited =>
    { item with successScore := ema item.successScore 0 (1 / 2), rateLimitHits := item.rateLimitHits + 1 }
  | .errFailed => item.fail

/-- The locked step of `RecordResult`. -/
def record (item : RelayItem ι) (err : RelayError) (now : Int) : RelayItem ι :=
  { item.result err with lastResult := now }

/-- What the health checker does to an item that answered its ping. -/
def healthy (item : RelayItem ι) (rtt : Int) : RelayItem ι :=
  { item with
    avgRTT := emaRTT item.avgRTT rtt, successScore := ema item.successScore 1 (3 / 10), consecutiveFails := 0 }

/-- `calcScore` around its weighted sum. -/
def calcScore (weigh : RelayItem ι → ℚ) (item : RelayItem ι) : ℚ := if item.circuitOpen then 0 else weigh item

@[simp] theorem peerID_record (item : RelayItem ι) (err : RelayError) (now : Int) :
    (item.record err now).peerID = item.peerID := by
  unfold record result fail
  cases classifyError err <;> rfl

@[simp] theorem peerID_healthy (item : RelayItem ι) (rtt : Int) : (item.healthy rtt).peerID = item.peerID := rfl

theorem inMain_record {item : RelayItem ι} {err : RelayError} {now : Int} (h : classifyError err ≠ .errOK)
    (hmain : (item.record err now).inMain = true) : item.inMain = true := by
  unfold record result fail at hmain
  cases herr : classifyError err with
  | errOK => exact absurd herr h
  | errRateLimited => simpa [herr] using hmain
  | errFailed =>
    simp only [herr, Bool.and_eq_true] at hmain
    exact hmain.1

end RelayItem

/-! ### The pool -/

/-- A pool: one item for each peer id, and the ids that are protected. -/
structure RelayPool (ι : Type) where
  items : List (RelayItem ι)
  protectedIDs : List ι
  lowWater : Nat
  highWater : Nat
  nodup : (items.map (·.peerID)).Nodup
  low_le : lowWater ≤ highWater

def newRelayPool : RelayPool ι := ⟨[], [], poolLowWater, poolHighWater, List.nodup_nil, by decide⟩

namespace RelayPool

def main (p : RelayPool ι) : List (RelayItem ι) := p.items.filter (·.inMain)

def probation (p : RelayPool ι) : List (RelayItem ι) := p.items.filter (!·.inMain)

theorem length_probation_add_main (p : RelayPool ι) : p.probation.length + p.main.length = p.items.length := by
  have h := List.length_eq_length_filter_add (l := p.items) (·.inMain)
  unfold probation main
  omega

variable [DecidableEq ι]

def has (p : RelayPool ι) (pid : ι) : Bool := p.items.any (·.peerID == pid)

/-- A change of one item that keeps its id. -/
def modify (p : RelayPool ι) (pid : ι) (f : RelayItem ι → RelayItem ι) (hf : ∀ it, (f it).peerID = it.peerID) :
    RelayPool ι where
  items := p.items.map fun it => if it.peerID = pid then f it else it
  protectedIDs := p.protectedIDs
  lowWater := p.lowWater
  highWater := p.highWater
  nodup := by
    rw [List.map_map, List.map_congr_left (g := fun it => it.peerID)]
    · exact p.nodup
    · intro it _
      simp only [Function.comp_apply]
      split
      · exact hf it
      · rfl
  low_le := p.low_le

/-- The locked step of `Add`, for an id that is not in the pool. -/
def insert (p : RelayPool ι) (it : RelayItem ι) (hnew : p.has it.peerID = false) : RelayPool ι where
  items := p.items ++ [it]
  protectedIDs := p.protectedIDs
  lowWater := p.lowWater
  highWater := p.highWater
  nodup := by
    rw [List.map_append, List.map_singleton, List.nodup_append]
    refine ⟨p.nodup, List.pairwise_singleton _ _, ?_⟩
    rintro pid hpid b hb rfl
    obtain rfl := List.mem_singleton.1 hb
    obtain ⟨it', hit', heq⟩ := List.mem_map.1 hpid
    have := List.any_eq_false.1 hnew it' hit'
    exact this (by simpa using heq)
  low_le := p.low_le

variable {p : RelayPool ι} {it : RelayItem ι} {l : List (RelayItem ι)}

theorem mem_modify {pid : ι} {f : RelayItem ι → RelayItem ι}
    {hf : ∀ it, (f it).peerID = it.peerID} (h : it ∈ (p.modify pid f hf).items) :
    it ∈ p.items ∨ ∃ it' ∈ p.items, it'.peerID = pid ∧ it = f it' := by
  obtain ⟨it', hit', rfl⟩ := List.mem_map.1 h
  by_cases hpid : it'.peerID = pid
  · rw [if_pos hpid]
    exact .inr ⟨it', hit', hpid, rfl⟩
  · rw [if_neg hpid]
    exact .inl hit'

theorem length_main_modify (p : RelayPool ι) (pid : ι) (f : RelayItem ι → RelayItem ι)
    (hf : ∀ it, (f it).peerID = it.peerID) :
    (p.modify pid f hf).main.length ≤
      p.main.length + p.items.countP fun it => it.peerID == pid && (!it.inMain && (f it).inMain) := by
  simp only [main, modify]
  induction p.items with
  | nil => exact Nat.le_refl 0
  | cons it items ih =>
    rw [List.map_cons, List.filter_cons, List.filter_cons, List.countP_cons]
    by_cases hpid : it.peerID = pid
    · cases hmain : it.inMain <;> cases hfmain : (f it).inMain <;> simp [hpid, hfmain] <;> omega
    · cases hmain : it.inMain <;> simp [hpid, hmain] <;> omega

theorem length_main_modify_le {pid : ι} {f : RelayItem ι → RelayItem ι} {hf : ∀ it, (f it).peerID = it.peerID}
    (h : ∀ it ∈ p.items, it.peerID = pid → (f it).inMain = true → it.inMain = true) :
    (p.modify pid f hf).main.length ≤ p.main.length := by
  have hle := p.length_main_modify pid f hf
  rw [List.countP_eq_zero.2 ?_] at hle
  · exact hle
  · intro it hit
    simp only [Bool.and_eq_true, beq_iff_eq, Bool.not_eq_true']
    rintro ⟨hpid, hmain, hfmain⟩
    rw [h it hit hpid hfmain] at hmain
    cases hmain

theorem length_main_modify_le_succ (p : RelayPool ι) (pid : ι) (f : RelayItem ι → RelayItem ι)
    (hf : ∀ it, (f it).peerID = it.peerID) : (p.modify pid f hf).main.length ≤ p.main.length + 1 := by
  have hle := p.length_main_modify pid f hf
  have hone := List.nodup_iff_count_le_one.1 p.nodup pid
  rw [List.count, List.countP_map] at hone
  have hmono : (p.items.countP fun it => it.peerID == pid && (!it.inMain && (f it).inMain)) ≤
      p.items.countP ((· == pid) ∘ fun it => it.peerID) := by
    apply List.countP_mono_left
    intro it _ hit
    exact (Bool.and_eq_true _ _ ▸ hit).1
  omega

/-- The items with these ids go, and their protection with them. -/
def evict (p : RelayPool ι) (pids : List ι) : RelayPool ι where
  items := p.items.filter fun it => it.peerID ∉ pids
  protectedIDs := p.protectedIDs.filter (· ∉ pids)
  lowWater := p.lowWater
  highWater := p.highWater
  nodup := p.nodup.sublist (List.filter_sublist.map _)
  low_le := p.low_le

def protect (p : RelayPool ι) (pid : ι) : RelayPool ι := { p with protectedIDs := pid :: p.protectedIDs }

def unprotect (p : RelayPool ι) (pid : ι) : RelayPool ι :=
  { p with protectedIDs := p.protectedIDs.filter (· ≠ pid) }

/-! ### Pruning -/

/-- How many items `prune` wants to evict from probation and from main: half each, and what one tier cannot give from
the other. -/
def quota (p : RelayPool ι) : Nat × Nat :=
  let need := p.items.length - p.lowWater
  let half := need / 2
  let q := if half > p.probation.length then (p.probation.length, need - half + (half - p.probation.length))
    else (half, need - half)
  if q.2 > p.main.length then (q.1 + (q.2 - p.main.length), p.main.length) else q

def oldest (srt : Sorter (RelayItem ι)) (l : List (RelayItem ι)) (k : Nat) : List (RelayItem ι) :=
  (srt.sort (fun a b => decide (a.connectedSince < b.connectedSince)) l).take k

/-- The main items that are neither protected nor had a result in the last five minutes. -/
def idle (p : RelayPool ι) (now : Int) : List (RelayItem ι) :=
  p.main.filter fun it => decide (it.peerID ∉ p.protectedIDs ∧ ¬now - it.lastResult < 5 * minute)

/-- Round 2: the best fifth of the candidates is protected. -/
def dropBest (srt : Sorter (RelayItem ι)) (weigh : RelayItem ι → ℚ) (l : List (RelayItem ι)) : List (RelayItem ι) :=
  let topK := (l.length + 4) / 5
  if topK > 0 ∧ topK < l.length then
    (srt.sort (fun a b => decide (a.calcScore weigh > b.calcScore weigh)) l).drop topK
  else if topK ≥ l.length then []
  else l

/-- Round 3: the ten candidates that are longest in the pool are protected. -/
def dropOldest (srt : Sorter (RelayItem ι)) (l : List (RelayItem ι)) : List (RelayItem ι) :=
  let uptimeK := min 10 l.length
  if l.length > 0 then
    if uptimeK > 0 ∧ uptimeK < l.length then
      (srt.sort (fun a b => decide (a.connectedSince < b.connectedSince)) l).drop uptimeK
    else if uptimeK ≥ l.length then []
    else l
  else l

/-- The main items that may go, the worst score first. -/
def candidates (p : RelayPool ι) (now : Int) (weigh : RelayItem ι → ℚ) (srt : Sorter (RelayItem ι)) :
    List (RelayItem ι) :=
  srt.sort (fun a b => decide (a.calcScore weigh < b.calcScore weigh))
    (dropOldest srt (dropBest srt weigh (p.idle now)))

def evictItems (p : RelayPool ι) (l : List (RelayItem ι)) : RelayPool ι := p.evict (l.map (·.peerID))

/-- The pool after the first pass over probation. -/
def pruneProbation (p : RelayPool ι) (srt : Sorter (RelayItem ι)) : RelayPool ι :=
  p.evictItems (oldest srt p.probation p.quota.1)

/-- The passes over main, with `k` items to evict, and over what is left of probation. -/
def pruneMain (p : RelayPool ι) (now : Int) (weigh : RelayItem ι → ℚ) (srt : Sorter (RelayItem ι)) (k : Nat) :
    RelayPool ι :=
  let victims := (p.candidates now weigh srt).take k
  let p' := p.evictItems victims
  if k - victims.length > 0 then p'.evictItems (oldest srt p'.probation (k - victims.length)) else p'

def prune (p : RelayPool ι) (now : Int) (weigh : RelayItem ι → ℚ) (srt : Sorter (RelayItem ι)) : RelayPool ι :=
  if p.items.length ≤ p.highWater then p
  else if p.quota.2 > 0 then (p.pruneProbation srt).pruneMain now weigh srt p.quota.2
  else p.pruneProbation srt

/-! ### What is left after pruning -/

theorem pruneMain_frame (p : RelayPool ι) (now : Int) (weigh : RelayItem ι → ℚ) (srt : Sorter (RelayItem ι))
    (k : Nat) :
    (p.pruneMain now weigh srt k).highWater = p.highWater ∧
      (p.pruneMain now weigh srt k).items.Sublist p.items := by
  simp only [pruneMain]
  split
  · exact ⟨rfl, List.filter_sublist.trans List.filter_sublist⟩
  · exact ⟨rfl, List.filter_sublist⟩

theorem prune_frame (p : RelayPool ι) (now : Int) (weigh : RelayItem ι → ℚ) (srt : Sorter (RelayItem ι)) :
    (p.prune now weigh srt).highWater = p.highWater ∧ (p.prune now weigh srt).items.Sublist p.items := by
  unfold prune
  split
  · exact ⟨rfl, List.Sublist.refl _⟩
  · split
    · obtain ⟨hhigh, hsub⟩ := (p.pruneProbation srt).pruneMain_frame now weigh srt p.quota.2
      exact ⟨hhigh, hsub.trans List.filter_sublist⟩
    · exact ⟨rfl, List.filter_sublist⟩

omit [DecidableEq ι] in
theorem subperm_oldest (srt : Sorter (RelayItem ι)) (l : List (RelayItem ι)) (k : Nat) :
    (oldest srt l k).Subperm l := srt.subperm_take _ l k

omit [DecidableEq ι] in
theorem length_oldest (srt : Sorter (RelayItem ι)) (l : List (RelayItem ι)) (k : Nat) :
    (oldest srt l k).length = min k l.length := by
  rw [oldest, List.length_take, srt.length_sort]

omit [DecidableEq ι] in
theorem subperm_dropBest (srt : Sorter (RelayItem ι)) (weigh : RelayItem ι → ℚ) (l : List (RelayItem ι)) :
    (dropBest srt weigh l).Subperm l := by
  simp only [dropBest]
  split
  · exact srt.subperm_drop _ l _
  · split
    · exact List.nil_subperm
    · exact List.Subperm.refl l

omit [DecidableEq ι] in
theorem subperm_dropOldest (srt : Sorter (RelayItem ι)) (l : List (RelayItem ι)) :
    (dropOldest srt l).Subperm l := by
  simp only [dropOldest]
  split
  · split
    · exact srt.subperm_drop _ l _
    · split
      · exact List.nil_subperm
      · exact List.Subperm.refl l
  · exact List.Subperm.refl l

theorem subperm_candidates (p : RelayPool ι) (now : Int) (weigh : RelayItem ι → ℚ) (srt : Sorter (RelayItem ι)) :
    (p.candidates now weigh srt).Subperm p.main :=
  (srt.perm _ _).subperm.trans <| (subperm_dropOldest srt _).trans <| (subperm_dropBest srt weigh _).trans <|
    List.filter_sublist.subperm

theorem length_evictItems (h : l.Subperm p.items) :
    (p.evictItems l).items.length + l.length = p.items.length := by
  obtain ⟨l', hperm, hsub⟩ := h
  have hmap : (l.map (·.peerID)).Subperm (p.items.map (·.peerID)) := ⟨_, hperm.map _, hsub.map _⟩
  have hcount := p.nodup.length_filter_notMem_add hmap
  rw [List.filter_map, List.length_map, List.length_map, List.length_map] at hcount
  exact hcount

omit [DecidableEq ι] in
theorem mem_iff_peerID_mem (h : l.Subperm p.items)
    (hit : it ∈ p.items) : it.peerID ∈ l.map (·.peerID) ↔ it ∈ l := by
  constructor
  · intro hmem
    obtain ⟨it', hit', heq⟩ := List.mem_map.1 hmem
    rwa [← List.inj_on_of_nodup_map p.nodup (h.subset hit') hit heq]
  · exact fun hmem => List.mem_map_of_mem hmem

theorem mem_evictItems (h : l.Subperm p.items) :
    it ∈ (p.evictItems l).items ↔ it ∈ p.items ∧ it ∉ l := by
  simp only [evictItems, evict, List.mem_filter, decide_eq_true_eq]
  constructor
  · rintro ⟨hit, hnot⟩
    exact ⟨hit, fun hmem => hnot ((mem_iff_peerID_mem h hit).2 hmem)⟩
  · rintro ⟨hit, hnot⟩
    exact ⟨hit, fun hmem => hnot ((mem_iff_peerID_mem h hit).1 hmem)⟩

theorem filter_evictItems (h : l.Subperm p.items)
    {q : RelayItem ι → Bool} (hq : ∀ it ∈ l, q it = false) : (p.evictItems l).items.filter q = p.items.filter q := by
  simp only [evictItems, evict, List.filter_filter]
  apply List.filter_congr
  intro it hit
  by_cases hqit : q it = true
  · have hnot : it ∉ l := fun hmem => by simp [hq it hmem] at hqit
    have hid : it.peerID ∉ l.map (·.peerID) := fun hmem => hnot ((mem_iff_peerID_mem h hit).1 hmem)
    simp [hqit, hid]
  · simp [hqit]

omit [DecidableEq ι] in
theorem probation_subperm (p : RelayPool ι) : p.probation.Subperm p.items := List.filter_sublist.subperm

omit [DecidableEq ι] in
theorem main_subperm (p : RelayPool ι) : p.main.Subperm p.items := List.filter_sublist.subperm

theorem evict_probation (h : l.Subperm p.probation) :
    (p.evictItems l).main = p.main ∧ (p.evictItems l).probation.length + l.length = p.probation.length := by
  have hitems := h.trans p.probation_subperm
  have hmain : (p.evictItems l).main = p.main := by
    refine filter_evictItems hitems fun it hit => ?_
    simpa using (List.mem_filter.1 (h.subset hit)).2
  have hlen := length_evictItems hitems
  have hbefore := p.length_probation_add_main
  have hafter := (p.evictItems l).length_probation_add_main
  rw [hmain] at hafter
  exact ⟨hmain, by omega⟩

theorem evict_main (h : l.Subperm p.main) :
    (p.evictItems l).probation = p.probation ∧ (p.evictItems l).main.length + l.length = p.main.length := by
  have hitems := h.trans p.main_subperm
  have hprob : (p.evictItems l).probation = p.probation := by
    refine filter_evictItems hitems fun it hit => ?_
    simpa using (List.mem_filter.1 (h.subset hit)).2
  have hlen := length_evictItems hitems
  have hbefore := p.length_probation_add_main
  have hafter := (p.evictItems l).length_probation_add_main
  rw [hprob] at hafter
  exact ⟨hprob, by omega⟩

omit [DecidableEq ι] in
theorem quota_spec (p : RelayPool ι) :
    p.quota.1 + p.quota.2 = p.items.length - p.lowWater ∧ p.quota.1 ≤ p.probation.length ∧
      p.quota.2 ≤ p.main.length := by
  have hsum := p.length_probation_add_main
  simp only [quota]
  split <;> split <;> simp only <;> omega

theorem pruneMain_spec (p : RelayPool ι) (now : Int) (weigh : RelayItem ι → ℚ) (srt : Sorter (RelayItem ι))
    (k : Nat) :
    (p.pruneMain now weigh srt k).main.length ≤ p.main.length ∧
      ((p.pruneMain now weigh srt k).items.length + k = p.items.length ∨
        (p.pruneMain now weigh srt k).probation = [] ∧
          p.items.length ≤ (p.pruneMain now weigh srt k).items.length + k) := by
  have hvictims : ((p.candidates now weigh srt).take k).Subperm p.main :=
    (List.take_sublist k _).subperm.trans (p.subperm_candidates now weigh srt)
  have htake := List.length_take_le k (p.candidates now weigh srt)
  simp only [pruneMain]
  generalize (p.candidates now weigh srt).take k = victims at hvictims htake ⊢
  obtain ⟨hprob, hmain⟩ := evict_main hvictims
  have hsum := p.length_probation_add_main
  have hsum' := (p.evictItems victims).length_probation_add_main
  split
  · have hspill := evict_probation
      (subperm_oldest srt (p.evictItems victims).probation (k - victims.length))
    have hlen := length_oldest srt (p.evictItems victims).probation (k - victims.length)
    generalize oldest srt (p.evictItems victims).probation (k - victims.length) = spilled at hspill hlen ⊢
    obtain ⟨hsmain, hsprob⟩ := hspill
    have hsum'' := ((p.evictItems victims).evictItems spilled).length_probation_add_main
    rw [hsmain] at hsum'' ⊢
    rw [hprob] at hsum' hsprob hlen
    refine ⟨by omega, ?_⟩
    by_cases hall : k - victims.length ≤ p.probation.length
    · left
      omega
    · right
      refine ⟨List.length_eq_zero_iff.1 (by omega), by omega⟩
  · rw [hprob] at hsum'
    exact ⟨by omega, .inl (by omega)⟩

/-- `prune` leaves a pool within `highWater` alone.  Of a larger one it leaves `lowWater` items, or more and then no
item of probation; the main tier does not grow. -/
theorem prune_spec (p : RelayPool ι) (now : Int) (weigh : RelayItem ι → ℚ) (srt : Sorter (RelayItem ι))
    (h : p.highWater < p.items.length) :
    (p.prune now weigh srt).main.length ≤ p.main.length ∧
      ((p.prune now weigh srt).items.length = p.lowWater ∨
        (p.prune now weigh srt).probation = [] ∧ p.lowWater ≤ (p.prune now weigh srt).items.length) := by
  obtain ⟨hquota, hq₁, hq₂⟩ := p.quota_spec
  have hlow := p.low_le
  obtain ⟨hmain, hprob⟩ := evict_probation (subperm_oldest srt p.probation p.quota.1)
  have hold := length_oldest srt p.probation p.quota.1
  have hsum := p.length_probation_add_main
  have hsum' := (p.pruneProbation srt).length_probation_add_main
  rw [← pruneProbation] at hmain hprob
  rw [hmain] at hsum'
  rw [prune, if_neg (by omega)]
  split
  · have hpass := (p.pruneProbation srt).pruneMain_spec now weigh srt p.quota.2
    rw [hmain] at hpass
    refine ⟨hpass.1, ?_⟩
    rcases hpass.2 with hexact | ⟨hnone, hmore⟩
    · exact .inl (by omega)
    · exact .inr ⟨hnone, by omega⟩
  · exact ⟨by rw [hmain], .inl (by omega)⟩

theorem length_prune_le (p : RelayPool ι) (now : Int) (weigh : RelayItem ι → ℚ) (srt : Sorter (RelayItem ι))
    (hmain : p.main.length ≤ p.highWater) : (p.prune now weigh srt).items.length ≤ p.highWater := by
  by_cases h : p.highWater < p.items.length
  · obtain ⟨hle, hlow | ⟨hnone, -⟩⟩ := p.prune_spec now weigh srt h
    · rw [hlow]
      exact p.low_le
    · have hsum := (p.prune now weigh srt).length_probation_add_main
      rw [hnone, List.length_nil] at hsum
      omega
  · rw [prune, if_pos (by omega)]
    omega

end RelayPool

end Libp2px.Relays
