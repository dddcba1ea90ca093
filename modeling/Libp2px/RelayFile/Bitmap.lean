import Mathlib.Tactic.Ring

/-!
# The chunk bitmap

`bitmapHas`, `bitmapSet` and `bitmapMaxContinuous` of `p2put/relayfile.go` on 64-bit words, with Go's `int`: a negative
index panics, and a shift by 64 or more gives zero.  For the numbers of chunks the words are a set, and
`bitmapMaxContinuous` is its first gap.
-/

namespace Libp2px.RelayFile

inductive Panic
  | divideByZero
  | indexOutOfRange
  | makeslice
  deriving DecidableEq, Repr

/-- `1 << uint(n)` in an `uint64`. -/
def shiftOne (n : Int) : BitVec 64 := if 0 ≤ n ∧ n < 64 then 1#64 <<< n.toNat else 0

def bitmapHas (bitmap : List (BitVec 64)) (seq : Int) : Except Panic Bool :=
  let idx := seq.tdiv 64
  if idx ≥ bitmap.length then .ok false
  else if idx < 0 then .error .indexOutOfRange
  else .ok (bitmap.getD idx.toNat 0 &&& shiftOne (seq.tmod 64) != 0)

def bitmapSet (bitmap : List (BitVec 64)) (seq : Int) : Except Panic (List (BitVec 64)) :=
  let idx := seq.tdiv 64
  if idx < bitmap.length then
    if idx < 0 then .error .indexOutOfRange
    else .ok (bitmap.modify idx.toNat (· ||| shiftOne (seq.tmod 64)))
  else .ok bitmap

/-- The loop of `bitmapMaxContinuous` with `fuel` numbers left from `seq` on. -/
def maxContinuousLoop (bitmap : List (BitVec 64)) : Nat → Nat → Except Panic Nat
  | 0, seq => .ok seq
  | fuel + 1, seq =>
    match bitmapHas bitmap seq with
    | .error p => .error p
    | .ok true => maxContinuousLoop bitmap fuel (seq + 1)
    | .ok false => .ok seq

/-- `bitmapMaxContinuous`; a negative limit is returned as it is. -/
def bitmapMaxContinuous (bitmap : List (BitVec 64)) (limit : Int) : Except Panic Int :=
  if limit < 0 then .ok limit
  else
    match maxContinuousLoop bitmap limit.toNat 0 with
    | .error p => .error p
    | .ok n => .ok n

/-- The loop of `HandleFileStream` that marks the chunks `0 … n-1`. -/
def bitmapSetFirst (bitmap : List (BitVec 64)) : Nat → Except Panic (List (BitVec 64))
  | 0 => .ok bitmap
  | n + 1 =>
    match bitmapSetFirst bitmap n with
    | .error p => .error p
    | .ok b => bitmapSet b n

/-! ### The bitmap as a set -/

def bits (bitmap : List (BitVec 64)) (n : Nat) : Bool := (bitmap.getD (n / 64) 0).getLsbD (n % 64)

theorem and_shiftOne (w : BitVec 64) {n : Nat} (h : n < 64) : (w &&& shiftOne n != 0) = w.getLsbD n := by
  have hshift : shiftOne n = BitVec.twoPow 64 n := by
    unfold shiftOne
    rw [if_pos ⟨by omega, by omega⟩]
    exact (BitVec.twoPow_eq 64 n).symm
  rw [hshift, BitVec.and_twoPow]
  cases hbit : w.getLsbD n with
  | false => simp
  | true =>
    have hne : BitVec.twoPow 64 n ≠ 0 := by
      intro hzero
      have hself : (BitVec.twoPow 64 n).getLsbD n = true := by simp [h]
      rw [hzero] at hself
      simp at hself
    simpa using hne

variable (bitmap : List (BitVec 64))

theorem bitmapHas_natCast (n : Nat) : bitmapHas bitmap n = .ok (bits bitmap n) := by
  have hdiv : (n : Int).tdiv 64 = ((n / 64 : Nat) : Int) := rfl
  have hmod : (n : Int).tmod 64 = ((n % 64 : Nat) : Int) := rfl
  unfold bitmapHas
  simp only [hdiv, hmod]
  split
  · rename_i hge
    have hlen : bitmap.length ≤ n / 64 := by exact_mod_cast hge
    unfold bits
    rw [List.getD_eq_getElem?_getD, List.getElem?_eq_none hlen]
    simp
  · rw [if_neg (by omega), Int.toNat_natCast, and_shiftOne _ (Nat.mod_lt _ (by decide))]
    rfl

theorem tdiv_tmod_neg {seq : Int} (h : seq < 0) :
    (seq ≤ -64 → seq.tdiv 64 < 0) ∧ (-64 < seq → seq.tdiv 64 = 0 ∧ shiftOne (seq.tmod 64) = 0) := by
  obtain ⟨m, rfl⟩ : ∃ m : Nat, seq = -(m : Int) := ⟨(-seq).toNat, by omega⟩
  have hdiv : (-(m : Int)).tdiv 64 = -((m / 64 : Nat) : Int) := Int.neg_tdiv m 64
  have hmod : (-(m : Int)).tmod 64 = -((m % 64 : Nat) : Int) := Int.neg_tmod m 64
  rw [hdiv, hmod]
  refine ⟨fun hlow => by omega, fun hhigh => ⟨by omega, if_neg (by omega)⟩⟩

/-- A number at or below -64 is an index below zero; another negative one meets no bit. -/
theorem bitmapHas_neg {seq : Int} (h : seq < 0) :
    bitmapHas bitmap seq = if seq ≤ -64 then .error .indexOutOfRange else .ok false := by
  obtain ⟨hdiv, hnear⟩ := tdiv_tmod_neg h
  unfold bitmapHas
  simp only
  by_cases hlow : seq ≤ -64
  · have hidx := hdiv hlow
    rw [if_neg (by omega), if_pos hidx, if_pos hlow]
  · obtain ⟨hidx, hshift⟩ := hnear (by omega)
    rw [hidx, hshift, if_neg hlow]
    simp

theorem bitmapSet_neg {seq : Int} (h : seq < 0) (hlow : -64 < seq) :
    bitmapSet bitmap seq = .ok bitmap := by
  obtain ⟨hidx, hshift⟩ := (tdiv_tmod_neg h).2 hlow
  have hsame : bitmap.modify 0 (· ||| (0 : BitVec 64)) = bitmap := by
    cases bitmap <;> simp
  unfold bitmapSet
  simp only [hidx, hshift]
  split
  · rw [if_neg (by omega)]
    exact congrArg _ hsame
  · rfl

theorem getLsbD_shiftOne {n : Nat} (hn : n < 64) (m : Nat) : (shiftOne n).getLsbD m = decide (m = n) := by
  unfold shiftOne
  rw [if_pos ⟨by omega, by omega⟩, Int.toNat_natCast, ← BitVec.twoPow_eq, BitVec.getLsbD_twoPow]
  simp [hn, eq_comm]

theorem bitmapSet_natCast (n : Nat) :
    ∃ b, bitmapSet bitmap n = .ok b ∧ b.length = bitmap.length ∧
      ∀ m, bits b m = (bits bitmap m || decide (m = n ∧ n / 64 < bitmap.length)) := by
  have hdiv : (n : Int).tdiv 64 = ((n / 64 : Nat) : Int) := rfl
  have hmod : (n : Int).tmod 64 = ((n % 64 : Nat) : Int) := rfl
  have hlow : n % 64 < 64 := Nat.mod_lt _ (by decide)
  unfold bitmapSet
  simp only [hdiv, hmod]
  by_cases hlt : n / 64 < bitmap.length
  · rw [if_pos (by exact_mod_cast hlt), if_neg (by omega), Int.toNat_natCast]
    refine ⟨_, rfl, by simp, fun m => ?_⟩
    unfold bits
    rw [List.getD_eq_getElem?_getD, List.getElem?_modify, List.getD_eq_getElem?_getD]
    by_cases hword : n / 64 = m / 64
    · have hm : m / 64 < bitmap.length := by omega
      rw [List.getElem?_eq_getElem hm]
      simp only [if_pos hword, Option.map_eq_map, Option.map_some, Option.getD_some, BitVec.getLsbD_or, getLsbD_shiftOne hlow]
      congr 1
      rw [decide_eq_decide]
      exact ⟨fun h => ⟨by omega, hlt⟩, fun h => by rw [h.1]⟩
    · have hne : m ≠ n := fun h => hword (by rw [h])
      simp [hword, hne]
  · rw [if_neg (by exact_mod_cast hlt)]
    refine ⟨bitmap, rfl, rfl, fun m => ?_⟩
    simp [hlt]

theorem maxContinuousLoop_spec (fuel seq : Nat) :
    ∃ r, maxContinuousLoop bitmap fuel seq = .ok r ∧ seq ≤ r ∧ r ≤ seq + fuel ∧
      (∀ m, seq ≤ m → m < r → bits bitmap m = true) ∧ (r < seq + fuel → bits bitmap r = false) := by
  induction fuel generalizing seq with
  | zero => exact ⟨seq, rfl, le_rfl, le_rfl, fun m h1 h2 => by omega, fun h => by omega⟩
  | succ fuel ih =>
    unfold maxContinuousLoop
    rw [bitmapHas_natCast]
    cases hbit : bits bitmap seq with
    | false => exact ⟨seq, rfl, le_rfl, by omega, fun m h1 h2 => by omega, fun _ => hbit⟩
    | true =>
      obtain ⟨r, hr, h1, h2, h3, h4⟩ := ih (seq + 1)
      refine ⟨r, hr, by omega, by omega, fun m hm hlt => ?_, fun h => h4 (by omega)⟩
      rcases Nat.eq_or_lt_of_le hm with rfl | hm
      · exact hbit
      · exact h3 m hm hlt

theorem bitmapMaxContinuous_natCast (limit : Nat) :
    ∃ r : Nat, bitmapMaxContinuous bitmap limit = .ok r ∧ r ≤ limit ∧ (∀ m < r, bits bitmap m = true) ∧
      (r < limit → bits bitmap r = false) := by
  obtain ⟨r, hr, -, h2, h3, h4⟩ := maxContinuousLoop_spec bitmap limit 0
  refine ⟨r, ?_, by omega, fun m hm => h3 m (Nat.zero_le _) hm, fun h => h4 (by omega)⟩
  unfold bitmapMaxContinuous
  rw [if_neg (by omega), Int.toNat_natCast, hr]

theorem bitmapMaxContinuous_ok (limit : Int) :
    ∃ n, bitmapMaxContinuous bitmap limit = .ok n := by
  by_cases hneg : limit < 0
  · exact ⟨limit, if_pos hneg⟩
  · obtain ⟨r, hr, -⟩ := bitmapMaxContinuous_natCast bitmap limit.toNat
    rw [Int.toNat_of_nonneg (Int.not_lt.1 hneg)] at hr
    exact ⟨r, hr⟩

theorem bitmapSetFirst_spec (n : Nat) :
    ∃ b, bitmapSetFirst bitmap n = .ok b ∧ b.length = bitmap.length ∧
      ∀ m, bits b m = (bits bitmap m || decide (m < n ∧ m / 64 < bitmap.length)) := by
  induction n with
  | zero => exact ⟨bitmap, rfl, rfl, fun m => by simp⟩
  | succ n ih =>
    obtain ⟨b, hb, hlen, hbits⟩ := ih
    obtain ⟨b', hb', hlen', hbits'⟩ := bitmapSet_natCast b n
    refine ⟨b', ?_, by omega, fun m => ?_⟩
    · unfold bitmapSetFirst
      rw [hb]
      exact hb'
    · rw [hbits', hbits, hlen, Bool.or_assoc]
      congr 1
      rw [← Bool.decide_or, decide_eq_decide]
      constructor
      · rintro (h | h)
        · omega
        · rw [h.1]
          omega
      · intro h
        rcases Nat.lt_or_ge m n with hm | hm
        · exact .inl ⟨hm, h.2⟩
        · have hmn : m = n := by omega
          exact .inr ⟨hmn, hmn ▸ h.2⟩

end Libp2px.RelayFile
