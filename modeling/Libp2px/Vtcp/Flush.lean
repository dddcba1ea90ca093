import Libp2px.Vtcp.Sender

/-!
# The flush of the send queue

Every round of the loop of `flushSendQueue` sends pending bytes within the window, so the loop ends, `SND.NXT` never
passes the window and does not wrap.  A flush that sends something arms the RTO timer, one that meets a closed window
arms the persist timer, and one whose pending bytes make up full segments within the window sends them all.
-/

namespace Libp2px.Vtcp

set_option linter.unusedSectionVars false

variable {σ : Type} [CongestionController σ]

open CongestionController

/-! ### One round -/

namespace Conn

variable {c : Conn σ}

theorem chunkSize_bounds {n : Nat} (hn : c.chunkSize = some n) :
    0 < n ∧ (c.sendBuf.peekUnsent n).length = n ∧ c.sendBuf.unacked + n ≤ c.sendBuf.buf.length ∧
      c.sendBuf.unacked + n ≤ c.effWnd.toNat := by
  obtain ⟨hp, hd⟩ := chunkSize_some hn
  unfold chunkSize at hn
  rw [if_neg (by omega)] at hn
  simp only at hn
  split at hn
  · cases hn
  · rename_i ha
    split at hn
    · cases hn
    · split at hn
      · cases hn
      · have hmin := Option.some.inj hn
        have hpend : c.sendBuf.pending.toNat = c.sendBuf.buf.length - c.sendBuf.unacked := by
          unfold SendBuf.pending
          omega
        have hlen : (c.sendBuf.peekUnsent n).length = n := by
          rw [SendBuf.peekUnsent, List.length_take, List.length_drop]
          omega
        have hpos := List.length_pos_iff.2 hd
        unfold SendBuf.pending at hp
        refine ⟨by omega, hlen, by omega, by omega⟩

/-- Something pending can be sent: nothing is outstanding and the window is open, or a full segment fits in it. -/
def CanSend (c : Conn σ) : Prop :=
  0 < c.mss ∧ c.sendBuf.pending > 0 ∧
    (c.sendBuf.unacked = 0 ∧ 0 < c.effWnd ∨
      c.sendBuf.unacked + c.mss ≤ c.effWnd.toNat ∧ (c.mss : Int) ≤ c.sendBuf.pending)

instance (c : Conn σ) : Decidable c.CanSend := by
  unfold CanSend
  infer_instance

variable (now : Int) (n : Nat) (fuel : Nat)

theorem sendChunk_frame (c : Conn σ) : ∃ rto t, c.sendChunk now n =
    { c with sendBuf := c.sendBuf.advanceSent (c.sendBuf.peekUnsent n).length, rto := rto, rtoTimer := t
             outgoing := c.outgoing ++
              [⟨c.ackSegment now c.sendBuf.nxt (flagACK ||| flagPSH) (c.sendBuf.peekUnsent n),
                c.sendBuf.pos c.sendBuf.nxt, c.freeSpace⟩] } := by
  unfold sendChunk
  simp only
  split <;> exact ⟨_, _, rfl⟩

@[simp] theorem sendBuf_sendChunk (c : Conn σ) :
    (c.sendChunk now n).sendBuf = c.sendBuf.advanceSent (c.sendBuf.peekUnsent n).length := by
  unfold sendChunk
  simp only
  split <;> rfl

@[simp] theorem mss_sendChunk (c : Conn σ) : (c.sendChunk now n).mss = c.mss := by
  unfold sendChunk
  simp only
  split <;> rfl

@[simp] theorem effWnd_sendChunk (c : Conn σ) : (c.sendChunk now n).effWnd = c.effWnd := by
  unfold sendChunk effWnd
  simp only
  split <;> rfl

@[simp] theorem buf_sendChunk (c : Conn σ) : (c.sendChunk now n).sendBuf.buf = c.sendBuf.buf := by
  rw [sendBuf_sendChunk]
  rfl

theorem unacked_sendChunk {n : Nat} (hn : c.chunkSize = some n) :
    (c.sendChunk now n).sendBuf.unacked = c.sendBuf.unacked + n := by
  obtain ⟨-, hlen, -, hw⟩ := chunkSize_bounds hn
  have hlt : c.sendBuf.unacked + n < 2 ^ 32 := lt_of_le_of_lt hw c.effWnd.isLt
  rw [sendBuf_sendChunk, hlen, SendBuf.unacked_advanceSent, Nat.mod_eq_of_lt hlt]

theorem rtoTimer_sendChunk {n : Nat} (hn : c.chunkSize = some n) :
    (c.sendChunk now n).rtoTimer.isSome = true := by
  have hpos : 0 < (c.sendBuf.advanceSent (c.sendBuf.peekUnsent n).length).unacked := by
    have hun := unacked_sendChunk now hn
    rw [sendBuf_sendChunk] at hun
    have := (chunkSize_bounds hn).1
    omega
  unfold sendChunk
  simp only
  split
  · rfl
  · rename_i hnot
    rw [not_and] at hnot
    exact Option.isSome_iff_ne_none.2 (hnot hpos)

theorem chunkSize_eq {n : Nat} (hn : 0 < n)
    (hmin : n = min (min (c.effWnd.toNat - c.sendBuf.unacked) c.mss) (c.sendBuf.buf.length - c.sendBuf.unacked))
    (hsws : n < c.mss → c.sendBuf.unacked = 0) : c.chunkSize = some n ∧ (c.sendBuf.peekUnsent n).length = n := by
  have hlen : (c.sendBuf.peekUnsent n).length = n := by
    rw [SendBuf.peekUnsent, List.length_take, List.length_drop]
    omega
  refine ⟨?_, hlen⟩
  have hpeek : c.sendBuf.peekUnsent n ≠ [] := by
    intro hnil
    rw [hnil] at hlen
    simp at hlen
    omega
  have hp : ¬c.sendBuf.pending ≤ 0 := by
    unfold SendBuf.pending
    omega
  have ha : ¬(c.effWnd.toNat : Int) - c.sendBuf.unacked ≤ 0 := by omega
  have hmin' : min (min ((c.effWnd.toNat : Int) - c.sendBuf.unacked).toNat c.mss) c.sendBuf.pending.toNat = n := by
    unfold SendBuf.pending
    omega
  have hs : ¬(n < c.mss ∧ c.sendBuf.unacked > 0) := by
    rintro ⟨h1, h2⟩
    have := hsws h1
    omega
  unfold chunkSize
  rw [if_neg hp]
  simp only
  rw [if_neg ha, hmin', if_neg hs, if_neg hpeek]

theorem chunkSize_none_of_sent (h : c.sendBuf.buf.length ≤ c.sendBuf.unacked) : c.chunkSize = none := by
  have hp : c.sendBuf.pending ≤ 0 := by
    unfold SendBuf.pending
    omega
  unfold chunkSize
  rw [if_pos hp]

theorem chunkSize_of_canSend (h : c.CanSend) : c.chunkSize.isSome = true := by
  obtain ⟨hmss, hp, hcase⟩ := h
  unfold SendBuf.pending at hp hcase
  rcases hcase with ⟨hz, hw⟩ | ⟨hw, hfull⟩
  · have hw' : 0 < c.effWnd.toNat := by bv_omega
    have hsize := chunkSize_eq (c := c) (n := min (min c.effWnd.toNat c.mss) c.sendBuf.buf.length) (by omega)
      (by omega) fun _ => hz
    rw [hsize.1]
    rfl
  · have hsize := chunkSize_eq (c := c) (n := c.mss) hmss (by omega) fun hlt => absurd hlt (lt_irrefl _)
    rw [hsize.1]
    rfl

/-! ### The loop -/

theorem chunkSize_flushLoop (c : Conn σ) (hf : c.sendBuf.pending.toNat ≤ fuel) :
    (flushLoop now fuel c).chunkSize = none := by
  induction fuel generalizing c with
  | zero =>
    refine chunkSize_none_of_sent ?_
    show c.sendBuf.buf.length ≤ c.sendBuf.unacked
    unfold SendBuf.pending at hf
    omega
  | succ fuel ih =>
    rw [flushLoop]
    cases hn : c.chunkSize with
    | none => exact hn
    | some n =>
      refine ih (c.sendChunk now n) ?_
      have hpos := (chunkSize_bounds hn).1
      unfold SendBuf.pending at hf ⊢
      rw [buf_sendChunk, unacked_sendChunk now hn]
      omega

theorem unacked_le_flushLoop (c : Conn σ) :
    c.sendBuf.unacked ≤ (flushLoop now fuel c).sendBuf.unacked := by
  induction fuel generalizing c with
  | zero => exact le_rfl
  | succ fuel ih =>
    rw [flushLoop]
    cases hn : c.chunkSize with
    | none => exact le_rfl
    | some n =>
      have := ih (c.sendChunk now n)
      rw [unacked_sendChunk now hn] at this
      show _ ≤ (flushLoop now fuel (c.sendChunk now n)).sendBuf.unacked
      omega

theorem rtoTimer_flushLoop (c : Conn σ) (h : c.rtoTimer.isSome = true) :
    (flushLoop now fuel c).rtoTimer.isSome = true := by
  induction fuel generalizing c with
  | zero => exact h
  | succ fuel ih =>
    rw [flushLoop]
    cases hn : c.chunkSize with
    | none => exact h
    | some n => exact ih _ (rtoTimer_sendChunk now hn)

theorem flushLoop_sends {fuel : Nat} (hf : 0 < fuel) (h : c.chunkSize.isSome = true) :
    (flushLoop now fuel c).rtoTimer.isSome = true ∧ 0 < (flushLoop now fuel c).sendBuf.unacked := by
  obtain ⟨n, hn⟩ := Option.isSome_iff_exists.1 h
  obtain ⟨k, rfl⟩ := Nat.exists_eq_succ_of_ne_zero (Nat.ne_of_gt hf)
  rw [flushLoop, hn]
  refine ⟨rtoTimer_flushLoop now k _ (rtoTimer_sendChunk now hn), ?_⟩
  have hle := unacked_le_flushLoop now k (c.sendChunk now n)
  have hpos := (chunkSize_bounds hn).1
  rw [unacked_sendChunk now hn] at hle
  show 0 < (flushLoop now k (c.sendChunk now n)).sendBuf.unacked
  omega

theorem flushLoop_full (c : Conn σ) (hmss : 0 < c.mss)
    (hw : c.sendBuf.buf.length ≤ c.effWnd.toNat) (hu : c.sendBuf.unacked ≤ c.sendBuf.buf.length)
    (hd : c.mss ∣ c.sendBuf.buf.length - c.sendBuf.unacked) (hf : c.sendBuf.buf.length - c.sendBuf.unacked ≤ fuel) :
    (flushLoop now fuel c).sendBuf.unacked = c.sendBuf.buf.length := by
  induction fuel generalizing c with
  | zero =>
    show c.sendBuf.unacked = _
    omega
  | succ fuel ih =>
    by_cases hall : c.sendBuf.buf.length ≤ c.sendBuf.unacked
    · rw [flushLoop, chunkSize_none_of_sent hall]
      show c.sendBuf.unacked = _
      omega
    · have hle : c.mss ≤ c.sendBuf.buf.length - c.sendBuf.unacked := Nat.le_of_dvd (by omega) hd
      have hsize := (chunkSize_eq (c := c) (n := c.mss) hmss (by omega) fun h => absurd h (lt_irrefl _)).1
      have hun := unacked_sendChunk now hsize
      rw [flushLoop, hsize]
      show (flushLoop now fuel (c.sendChunk now c.mss)).sendBuf.unacked = _
      rw [ih (c.sendChunk now c.mss), buf_sendChunk]
      · rwa [mss_sendChunk]
      · rwa [buf_sendChunk, effWnd_sendChunk]
      · rw [buf_sendChunk, hun]
        omega
      · rw [buf_sendChunk, hun, mss_sendChunk, Nat.sub_add_eq]
        exact Nat.dvd_sub hd (dvd_refl _)
      · rw [buf_sendChunk, hun]
        omega

/-! ### The flush -/

/-- The flush sends all that is pending: nothing is, or the window holds the buffer and the pending bytes make up full
segments, or less than one and nothing is outstanding. -/
def FlushesAll (c : Conn σ) : Prop :=
  c.sendBuf.pending ≤ 0 ∨
    0 < c.mss ∧ c.sendBuf.buf.length ≤ c.effWnd.toNat ∧
      (c.mss ∣ c.sendBuf.pending.toNat ∨ c.sendBuf.unacked = 0 ∧ c.sendBuf.pending.toNat < c.mss)

instance (c : Conn σ) : Decidable c.FlushesAll := by
  unfold FlushesAll
  infer_instance

theorem sendBuf_armPersist (c : Conn σ) : c.armPersist.sendBuf = c.sendBuf := by
  unfold armPersist
  split <;> rfl

theorem flushSendQueue_all (c : Conn σ) (hu : c.sendBuf.unacked ≤ c.sendBuf.buf.length)
    (hall : c.FlushesAll) : (flushSendQueue now c).sendBuf.unacked = c.sendBuf.buf.length := by
  have hpend : c.sendBuf.pending.toNat = c.sendBuf.buf.length - c.sendBuf.unacked := by
    unfold SendBuf.pending
    omega
  rw [flushSendQueue, sendBuf_armPersist, hpend]
  rcases hall with hp | ⟨hmss, hw, hd | ⟨hz, hlt⟩⟩
  · have hzero : c.sendBuf.buf.length - c.sendBuf.unacked = 0 := by
      rw [← hpend]
      omega
    rw [hzero]
    show c.sendBuf.unacked = _
    omega
  · rw [hpend] at hd
    exact flushLoop_full now _ c hmss hw hu hd le_rfl
  · -- one short segment, and then nothing is left
    rw [hpend] at hlt
    rw [hz, Nat.sub_zero] at hlt ⊢
    cases hlen : c.sendBuf.buf.length with
    | zero =>
      show c.sendBuf.unacked = 0
      exact hz
    | succ m =>
      have hsize := (chunkSize_eq (c := c) (n := c.sendBuf.buf.length) (by omega) (by omega) fun _ => hz).1
      have hun := unacked_sendChunk now hsize
      rw [hz, Nat.zero_add] at hun
      rw [flushLoop, hsize]
      show (flushLoop now m (c.sendChunk now c.sendBuf.buf.length)).sendBuf.unacked = m + 1
      rw [flushLoop_full now m (c.sendChunk now c.sendBuf.buf.length), buf_sendChunk, hlen]
      · rwa [mss_sendChunk]
      · rwa [buf_sendChunk, effWnd_sendChunk]
      · rw [buf_sendChunk, hun]
      · rw [buf_sendChunk, hun, Nat.sub_self]
        exact dvd_zero _
      · rw [buf_sendChunk, hun]
        omega

/-! ### The timers -/

def Waiting (c : Conn σ) : Prop := c.sendBuf.una ≠ c.sendBuf.nxt ∨ c.sendBuf.pending > 0

def Armed (c : Conn σ) : Prop := c.rtoTimer.isSome = true ∨ c.persistTimer.isSome = true

theorem waiting_broadcastSend (c : Conn σ) : c.broadcastSend.Waiting ↔ c.Waiting := Iff.rfl

theorem armed_broadcastSend (c : Conn σ) : c.broadcastSend.Armed ↔ c.Armed := Iff.rfl

instance (c : Conn σ) : Decidable c.Waiting := by
  unfold Waiting
  infer_instance

instance (c : Conn σ) : Decidable c.Armed := by
  unfold Armed
  infer_instance

theorem una_ne_nxt_iff (c : Conn σ) : c.sendBuf.una ≠ c.sendBuf.nxt ↔ 0 < c.sendBuf.unacked := by
  unfold SendBuf.unacked
  constructor
  · intro h
    by_contra hz
    apply h
    bv_omega
  · intro h heq
    rw [heq] at h
    simp at h

theorem persistTimer_flushLoop (c : Conn σ) :
    (flushLoop now fuel c).persistTimer = c.persistTimer := by
  rw [flushLoop_frame]

theorem Armed.armPersist (h : c.Armed) : c.armPersist.Armed := by
  unfold Conn.armPersist
  split
  · exact .inr rfl
  · exact h

theorem Armed.flushSendQueue (h : c.Armed) (now : Int) : (c.flushSendQueue now).Armed := by
  refine Armed.armPersist ?_
  rcases h with h | h
  · exact .inl (rtoTimer_flushLoop now _ c h)
  · refine .inr ?_
    rwa [persistTimer_flushLoop]

theorem unacked_le_flushSendQueue (c : Conn σ) :
    c.sendBuf.unacked ≤ (flushSendQueue now c).sendBuf.unacked := by
  rw [flushSendQueue, sendBuf_armPersist]
  exact unacked_le_flushLoop now _ c

theorem armed_flushSendQueue_of_canSend (h : c.CanSend) :
    (flushSendQueue now c).Armed ∧ 0 < (flushSendQueue now c).sendBuf.unacked := by
  have hf : 0 < c.sendBuf.pending.toNat := by
    have := h.2.1
    omega
  obtain ⟨hrto, hun⟩ := flushLoop_sends now hf (chunkSize_of_canSend h)
  refine ⟨Armed.armPersist (.inl hrto), ?_⟩
  rwa [flushSendQueue, sendBuf_armPersist]

/-- With the peer's window open, the MSS and the congestion window of the controller `cc` are not zero. -/
def LimitsOpen (cc : σ) (c : Conn σ) : Prop := 0 < c.sndWnd → 0 < c.mss ∧ 0 < sendWindow cc

instance (cc : σ) (c : Conn σ) : Decidable (c.LimitsOpen cc) := by
  unfold LimitsOpen
  infer_instance

theorem flushSendQueue_idle (hz : c.sendBuf.unacked = 0) (hp : c.sendBuf.pending > 0)
    (hopen : c.LimitsOpen c.cc) : (flushSendQueue now c).Armed := by
  by_cases hw : c.sndWnd = 0
  · by_cases ha : c.Armed
    · exact ha.flushSendQueue now
    · -- nothing is sent through a closed window
      have heff : c.effWnd = 0 := by
        unfold effWnd
        rw [hw]
        split
        · bv_omega
        · rfl
      have hnone : c.chunkSize = none := by
        cases hn : c.chunkSize with
        | none => rfl
        | some n =>
          obtain ⟨hpos, -, -, hle⟩ := chunkSize_bounds hn
          rw [heff] at hle
          simp at hle
          omega
      have hloop : flushLoop now c.sendBuf.pending.toNat c = c := by
        cases c.sendBuf.pending.toNat with
        | zero => rfl
        | succ k => rw [flushLoop, hnone]
      rw [flushSendQueue, hloop]
      right
      unfold armPersist
      rw [if_pos]
      · rfl
      · refine ⟨hp, hw, ?_⟩
        unfold Armed at ha
        rw [not_or] at ha
        exact Option.not_isSome_iff_eq_none.1 ha.2
  · obtain ⟨hmss, hcwnd⟩ := hopen (by bv_omega)
    have heff : 0 < c.effWnd := by
      unfold effWnd
      split
      · exact hcwnd
      · bv_omega
    exact (armed_flushSendQueue_of_canSend now ⟨hmss, hp, .inl ⟨hz, heff⟩⟩).1

theorem flushSendQueue_of_sent (h : c.sendBuf.pending ≤ 0) : flushSendQueue now c = c := by
  have hz : c.sendBuf.pending.toNat = 0 := by omega
  unfold flushSendQueue armPersist
  rw [hz]
  exact if_neg fun hp => absurd hp.1 (not_lt.2 h)

theorem sendBuf_flushSendQueue_of_sent (h : c.sendBuf.pending ≤ 0) :
    (flushSendQueue now c).sendBuf = c.sendBuf := by
  rw [flushSendQueue_of_sent now h]

theorem waiting_flushSendQueue (hout : c.sendBuf.una ≠ c.sendBuf.nxt → c.Armed)
    (hopen : c.sendBuf.una = c.sendBuf.nxt → c.LimitsOpen c.cc) (hw : (flushSendQueue now c).Waiting) :
    (flushSendQueue now c).Armed := by
  by_cases hu : c.sendBuf.una ≠ c.sendBuf.nxt
  · exact (hout hu).flushSendQueue now
  · have hopen' := hopen (not_not.1 hu)
    rw [una_ne_nxt_iff, Nat.not_lt, Nat.le_zero] at hu
    by_cases hp : c.sendBuf.pending > 0
    · exact flushSendQueue_idle now hu hp hopen'
    · exfalso
      have hloop := sendBuf_flushSendQueue_of_sent (c := c) now (by omega)
      rcases hw with hw | hw
      · rw [una_ne_nxt_iff, hloop] at hw
        omega
      · rw [hloop] at hw
        exact hp hw

end Conn

end Libp2px.Vtcp
