import Libp2px.Vtcp.Flush

/-!
# What one flush sends

The rounds of `flushSendQueue` send consecutive segments.  Together they carry the first bytes of the queue, in order,
and they stay within the window.  A round sends less than a full segment only if nothing is outstanding, and then it
uses up the window or the queue, so a short segment is the only one of its flush.
-/

namespace Libp2px.Vtcp

open CongestionController

variable {σ : Type}

/-- The segments follow each other from the sequence number `a` to `b`. -/
def Consecutive : BitVec 32 → List Packet → BitVec 32 → Prop
  | a, [], b => a = b
  | a, p :: ps, b => p.seg.seq = a ∧ Consecutive (a + p.seg.dataLen) ps b

namespace Conn

variable [CongestionController σ]

theorem chunkSize_short {c : Conn σ} {n : Nat} (hn : c.chunkSize = some n) :
    n ≤ c.mss ∧ (n < c.mss → c.sendBuf.unacked = 0 ∧ (n = c.effWnd.toNat ∨ n = c.sendBuf.buf.length)) := by
  obtain ⟨hp, -⟩ := chunkSize_some hn
  unfold chunkSize at hn
  rw [if_neg (by omega)] at hn
  simp only at hn
  split at hn
  · cases hn
  · split at hn
    · cases hn
    · rename_i hsws
      split at hn
      · cases hn
      · have hmin := Option.some.inj hn
        unfold SendBuf.pending at hmin hsws hp
        constructor
        · omega
        · intro hlt
          have hzero : c.sendBuf.unacked = 0 := by omega
          rw [hzero] at hmin
          exact ⟨hzero, by omega⟩

/-- The rounds from `c` to `d` sent the segments `ps`, which carry the first `k` bytes of the queue. -/
structure Emits (c d : Conn σ) (ps : List Packet) (k : Nat) : Prop where
  outgoing : d.outgoing = c.outgoing ++ ps
  una : d.sendBuf.una = c.sendBuf.una
  unacked : d.sendBuf.unacked = c.sendBuf.unacked + k
  queued : k ≤ c.sendBuf.buf.length - c.sendBuf.unacked
  consecutive : Consecutive c.sendBuf.nxt ps d.sendBuf.nxt
  payload : ps.flatMap (·.seg.payload) = (c.sendBuf.buf.drop c.sendBuf.unacked).take k
  length : ∀ p ∈ ps, p.seg.payload.length ≤ c.mss
  window : ps ≠ [] → 0 < k ∧ d.sendBuf.unacked ≤ c.effWnd.toNat
  short : ∀ p ∈ ps, p.seg.payload.length < c.mss → ps = [p] ∧ c.sendBuf.unacked = 0

theorem Emits.refl (c : Conn σ) : Emits c c [] 0 where
  outgoing := (List.append_nil _).symm
  una := rfl
  unacked := rfl
  queued := Nat.zero_le _
  consecutive := rfl
  payload := rfl
  length := fun _ hp => by cases hp
  window := fun hne => absurd rfl hne
  short := fun _ hp => by cases hp

theorem Emits.cons {c d : Conn σ} {ps : List Packet} {k n : Nat} (now : Int) (hn : c.chunkSize = some n)
    (h : Emits (c.sendChunk now n) d ps k) :
    Emits c d (⟨c.ackSegment now c.sendBuf.nxt (flagACK ||| flagPSH) (c.sendBuf.peekUnsent n),
      c.sendBuf.pos c.sendBuf.nxt, c.freeSpace⟩ :: ps) (n + k) := by
  obtain ⟨hpos, hlen, hbuf, hwnd⟩ := chunkSize_bounds hn
  obtain ⟨hle, hshort⟩ := chunkSize_short hn
  have hun := unacked_sendChunk now hn
  have hunacked := h.unacked
  have hqueued := h.queued
  rw [hun] at hunacked hqueued
  rw [buf_sendChunk] at hqueued
  obtain ⟨rto, t, hframe⟩ := sendChunk_frame now n c
  have hout := h.outgoing
  have hnxt := h.consecutive
  rw [hframe] at hout hnxt
  rw [List.append_assoc] at hout
  constructor
  · exact hout
  · rw [h.una, hframe]
    rfl
  · omega
  · omega
  · refine ⟨rfl, ?_⟩
    exact hnxt
  · rw [List.flatMap_cons, h.payload, hun, buf_sendChunk]
    show (c.sendBuf.buf.drop c.sendBuf.unacked).take n ++ _ = _
    rw [List.take_add, List.drop_drop]
  · intro p hp
    rcases List.mem_cons.1 hp with rfl | hp
    · show (c.sendBuf.peekUnsent n).length ≤ c.mss
      omega
    · have hpl := h.length p hp
      rwa [mss_sendChunk] at hpl
  · intro _
    constructor
    · omega
    · cases ps with
      | nil =>
        -- nothing was sent after this round
        have hk : k = 0 := by
          have hpay := congrArg List.length h.payload
          rw [List.flatMap_nil, List.length_take, List.length_drop, hun, buf_sendChunk] at hpay
          simp at hpay
          omega
        omega
      | cons q qs =>
        have hw := (h.window (List.cons_ne_nil q qs)).2
        rwa [effWnd_sendChunk] at hw
  · intro p hp hps
    rcases List.mem_cons.1 hp with rfl | hp
    · have hps' : (c.sendBuf.peekUnsent n).length < c.mss := hps
      obtain ⟨hzero, hend⟩ := hshort (by omega)
      refine ⟨?_, hzero⟩
      cases ps with
      | nil => rfl
      | cons q qs =>
        obtain ⟨hk, hw⟩ := h.window (List.cons_ne_nil q qs)
        rw [effWnd_sendChunk] at hw
        omega
    · -- what this round sent is outstanding
      rw [← mss_sendChunk now n c] at hps
      have hzero := (h.short p hp hps).2
      omega

theorem emits_flushLoop (now : Int) (fuel : Nat) (c : Conn σ) : ∃ ps k, Emits c (flushLoop now fuel c) ps k := by
  induction fuel generalizing c with
  | zero => exact ⟨[], 0, Emits.refl c⟩
  | succ fuel ih =>
    rw [flushLoop]
    cases hn : c.chunkSize with
    | none => exact ⟨[], 0, Emits.refl c⟩
    | some n =>
      obtain ⟨ps, k, hrest⟩ := ih (c.sendChunk now n)
      exact ⟨_, n + k, hrest.cons now hn⟩

theorem flushLoop_of_le (now : Int) {fuel m : Nat} (c : Conn σ) (hf : c.sendBuf.pending.toNat ≤ fuel)
    (hm : c.sendBuf.pending.toNat ≤ m) : flushLoop now fuel c = flushLoop now m c := by
  induction fuel generalizing c m with
  | zero =>
    have hnone : c.chunkSize = none := by
      apply chunkSize_none_of_sent
      unfold SendBuf.pending at hf
      omega
    cases m with
    | zero => rfl
    | succ m => rw [flushLoop, flushLoop, hnone]
  | succ fuel ih =>
    cases hn : c.chunkSize with
    | none =>
      cases m with
      | zero => rw [flushLoop, flushLoop, hn]
      | succ m => rw [flushLoop, flushLoop, hn]
    | some n =>
      have hpos := (chunkSize_bounds hn).1
      have hp := (chunkSize_some hn).1
      cases m with
      | zero => omega
      | succ m =>
        rw [flushLoop, flushLoop, hn]
        apply ih
        · unfold SendBuf.pending at hf ⊢
          rw [buf_sendChunk, unacked_sendChunk now hn]
          omega
        · unfold SendBuf.pending at hm ⊢
          rw [buf_sendChunk, unacked_sendChunk now hn]
          omega

theorem emits_flushSendQueue (now : Int) (c : Conn σ) : ∃ ps k, Emits c (flushSendQueue now c) ps k := by
  obtain ⟨ps, k, h⟩ := emits_flushLoop now c.sendBuf.pending.toNat c
  refine ⟨ps, k, ?_⟩
  unfold flushSendQueue armPersist
  split
  · exact { h with }
  · exact h

/-- The connection with these limits and this queue behind what is outstanding. -/
def withQueue (sndWnd : BitVec 32) (cc : σ) (mss : Nat) (queued : List Byte) (c : Conn σ) : Conn σ :=
  { c with sndWnd := sndWnd, cc := cc, mss := mss
           sendBuf := { c.sendBuf with buf := c.sendBuf.buf.take c.sendBuf.unacked ++ queued } }

end Conn

namespace Host

variable [CongestionController σ]

open Conn

/-- A flush ends, and it sends the first bytes of the queue in consecutive segments of at most the MSS, within both
windows. A short segment is sent alone, and only if nothing was outstanding. -/
theorem flush_sends_what_it_may {h : Host σ} (hr : (system σ).Reach Transition.anyStep h)
    (hst : h.conn.state = .established ∨ h.conn.state = .closeWait) (now : Int) (sndWnd : BitVec 32) (cc : σ) (mss : Nat)
    (queued : List Byte) :
    let c := h.conn.withQueue sndWnd cc mss queued
    let d := flushSendQueue now c
    (∀ fuel, queued.length ≤ fuel →
      flushLoop now fuel c = flushLoop now queued.length c ∧ (flushLoop now fuel c).chunkSize = none) ∧
    ∃ ps k, d.outgoing = c.outgoing ++ ps ∧ k ≤ queued.length ∧ Consecutive c.sendBuf.nxt ps d.sendBuf.nxt ∧
      ps.flatMap (·.seg.payload) = queued.take k ∧ d.sendBuf.una = c.sendBuf.una ∧
      d.sendBuf.unacked = c.sendBuf.unacked + k ∧ (∀ p ∈ ps, p.seg.payload.length ≤ mss) ∧
      (ps ≠ [] → d.sendBuf.unacked ≤ min sndWnd.toNat (sendWindow cc).toNat) ∧
      ∀ p ∈ ps, p.seg.payload.length < mss → ps = [p] ∧ c.sendBuf.unacked = 0 := by
  intro c d
  -- what is outstanding lies in the buffer, so the queue is what comes after it
  have hout : h.conn.sendBuf.unacked ≤ h.conn.sendBuf.buf.length := (send_inv hr).1.outstanding hst
  have htake : (h.conn.sendBuf.buf.take h.conn.sendBuf.unacked).length = c.sendBuf.unacked := by
    rw [List.length_take]
    exact Nat.min_eq_left hout
  have hlen : c.sendBuf.buf.length = c.sendBuf.unacked + queued.length := by
    show (h.conn.sendBuf.buf.take h.conn.sendBuf.unacked ++ queued).length = _
    rw [List.length_append, htake]
  have hdrop : c.sendBuf.buf.drop c.sendBuf.unacked = queued := List.drop_left' htake
  have hpend : c.sendBuf.pending.toNat = queued.length := by
    unfold SendBuf.pending
    omega
  have heff : c.effWnd.toNat ≤ min sndWnd.toNat (sendWindow cc).toNat := by
    show (if sendWindow cc < sndWnd then sendWindow cc else sndWnd).toNat ≤ _
    split <;> bv_omega
  constructor
  · intro fuel hf
    constructor
    · exact flushLoop_of_le now c (by omega) (by omega)
    · exact chunkSize_flushLoop now fuel c (by omega)
  · obtain ⟨ps, k, hem⟩ := emits_flushSendQueue now c
    refine ⟨ps, k, hem.outgoing, ?_, hem.consecutive, ?_, hem.una, hem.unacked, hem.length, ?_, hem.short⟩
    · have hq := hem.queued
      omega
    · rw [hem.payload, hdrop]
    · intro hne
      exact le_trans (hem.window hne).2 heff

/-- Four bytes are outstanding; of three more, with a window of 7 bytes, the first two are sent. -/
theorem flush_sends_what_it_may_two :
    ∃ h : Host SmallController, (system SmallController).Reach Transition.anyStep h ∧ h.conn.state = .established ∧
      h.conn.sendBuf.unacked = 4 ∧
      ∃ ps k, (flushSendQueue 0 (h.conn.withQueue 7 h.conn.cc 2 [5, 6, 7])).outgoing = ps ∧
        ps.map (·.seg.payload) = [[5, 6]] ∧ ps.flatMap (·.seg.payload) = [5, 6, 7].take k ∧
        (flushSendQueue 0 (h.conn.withQueue 7 h.conn.cc 2 [5, 6, 7])).sendBuf.unacked = 4 + k := by
  have hr : (system SmallController).Reach Transition.anyStep
      ((fresh { mss := 2 } 0).run (opening ++ [.write 0 [1, 2, 3, 4]])) :=
    run_reach (by decide +kernel) (Transition.execMeets_anyStep _ _ _)
  refine ⟨_, hr, by decide +kernel, by decide +kernel, ?_⟩
  obtain ⟨-, ps, k, hout, -, -, hpay, -, hun, -⟩ :=
    flush_sends_what_it_may hr (by decide +kernel) 0 7 _ 2 [5, 6, 7]
  have hnil : ((fresh { mss := 2 } 0).run (opening ++ [.write 0 [1, 2, 3, 4]]) : Host SmallController).conn.outgoing = [] :=
    by decide +kernel
  have hout' := hout.trans (congrArg (· ++ ps) hnil)
  refine ⟨ps, k, hout', ?_, hpay, hun⟩
  have hmap := congrArg (List.map (·.seg.payload)) hout'
  exact hmap.symm.trans (by decide +kernel)

end Host

end Libp2px.Vtcp
