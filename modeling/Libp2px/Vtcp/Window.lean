import Libp2px.Vtcp.Flush
import Libp2px.Vtcp.Deliver

/-!
# The peer's window

The window field of a segment becomes `sndWnd` when its acknowledgment has been processed, and `processACK` flushes the
send queue before that, within the window known before.  How many bytes that flush sends has a closed form (`burst`), so
the segments are known after which it keeps to the window they bring.  An older segment sets the window back.
-/

namespace Libp2px.Vtcp

open Transition

set_option linter.unusedSectionVars false

variable {σ : Type} [CongestionController σ]

open CongestionController

def Packet.carries (p : Packet) (x : Nat) : Prop := p.pos ≤ x ∧ x < p.pos + p.seg.payload.length

/-! ### What a flush sends -/

/-- The bytes that a flush sends with `u` numbers outstanding, a window of `w` bytes and `q` bytes pending: full
segments, or a single short one when nothing is outstanding. -/
def burst (mss u w q : Nat) : Nat :=
  if u = 0 ∧ min (w - u) q < mss then min (w - u) q else min (w - u) q / mss * mss

theorem burst_eq_zero {mss u w q : Nat} (h : min (w - u) q = 0 ∨ mss = 0 ∨ 0 < u ∧ min (w - u) q < mss) :
    burst mss u w q = 0 := by
  unfold burst
  generalize min (w - u) q = m at h
  split
  · omega
  · rcases h with h | h | ⟨-, h⟩
    · rw [h, Nat.zero_div, Nat.zero_mul]
    · rw [h, Nat.mul_zero]
    · rw [Nat.div_eq_of_lt h, Nat.zero_mul]

theorem burst_full {mss u w q : Nat} (hmss : 0 < mss) (h : mss ≤ min (w - u) q) :
    burst mss u w q = mss + burst mss (u + mss) w (q - mss) := by
  have hrest : min (w - (u + mss)) (q - mss) = min (w - u) q - mss := by omega
  unfold burst
  rw [hrest]
  generalize min (w - u) q = m at h
  have hu : ¬(u + mss = 0 ∧ m - mss < mss) := by omega
  have hm : ¬(u = 0 ∧ m < mss) := by omega
  rw [if_neg hm, if_neg hu, Nat.div_eq_sub_div hmss h, Nat.add_mul, Nat.one_mul, Nat.add_comm]

theorem burst_short {mss w q : Nat} (h : min w q < mss) :
    burst mss 0 w q = min w q + burst mss (min w q) w (q - min w q) := by
  have hzero : burst mss (min w q) w (q - min w q) = 0 := burst_eq_zero (.inl (by omega))
  rw [hzero]
  unfold burst
  rw [Nat.sub_zero, if_pos ⟨rfl, h⟩, Nat.add_zero]

namespace Conn

def flushes (c : Conn σ) : Nat := burst c.mss c.sendBuf.unacked c.effWnd.toNat c.sendBuf.pending.toNat

variable {c : Conn σ} {seg : Segment}

theorem flushes_of_chunkSize_none (h : c.chunkSize = none) : c.flushes = 0 := by
  apply burst_eq_zero
  unfold chunkSize at h
  split at h
  · left
    omega
  · simp only at h
    split at h
    · left
      omega
    · split at h
      · rename_i hsws
        right
        right
        omega
      · split at h
        · -- a round sends no byte only if the MSS is zero
          rename_i hnil
          have hlen := congrArg List.length hnil
          rw [SendBuf.peekUnsent, List.length_take, List.length_drop, List.length_nil] at hlen
          right
          left
          unfold SendBuf.pending at *
          omega
        · cases h

theorem flushes_of_chunkSize {n : Nat} (now : Int) (h : c.chunkSize = some n) :
    c.flushes = n + (c.sendChunk now n).flushes := by
  obtain ⟨hpos, hlen, hbuf, hwnd⟩ := chunkSize_bounds h
  have hpend : (c.sendChunk now n).sendBuf.pending.toNat = c.sendBuf.pending.toNat - n := by
    unfold SendBuf.pending
    rw [buf_sendChunk, unacked_sendChunk now h]
    omega
  have hpend' : c.sendBuf.pending.toNat = c.sendBuf.buf.length - c.sendBuf.unacked := by
    unfold SendBuf.pending
    omega
  unfold flushes
  rw [mss_sendChunk, unacked_sendChunk now h, effWnd_sendChunk, hpend]
  unfold chunkSize at h
  split at h
  · cases h
  · simp only at h
    split at h
    · cases h
    · split at h
      · cases h
      · rename_i hsws
        split at h
        · cases h
        · have hmin := Option.some.inj h
          by_cases hfull : c.mss ≤ n
          · have hn : n = c.mss := by omega
            rw [hn]
            exact burst_full (by omega) (by omega)
          · have hu : c.sendBuf.unacked = 0 := by omega
            have hn : n = min c.effWnd.toNat c.sendBuf.pending.toNat := by omega
            rw [hu, Nat.zero_add, hn]
            exact burst_short (by omega)

theorem outgoing_sendChunk (now : Int) (n : Nat) (c : Conn σ) :
    ∃ p, (c.sendChunk now n).outgoing = c.outgoing ++ [p] ∧ p.pos = c.sendBuf.pos c.sendBuf.nxt ∧
      p.seg.payload = c.sendBuf.peekUnsent n := by
  unfold sendChunk
  simp only
  split <;> exact ⟨_, rfl, rfl, rfl⟩

theorem outgoing_armPersist (c : Conn σ) : c.armPersist.outgoing = c.outgoing := by
  unfold armPersist
  split <;> rfl

theorem outgoing_flushLoop (now : Int) (fuel : Nat) (c : Conn σ) (hf : c.sendBuf.pending.toNat ≤ fuel) :
    ∃ out, (flushLoop now fuel c).outgoing = c.outgoing ++ out ∧
      ∀ x, (∃ p ∈ out, p.carries x) ↔
        c.sendBuf.pos c.sendBuf.nxt ≤ x ∧ x < c.sendBuf.pos c.sendBuf.nxt + c.flushes := by
  induction fuel generalizing c with
  | zero =>
    refine ⟨[], (List.append_nil _).symm, fun x => ?_⟩
    have hz : c.flushes = 0 := burst_eq_zero (.inl (by omega))
    rw [hz]
    simp
  | succ fuel ih =>
    rw [flushLoop]
    cases hn : c.chunkSize with
    | none =>
      refine ⟨[], (List.append_nil _).symm, fun x => ?_⟩
      rw [flushes_of_chunkSize_none hn]
      simp
    | some n =>
      obtain ⟨hpos, hlen, hbuf, -⟩ := chunkSize_bounds hn
      have hf' : (c.sendChunk now n).sendBuf.pending.toNat ≤ fuel := by
        unfold SendBuf.pending at hf ⊢
        rw [buf_sendChunk, unacked_sendChunk now hn]
        omega
      obtain ⟨out, hout, hx⟩ := ih (c.sendChunk now n) hf'
      -- the rest of the loop starts where the chunk ends
      have hstart : (c.sendChunk now n).sendBuf.pos (c.sendChunk now n).sendBuf.nxt =
          c.sendBuf.pos c.sendBuf.nxt + n := by
        show (c.sendChunk now n).sendBuf.acked + (c.sendChunk now n).sendBuf.unacked = _
        rw [unacked_sendChunk now hn, sendBuf_sendChunk]
        exact (Nat.add_assoc _ _ _).symm
      obtain ⟨p, hp, hpp, hpl⟩ := outgoing_sendChunk now n c
      refine ⟨p :: out, ?_, fun x => ?_⟩
      · show (flushLoop now fuel (c.sendChunk now n)).outgoing = _
        rw [hout, hp, List.append_assoc, List.singleton_append]
      · rw [flushes_of_chunkSize now hn]
        rw [hstart] at hx
        simp only [List.mem_cons, exists_eq_or_imp, hx x]
        unfold Packet.carries
        rw [hpp, hpl, hlen]
        omega

/-! ### First transmissions -/

/-- What is sent for the first time after an acknowledgment: the flush goes by the window known before. -/
def ackFlushes (seg : Segment) (c : Conn σ) : Nat :=
  burst c.mss (c.sendBuf.nxt - seg.ack).toNat
    ({ c with cc := ccAfterACK c.cc seg.ack (c.sendBuf.acknowledge seg.ack).2 } : Conn σ).effWnd.toNat
    c.sendBuf.pending.toNat

/-- The segments after which the flush keeps to the window they bring: their acknowledgment is not processed or covers
nothing new, or what is sent for the first time fits in that window. -/
def keepsToWindow (seg : Segment) (c : Conn σ) : Prop :=
  c.takesACK seg = true → seqAfter seg.ack c.sendBuf.una = true →
    c.ackFlushes seg = 0 ∨ (c.sendBuf.nxt - seg.ack).toNat + c.ackFlushes seg ≤ (c.scaledWindow seg).toNat

theorem outgoing_processNewACK (now : Int) (hlo : seqAfter seg.ack c.sendBuf.una = true)
    (hhi : seqAfter seg.ack c.sendBuf.nxt = false) :
    ∃ out, (processNewACK now seg.ack seg.options c).outgoing = c.outgoing ++ out ∧
      ∀ x, (∃ p ∈ out, p.carries x) ↔
        c.sendBuf.pos c.sendBuf.nxt ≤ x ∧ x < c.sendBuf.pos c.sendBuf.nxt + c.ackFlushes seg := by
  obtain ⟨-, -, hsum⟩ := SendBuf.ack_between hlo hhi
  have hack := SendBuf.acknowledge_eq hlo hhi
  -- the connection when the queue is flushed
  generalize hd : rearm now seg.ack (updateSACK seg.options (c.applyACK seg.ack)) = d
  have hbuf : d.outgoing = c.outgoing ∧ d.mss = c.mss ∧ d.sndWnd = c.sndWnd ∧
      d.cc = ccAfterACK c.cc seg.ack (c.sendBuf.acknowledge seg.ack).2 ∧ d.sendBuf.nxt = c.sendBuf.nxt ∧
      d.sendBuf.una = seg.ack ∧ d.sendBuf.acked = c.sendBuf.acked + (seg.ack - c.sendBuf.una).toNat ∧
      d.sendBuf.buf = c.sendBuf.buf.drop (seg.ack - c.sendBuf.una).toNat := by
    rw [← hd, newACK_frame, hack]
    exact ⟨rfl, rfl, rfl, rfl, rfl, rfl, rfl, rfl⟩
  obtain ⟨hout, hmss, hwnd, hcc, hnxt, huna, hacked, hdrop⟩ := hbuf
  have hpos : d.sendBuf.pos d.sendBuf.nxt = c.sendBuf.pos c.sendBuf.nxt := by
    unfold SendBuf.pos
    rw [hnxt, huna, hacked, Nat.add_assoc, hsum]
    rfl
  have hflush : d.flushes = c.ackFlushes seg := by
    have hpend : d.sendBuf.pending.toNat = c.sendBuf.pending.toNat := by
      unfold SendBuf.pending
      unfold SendBuf.unacked at hsum ⊢
      rw [hdrop, List.length_drop, hnxt, huna]
      omega
    unfold flushes ackFlushes effWnd SendBuf.unacked
    rw [hmss, hwnd, hcc, hnxt, huna, hpend]
  obtain ⟨out, heq, hx⟩ := outgoing_flushLoop now d.sendBuf.pending.toNat d le_rfl
  refine ⟨out, ?_, ?_⟩
  · rw [processNewACK, hd, ← hout, ← heq]
    exact outgoing_armPersist _
  · rw [hpos, hflush] at hx
    exact hx

theorem outgoing_takesACK (now : Int) (hs : Core.acksData c.state = true) (ht : c.takesACK seg = true) :
    ∃ ts acks, (c.handleSegment now seg).outgoing =
        (processACK now seg.ack seg.options { c.touch now with tsRecent := ts }).outgoing ++ acks ∧
      ∀ p ∈ acks, p.seg.payload = [] := by
  have hack := (Passes.of_takesACK ht).ack
  obtain ⟨ts, d, htaken, heq⟩ := handleSegment_taken now hs ht
  have hout : d.outgoing = (processACK now seg.ack seg.options { c.touch now with tsRecent := ts }).outgoing := by
    rw [htaken.frame, processSegACK_of_ack now hack]
  refine ⟨ts, ?_⟩
  rw [← hout]
  rcases heq with heq | heq <;> rw [heq]
  · exact ⟨[], (List.append_nil _).symm, by simp⟩
  · refine ⟨_, rfl, fun p hp => ?_⟩
    rw [List.mem_singleton.1 hp]
    rfl

theorem hung_handleSegment (now : Int) (hs : Core.acksData c.state = true)
    (ht : c.takesACK seg = true) (hlo : seqAfter seg.ack c.sendBuf.una = true)
    (hhi : seqAfter seg.ack c.sendBuf.nxt = false) : (c.handleSegment now seg).hung = c.hung := by
  have hack := (Passes.of_takesACK ht).ack
  obtain ⟨ts, d, htaken, heq⟩ := handleSegment_taken now hs ht
  have hd : d.hung = c.hung := by
    rw [htaken.frame, processSegACK_of_ack now hack,
      processACK_new (c := { c.touch now with tsRecent := ts }) now _ hlo hhi, processNewACK_frame]
    rfl
  rcases heq with heq | heq <;> rw [heq] <;> exact hd

theorem payload_of_not_takesACK (now : Int)
    (hs : c.state = .established ∨ c.state = .closeWait) (hout : c.outgoing = []) (ht : c.takesACK seg = false) :
    ∀ p ∈ (c.handleSegment now seg).outgoing, p.seg.payload = [] := by
  have hnil : ∀ d : Conn σ, d.outgoing = [] → ∀ p ∈ d.outgoing, p.seg.payload = [] := by
    intro d hd p hp
    rw [hd] at hp
    cases hp
  have hone : ∀ d : Conn σ, d.outgoing = [] → ∀ p ∈ (queueACK now d).outgoing, p.seg.payload = [] := by
    intro d hd p hp
    have hp' : p ∈ d.outgoing ++ [_] := hp
    rw [hd, List.nil_append, List.mem_singleton] at hp'
    rw [hp']
    rfl
  have houtt : (c.touch now).outgoing = [] := hout
  have hno : ∀ st, (c.touch now).state = st → st ≠ .established ∧ st ≠ .closeWait → False := by
    rintro st rfl hne
    exact hs.elim hne.1 hne.2
  have h := handled now seg c
  generalize c.handleSegment now seg = d at h ⊢
  cases h with
  | ignored => exact hnil _ houtt
  | answered => exact hone _ houtt
  | reset =>
    rw [resetTeardown_frame]
    exact hnil _ houtt
  | refused _ hst => rcases hst with hst | hst | hst <;> exact (hno _ hst (by decide)).elim
  | closing _ hst | timeWait _ hst | lastAck _ hst | refusedOpen _ hst | synAck hst | syn hst | passive hst =>
    exact (hno _ hst (by decide)).elim
  | data _ _ hyes | closeWait _ _ hyes => cases ht.symm.trans hyes

theorem firstSent_handleSegment (now : Int) (hs : c.state = .established ∨ c.state = .closeWait)
    (hh : c.hung = false) (hout : c.outgoing = []) (hhi : seqAfter seg.ack c.sendBuf.nxt = false) (x : Nat) :
    ((∃ p ∈ (c.handleSegment now seg).outgoing, p.carries x) ∧ c.sendBuf.pos c.sendBuf.nxt ≤ x) ↔
      c.takesACK seg = true ∧ seqAfter seg.ack c.sendBuf.una = true ∧ c.sendBuf.pos c.sendBuf.nxt ≤ x ∧
        x < c.sendBuf.pos c.sendBuf.nxt + c.ackFlushes seg := by
  by_cases ht : c.takesACK seg = true
  · have hs' : Core.acksData c.state = true := by
      rcases hs with hs | hs <;> rw [hs] <;> rfl
    obtain ⟨ts, acks, heq, hacks⟩ := outgoing_takesACK now hs' ht
    have hnone : ∀ p ∈ acks, ¬p.carries x := by
      intro p hp hx
      unfold Packet.carries at hx
      rw [hacks p hp, List.length_nil] at hx
      omega
    rw [heq]
    by_cases hlo : seqAfter seg.ack c.sendBuf.una = true
    · rw [processACK_new (c := { c.touch now with tsRecent := ts }) now _ hlo hhi]
      obtain ⟨out, hnew, hx⟩ := outgoing_processNewACK (c := { c.touch now with tsRecent := ts }) now hlo hhi
      have hnil : ({ c.touch now with tsRecent := ts } : Conn σ).outgoing = [] := hout
      rw [hnew, hnil, List.nil_append]
      have hx' : (∃ p ∈ out, p.carries x) ↔ c.sendBuf.pos c.sendBuf.nxt ≤ x ∧
          x < c.sendBuf.pos c.sendBuf.nxt + c.ackFlushes seg := hx x
      constructor
      · rintro ⟨⟨p, hp, hc⟩, -⟩
        rw [List.mem_append] at hp
        rcases hp with hp | hp
        · exact ⟨ht, hlo, hx'.1 ⟨p, hp, hc⟩⟩
        · exact absurd hc (hnone p hp)
      · rintro ⟨-, -, hpos⟩
        obtain ⟨p, hp, hc⟩ := hx'.2 hpos
        exact ⟨⟨p, List.mem_append_left _ hp, hc⟩, hpos.1⟩
    · -- a duplicate acknowledgment sends only what was sent before
      rw [processACK, if_pos (by show (!seqAfter seg.ack c.sendBuf.una) = true; simpa using hlo)]
      obtain ⟨cc, out, rto, t, hung, hd, hall, -⟩ :=
        processDupACK_eq (c := { c.touch now with tsRecent := ts }) now seg.options hh
      rw [hd]
      constructor
      · rintro ⟨⟨p, hp, hc⟩, hle⟩
        have hp' : p ∈ (c.outgoing ++ out) ++ acks := hp
        rw [hout, List.nil_append, List.mem_append] at hp'
        rcases hp' with hp' | hp'
        · have hold : p.pos + p.seg.payload.length ≤ c.sendBuf.pos c.sendBuf.nxt := (hall p hp').2
          unfold Packet.carries at hc
          omega
        · exact absurd hc (hnone p hp')
      · rintro ⟨-, h, -⟩
        exact absurd h hlo
  · have hno := payload_of_not_takesACK now hs hout (by simpa using ht)
    constructor
    · rintro ⟨⟨p, hp, hc⟩, -⟩
      unfold Packet.carries at hc
      rw [hno p hp, List.length_nil] at hc
      omega
    · rintro ⟨h, -⟩
      exact absurd h ht

end Conn

namespace Host

/-- What a segment makes the connection send for the first time lies in the window of that segment exactly when the flush,
which still goes by the window known before, keeps to it. -/
theorem first_sends_in_window_iff {h : Host σ} (hr : (system σ).Reach anyStep h)
    (hs : h.conn.state = .established ∨ h.conn.state = .closeWait) (seg : Segment)
    (hhi : seqAfter seg.ack h.conn.sendBuf.nxt = false) (now : Int) :
    (∀ h', h.next (.segment now seg) = some h' → ∀ p ∈ h.answer h', ∀ x, p.carries x →
        h.conn.sendBuf.pos h.conn.sendBuf.nxt ≤ x →
        x < h.conn.sendBuf.pos seg.ack + (h.conn.scaledWindow seg).toNat) ↔ h.conn.keepsToWindow seg := by
  have hfirst := Conn.firstSent_handleSegment now hs (not_hung hr) (outgoing_eq_nil hr) hhi
  -- the position of `SND.NXT` from that of the acknowledgment
  have hpos : seqAfter seg.ack h.conn.sendBuf.una = true → h.conn.sendBuf.pos h.conn.sendBuf.nxt =
      h.conn.sendBuf.pos seg.ack + (h.conn.sendBuf.nxt - seg.ack).toNat := by
    intro hlo
    have hsum := (SendBuf.ack_between hlo hhi).2.2
    unfold SendBuf.pos
    unfold SendBuf.unacked at hsum
    omega
  constructor
  · intro hall ht hlo
    have hs' : Core.acksData h.conn.state = true := by
      rcases hs with hs | hs <;> rw [hs] <;> rfl
    obtain ⟨h', hn⟩ := next_segment ((Conn.hung_handleSegment now hs' ht hlo hhi).trans (not_hung hr))
    by_cases hzero : h.conn.ackFlushes seg = 0
    · exact .inl hzero
    · -- the last byte of the flush
      right
      obtain ⟨⟨p, hp, hc⟩, hle⟩ := (hfirst
        (h.conn.sendBuf.pos h.conn.sendBuf.nxt + h.conn.ackFlushes seg - 1)).2 ⟨ht, hlo, by omega, by omega⟩
      rw [← answer_segment hn] at hp
      have hlt := hall h' hn p hp _ hc hle
      rw [hpos hlo] at hlt
      omega
  · intro hkeep h' hn p hp x hc hle
    rw [answer_segment hn] at hp
    obtain ⟨ht, hlo, -, hlt⟩ := (hfirst x).1 ⟨⟨p, hp, hc⟩, hle⟩
    rcases hkeep ht hlo with hzero | hfit
    · omega
    · rw [hpos hlo] at hlt hle
      omega

def secondHeldBack : List Event := opening ++ [.write 0 [1], .write 0 [2]]

def firstAcked (window : BitVec 16) : Segment :=
  { srcPort := 0, dstPort := 0, seq := 701, ack := 102, flags := flagACK, window := window }

/-- The window shrinks to ten bytes, and the second byte is sent within it. -/
theorem first_sends_in_window_shrunk :
    ∃ h h' : Host SmallController, h.next (.segment 0 (firstAcked 10)) = some h' ∧
      ∃ p ∈ h.answer h', p.carries 2 ∧ 2 < h.conn.sendBuf.pos 102 + 10 := by
  have hr : (system SmallController).Reach anyStep ((fresh {} 0).run secondHeldBack) :=
    run_reach (by decide +kernel) (execMeets_anyStep _ _ _)
  have hkeep : ((fresh {} 0).run secondHeldBack : Host SmallController).conn.keepsToWindow (firstAcked 10) :=
    fun _ _ => .inr (by decide +kernel)
  have hn : ((fresh {} 0).run secondHeldBack : Host SmallController).next (.segment 0 (firstAcked 10)) = some _ :=
    next_run (by decide +kernel)
  have hall := (first_sends_in_window_iff hr (by decide +kernel) (firstAcked 10) (by decide +kernel) 0).2 hkeep _ hn
  refine ⟨_, _, hn, ?_⟩
  have hsent : ∃ p ∈ ((fresh {} 0).run secondHeldBack : Host SmallController).answer
      (((fresh {} 0).run secondHeldBack).run [.segment 0 (firstAcked 10)]), p.pos = 2 ∧ p.seg.payload = [2] := by
    decide +kernel
  obtain ⟨p, hp, hpos, hpay⟩ := hsent
  have hc : p.carries 2 := by
    rw [Packet.carries, hpos, hpay]
    decide
  exact ⟨p, hp, hc, hall p hp 2 hc (by decide +kernel)⟩

/-- The window closes, and the second byte is sent all the same. -/
theorem first_sends_beyond_window :
    ∃ h h' : Host SmallController, (system SmallController).Reach anyStep h ∧ h.conn.state = .established ∧
      h.conn.segmentAcceptable (firstAcked 0) = true ∧ seqAfterEq 102 h.conn.sendBuf.una = true ∧
      seqAfter 102 h.conn.sendBuf.nxt = false ∧ h.next (.segment 0 (firstAcked 0)) = some h' ∧
      ∃ p ∈ h.answer h', p.seg.seq = 102 ∧ p.seg.payload = [2] ∧ h.conn.sendBuf.nxt = 102 ∧
        (102 : BitVec 32) + h.conn.scaledWindow (firstAcked 0) = 102 := by
  refine ⟨(fresh {} 0).run secondHeldBack, ((fresh {} 0).run secondHeldBack).run [.segment 0 (firstAcked 0)],
    ?_, ?_, ?_, ?_, ?_, ?_, ?_⟩
  · exact run_reach (by decide +kernel) (execMeets_anyStep _ _ _)
  · decide +kernel
  · decide +kernel
  · decide +kernel
  · decide +kernel
  · exact next_run (by decide +kernel)
  · decide +kernel

end Host

/-! ### Reordered acknowledgments -/

theorem Controller.onDupACK_ccAfterACK {H : HSMath} (cc : Controller H) (ack acked : BitVec 32) :
    (onDupACK (Conn.ccAfterACK cc ack acked)).2 = false := by
  have hfirst : ∀ nr : NewReno, nr.dupAckCnt = 0 → nr.onDupACK.2 = false := by
    intro nr hz
    unfold NewReno.onDupACK
    simp [hz]
  have hack : ∀ (nr : NewReno) (inc n : BitVec 32), (nr.onACKWith inc n).dupAckCnt = 0 := by
    intro nr inc n
    unfold NewReno.onACKWith
    split <;> rfl
  unfold Conn.ccAfterACK
  simp only
  split
  · cases cc <;> exact hfirst _ rfl
  · cases cc <;> exact hfirst _ (hack _ _ _)

namespace Conn

variable {seg : Segment} {c : Conn σ}

theorem takesACK_established (hst : c.state = .established) :
    c.takesACK seg = (c.segmentAcceptable seg && !seg.hasFlag flagRST && !seg.hasFlag flagSYN && seg.hasFlag flagACK &&
      c.pawsOK seg.options) := by
  have hne : (State.established == State.synReceived) = false := rfl
  unfold takesACK synRcvdOK
  rw [hst]
  simp [hne]

structure SameReceiver (c d : Conn σ) : Prop where
  state : d.state = c.state
  opened : d.opened = c.opened
  recvBuf : d.recvBuf = c.recvBuf
  recvBufCap : d.recvBufCap = c.recvBufCap
  tsOK : d.tsOK = c.tsOK
  sndWndShift : d.sndWndShift = c.sndWndShift

theorem SameReceiver.segmentAcceptable {c d : Conn σ} (h : SameReceiver c d) (seg : Segment) :
    d.segmentAcceptable seg = c.segmentAcceptable seg := by
  unfold Conn.segmentAcceptable acceptWnd
  rw [h.opened, h.recvBuf, h.recvBufCap]

theorem SameReceiver.scaledWindow {c d : Conn σ} (h : SameReceiver c d) (seg : Segment) :
    d.scaledWindow seg = c.scaledWindow seg := by
  unfold Conn.scaledWindow
  rw [h.sndWndShift]

theorem pawsOK_congr {c d : Conn σ} (hok : d.tsOK = c.tsOK) (hts : d.tsRecent = c.tsRecent) (opts : List TcpOption) :
    d.pawsOK opts = c.pawsOK opts := by
  unfold pawsOK
  rw [hok, hts]

theorem tsRecent_touch (now : Int) (opts : List TcpOption) (c : Conn σ) :
    ((c.touch now).recordTimestamp opts).tsRecent = (c.recordTimestamp opts).tsRecent := by
  have hok : (c.touch now).tsOK = c.tsOK := rfl
  unfold recordTimestamp
  rw [hok]
  split <;> rfl

theorem handleSegment_pureACK (now : Int) (hst : c.state = .established)
    (hp : seg.pureACK = true) (ht : c.takesACK seg = true) :
    c.handleSegment now seg =
      { processACK now seg.ack seg.options ((c.touch now).recordTimestamp seg.options) with
        sndWnd := (processACK now seg.ack seg.options ((c.touch now).recordTimestamp seg.options)).scaledWindow seg } := by
  obtain ⟨hack, hpaws, heq⟩ := handleSegment_takesACK now (by rw [hst]; rfl) ht
  simp only [Segment.pureACK, Segment.payloadFreeACK, Bool.and_eq_true, decide_eq_true_eq, Bool.not_eq_true'] at hp
  obtain ⟨⟨⟨⟨-, hpay⟩, -⟩, hfin⟩, -⟩ := hp
  have hcw : c.state ≠ .closeWait := by
    rw [hst]
    decide
  rw [heq, if_neg hcw, handleDataState_eq (c := c.touch now) now (hpaws hcw), ← processSegACK_of_ack now hack]
  have hstate : (processSegACK now seg ((c.touch now).recordTimestamp seg.options)).state = .established := by
    rw [state_processSegACK]
    obtain ⟨ts, hts⟩ := recordTimestamp_eq seg.options (c.touch now)
    rw [hts]
    exact hst
  generalize processSegACK now seg ((c.touch now).recordTimestamp seg.options) = d at hstate
  have hidle : dataAndFIN seg d = d := by
    unfold dataAndFIN
    simp [hpay, hfin, hstate]
  rw [if_neg (by simp [hpay, hfin]), hidle]

theorem handleSegment_newPureACK (now : Int) (hst : c.state = .established)
    (hp : seg.pureACK = true) (ht : c.takesACK seg = true) (hlo : seqAfter seg.ack c.sendBuf.una = true)
    (hhi : seqAfter seg.ack c.sendBuf.nxt = false) :
    SameReceiver c (c.handleSegment now seg) ∧ (c.handleSegment now seg).hung = c.hung ∧
      (c.handleSegment now seg).tsRecent = (c.recordTimestamp seg.options).tsRecent ∧
      (c.handleSegment now seg).sendBuf.una = seg.ack ∧
      (c.handleSegment now seg).cc = ccAfterACK c.cc seg.ack (c.sendBuf.acknowledge seg.ack).2 ∧
      (c.handleSegment now seg).sndWnd = c.scaledWindow seg := by
  rw [handleSegment_pureACK now hst hp ht, ← tsRecent_touch now]
  obtain ⟨ts, hts⟩ := recordTimestamp_eq seg.options (c.touch now)
  rw [hts]
  have huna : (processNewACK now seg.ack seg.options { c.touch now with tsRecent := ts }).sendBuf.una = seg.ack := by
    rw [una_processNewACK]
    show (c.sendBuf.acknowledge seg.ack).1.una = seg.ack
    rw [SendBuf.acknowledge_eq hlo hhi]
    rfl
  rw [processACK_new (c := { c.touch now with tsRecent := ts }) now _ hlo hhi, processNewACK_frame]
  exact ⟨⟨rfl, rfl, rfl, rfl, rfl, rfl⟩, rfl, rfl, huna, rfl, rfl⟩

theorem sndWnd_pureACK (now : Int) (hst : c.state = .established) (hp : seg.pureACK = true)
    (ht : c.takesACK seg = true) (hquiet : seqAfter seg.ack c.sendBuf.una = true ∨ (onDupACK c.cc).2 = false) :
    (c.handleSegment now seg).sndWnd = c.scaledWindow seg ∧ (c.handleSegment now seg).hung = c.hung := by
  rw [handleSegment_pureACK now hst hp ht]
  obtain ⟨ts, hts⟩ := recordTimestamp_eq seg.options (c.touch now)
  rw [hts]
  unfold processACK
  split
  · -- a duplicate, without a fast retransmit
    rename_i hlo
    have hdup : (onDupACK c.cc).2 = false := by
      refine hquiet.resolve_left ?_
      intro h
      have hlo' : (!seqAfter seg.ack c.sendBuf.una) = true := hlo
      rw [h] at hlo'
      cases hlo'
    have hdup' : (onDupACK ({ c.touch now with tsRecent := ts } : Conn σ).cc).2 = false := hdup
    unfold processDupACK updateSACK
    simp only [hdup', Bool.false_eq_true, if_false]
    split <;> exact ⟨rfl, rfl⟩
  · split
    · exact ⟨rfl, rfl⟩
    · rw [processNewACK_frame]
      exact ⟨rfl, rfl⟩

theorem handleSegment_of_not_pawsOK (now : Int) (hst : c.state = .established)
    (hacc : c.segmentAcceptable seg = true) (hp : seg.pureACK = true) (hpaws : c.pawsOK seg.options = false) :
    c.handleSegment now seg = queueACK now (c.touch now) := by
  simp only [Segment.pureACK, Segment.payloadFreeACK, Bool.and_eq_true, decide_eq_true_eq, Bool.not_eq_true'] at hp
  obtain ⟨⟨⟨⟨hack, -⟩, hsyn⟩, -⟩, hrst⟩ := hp
  have hst' : (c.touch now).state = .established := hst
  have hpaws' : (c.touch now).pawsOK seg.options = false := hpaws
  have hpass : c.Passes seg := ⟨by rw [hacc]; rfl, hrst, .inl hsyn, hack⟩
  rw [hpass.handleSegment now (by rw [hst]; rfl), dispatch, hst']
  simp only [handleDataState, hpaws', Bool.not_false, if_true]

end Conn

namespace Host

theorem next_pureACK {h : Host σ} (hr : (system σ).Reach anyStep h) {seg : Segment} (now : Int)
    (hhung : (h.conn.handleSegment now seg).hung = h.conn.hung) :
    ∃ h', h.next (.segment now seg) = some h' ∧ (system σ).Reach anyStep h' ∧
      h'.conn = { h.conn.handleSegment now seg with outgoing := [] } := by
  obtain ⟨h', hn⟩ := next_segment (hhung.trans (not_hung hr))
  exact ⟨h', hn, hr.step trivial hn, conn_segment hn⟩

/-- Two acknowledgments that are taken, the second of more than the first and not before it in time. -/
@[mk_iff] structure AcksInOrder (c : Conn σ) (a₁ a₂ : Segment) : Prop where
  pure₁ : a₁.pureACK = true
  pure₂ : a₂.pureACK = true
  seq : a₁.seq = a₂.seq
  new₁ : seqAfter a₁.ack c.sendBuf.una = true
  new₂ : seqAfter a₂.ack c.sendBuf.una = true
  order : seqAfter a₂.ack a₁.ack = true
  sent₁ : seqAfter a₁.ack c.sendBuf.nxt = false
  sent₂ : seqAfter a₂.ack c.sendBuf.nxt = false
  taken₁ : c.takesACK a₁ = true
  taken₂ : c.takesACK a₂ = true
  paws : (c.recordTimestamp a₁.options).pawsOK a₂.options = true

instance (c : Conn σ) (a₁ a₂ : Segment) : Decidable (AcksInOrder c a₁ a₂) :=
  decidable_of_iff _ (acksInOrder_iff c a₁ a₂).symm

variable {H : HSMath}

variable {h : Host (Controller H)} {a₁ a₂ : Segment}

theorem acks_in_order (hr : (system (Controller H)).Reach anyStep h)
    (hst : h.conn.state = .established) (ha : AcksInOrder h.conn a₁ a₂) (now now' : Int) :
    ∃ h₁ h₁₂, h.next (.segment now a₁) = some h₁ ∧ h₁.next (.segment now' a₂) = some h₁₂ ∧
      h₁₂.conn.sndWnd = h.conn.scaledWindow a₂ := by
  obtain ⟨hsame, hhung, hts, huna, -, -⟩ :=
    Conn.handleSegment_newPureACK now hst ha.pure₁ ha.taken₁ ha.new₁ ha.sent₁
  obtain ⟨h₁, hn₁, hr₁, hc₁⟩ := next_pureACK hr now hhung
  generalize h.conn.handleSegment now a₁ = d at hsame hts huna hc₁
  have hsame₁ : Conn.SameReceiver h.conn h₁.conn := by
    rw [hc₁]
    exact { hsame with }
  have hst₁ : h₁.conn.state = .established := hsame₁.state.trans hst
  have hpaws : h₁.conn.pawsOK a₂.options = true := by
    rw [Conn.pawsOK_congr (c := h.conn.recordTimestamp a₁.options) ?_ (by rw [hc₁]; exact hts) a₂.options]
    · exact ha.paws
    · rw [hsame₁.tsOK]
      obtain ⟨ts, hrec⟩ := Conn.recordTimestamp_eq a₁.options h.conn
      rw [hrec]
  have htaken : h₁.conn.takesACK a₂ = true := by
    have ht := ha.taken₂
    rw [Conn.takesACK_established hst] at ht
    rw [Conn.takesACK_established hst₁, hsame₁.segmentAcceptable, hpaws, Bool.and_true]
    exact (Bool.and_eq_true_iff.1 ht).1
  have hnew : seqAfter a₂.ack h₁.conn.sendBuf.una = true := by
    rw [hc₁, huna]
    exact ha.order
  obtain ⟨hwnd, hhung₁⟩ := Conn.sndWnd_pureACK now' hst₁ ha.pure₂ htaken (.inl hnew)
  obtain ⟨h₁₂, hn₁₂, -, hc₁₂⟩ := next_pureACK hr₁ now' hhung₁
  refine ⟨h₁, h₁₂, hn₁, hn₁₂, ?_⟩
  rw [hc₁₂, ← hsame₁.scaledWindow]
  exact hwnd

theorem acks_reversed (hr : (system (Controller H)).Reach anyStep h)
    (hst : h.conn.state = .established) (ha : AcksInOrder h.conn a₁ a₂) (now now' : Int) :
    ∃ h₂ h₂₁, h.next (.segment now a₂) = some h₂ ∧ h₂.next (.segment now' a₁) = some h₂₁ ∧
      h₂₁.conn.sndWnd =
        if (h.conn.recordTimestamp a₂.options).pawsOK a₁.options then h.conn.scaledWindow a₁
        else h.conn.scaledWindow a₂ := by
  obtain ⟨hsame, hhung, hts, huna, hcc, hwnd⟩ :=
    Conn.handleSegment_newPureACK now hst ha.pure₂ ha.taken₂ ha.new₂ ha.sent₂
  obtain ⟨h₂, hn₂, hr₂, hc₂⟩ := next_pureACK hr now hhung
  generalize h.conn.handleSegment now a₂ = d at hsame hts huna hcc hwnd hc₂
  have hsame₂ : Conn.SameReceiver h.conn h₂.conn := by
    rw [hc₂]
    exact { hsame with }
  have hst₂ : h₂.conn.state = .established := hsame₂.state.trans hst
  have hpaws : h₂.conn.pawsOK a₁.options = (h.conn.recordTimestamp a₂.options).pawsOK a₁.options := by
    refine Conn.pawsOK_congr ?_ (by rw [hc₂]; exact hts) a₁.options
    rw [hsame₂.tsOK]
    obtain ⟨ts, hrec⟩ := Conn.recordTimestamp_eq a₂.options h.conn
    rw [hrec]
  have ht := ha.taken₁
  rw [Conn.takesACK_established hst, Bool.and_eq_true_iff] at ht
  by_cases hp : (h.conn.recordTimestamp a₂.options).pawsOK a₁.options = true
  · have htaken : h₂.conn.takesACK a₁ = true := by
      rw [Conn.takesACK_established hst₂, hsame₂.segmentAcceptable, hpaws, hp, Bool.and_true]
      exact ht.1
    have hdup : (CongestionController.onDupACK h₂.conn.cc).2 = false := by
      rw [hc₂]
      show (CongestionController.onDupACK d.cc).2 = false
      rw [hcc]
      exact Controller.onDupACK_ccAfterACK _ _ _
    obtain ⟨hwnd₂, hhung₂⟩ := Conn.sndWnd_pureACK now' hst₂ ha.pure₁ htaken (.inr hdup)
    obtain ⟨h₂₁, hn₂₁, -, hc₂₁⟩ := next_pureACK hr₂ now' hhung₂
    refine ⟨h₂, h₂₁, hn₂, hn₂₁, ?_⟩
    rw [if_pos hp, hc₂₁, ← hsame₂.scaledWindow]
    exact hwnd₂
  · have hacc : h₂.conn.segmentAcceptable a₁ = true := by
      rw [hsame₂.segmentAcceptable]
      simp only [Bool.and_eq_true] at ht
      exact ht.1.1.1.1
    have heq := Conn.handleSegment_of_not_pawsOK now' hst₂ hacc ha.pure₁ (by rw [hpaws]; simpa using hp)
    have hhung₂ : (h₂.conn.handleSegment now' a₁).hung = h₂.conn.hung := by
      rw [heq]
      rfl
    obtain ⟨h₂₁, hn₂₁, -, hc₂₁⟩ := next_pureACK hr₂ now' hhung₂
    refine ⟨h₂, h₂₁, hn₂, hn₂₁, ?_⟩
    rw [if_neg hp, hc₂₁, heq, ← hwnd]
    show h₂.conn.sndWnd = d.sndWnd
    rw [hc₂]

/-- The order of two acknowledgments of new data does not matter for the window exactly when they bring the same one
or PAWS drops the older: the window is taken from the last segment processed. -/
theorem reordered_acks_iff {h : Host (Controller H)} (hr : (system (Controller H)).Reach anyStep h)
    (hst : h.conn.state = .established) {a₁ a₂ : Segment} (ha : AcksInOrder h.conn a₁ a₂) (now now' : Int) :
    (∃ h₁ h₁₂ h₂ h₂₁, h.next (.segment now a₁) = some h₁ ∧ h₁.next (.segment now' a₂) = some h₁₂ ∧
        h.next (.segment now a₂) = some h₂ ∧ h₂.next (.segment now' a₁) = some h₂₁ ∧
        h₂₁.conn.sndWnd = h.conn.scaledWindow a₂ ∧ h₁₂.conn.sndWnd = h₂₁.conn.sndWnd) ↔
      (h.conn.recordTimestamp a₂.options).pawsOK a₁.options = false ∨
        h.conn.scaledWindow a₁ = h.conn.scaledWindow a₂ := by
  obtain ⟨g₁, g₁₂, hn₁, hn₁₂, hwnd₁₂⟩ := acks_in_order hr hst ha now now'
  obtain ⟨g₂, g₂₁, hn₂, hn₂₁, hwnd₂₁⟩ := acks_reversed hr hst ha now now'
  constructor
  · rintro ⟨h₁, h₁₂, h₂, h₂₁, -, -, hm₂, hm₂₁, hw, -⟩
    cases hn₂.symm.trans hm₂
    cases hn₂₁.symm.trans hm₂₁
    rw [hwnd₂₁] at hw
    split at hw
    · exact .inr hw
    · rename_i hp
      exact .inl (by simpa using hp)
  · intro hcond
    have hw : g₂₁.conn.sndWnd = h.conn.scaledWindow a₂ := by
      rw [hwnd₂₁]
      split
      · rename_i hp
        rcases hcond with hcond | hcond
        · cases hcond.symm.trans hp
        · exact hcond
      · rfl
    exact ⟨g₁, g₁₂, g₂, g₂₁, hn₁, hn₁₂, hn₂, hn₂₁, hw, hwnd₁₂.trans hw.symm⟩

def twoInFlight : List Event := opening ++ [.write 0 [1, 2]]

/-- An acknowledgment of the two bytes up to `ack`, with a window. -/
def ackUpTo (ack : BitVec 32) (window : BitVec 16) : Segment :=
  { srcPort := 0, dstPort := 0, seq := 701, ack := ack, flags := flagACK, window := window }

/-- Two acknowledgments with the same window, in either order. -/
theorem reordered_acks_sameWindow :
    ∃ h h₂ h₂₁ : Host SmallController, h.next (.segment 0 (ackUpTo 103 500)) = some h₂ ∧
      h₂.next (.segment 0 (ackUpTo 102 500)) = some h₂₁ ∧ h₂₁.conn.sndWnd = h.conn.scaledWindow (ackUpTo 103 500) := by
  have hr : (system SmallController).Reach anyStep ((fresh {} 0).run twoInFlight) :=
    run_reach (by decide +kernel) (execMeets_anyStep _ _ _)
  have ha : AcksInOrder ((fresh {} 0).run twoInFlight : Host SmallController).conn (ackUpTo 102 500)
      (ackUpTo 103 500) := by
    decide +kernel
  obtain ⟨h₁, h₁₂, h₂, h₂₁, -, -, hn₂, hn₂₁, hw, -⟩ :=
    (reordered_acks_iff hr (by decide +kernel) ha 0 0).2 (.inr rfl)
  exact ⟨_, h₂, h₂₁, hn₂, hn₂₁, hw⟩

/-- The newer acknowledgment closes the window, and the older one that arrives after it opens it again. -/
theorem reordered_acks_reopen :
    ∃ h h₂ h₂₁ : Host SmallController, (system SmallController).Reach anyStep h ∧ h.conn.state = .established ∧
      AcksInOrder h.conn (ackUpTo 102 1000) (ackUpTo 103 0) ∧ h.next (.segment 0 (ackUpTo 103 0)) = some h₂ ∧
      h₂.next (.segment 0 (ackUpTo 102 1000)) = some h₂₁ ∧ h.conn.scaledWindow (ackUpTo 103 0) = 0 ∧
      h₂₁.conn.sndWnd = 1000 := by
  refine ⟨(fresh {} 0).run twoInFlight, ((fresh {} 0).run twoInFlight).run [.segment 0 (ackUpTo 103 0)],
    (((fresh {} 0).run twoInFlight).run [.segment 0 (ackUpTo 103 0)]).run [.segment 0 (ackUpTo 102 1000)],
    ?_, ?_, ?_, ?_, ?_, ?_, ?_⟩
  · exact run_reach (by decide +kernel) (execMeets_anyStep _ _ _)
  · decide +kernel
  · decide +kernel
  · exact next_run (by decide +kernel)
  · exact next_run (by decide +kernel)
  · decide +kernel
  · decide +kernel

end Host

end Libp2px.Vtcp
