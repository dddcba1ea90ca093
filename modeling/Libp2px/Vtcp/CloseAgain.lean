import Libp2px.Vtcp.FinOnce
import Libp2px.Vtcp.Retransmit

/-!
# A second `Close`

After `Close` the connection is ended or in one of the five closing states, whatever happens next.  A second call finds
it ended and returns, or finds it in FIN-WAIT-1 or FIN-WAIT-2 and returns an error.  In CLOSING, LAST-ACK and TIME-WAIT
the call takes the default case of the switch and ends the connection at once.
-/

namespace Libp2px.Vtcp

open Transition

variable {σ : Type} [CongestionController σ]

namespace Conn

structure Untouched (c d : Conn σ) : Prop where
  state : d.state = c.state
  rtoTimer : d.rtoTimer = c.rtoTimer
  persistTimer : d.persistTimer = c.persistTimer
  keepaliveTimer : d.keepaliveTimer = c.keepaliveTimer
  timeWaitTimer : d.timeWaitTimer = c.timeWaitTimer
  sendBuf : d.sendBuf = c.sendBuf
  recvBuf : d.recvBuf = c.recvBuf

/-- The states in which a second `Close` ends the connection. -/
def cutShort : State → Bool
  | .closing | .lastAck | .timeWait => true
  | _ => false

theorem closing_close (now : Int) (c : Conn σ) (hc : (c.close now).closed = false) :
    (c.close now).state ∈ Core.closingStates := by
  revert hc
  unfold close
  split
  · rename_i hcl
    intro hc
    cases hcl.symm.trans hc
  · split
    · intro _
      show State.finWait1 ∈ Core.closingStates
      decide
    · intro _
      show State.lastAck ∈ Core.closingStates
      decide
    · intro hc
      cases hc
    · intro _
      show State.finWait1 ∈ Core.closingStates
      decide
    · rename_i hst
      intro _
      rw [hst]
      decide
    · rename_i hst
      intro _
      rw [hst]
      decide
    · intro hc
      cases hc

theorem close_again (now : Int) {c : Conn σ} (hc : c.closed = false → c.state ∈ Core.closingStates) :
    c.close now = if c.closed = false ∧ cutShort c.state = true then
        c.shut.stopRTO.stopKeepalive.stopPersist.broadcastRecv.broadcastSend
      else c := by
  unfold close
  cases hcl : c.closed with
  | true => rfl
  | false =>
    have hmem := hc hcl
    cases hst : c.state with
    | closed | listen | synSent | synReceived | established | closeWait =>
      rw [hst] at hmem
      exact absurd hmem (by decide)
    | finWait1 | finWait2 | closing | lastAck | timeWait => rfl

end Conn

namespace Host

theorem closing_after_close {h₀ h₁ h : Host σ} {now₀ : Int} (hr : (system σ).Reach anyStep h₀)
    (hclose : h₀.next (.close now₀) = some h₁) (hrun : (system σ).Steps anyStep h₁ h) :
    h.conn.closed = false → h.conn.state ∈ Core.closingStates := by
  have happ : h₀.finish (h₀.conn.close now₀) = h₁ := Option.some.inj (apply_of_next hclose).1
  have hfirst : h₁.conn.closed = false → h₁.conn.state ∈ Core.closingStates := by
    rw [← happ]
    exact Conn.closing_close now₀ h₀.conn
  have hopen : h₁.core.opened = false → h₁.core.state = .closed := (send_inv (hr.step trivial hclose)).1.unopened
  -- both facts are kept by every step of the core
  refine (hrun.induction (I := fun g => (g.core.opened = false → g.core.state = .closed) ∧
    (g.core.closed = false → g.core.state ∈ Core.closingStates)) ⟨hopen, hfirst⟩ ?_).2
  intro g e g' hg _ hn
  have hstart : ((g.core.receive e).opened = false → (g.core.receive e).state = .closed) ∧
      ((g.core.receive e).closed = false → (g.core.receive e).state ∈ Core.closingStates) := by
    cases e <;> exact hg
  refine (next_core hn).induction (I := fun s => (s.opened = false → s.state = .closed) ∧
    (s.closed = false → s.state ∈ Core.closingStates)) hstart ?_
  intro s t hs hst
  exact ⟨hst.unopened hs.1, Core.closing_step hst hs.1 hs.2⟩

/-- A `Close` after a `Close` returns.  It leaves the state, the timers and the buffers alone and sends nothing exactly
when the connection is ended or not in CLOSING, LAST-ACK or TIME-WAIT. -/
theorem close_idempotent_iff {h₀ h₁ h : Host σ} {now₀ : Int} (hr : (system σ).Reach anyStep h₀)
    (hclose : h₀.next (.close now₀) = some h₁) (hrun : (system σ).Steps anyStep h₁ h) (now : Int) :
    ∃ h', h.next (.close now) = some h' ∧
      (h.conn.Untouched h'.conn ∧ h'.sent = h.sent ↔ h.conn.closed = true ∨ Conn.cutShort h.conn.state = false) := by
  have hreach : (system σ).Reach anyStep h := (hr.step trivial hclose).steps hrun
  have hout := outgoing_eq_nil hreach
  have hhung : h.conn.hung = false := not_hung hreach
  have hagain := Conn.close_again now (closing_after_close hr hclose hrun)
  by_cases hcut : h.conn.closed = false ∧ Conn.cutShort h.conn.state = true
  · rw [if_pos hcut] at hagain
    refine ⟨h.finish (h.conn.close now), next_of_apply rfl ?_, ?_⟩
    · rw [hagain]
      exact hhung
    · apply iff_of_false
      · rintro ⟨hsame, -⟩
        have hst : State.closed = h.conn.state := by
          rw [← hsame.state, hagain]
          rfl
        rw [← hst] at hcut
        cases hcut.2
      · rintro (hcl | hst)
        · cases hcut.1.symm.trans hcl
        · cases hcut.2.symm.trans hst
  · rw [if_neg hcut] at hagain
    refine ⟨h.finish (h.conn.close now), next_of_apply rfl ?_, ?_⟩
    · rw [hagain]
      exact hhung
    · apply iff_of_true
      · rw [hagain]
        constructor
        · exact ⟨rfl, rfl, rfl, rfl, rfl, rfl, rfl⟩
        · show h.sent ++ h.conn.outgoing = h.sent
          rw [hout, List.append_nil]
      · cases hcl : h.conn.closed with
        | true => exact .inl rfl
        | false => exact .inr (Bool.eq_false_of_not_eq_true fun hst => hcut ⟨hcl, hst⟩)

end Host

/-- The peer acknowledges the FIN, and the connection is in FIN-WAIT-2. -/
def finAcked : Event :=
  .segment 0 { srcPort := 0, dstPort := 0, seq := 701, ack := 102, flags := flagACK, window := 1000 }

def peerFIN : Event :=
  .segment 0 { srcPort := 0, dstPort := 0, seq := 701, ack := 102, flags := flagFIN ||| flagACK, window := 1000 }

theorem close_idempotent_finWait2 :
    ∃ h h' : Host SmallController, (Host.system SmallController).Reach anyStep h ∧ h.conn.state = .finWait2 ∧
      h.next (.close 1) = some h' ∧ h.conn.Untouched h'.conn ∧ h'.sent = h.sent := by
  have hr : (Host.system SmallController).Reach anyStep ((Host.fresh {} 0).run opening) :=
    Host.run_reach (by decide +kernel) (execMeets_anyStep _ _ _)
  have hclose : ((Host.fresh {} 0).run opening : Host SmallController).next (.close 0) = some _ :=
    Host.next_run (by decide +kernel)
  have hrun : (Host.system SmallController).Steps anyStep (((Host.fresh {} 0).run opening).run [.close 0])
      ((((Host.fresh {} 0).run opening).run [.close 0]).run [finAcked]) :=
    Host.run_steps (by decide +kernel) (execMeets_anyStep _ _ _)
  obtain ⟨h', hn, hiff⟩ := Host.close_idempotent_iff hr hclose hrun 1
  obtain ⟨hsame, hsent⟩ := hiff.2 (by decide +kernel)
  exact ⟨_, h', (hr.step trivial hclose).steps hrun, by decide +kernel, hn, hsame, hsent⟩

/-- In TIME-WAIT a second `Close` ends the connection at once. -/
theorem close_cuts_timeWait_short :
    ∃ h h' : Host SmallController, (Host.system SmallController).Reach anyStep h ∧
      (Host.fresh {} 0 : Host SmallController).run (opening ++ [.close 0, finAcked, peerFIN]) = h ∧
      h.next (.close 1) = some h' ∧ h.conn.state = .timeWait ∧ h.conn.closed = false ∧ h'.conn.state = .closed ∧
      h'.conn.closed = true := by
  refine ⟨(Host.fresh {} 0).run (opening ++ [.close 0, finAcked, peerFIN]),
    ((Host.fresh {} 0).run (opening ++ [.close 0, finAcked, peerFIN])).run [.close 1], ?_, rfl, ?_, ?_, ?_, ?_, ?_⟩
  · exact Host.run_reach (by decide +kernel) (execMeets_anyStep _ _ _)
  · exact Host.next_run (by decide +kernel)
  · decide +kernel
  · decide +kernel
  · decide +kernel
  · decide +kernel

end Libp2px.Vtcp
